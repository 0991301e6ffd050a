import MibServer.Billing.Webhook

/-!
The keys of callbacks that come without an `Idempotency-Key` header, and the replays
they are told apart by.

The key is built from the provider, the trade number and the event. A key of at most
128 code units determines the three (`notification_of_keyText`), but it never tells the
order, and a longer one is cut, the event first.
-/

namespace MibServer.Billing

open MibServer.Lib MibServer.Idempotency

/-! ### The key of a callback -/

theorem PaymentProvider.text_toList (provider : PaymentProvider) :
    ∃ first rest, provider.text.toList = first :: rest ∧ isJsSpace first = false ∧ 3 ≤ rest.length := by
  cases provider with
  | mock => exact ⟨'M', ['O', 'C', 'K'], rfl, rfl, by decide⟩
  | wechat => exact ⟨'W', ['E', 'C', 'H', 'A', 'T'], rfl, rfl, by decide⟩
  | alipay => exact ⟨'A', ['L', 'I', 'P', 'A', 'Y'], rfl, rfl, by decide⟩

theorem PaymentCallbackEvent.text_toList (event : PaymentCallbackEvent) :
    ∃ init, event.text.toList = init ++ ['d'] ∧ 3 ≤ init.length := by
  cases event with
  | paid => exact ⟨['p', 'a', 'i'], rfl, by decide⟩
  | refunded => exact ⟨['r', 'e', 'f', 'u', 'n', 'd', 'e'], rfl, by decide⟩

namespace PaymentCallbackDto

/-- The fields of `bodyKeyFields`. -/
def notification (dto : PaymentCallbackDto) : PaymentProvider × String × PaymentCallbackEvent :=
  (dto.provider, dto.providerTradeNo, dto.event)

/-- The parts of the key, joined. -/
def keyText (dto : PaymentCallbackDto) : String :=
  ":".intercalate [dto.provider.text, dto.providerTradeNo, dto.event.text]

/-- The key is too long, and cut. -/
def cutsKey (dto : PaymentCallbackDto) : Bool :=
  IDEMPOTENCY_KEY_MAX_LENGTH < jsLength dto.keyText

def derivedKey (dto : PaymentCallbackDto) : String :=
  if dto.cutsKey then slice dto.keyText IDEMPOTENCY_KEY_MAX_LENGTH else dto.keyText

theorem keyText_toList (dto : PaymentCallbackDto) :
    dto.keyText.toList =
      dto.provider.text.toList ++ ':' :: (dto.providerTradeNo.toList ++ ':' :: dto.event.text.toList) := by
  simp [keyText]

/-- A key that is not cut determines the notification. -/
theorem notification_of_keyText {dto dto' : PaymentCallbackDto} (h : dto.keyText = dto'.keyText) :
    dto.notification = dto'.notification := by
  have htext := congrArg String.toList h
  rw [keyText_toList, keyText_toList] at htext
  obtain ⟨hprovider, hrest⟩ : dto.provider = dto'.provider ∧
      dto.providerTradeNo.toList ++ ':' :: dto.event.text.toList =
        dto'.providerTradeNo.toList ++ ':' :: dto'.event.text.toList := by
    cases hp : dto.provider <;> cases hp' : dto'.provider <;>
      simp [hp, hp', PaymentProvider.text] at htext ⊢ <;> exact htext
  obtain ⟨htrade, hevent⟩ : dto.providerTradeNo.toList = dto'.providerTradeNo.toList ∧
      dto.event = dto'.event := by
    -- The two events differ in their last letter but one.
    have hends := congrArg List.reverse hrest
    cases he : dto.event <;> cases he' : dto'.event <;>
      simp [he, he', PaymentCallbackEvent.text] at hends ⊢ <;> exact hends
  rw [notification, notification, hprovider, hevent, String.toList_inj.mp htrade]

theorem keyText_ends (dto : PaymentCallbackDto) : ∃ first middle,
    dto.keyText.toList = first :: (middle ++ ['d']) ∧ isJsSpace first = false ∧ 6 ≤ middle.length := by
  obtain ⟨first, rest, hprovider, hfirst, hrest⟩ := dto.provider.text_toList
  obtain ⟨init, hevent, hinit⟩ := dto.event.text_toList
  refine ⟨first, rest ++ ':' :: (dto.providerTradeNo.toList ++ ':' :: init), ?_, hfirst, ?_⟩
  · rw [keyText_toList, hprovider, hevent]
    simp
  · simp
    omega

theorem le_jsLength_keyText (dto : PaymentCallbackDto) : 8 ≤ jsLength dto.keyText := by
  obtain ⟨first, middle, htext, -, hmiddle⟩ := dto.keyText_ends
  refine Nat.le_trans ?_ (length_le_utf16Length _)
  rw [htext]
  simp
  omega

/-- The joined text is a key as it is, unless it is too long. -/
theorem normalize_keyText (dto : PaymentCallbackDto) :
    normalizeIdempotencyClientKey (some dto.keyText) =
      if dto.cutsKey then none else some dto.keyText := by
  obtain ⟨first, middle, htext, hfirst, -⟩ := dto.keyText_ends
  have hlength := dto.le_jsLength_keyText
  have hne : dto.keyText ≠ "" := by
    intro hempty
    simp [hempty] at htext
  have htrim : trim dto.keyText = dto.keyText := trim_eq_self htext hfirst rfl
  unfold normalizeIdempotencyClientKey cutsKey
  rw [Option.map_some, htrim]
  by_cases hlong : IDEMPOTENCY_KEY_MAX_LENGTH < jsLength dto.keyText
  · simp [hne, hlong]
  · simp [hne, hlong, IDEMPOTENCY_KEY_MIN_LENGTH, Nat.not_lt.mpr hlength]

theorem clampKey_keyText (dto : PaymentCallbackDto) : clampKey dto.keyText = some dto.derivedKey := by
  unfold clampKey derivedKey
  rw [normalize_keyText]
  by_cases hcut : dto.cutsKey
  · simp [hcut, dto.le_jsLength_keyText]
  · simp [hcut]

end PaymentCallbackDto

theorem PaymentProvider.text_of_ofText? {text : String} {provider : PaymentProvider}
    (h : PaymentProvider.ofText? text = some provider) : text = provider.text := by
  unfold PaymentProvider.ofText? at h
  split at h <;> cases h <;> rfl

theorem PaymentCallbackEvent.text_of_ofText? {text : String} {event : PaymentCallbackEvent}
    (h : PaymentCallbackEvent.ofText? text = some event) : text = event.text := by
  unfold PaymentCallbackEvent.ofText? at h
  split at h <;> cases h <;> rfl

theorem keyPart_of_stringField {body : Json} {name text : String}
    (h : stringField body name = some text) (hne : text ≠ "") : keyPart body [name] = some text := by
  unfold stringField at h
  split at h
  · rename_i found hfound
    cases h
    simp [keyPart, getNestedBodyField, hfound, hne, Json.toText]
  · cases h

section Keys

variable {validator : ClassValidator} {body : Json} {dto : PaymentCallbackDto}

/-- The fields of a body that validates. -/
theorem ClassValidator.fields_of_paymentCallback (h : validator.paymentCallback body = some dto) :
    stringField body "provider" = some dto.provider.text ∧
      stringField body "providerTradeNo" = some dto.providerTradeNo ∧
      stringField body "event" = some dto.event.text := by
  unfold paymentCallback at h
  obtain ⟨orderNo, _, h⟩ := Option.bind_eq_some_iff.mp h
  obtain ⟨provider, hprovider, h⟩ := Option.bind_eq_some_iff.mp h
  obtain ⟨tradeNo, htradeNo, h⟩ := Option.bind_eq_some_iff.mp h
  obtain ⟨event, hevent, h⟩ := Option.bind_eq_some_iff.mp h
  obtain ⟨paidAt, _, h⟩ := Option.bind_eq_some_iff.mp h
  obtain ⟨providerText, hproviderText, hprovider⟩ := Option.bind_eq_some_iff.mp hprovider
  obtain ⟨eventText, heventText, hevent⟩ := Option.bind_eq_some_iff.mp hevent
  split at h
  · split at h
    · cases h
      exact ⟨hproviderText.trans (congrArg some (PaymentProvider.text_of_ofText? hprovider)),
        htradeNo, heventText.trans (congrArg some (PaymentCallbackEvent.text_of_ofText? hevent))⟩
    · cases h
  · cases h

theorem deriveIdempotencyKeyFromBody_callback (h : validator.paymentCallback body = some dto) :
    deriveIdempotencyKeyFromBody body paymentCallbackOptions.bodyKeyFields = some dto.derivedKey := by
  obtain ⟨hprovider, htradeNo, hevent⟩ := validator.fields_of_paymentCallback h
  have hproviderNe : dto.provider.text ≠ "" := by cases dto.provider <;> decide
  have heventNe : dto.event.text ≠ "" := by cases dto.event <;> decide
  rw [← dto.clampKey_keyText]
  simp [deriveIdempotencyKeyFromBody, paymentCallbackOptions, PaymentCallbackDto.keyText,
    keyPart_of_stringField hprovider hproviderNe, keyPart_of_stringField htradeNo dto.tradeNo_ne,
    keyPart_of_stringField hevent heventNe]

/-- The key of a callback that comes without a header. -/
theorem receive_key {req : WebhookRequest} (hheader : req.idempotencyKey = none)
    (h : validator.paymentCallback req.body = some dto) :
    (webhookRoutes.receive req :
      Request WebhookRequest String SerializedOrder Handler).key =
      some (buildScopedIdempotencyKey "payment:callback" dto.derivedKey) := by
  have hkey : webhookRoutes.scopeKey req =
      .ok (some (buildScopedIdempotencyKey "payment:callback" dto.derivedKey)) := by
    have hderived := deriveIdempotencyKeyFromBody_callback h
    simp only [webhookRoutes, IdempotentOptions.scopeKey, resolveClientKey, hheader, hderived]
    rfl
  unfold Routes.receive
  rw [hkey]

theorem buildScopedIdempotencyKey_inj {scope clientKey clientKey' : String}
    (h : buildScopedIdempotencyKey scope clientKey = buildScopedIdempotencyKey scope clientKey') :
    clientKey = clientKey' := by
  have htext := congrArg String.toList h
  simp only [buildScopedIdempotencyKey, String.toList_append] at htext
  exact String.toList_inj.mp (List.append_cancel_left htext)

end Keys

/-! ### Whose answer a callback gets -/

/-- What the keys of two callbacks do not tell agrees: their orders, and where a key
is cut all of it. -/
def PaymentCallbackDto.AgreesWith (dto writer : PaymentCallbackDto) : Prop :=
  dto.orderNo = writer.orderNo ∧
    (dto.cutsKey = true ∨ writer.cutsKey = true → dto.notification = writer.notification)

instance (dto writer : PaymentCallbackDto) : Decidable (dto.AgreesWith writer) :=
  inferInstanceAs (Decidable (_ ∧ _))

theorem PaymentCallbackDto.AgreesWith.notification_eq {dto writer : PaymentCallbackDto}
    (h : dto.AgreesWith writer) (hkey : dto.derivedKey = writer.derivedKey) :
    dto.notification = writer.notification := by
  by_cases hcut : dto.cutsKey = true ∨ writer.cutsKey = true
  · exact h.2 hcut
  · rw [not_or] at hcut
    unfold derivedKey at hkey
    rw [if_neg hcut.1, if_neg hcut.2] at hkey
    exact notification_of_keyText hkey

/-- Every request that arrives is a correctly signed callback without a header. -/
def Delivers (platform : Platform) (validator : ClassValidator) : WebhookAction → Prop
  | .arrive req => req.idempotencyKey = none ∧ req.verified platform validator = true
  | _ => True

instance (platform : Platform) (validator : ClassValidator) (a : WebhookAction) :
    Decidable (Delivers platform validator a) := by
  unfold Delivers
  split <;> infer_instance

/-- A callback that finds a completed record agrees with the callback that wrote it. -/
def AgreeingReplays (validator : ClassValidator) (s : WebhookState) (a : WebhookAction) : Prop :=
  ∀ p ∈ s.replay? a, ∀ dto ∈ validator.paymentCallback p.1.req.body,
    ∀ writer ∈ validator.paymentCallback p.2.req.body, dto.AgreesWith writer

instance (validator : ClassValidator) (s : WebhookState) (a : WebhookAction) :
    Decidable (AgreeingReplays validator s a) :=
  inferInstanceAs (Decidable (∀ p ∈ s.replay? a, ∀ dto ∈ validator.paymentCallback p.1.req.body,
    ∀ writer ∈ validator.paymentCallback p.2.req.body, dto.AgreesWith writer))

/-- A callback that is answered from the cache gets what another callback of the same
order, provider, trade number and event was answered when it was processed. -/
def CachedForItself (validator : ClassValidator) (s : WebhookState) : Prop :=
  ∀ (i : Nat) (r : Request WebhookRequest String SerializedOrder Handler) statusCode order,
    s.requests[i]? = some r → r.phase = .done (.replayed statusCode order) →
    ∃ dto j earlier, validator.paymentCallback r.req.body = some dto ∧ j ≠ i ∧
      Processes validator s j earlier order ∧ earlier.orderNo = dto.orderNo ∧
      earlier.notification = dto.notification

/-- The callbacks of two requests agree where their keys do not tell them apart. -/
def AlikeCallbacks (validator : ClassValidator) (req req' : WebhookRequest) : Prop :=
  ∀ dto ∈ validator.paymentCallback req.body, ∀ dto' ∈ validator.paymentCallback req'.body,
    dto.AgreesWith dto'

instance (validator : ClassValidator) : DecidableRel (AlikeCallbacks validator) := fun req req' =>
  inferInstanceAs (Decidable (∀ dto ∈ validator.paymentCallback req.body,
    ∀ dto' ∈ validator.paymentCallback req'.body, dto.AgreesWith dto'))

theorem AlikeCallbacks.symm {validator : ClassValidator} {req req' : WebhookRequest}
    (h : AlikeCallbacks validator req req') : AlikeCallbacks validator req' req := by
  intro dto' hdto' dto hdto
  obtain ⟨horder, hcut⟩ := h dto hdto dto' hdto'
  exact ⟨horder.symm, fun h => (hcut h.symm).symm⟩

/-- No callback arrives with the key of a callback in play of another order, nor, where one of
the keys is cut, with the key of one of another provider, trade number or event. -/
def CallbacksApart (validator : ClassValidator) (s : WebhookState) (a : WebhookAction) : Prop :=
  ArrivesBeside webhookRoutes (AlikeCallbacks validator) s a

instance (validator : ClassValidator) (s : WebhookState) (a : WebhookAction) :
    Decidable (CallbacksApart validator s a) :=
  inferInstanceAs (Decidable (ArrivesBeside webhookRoutes (AlikeCallbacks validator) s a))

/-- Callbacks that are replayed for callbacks they agree with are replayed for themselves. -/
theorem cachedForItself_of_replays {platform : Platform} {validator : ClassValidator}
    {s : WebhookState} {ok : WebhookState → WebhookAction → Prop}
    (h : (webhookMachine platform validator).ReachableBy ok s)
    (hdelivers : ∀ s a, ok s a → Delivers platform validator a)
    (hreplays : s.ReplaysWhere (webhookService platform validator) (AlikeCallbacks validator)) :
    CachedForItself validator s := by
  intro i r statusCode order hr hphase
  have hall : ∀ (i : Nat) (r : Request WebhookRequest String SerializedOrder Handler),
      s.requests[i]? = some r → Delivers platform validator (.arrive r.req) ∧
        r.key = (webhookRoutes.receive r.req :
          Request WebhookRequest String SerializedOrder Handler).key := by
    refine received_of_reachable (D := fun req => Delivers platform validator (.arrive req)) ?_ h
    exact fun s req hok => hdelivers s (.arrive req) hok
  obtain ⟨key, j, _, hkey, hne, ⟨writer, response, hwriter, rfl, hwriterKey, hreturned, _, _, rfl⟩,
    hagree⟩ := hreplays i r statusCode order hr hphase
  obtain ⟨earlier, hearlier, hprocesses⟩ :=
    processes_of_returned (servesRequests_of_reachable h) hwriter hreturned
  obtain ⟨⟨hheader, hverified⟩, hreceived⟩ := hall i r hr
  obtain ⟨⟨hwriterHeader, _⟩, hwriterReceived⟩ := hall j writer hwriter
  obtain ⟨dto, hdto, _⟩ := WebhookRequest.verified_iff.mp hverified
  have hsame : dto.derivedKey = earlier.derivedKey := by
    rw [hkey, receive_key hheader hdto] at hreceived
    rw [hwriterKey, receive_key hwriterHeader hearlier] at hwriterReceived
    exact buildScopedIdempotencyKey_inj (Option.some.inj (hreceived.symm.trans hwriterReceived))
  have hdtoAgrees := hagree dto hdto earlier hearlier
  exact ⟨dto, j, earlier, hdto, hne, hprocesses, hdtoAgrees.1.symm,
    (hdtoAgrees.notification_eq hsame).symm⟩

def Phase.fromCache : Phase SerializedOrder → Bool
  | .done (.replayed _ _) => true
  | _ => false

/-- The callbacks with whether they have been answered from the cache. -/
def cacheHits (validator : ClassValidator) (s : WebhookState) :
    List (Option PaymentCallbackEvent × Bool) :=
  s.requests.map fun r =>
    ((validator.paymentCallback r.req.body).map PaymentCallbackDto.event, Phase.fromCache r.phase)

/-- A refund has been answered from the cache, but the other callback is a payment. -/
theorem not_cachedForItself {validator : ClassValidator} {s : WebhookState}
    (hhits : cacheHits validator s = [(some .paid, false), (some .refunded, true)]) :
    ¬ CachedForItself validator s := by
  intro hcached
  have hfirst : ∀ (j : Nat) (r : Request WebhookRequest String SerializedOrder Handler),
      s.requests[j]? = some r → (cacheHits validator s)[j]? =
        some ((validator.paymentCallback r.req.body).map PaymentCallbackDto.event,
          Phase.fromCache r.phase) := by
    intro j r hr
    rw [cacheHits, List.getElem?_map, hr]
    rfl
  have hsecond : (cacheHits validator s)[1]? = some (some .refunded, true) := by
    rw [hhits]
    rfl
  obtain ⟨r, hr, hhit⟩ := Option.map_eq_some_iff.mp (List.getElem?_map.symm.trans hsecond)
  obtain ⟨hevent, hcache⟩ := Prod.mk.inj hhit
  obtain ⟨statusCode, order, hphase⟩ : ∃ statusCode order,
      r.phase = .done (.replayed statusCode order) := by
    unfold Phase.fromCache at hcache
    split at hcache
    · exact ⟨_, _, ‹_›⟩
    · cases hcache
  obtain ⟨dto, j, earlier, hdto, hne, ⟨writer, _, _, hwriter, hearlier, _⟩, _, hsame⟩ :=
    hcached 1 r statusCode order hr hphase
  have hrefund : earlier.event = .refunded := by
    have hsameEvent : earlier.event = dto.event := congrArg (fun n => n.2.2) hsame
    rw [hdto] at hevent
    exact hsameEvent.trans (Option.some.inj hevent)
  -- The only other request is the payment.
  have hwriterHit := hfirst j writer hwriter
  rw [hearlier, Option.map_some, hrefund, hhits] at hwriterHit
  match j, hne with
  | 0, _ => cases hwriterHit
  | j + 2, _ => cases hwriterHit

/-- A payment of the example order under a trade number of 128 characters. -/
def longTradePaid : PaymentCallbackDto where
  orderNo := "ORD1716123456A1B2C3D4"
  provider := .wechat
  providerTradeNo := String.ofList (List.replicate 128 '9')
  event := .paid
  tradeNo_ne := by decide +kernel

def longTradeRefunded : PaymentCallbackDto := { longTradePaid with event := .refunded }

def longTradePaidSignature : String :=
  "87095e52f3f7c2b2bdba4d67fc6d6a194cf35ea52bf9e87dbc24fce0ae2ab5e9"

def longTradeRefundedSignature : String :=
  "aedc2e2c50a1cccb671038b9c78d6aa81ab0e4a10a4832c691bad9a32ee5c121"

/-- The development secret, and the digests of the two callbacks. -/
def longTradePlatform : Platform where
  hmacSha256 _ payload :=
    if payload = buildPaymentCallbackSignPayload longTradePaid then longTradePaidSignature
    else if payload = buildPaymentCallbackSignPayload longTradeRefunded then longTradeRefundedSignature
    else ""
  newDate _ := none
  PAYMENT_WEBHOOK_SECRET := "dev_payment_webhook_secret_32_chars"

/-- The order is paid, then refunded. -/
def paidThenRefunded : List WebhookAction :=
  createExampleOrder ++
    [.arrive ⟨none, some longTradePaidSignature, longTradePaid.toJson⟩, .run 0, .run 0] ++
    List.replicate 6 (.service (.run 1 exampleEnv)) ++ [.run 0, .run 0] ++
    [.arrive ⟨none, some longTradeRefundedSignature, longTradeRefunded.toJson⟩, .run 1, .run 1]

end MibServer.Billing
