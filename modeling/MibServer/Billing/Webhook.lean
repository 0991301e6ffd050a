import MibServer.Billing.Lifecycle
import MibServer.Idempotency.Arrivals
import MibServer.Idempotency.Handlers
import MibServer.Idempotency.Key

/-!
`POST /webhooks/payment`: the idempotency interceptor in front of the validation pipe
and the billing service.

The interceptor runs first, on the raw body. A replay therefore reaches neither the
pipe nor `assertPaymentSignature`, and the key it is found under is built from three
fields of the body and cut to 128 characters.
-/

namespace MibServer.Billing

open MibServer.Lib MibServer.Prisma MibServer.Idempotency

/-! ### The validation pipe -/

/-- What the pipe uses of class-validator. -/
structure ClassValidator where
  /-- `MinLength(min)` and `MaxLength(max)` -/
  hasLength : Nat → Nat → String → Bool
  hasLength_empty : ∀ min max, 0 < min → hasLength min max "" = false
  isISO8601 : String → Bool

def PaymentProvider.ofText? : String → Option PaymentProvider
  | "MOCK" => some .mock
  | "WECHAT" => some .wechat
  | "ALIPAY" => some .alipay
  | _ => none

def PaymentCallbackEvent.ofText? : String → Option PaymentCallbackEvent
  | "paid" => some .paid
  | "refunded" => some .refunded
  | _ => none

def stringField (body : Json) (name : String) : Option String :=
  match body.field name with
  | some (.string text) => some text
  | _ => none

/-- `IsOptional`: missing or null. -/
def optionalField (body : Json) (name : String) (valid : String → Bool) : Option (Option String) :=
  match body.field name with
  | none | some .null => some none
  | some (.string text) => if valid text then some (some text) else none
  | _ => none

/-- `whitelist` with `forbidNonWhitelisted` -/
def onlyFields (names : List String) : Json → Bool
  | .object fields => fields.all fun f => names.contains f.1
  | _ => false

namespace ClassValidator

variable (validator : ClassValidator)

/-- The `PaymentCallbackDto` of a body, if it validates. -/
def paymentCallback (body : Json) : Option PaymentCallbackDto := do
  let orderNo ← (stringField body "orderNo").filter (validator.hasLength 8 64)
  let provider ← (stringField body "provider").bind PaymentProvider.ofText?
  let providerTradeNo ← stringField body "providerTradeNo"
  let event ← (stringField body "event").bind PaymentCallbackEvent.ofText?
  let paidAt ← optionalField body "paidAt" validator.isISO8601
  if h : validator.hasLength 4 128 providerTradeNo = true then
    if onlyFields ["orderNo", "provider", "providerTradeNo", "event", "paidAt"] body then
      some { orderNo, provider, providerTradeNo, event, paidAt,
             tradeNo_ne := fun hempty => by
               simp [hempty, validator.hasLength_empty 4 128 (by decide)] at h }
    else none
  else none

end ClassValidator

/-! ### The route -/

structure WebhookRequest where
  idempotencyKey : Option String
  signature : Option String
  body : Json

/-- `@ApiIdempotent('payment:callback', …)` -/
def paymentCallbackOptions : IdempotentOptions where
  scope := "payment:callback"
  required := false
  bodyKeyFields := [["provider"], ["providerTradeNo"], ["event"]]

def webhookRoutes : Routes WebhookRequest String where
  scopeKey req := paymentCallbackOptions.scopeKey req.idempotencyKey req.body
  isPost _ := true

/-- The call of a validated callback. -/
def WebhookRequest.call (req : WebhookRequest) (dto : PaymentCallbackDto) : BillingCall :=
  .handlePaymentCallback dto req.signature

/-- The pipe and the handler; the route is `@HttpCode(200)`. -/
def webhookEndpoint (validator : ClassValidator) : Endpoint WebhookRequest BillingCall SerializedOrder where
  call req :=
    match validator.paymentCallback req.body with
    | none => .error (.badRequest "Bad Request Exception")
    | some dto => .ok (req.call dto)
  respond order := { statusCode := 200, body := order }
  respond_body _ := rfl

theorem webhookEndpoint_call {validator : ClassValidator} {req : WebhookRequest} {c : BillingCall}
    (h : (webhookEndpoint validator).call req = .ok c) :
    ∃ dto, validator.paymentCallback req.body = some dto ∧ c = req.call dto := by
  simp only [webhookEndpoint] at h
  split at h
  · cases h
  · rename_i dto hdto
    cases h
    exact ⟨dto, hdto, rfl⟩

/-- The webhook route on a billing service that takes other calls as well. -/
def webhookService (platform : Platform) (validator : ClassValidator) :
    Service WebhookRequest SerializedOrder BillingWorld BillingAction Handler :=
  (webhookEndpoint validator).service (billingSystem platform)

abbrev WebhookState := State WebhookRequest String SerializedOrder BillingWorld Handler

abbrev WebhookAction := Idempotency.Action WebhookRequest String BillingAction

/-- Any number of requests, from an empty Redis. -/
def webhookMachine (platform : Platform) (validator : ClassValidator) :
    Machine WebhookState WebhookAction :=
  machine webhookRoutes (webhookService platform validator) (billingMachine platform).init

/-- The signature of the request verifies against the payload of its own body. -/
def WebhookRequest.verified (platform : Platform) (validator : ClassValidator)
    (req : WebhookRequest) : Bool :=
  (validator.paymentCallback req.body).any fun dto => platform.verifies dto req.signature

theorem WebhookRequest.verified_iff {platform : Platform} {validator : ClassValidator}
    {req : WebhookRequest} : req.verified platform validator = true ↔
      ∃ dto, validator.paymentCallback req.body = some dto ∧
        platform.verifies dto req.signature = true :=
  Option.any_eq_true _ _

/-! ### What a handler has done -/

section Runs

variable {platform : Platform} {validator : ClassValidator}

abbrev ServesRequests (platform : Platform) (validator : ClassValidator) (s : WebhookState) : Prop :=
  Threaded (webhookEndpoint validator) (billingMachine platform) s

theorem servesRequests_of_reachable {ok : WebhookState → WebhookAction → Prop} {s : WebhookState}
    (h : (webhookMachine platform validator).ReachableBy ok s) :
    ServesRequests platform validator s :=
  threaded_of_reachable h

/-- The thread of request `j`, the callback `dto`, has returned the order. -/
def Processes (validator : ClassValidator) (s : WebhookState) (j : Nat) (dto : PaymentCallbackDto)
    (order : SerializedOrder) : Prop :=
  ∃ r t th, s.requests[j]? = some r ∧ validator.paymentCallback r.req.body = some dto ∧
    r.handler = some (.ok t) ∧ s.service.threads[t]? = some th ∧ th.call = r.req.call dto ∧
    th.result? = some order

/-- A handler that has returned has processed the callback of its request. -/
theorem processes_of_returned {s : WebhookState} (hs : ServesRequests platform validator s)
    {j : Nat} {r : Request WebhookRequest String SerializedOrder Handler}
    {response : Response SerializedOrder} (hj : s.requests[j]? = some r)
    (hreturned : r.Returned (webhookService platform validator) s.service response) :
    ∃ dto, validator.paymentCallback r.req.body = some dto ∧
      Processes validator s j dto response.body := by
  obtain ⟨t, th, c, hhandler, hth, hc, hcall, hresult⟩ := hs.returned hj hreturned
  obtain ⟨dto, hdto, rfl⟩ := webhookEndpoint_call hc
  exact ⟨dto, hdto, r, t, th, hj, hdto, hhandler, hth, hcall, hresult⟩

/-- A callback that has been processed had a signature that verifies. -/
theorem verified_of_processes {s : WebhookState} (hs : ServesRequests platform validator s)
    {j : Nat} {r : Request WebhookRequest String SerializedOrder Handler}
    {dto : PaymentCallbackDto} {order : SerializedOrder} (hj : s.requests[j]? = some r)
    (h : Processes validator s j dto order) : r.req.verified platform validator = true := by
  obtain ⟨r', t, th, hr', hdto, _, hth, hcall, hresult⟩ := h
  cases hj.symm.trans hr'
  have hauthentic := authentic_of_result hs.world t th hth (by rw [hresult]; rfl)
  rw [hcall] at hauthentic
  exact WebhookRequest.verified_iff.mpr ⟨dto, hdto, hauthentic⟩

end Runs

/-! ### Who gets an order -/

/-- An order is answered, with 2xx, to requests whose signature verifies. -/
def OrdersVerified (platform : Platform) (validator : ClassValidator) (s : WebhookState) : Prop :=
  ∀ (i : Nat) (r : Request WebhookRequest String SerializedOrder Handler) order,
    s.requests[i]? = some r → r.phase.success? = some order →
    r.req.verified platform validator = true

/-- A request that finds a completed record has a signature that verifies. -/
def VerifiedReplays (platform : Platform) (validator : ClassValidator) (s : WebhookState)
    (a : WebhookAction) : Prop :=
  ∀ p ∈ s.replay? a, p.1.req.verified platform validator = true

instance (platform : Platform) (validator : ClassValidator) (s : WebhookState) (a : WebhookAction) :
    Decidable (VerifiedReplays platform validator s a) :=
  inferInstanceAs (Decidable (∀ p ∈ s.replay? a, p.1.req.verified platform validator = true))

/-- Two requests of which both signatures verify, or neither. -/
def AlikeVerified (platform : Platform) (validator : ClassValidator) (req req' : WebhookRequest) : Prop :=
  req.verified platform validator = req'.verified platform validator

instance (platform : Platform) (validator : ClassValidator) :
    DecidableRel (AlikeVerified platform validator) := fun req req' =>
  inferInstanceAs (Decidable (req.verified platform validator = req'.verified platform validator))

/-- A request whose signature does not verify does not arrive with the key of a request in play
whose signature does, nor the other way round. -/
def KeysApart (platform : Platform) (validator : ClassValidator) (s : WebhookState)
    (a : WebhookAction) : Prop :=
  ArrivesBeside webhookRoutes (AlikeVerified platform validator) s a

instance (platform : Platform) (validator : ClassValidator) (s : WebhookState) (a : WebhookAction) :
    Decidable (KeysApart platform validator s a) :=
  inferInstanceAs (Decidable (ArrivesBeside webhookRoutes (AlikeVerified platform validator) s a))

section Orders

variable {platform : Platform} {validator : ClassValidator} {s : WebhookState}

/-- A request whose handler has returned has a signature that verifies. -/
theorem verified_of_returned {ok : WebhookState → WebhookAction → Prop}
    (h : (webhookMachine platform validator).ReachableBy ok s) {j : Nat}
    {r : Request WebhookRequest String SerializedOrder Handler} {response : Response SerializedOrder}
    (hj : s.requests[j]? = some r)
    (hreturned : r.Returned (webhookService platform validator) s.service response) :
    r.req.verified platform validator = true := by
  have hs := servesRequests_of_reachable h
  obtain ⟨dto, _, hprocesses⟩ := processes_of_returned hs hj hreturned
  exact verified_of_processes hs hj hprocesses

/-- The handler checks every request that reaches it. -/
theorem ordersVerified_of_replays {ok : WebhookState → WebhookAction → Prop}
    (h : (webhookMachine platform validator).ReachableBy ok s)
    (hreplays : s.ReplaysWhere (webhookService platform validator)
      fun req _ => req.verified platform validator = true) : OrdersVerified platform validator s := by
  intro i r order hr horder
  unfold Phase.success? at horder
  split at horder
  · rename_i response hphase
    exact verified_of_returned h hr ((sourced_of_reachable h).responded i r response hr (by rw [hphase]; rfl))
  · rename_i statusCode body hphase
    obtain ⟨_, _, _, _, _, _, hverified⟩ := hreplays i r statusCode body hr hphase
    exact hverified
  · cases horder

theorem ordersVerified_of_reachable
    (h : (webhookMachine platform validator).ReachableBy (VerifiedReplays platform validator) s) :
    OrdersVerified platform validator s := by
  refine ordersVerified_of_replays h (replaysWhere_of_reachable ?_ h)
  exact fun s a hok => hok

/-- A replay is as verified as the request it repeats, which the handler has checked. -/
theorem ordersVerified_of_keysApart
    (h : (webhookMachine platform validator).ReachableBy (KeysApart platform validator) s) :
    OrdersVerified platform validator s := by
  have hreplays : s.ReplaysWhere (webhookService platform validator) (AlikeVerified platform validator) :=
    replaysWhere_of_arrivals (fun _ _ halike => halike.symm) (fun _ _ hok => hok) h
  refine ordersVerified_of_replays h fun i r statusCode body hr hphase => ?_
  obtain ⟨key, j, _, hkey, hne, hprocessed, halike⟩ := hreplays i r statusCode body hr hphase
  obtain ⟨writer, response, hwriter, rfl, _, hreturned, _⟩ := id hprocessed
  exact ⟨key, j, writer.req, hkey, hne, hprocessed, halike.trans (verified_of_returned h hwriter hreturned)⟩

end Orders

/-- **Orders go to verified requests** in the runs in which no request arrives with the key of
one in play whose signature is not like its own. What decides is who finds a completed record: a
run leaves the property with the first request that does and is not verified. -/
theorem orders_verified (platform : Platform) (validator : ClassValidator) {s : WebhookState} :
    ((webhookMachine platform validator).ReachableBy (KeysApart platform validator) s →
      OrdersVerified platform validator s) ∧
    ((webhookMachine platform validator).ReachableBy (VerifiedReplays platform validator) s →
      OrdersVerified platform validator s ∧ ∀ a s',
        (webhookMachine platform validator).step s a = some s' →
        (OrdersVerified platform validator s' ↔ VerifiedReplays platform validator s a)) := by
  refine ⟨ordersVerified_of_keysApart, fun h => ⟨ordersVerified_of_reachable h, fun a s' hstep =>
    ⟨fun hverified p hp => ?_, fun hok => ordersVerified_of_reachable (h.next hok hstep)⟩⟩⟩
  obtain ⟨i, key, statusCode, body, creator, hentry, hanswered⟩ := State.replay?_answers hp hstep
  have hsuccess : isSuccess statusCode := by
    obtain ⟨_, _, response, _, _, _, _, hsuccess, rfl, _⟩ :=
      (sourced_of_reachable h).stored key statusCode body creator hentry
    exact hsuccess
  have hanswer := hverified i _ body hanswered (if_pos hsuccess)
  exact hanswer

/-! ### The documented example, twice -/

def exampleValidator : ClassValidator where
  hasLength min max text := min ≤ text.length ∧ text.length ≤ max
  hasLength_empty min max h := by simp; omega
  isISO8601 text := ["2026-05-19T12:00:00.000Z", "2026-05-20T10:00:00.000Z"].contains text

/-- The body of a callback. -/
def PaymentCallbackDto.toJson (dto : PaymentCallbackDto) : Json :=
  .object ([("orderNo", .string dto.orderNo), ("provider", .string dto.provider.text),
    ("providerTradeNo", .string dto.providerTradeNo), ("event", .string dto.event.text)] ++
    (dto.paidAt.map fun paidAt => ("paidAt", Json.string paidAt)).toList)

def noRequests : WebhookState where
  redis _ := none
  requests := []
  service := { committed := noOrders }

theorem noRequests_init (platform : Platform) (validator : ClassValidator) :
    (webhookMachine platform validator).init noRequests :=
  ⟨fun _ => rfl, rfl, System.machine_init noOrders_consistent⟩

def exampleEnv : Env := { now := 1716123456, random := "A1B2C3D4" }

/-- The order of the example is created. -/
def createExampleOrder : List WebhookAction :=
  .service (.spawn (.createOrder { isTenantBypass := false, getAccessContext := none }
    { title := "", amountCents := 399900 } "create-order-1")) ::
    List.replicate 5 (.service (.run 0 exampleEnv))

/-- The payment of the example is notified, and notified again with the given
signature. -/
def paidThenAgain (signature : Option String) : List WebhookAction :=
  createExampleOrder ++
    [.arrive ⟨none, some PAYMENT_SIGNATURE_EXAMPLE, PAYMENT_CALLBACK_PAID_REQUEST_EXAMPLE.toJson⟩,
      .run 0, .run 0] ++ List.replicate 5 (.service (.run 1 exampleEnv)) ++ [.run 0, .run 0] ++
    [.arrive ⟨none, signature, PAYMENT_CALLBACK_PAID_REQUEST_EXAMPLE.toJson⟩, .run 1, .run 1]

/-- The requests with the status of the order they have been answered with. -/
def answers (platform : Platform) (validator : ClassValidator) (s : WebhookState) :
    List (Bool × Option OrderStatus) :=
  s.requests.map fun r =>
    (r.req.verified platform validator, r.phase.success?.map fun answer => answer.order.status)

theorem orders_verified_example :
    ∃ s, (webhookMachine examplePlatform exampleValidator).exec noRequests
        (paidThenAgain (some PAYMENT_SIGNATURE_EXAMPLE)) = some s ∧
      answers examplePlatform exampleValidator s = [(true, some .paid), (true, some .paid)] ∧
      OrdersVerified examplePlatform exampleValidator s ∧ ∀ a s',
        (webhookMachine examplePlatform exampleValidator).step s a = some s' →
        (OrdersVerified examplePlatform exampleValidator s' ↔
          VerifiedReplays examplePlatform exampleValidator s a) := by
  have hrun : ((webhookMachine examplePlatform exampleValidator).exec noRequests
      (paidThenAgain (some PAYMENT_SIGNATURE_EXAMPLE))).map
        (answers examplePlatform exampleValidator) =
      some [(true, some .paid), (true, some .paid)] := by
    decide +kernel
  obtain ⟨s, hexec, hanswers⟩ := Option.map_eq_some_iff.mp hrun
  have hinit := noRequests_init examplePlatform exampleValidator
  have hapart := (orders_verified examplePlatform exampleValidator).1
    (Machine.reachableBy_exec (Machine.reachableBy_init hinit) (by decide +kernel) hexec)
  have hreplays := (orders_verified examplePlatform exampleValidator).2
    (Machine.reachableBy_exec (Machine.reachableBy_init hinit) (by decide +kernel) hexec)
  exact ⟨s, hexec, hanswers, hapart, hreplays.2⟩

/-- A callback without a signature is answered with the order. -/
theorem order_without_signature :
    ¬ ∀ s, (webhookMachine examplePlatform exampleValidator).Reachable s →
      OrdersVerified examplePlatform exampleValidator s := by
  intro hclaim
  have hrun : ((webhookMachine examplePlatform exampleValidator).exec noRequests
      (paidThenAgain none)).map (answers examplePlatform exampleValidator) =
      some [(true, some .paid), (false, some .paid)] := by
    decide +kernel
  obtain ⟨s, hexec, hanswers⟩ := Option.map_eq_some_iff.mp hrun
  have hreach := Machine.reachableBy_exec (Machine.reachableBy_init (noRequests_init _ _))
    (Machine.admits_true _ _) hexec
  have hsecond : (answers examplePlatform exampleValidator s)[1]? = some (false, some .paid) := by
    rw [hanswers]
    rfl
  obtain ⟨r, hr, hanswer⟩ := Option.map_eq_some_iff.mp (List.getElem?_map.symm.trans hsecond)
  obtain ⟨hverified, hstatus⟩ := Prod.mk.inj hanswer
  obtain ⟨order, horder, _⟩ := Option.map_eq_some_iff.mp hstatus
  rw [hclaim s hreach 1 r order hr horder] at hverified
  cases hverified

end MibServer.Billing
