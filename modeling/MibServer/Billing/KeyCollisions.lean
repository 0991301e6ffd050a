import MibServer.Billing.Notification

/-!
Which callbacks get one idempotency key.

JavaScript compares keys by their code units, so they are taken unit by unit here;
`deriveIdempotencyKeyFromBody_eq_decode` ties them to the key as Redis gets it. A key is the
provider, the trade number and the event, joined and cut to 128 code units: two callbacks that
differ get two keys unless one of them is cut (`keys_differ_iff`).
-/

namespace MibServer.Idempotency

/-! ### Keys, unit by unit -/

/-- `clampKey` before the key is encoded. -/
def clampKeyUnits (derived : String) : Option (List Nat) :=
  (normalizeIdempotencyClientKey (some derived)).map codeUnits <|>
    if 8 ≤ jsLength derived then some ((codeUnits derived).take IDEMPOTENCY_KEY_MAX_LENGTH) else none

/-- The key `deriveIdempotencyKeyFromBody` returns, as JavaScript holds it. -/
def deriveIdempotencyKeyUnits (body : Json) (fields : List (List String)) : Option (List Nat) := do
  let parts ← fields.mapM (keyPart body)
  clampKeyUnits (":".intercalate parts)

theorem clampKey_eq_decode (derived : String) :
    clampKey derived =
      (clampKeyUnits derived).map fun units => String.ofList (decodeUtf16 units) := by
  unfold clampKey clampKeyUnits
  cases hkey : normalizeIdempotencyClientKey (some derived) with
  | some key => simp [decodeUtf16_codeUnits]
  | none =>
      by_cases hlong : 8 ≤ jsLength derived
      · simp [hlong, slice_eq_decode]
      · simp [hlong]

/-- What is sent to Redis is the text of the key. -/
theorem deriveIdempotencyKeyFromBody_eq_decode (body : Json) (fields : List (List String)) :
    deriveIdempotencyKeyFromBody body fields =
      (deriveIdempotencyKeyUnits body fields).map fun units => String.ofList (decodeUtf16 units) := by
  unfold deriveIdempotencyKeyFromBody deriveIdempotencyKeyUnits
  cases fields.mapM (keyPart body) with
  | none => rfl
  | some parts => exact clampKey_eq_decode _

end MibServer.Idempotency

namespace MibServer.Billing

open MibServer.Idempotency

namespace PaymentCallbackDto

/-- The part of the key behind the provider. -/
def tradeEvent (dto : PaymentCallbackDto) : String := dto.providerTradeNo ++ ":" ++ dto.event.text

/-- The code units that are left for it. -/
def keyRoom (dto : PaymentCallbackDto) : Nat :=
  IDEMPOTENCY_KEY_MAX_LENGTH - (jsLength dto.provider.text + 1)

theorem keyText_eq (dto : PaymentCallbackDto) : dto.keyText = dto.provider.text ++ ":" ++ dto.tradeEvent := by
  refine String.toList_inj.mp ?_
  rw [keyText_toList]
  simp [tradeEvent]

/-- Whether it is cut or not, the key is the first 128 code units of the joined text. -/
theorem clampKeyUnits_keyText (dto : PaymentCallbackDto) :
    clampKeyUnits dto.keyText = some ((codeUnits dto.keyText).take IDEMPOTENCY_KEY_MAX_LENGTH) := by
  unfold clampKeyUnits
  rw [normalize_keyText]
  by_cases hcut : dto.cutsKey
  · simp [hcut, dto.le_jsLength_keyText]
  · have hfits : (codeUnits dto.keyText).length ≤ IDEMPOTENCY_KEY_MAX_LENGTH := by
      rw [length_codeUnits]
      simpa [cutsKey] using hcut
    simp [hcut, List.take_of_length_le hfits]

end PaymentCallbackDto

/-! ### Collisions -/

namespace PaymentCallbackDto

theorem codeUnits_keyText (dto : PaymentCallbackDto) :
    codeUnits dto.keyText = codeUnits dto.provider.text ++ 58 :: codeUnits dto.tradeEvent := by
  rw [keyText_eq, codeUnits_append, codeUnits_append, List.append_assoc]
  rfl

/-- The first 128 code units of the joined text. -/
theorem take_keyText (dto : PaymentCallbackDto) :
    (codeUnits dto.keyText).take IDEMPOTENCY_KEY_MAX_LENGTH =
      codeUnits dto.provider.text ++ 58 :: (codeUnits dto.tradeEvent).take dto.keyRoom := by
  have hroom : IDEMPOTENCY_KEY_MAX_LENGTH = (codeUnits dto.provider.text).length + (dto.keyRoom + 1) := by
    rw [length_codeUnits, keyRoom]
    cases dto.provider <;> decide
  rw [codeUnits_keyText, hroom, List.take_length_add_append, List.take_succ_cons]

theorem provider_of_take {dto dto' : PaymentCallbackDto}
    (h : (codeUnits dto.keyText).take IDEMPOTENCY_KEY_MAX_LENGTH =
      (codeUnits dto'.keyText).take IDEMPOTENCY_KEY_MAX_LENGTH) : dto.provider = dto'.provider := by
  rw [take_keyText, take_keyText] at h
  -- The providers begin with different letters.
  have hhead := congrArg List.head? h
  cases hp : dto.provider <;> cases hp' : dto'.provider <;>
    simp [hp, hp', PaymentProvider.text, codeUnits_toList, charUnits] at hhead ⊢

/-- Two callbacks get one key exactly if they are of one provider and their trade numbers and
events agree as far as the key goes. -/
theorem take_keyText_eq_iff {dto dto' : PaymentCallbackDto} :
    (codeUnits dto.keyText).take IDEMPOTENCY_KEY_MAX_LENGTH =
        (codeUnits dto'.keyText).take IDEMPOTENCY_KEY_MAX_LENGTH ↔
      dto.provider = dto'.provider ∧
        (codeUnits dto.tradeEvent).take dto.keyRoom = (codeUnits dto'.tradeEvent).take dto.keyRoom := by
  constructor
  · intro h
    have hprovider := provider_of_take h
    have hroom : dto'.keyRoom = dto.keyRoom := by
      rw [keyRoom, keyRoom, hprovider]
    rw [take_keyText, take_keyText, hroom, hprovider] at h
    exact ⟨hprovider, (List.cons.inj (List.append_cancel_left h)).2⟩
  · rintro ⟨hprovider, htake⟩
    have hroom : dto'.keyRoom = dto.keyRoom := by
      rw [keyRoom, keyRoom, hprovider]
    rw [take_keyText, take_keyText, hroom, hprovider, htake]

theorem take_of_not_cutsKey {dto : PaymentCallbackDto} (h : dto.cutsKey = false) :
    (codeUnits dto.keyText).take IDEMPOTENCY_KEY_MAX_LENGTH = codeUnits dto.keyText := by
  refine List.take_of_length_le ?_
  rw [length_codeUnits]
  simpa [cutsKey] using h

end PaymentCallbackDto

section Validated

variable {validator : ClassValidator} {body body' : Json} {dto dto' : PaymentCallbackDto}

theorem deriveIdempotencyKeyUnits_callback (h : validator.paymentCallback body = some dto) :
    deriveIdempotencyKeyUnits body paymentCallbackOptions.bodyKeyFields =
      some ((codeUnits dto.keyText).take IDEMPOTENCY_KEY_MAX_LENGTH) := by
  obtain ⟨hprovider, htradeNo, hevent⟩ := validator.fields_of_paymentCallback h
  have hproviderNe : dto.provider.text ≠ "" := by cases dto.provider <;> decide
  have heventNe : dto.event.text ≠ "" := by cases dto.event <;> decide
  rw [← dto.clampKeyUnits_keyText]
  simp [deriveIdempotencyKeyUnits, paymentCallbackOptions, PaymentCallbackDto.keyText,
    keyPart_of_stringField hprovider hproviderNe, keyPart_of_stringField htradeNo dto.tradeNo_ne,
    keyPart_of_stringField hevent heventNe]

/-- **When the key tells callbacks apart.** Two callbacks that differ in provider, trade
number or event get two keys exactly if the providers differ, or neither key is cut, or the
trade numbers and events differ within the part of the key that is left for them. -/
theorem keys_differ_iff (h : validator.paymentCallback body = some dto)
    (h' : validator.paymentCallback body' = some dto')
    (hdiffer : dto.notification ≠ dto'.notification) :
    deriveIdempotencyKeyUnits body paymentCallbackOptions.bodyKeyFields ≠
        deriveIdempotencyKeyUnits body' paymentCallbackOptions.bodyKeyFields ↔
      dto.provider ≠ dto'.provider ∨ (dto.cutsKey = false ∧ dto'.cutsKey = false) ∨
        (codeUnits dto.tradeEvent).take dto.keyRoom ≠ (codeUnits dto'.tradeEvent).take dto.keyRoom := by
  rw [deriveIdempotencyKeyUnits_callback h, deriveIdempotencyKeyUnits_callback h', Ne, Option.some_inj]
  constructor
  · intro hkeys
    rw [PaymentCallbackDto.take_keyText_eq_iff, not_and_or] at hkeys
    exact hkeys.imp_right Or.inr
  · rintro (hprovider | ⟨hfits, hfits'⟩ | htake) hkeys
    · exact hprovider (PaymentCallbackDto.provider_of_take hkeys)
    · rw [PaymentCallbackDto.take_of_not_cutsKey hfits,
        PaymentCallbackDto.take_of_not_cutsKey hfits'] at hkeys
      exact hdiffer (PaymentCallbackDto.notification_of_keyText (codeUnits_injective hkeys))
    · exact htake (PaymentCallbackDto.take_keyText_eq_iff.mp hkeys).2

end Validated

/-- The payment and the refund of the documentation. -/
theorem keys_differ_documented :
    deriveIdempotencyKeyUnits PAYMENT_CALLBACK_PAID_REQUEST_EXAMPLE.toJson
        paymentCallbackOptions.bodyKeyFields ≠
      deriveIdempotencyKeyUnits PAYMENT_CALLBACK_REFUNDED_REQUEST_EXAMPLE.toJson
        paymentCallbackOptions.bodyKeyFields := by
  have hpaid : exampleValidator.paymentCallback PAYMENT_CALLBACK_PAID_REQUEST_EXAMPLE.toJson =
      some PAYMENT_CALLBACK_PAID_REQUEST_EXAMPLE := by
    decide +kernel
  have hrefunded : exampleValidator.paymentCallback PAYMENT_CALLBACK_REFUNDED_REQUEST_EXAMPLE.toJson =
      some PAYMENT_CALLBACK_REFUNDED_REQUEST_EXAMPLE := by
    decide +kernel
  refine (keys_differ_iff hpaid hrefunded ?_).mpr (Or.inr (Or.inl ⟨by decide +kernel, by decide +kernel⟩))
  intro hsame
  exact absurd (congrArg (fun n => n.2.2) hsame) (by decide)

/-- The payment and the refund of a trade with a number of 128 characters. -/
theorem long_trade_keys_collide :
    exampleValidator.paymentCallback longTradePaid.toJson = some longTradePaid ∧
      exampleValidator.paymentCallback longTradeRefunded.toJson = some longTradeRefunded ∧
      longTradePaid.event ≠ longTradeRefunded.event ∧
      deriveIdempotencyKeyUnits longTradePaid.toJson paymentCallbackOptions.bodyKeyFields =
        deriveIdempotencyKeyUnits longTradeRefunded.toJson paymentCallbackOptions.bodyKeyFields := by
  refine ⟨by decide +kernel, by decide +kernel, by decide, by decide +kernel⟩

end MibServer.Billing
