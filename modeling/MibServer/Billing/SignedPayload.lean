import MibServer.Billing.Notification
import MibServer.Lib.Delimited

/-!
What a signature signs. The canonical payload joins five fields with a newline, and the
validator lets a newline into the order number and the trade number: two callbacks have one
payload when the provider of each stands inside a field of the other
(`payloads_differ_iff`).
-/

namespace MibServer.Billing

open MibServer.Lib MibServer.Idempotency

/-! ### ISO 8601 -/

/-- The characters of the dates `isISO8601` accepts: digits, signs and separators, `T`, `W`
and `Z`, and the white space that may stand for the `T`. -/
def isISO8601Char (c : Char) : Bool :=
  c.isDigit || isJsSpace c || ['+', '-', ':', '.', ',', 'T', 'W', 'Z', 'z'].contains c

/-- What an accepted date is made of. -/
def ClassValidator.DatesPlain (validator : ClassValidator) : Prop :=
  ∀ text, validator.isISO8601 text = true → ∀ c ∈ text.toList, isISO8601Char c = true

/-! ### The payload -/

namespace PaymentCallbackDto

/-- The date as it is signed: an absent one is empty. -/
def signedDate (dto : PaymentCallbackDto) : String := dto.paidAt.getD ""

/-- The five fields agree. -/
def SameFields (dto dto' : PaymentCallbackDto) : Prop :=
  dto.orderNo = dto'.orderNo ∧ dto.provider = dto'.provider ∧
    dto.providerTradeNo = dto'.providerTradeNo ∧ dto.event = dto'.event ∧
    dto.signedDate = dto'.signedDate

/-- The order number of `dto'` begins with the order number and the provider of `dto`, and
the trade number of `dto` ends with the provider and the trade number of `dto'`, each on a
line of its own; what stands between, if anything, is the same text. Event and date agree. -/
def ShiftsInto (dto dto' : PaymentCallbackDto) : Prop :=
  dto.event = dto'.event ∧ dto.signedDate = dto'.signedDate ∧
    ((dto'.orderNo = dto.orderNo ++ "\n" ++ dto.provider.text ∧
        dto.providerTradeNo = dto'.provider.text ++ "\n" ++ dto'.providerTradeNo) ∨
      ∃ lines, dto'.orderNo = dto.orderNo ++ "\n" ++ dto.provider.text ++ "\n" ++ lines ∧
        dto.providerTradeNo = lines ++ "\n" ++ dto'.provider.text ++ "\n" ++ dto'.providerTradeNo)

/-- The date holds no `d`, the last letter of both events. -/
def DatePlain (dto : PaymentCallbackDto) : Prop := 'd' ∉ dto.signedDate.toList

/-- The order number, the provider and the trade number, joined. -/
def head (dto : PaymentCallbackDto) : List Char :=
  dto.orderNo.toList ++ '\n' :: (dto.provider.text.toList ++ '\n' :: dto.providerTradeNo.toList)

theorem payload_toList (dto : PaymentCallbackDto) :
    (buildPaymentCallbackSignPayload dto).toList =
      dto.head ++ '\n' :: (dto.event.text.toList ++ '\n' :: dto.signedDate.toList) := by
  simp [buildPaymentCallbackSignPayload, head, signedDate]

theorem newline_notMem_provider (provider : PaymentProvider) : '\n' ∉ provider.text.toList := by
  cases provider <;> decide

/-- The payload tells the event, the date and the three fields before them apart. -/
theorem payload_eq_iff {dto dto' : PaymentCallbackDto} (hdate : dto.DatePlain)
    (hdate' : dto'.DatePlain) :
    buildPaymentCallbackSignPayload dto = buildPaymentCallbackSignPayload dto' ↔
      dto.head = dto'.head ∧ dto.event = dto'.event ∧ dto.signedDate = dto'.signedDate := by
  constructor
  · intro h
    have htext := congrArg String.toList h
    rw [payload_toList, payload_toList] at htext
    -- The last `d` of the payload ends the event.
    obtain ⟨stem, hevent, -⟩ := dto.event.text_toList
    obtain ⟨stem', hevent', -⟩ := dto'.event.text_toList
    have hends : (dto.head ++ '\n' :: stem) ++ 'd' :: ('\n' :: dto.signedDate.toList) =
        (dto'.head ++ '\n' :: stem') ++ 'd' :: ('\n' :: dto'.signedDate.toList) := by
      rw [hevent, hevent'] at htext
      simpa using htext
    obtain ⟨hfront, hback⟩ := delimited_right (by simpa [DatePlain] using hdate)
      (by simpa [DatePlain] using hdate') hends
    have hstem : ∀ {event : PaymentCallbackEvent} {stem : List Char},
        event.text.toList = stem ++ ['d'] → '\n' ∉ stem := by
      intro event stem hstem hmem
      have hnewline : '\n' ∈ event.text.toList := hstem ▸ List.mem_append_left _ hmem
      cases event with
      | paid => exact absurd hnewline (by decide)
      | refunded => exact absurd hnewline (by decide)
    obtain ⟨hhead, hstems⟩ := delimited_right (hstem hevent) (hstem hevent') hfront
    refine ⟨hhead, ?_, String.toList_inj.mp (List.cons.inj hback).2⟩
    have hevents : dto.event.text = dto'.event.text :=
      String.toList_inj.mp (by rw [hevent, hevent', hstems])
    cases he : dto.event <;> cases he' : dto'.event <;>
      simp [he, he', PaymentCallbackEvent.text] at hevents ⊢
  · rintro ⟨hhead, hevent, hdate⟩
    refine String.toList_inj.mp ?_
    rw [payload_toList, payload_toList, hhead, hevent, hdate]

end PaymentCallbackDto

/-! ### Callbacks of one payload -/

namespace PaymentCallbackDto

theorem shiftsInto_iff {dto dto' : PaymentCallbackDto} :
    dto.ShiftsInto dto' ↔ dto.event = dto'.event ∧ dto.signedDate = dto'.signedDate ∧
      Shifted '\n' dto.orderNo.toList dto.provider.text.toList dto.providerTradeNo.toList
        dto'.orderNo.toList dto'.provider.text.toList dto'.providerTradeNo.toList := by
  refine and_congr_right fun _ => and_congr_right fun _ => or_congr ?_ ?_
  · refine and_congr ?_ ?_
    · rw [← String.toList_inj]
      simp
    · rw [← String.toList_inj]
      simp
  · constructor
    · rintro ⟨lines, horder, htrade⟩
      refine ⟨lines.toList, ?_, ?_⟩
      · rw [horder]
        simp
      · rw [htrade]
        simp
    · rintro ⟨lines, horder, htrade⟩
      refine ⟨String.ofList lines, String.toList_inj.mp ?_, String.toList_inj.mp ?_⟩
      · rw [horder]
        simp
      · rw [htrade]
        simp

/-- Two callbacks have one payload when they agree, or one shifts into the other. -/
theorem payload_eq_iff_shifts {dto dto' : PaymentCallbackDto} (hdate : dto.DatePlain)
    (hdate' : dto'.DatePlain) :
    buildPaymentCallbackSignPayload dto = buildPaymentCallbackSignPayload dto' ↔
      dto.SameFields dto' ∨ dto.ShiftsInto dto' ∨ dto'.ShiftsInto dto := by
  rw [payload_eq_iff hdate hdate', shiftsInto_iff, shiftsInto_iff, head, head,
    joined_three_iff (newline_notMem_provider _) (newline_notMem_provider _)]
  have hfields : (dto.orderNo.toList = dto'.orderNo.toList ∧
      dto.provider.text.toList = dto'.provider.text.toList ∧
      dto.providerTradeNo.toList = dto'.providerTradeNo.toList) ↔
      dto.orderNo = dto'.orderNo ∧ dto.provider = dto'.provider ∧
        dto.providerTradeNo = dto'.providerTradeNo := by
    rw [String.toList_inj, String.toList_inj, String.toList_inj]
    refine and_congr_right fun _ => and_congr_left fun _ => ⟨fun htext => ?_, fun h => h ▸ rfl⟩
    cases hp : dto.provider <;> cases hp' : dto'.provider <;>
      simp [hp, hp', PaymentProvider.text] at htext ⊢
  rw [hfields]
  unfold SameFields
  constructor
  · rintro ⟨⟨horder, hprovider, htrade⟩ | hshift | hshift, hevent, hdate⟩
    · exact Or.inl ⟨horder, hprovider, htrade, hevent, hdate⟩
    · exact Or.inr (Or.inl ⟨hevent, hdate, hshift⟩)
    · exact Or.inr (Or.inr ⟨hevent.symm, hdate.symm, hshift⟩)
  · rintro (⟨horder, hprovider, htrade, hevent, hdate⟩ | ⟨hevent, hdate, hshift⟩ |
      ⟨hevent, hdate, hshift⟩)
    · exact ⟨Or.inl ⟨horder, hprovider, htrade⟩, hevent, hdate⟩
    · exact ⟨Or.inr (Or.inl hshift), hevent, hdate⟩
    · exact ⟨Or.inr (Or.inr hshift), hevent.symm, hdate.symm⟩

/-- Callbacks that shift into each other differ in their order number. -/
theorem ShiftsInto.orderNo_ne {dto dto' : PaymentCallbackDto} (h : dto.ShiftsInto dto') :
    dto.orderNo ≠ dto'.orderNo := by
  intro heq
  have hlt := (shiftsInto_iff.mp h).2.2.length_lt
  rw [heq] at hlt
  exact absurd hlt (Nat.lt_irrefl _)

end PaymentCallbackDto

section Validated

variable {validator : ClassValidator} {body body' : Json} {dto dto' : PaymentCallbackDto}

theorem ClassValidator.date_of_paymentCallback (h : validator.paymentCallback body = some dto) :
    ∀ text, dto.paidAt = some text → validator.isISO8601 text = true := by
  unfold paymentCallback at h
  obtain ⟨orderNo, _, h⟩ := Option.bind_eq_some_iff.mp h
  obtain ⟨provider, _, h⟩ := Option.bind_eq_some_iff.mp h
  obtain ⟨tradeNo, _, h⟩ := Option.bind_eq_some_iff.mp h
  obtain ⟨event, _, h⟩ := Option.bind_eq_some_iff.mp h
  obtain ⟨paidAt, hpaidAt, h⟩ := Option.bind_eq_some_iff.mp h
  split at h
  · split at h
    · cases h
      intro text htext
      obtain rfl : paidAt = some text := htext
      unfold optionalField at hpaidAt
      split at hpaidAt
      · cases hpaidAt
      · cases hpaidAt
      · split at hpaidAt
        · rename_i hvalid
          cases hpaidAt
          exact hvalid
        · cases hpaidAt
      · cases hpaidAt
    · cases h
  · cases h

theorem ClassValidator.DatesPlain.datePlain (hdates : validator.DatesPlain)
    (h : validator.paymentCallback body = some dto) : dto.DatePlain := by
  intro hmem
  unfold PaymentCallbackDto.signedDate at hmem
  cases hpaidAt : dto.paidAt with
  | none => simp [hpaidAt] at hmem
  | some text =>
      rw [hpaidAt] at hmem
      have hplain := hdates text (validator.date_of_paymentCallback h text hpaidAt) 'd' hmem
      exact absurd hplain (by decide)

/-- **When a payload names its callback.** Two bodies that validate have one payload only if
they agree in all five fields, exactly when neither shifts into the other. -/
theorem payloads_differ_iff (hdates : validator.DatesPlain)
    (h : validator.paymentCallback body = some dto)
    (h' : validator.paymentCallback body' = some dto') :
    (buildPaymentCallbackSignPayload dto = buildPaymentCallbackSignPayload dto' →
        dto.SameFields dto') ↔
      ¬ dto.ShiftsInto dto' ∧ ¬ dto'.ShiftsInto dto := by
  have hpayload := PaymentCallbackDto.payload_eq_iff_shifts (hdates.datePlain h) (hdates.datePlain h')
  rw [hpayload]
  constructor
  · intro hsame
    constructor
    · intro hshift
      exact hshift.orderNo_ne (hsame (Or.inr (Or.inl hshift))).1
    · intro hshift
      exact hshift.orderNo_ne (hsame (Or.inr (Or.inr hshift))).1.symm
  · rintro ⟨hno, hno'⟩ (hsame | hshift | hshift)
    · exact hsame
    · exact absurd hshift hno
    · exact absurd hshift hno'

end Validated

/-- A callback whose trade number has two lines. -/
def twoLineTrade : PaymentCallbackDto where
  orderNo := "ORD12345"
  provider := .mock
  providerTradeNo := "WECHAT\nWX01"
  event := .paid

/-- A callback whose order number has two lines. -/
def twoLineOrder : PaymentCallbackDto where
  orderNo := "ORD12345\nMOCK"
  provider := .wechat
  providerTradeNo := "WX01"
  event := .paid

theorem exampleValidator_datesPlain : exampleValidator.DatesPlain := by
  intro text h
  simp only [exampleValidator, List.contains_cons, List.contains_nil, Bool.or_false, Bool.or_eq_true,
    beq_iff_eq] at h
  rcases h with rfl | rfl
  · exact List.all_eq_true.mp (by decide +kernel)
  · exact List.all_eq_true.mp (by decide +kernel)

/-- The payment and the refund of the documentation. -/
theorem payloads_differ_documented :
    buildPaymentCallbackSignPayload PAYMENT_CALLBACK_PAID_REQUEST_EXAMPLE ≠
      buildPaymentCallbackSignPayload PAYMENT_CALLBACK_REFUNDED_REQUEST_EXAMPLE := by
  intro hpayload
  have hpaid : exampleValidator.paymentCallback PAYMENT_CALLBACK_PAID_REQUEST_EXAMPLE.toJson =
      some PAYMENT_CALLBACK_PAID_REQUEST_EXAMPLE := by
    decide +kernel
  have hrefunded : exampleValidator.paymentCallback PAYMENT_CALLBACK_REFUNDED_REQUEST_EXAMPLE.toJson =
      some PAYMENT_CALLBACK_REFUNDED_REQUEST_EXAMPLE := by
    decide +kernel
  have hdifferent : ∀ {dto dto' : PaymentCallbackDto}, dto.event ≠ dto'.event → ¬ dto.ShiftsInto dto' :=
    fun hne hshift => hne hshift.1
  have hfields := (payloads_differ_iff exampleValidator_datesPlain hpaid hrefunded).mpr
    ⟨hdifferent (by decide), hdifferent (by decide)⟩ hpayload
  exact absurd hfields.2.2.2.1 (by decide)

/-- A signature of the one verifies for the other. -/
theorem shifted_callbacks_one_signature :
    exampleValidator.paymentCallback twoLineTrade.toJson = some twoLineTrade ∧
      exampleValidator.paymentCallback twoLineOrder.toJson = some twoLineOrder ∧
      buildPaymentCallbackSignPayload twoLineTrade = buildPaymentCallbackSignPayload twoLineOrder ∧
      ¬ twoLineTrade.SameFields twoLineOrder ∧
      ∀ (platform : Platform) (signature : Option String),
        platform.verifies twoLineTrade signature = platform.verifies twoLineOrder signature := by
  have hpayload : buildPaymentCallbackSignPayload twoLineTrade =
      buildPaymentCallbackSignPayload twoLineOrder := by
    decide +kernel
  refine ⟨by decide +kernel, by decide +kernel, hpayload, ?_, ?_⟩
  · intro hsame
    exact absurd hsame.1 (by decide)
  · intro platform signature
    unfold Platform.verifies
    rw [hpayload]

end MibServer.Billing
