import MibServer.Lib.Binary64
import MibServer.Lib.Decimal
import MibServer.Billing.Service

/-!
Amounts of money as texts.

`formatAmountFromCents` divides and prints, `yuanStringToCents` reads. A number is the
rational it stands for, and each operation rounds to binary64 as JavaScript does.
-/

namespace MibServer.Money

open MibServer.Lib

/-- `x.toFixed(digits)` of a number below 10^21. -/
def toFixed (digits : ℕ) (x : ℚ) : String :=
  let n := (round (|x| * 10 ^ digits)).toNat
  let m := padded (digits + 1) n
  let k := m.length
  let text := if digits = 0 then m else m.take (k - digits) ++ '.' :: m.drop (k - digits)
  String.ofList (if x < 0 then '-' :: text else text)

/-- The currency is not looked at. -/
def formatAmountFromCents (amountCents : ℚ) : String :=
  let major := nearest (amountCents / 100)
  toFixed 2 major

/-- `/^-?\d+(\.\d{1,2})?$/` -/
def isMoney (text : List Char) : Bool :=
  !((Decimal.unsigned text).takeWhile Char.isDigit).isEmpty &&
    match (Decimal.unsigned text).dropWhile Char.isDigit with
    | [] => true
    | '.' :: frac => frac.all Char.isDigit && (frac.length == 1 || frac.length == 2)
    | _ => false

/-- `Number(text)` of a text of digits. -/
def number (digits : List Char) : ℚ := nearest (decimalValue digits)

def yuanStringToCents (yuan : String) : Except String ℚ :=
  let trimmed := (trim yuan).toList
  if isMoney trimmed then
    let negative := trimmed.head? = some '-'
    let normalized := Decimal.unsigned trimmed
    let parts := normalized.splitOn '.'
    let whole := parts.getD 0 []
    let frac := parts.getD 1 []
    let cents := nearest (nearest (number whole * 100) + number ((frac ++ ['0', '0']).take 2))
    .ok (if negative then -cents else cents)
  else .error ("Invalid money string: " ++ yuan)

/-! ### Printing -/

variable {cents : ℤ}

/-- A number that rounds to a multiple of the last place is printed as its canonical decimal. -/
theorem toFixed_eq {digits : ℕ} {x : ℚ} {n : ℤ} (hround : round (|x| * 10 ^ digits) = |n|)
    (hsign : x < 0 ↔ n < 0) : toFixed digits x = String.ofList (Decimal.fixed digits n).text := by
  have hdigits : (round (|x| * 10 ^ digits)).toNat = n.natAbs := by
    rw [hround, Int.abs_eq_natAbs]
    exact Int.toNat_natCast _
  rw [Decimal.text_fixed, Decimal.whole_fixed, Decimal.frac_fixed]
  simp only [toFixed, hdigits, hsign]
  by_cases hzero : digits = 0
  · subst hzero
    by_cases hneg : n < 0
    · simp [hneg]
    · simp [hneg]
  · by_cases hneg : n < 0
    · simp [hneg, hzero]
    · simp [hneg, hzero]

theorem major_error (h : |cents| < 2 ^ 52) :
    |(cents : ℚ) / 100 - nearest (cents / 100)| ≤ 1 / 256 := by
  have hcents : |(cents : ℚ)| < 2 ^ 52 := by exact_mod_cast h
  have hsize : |(cents : ℚ) / 100| < 2 ^ (46 : ℤ) := by
    rw [abs_div, abs_of_pos (by norm_num : (0 : ℚ) < 100), div_lt_iff₀ (by norm_num)]
    norm_num at hcents ⊢
    linarith
  have herror := abs_sub_nearest_le hsize (by norm_num)
  norm_num at herror
  exact herror

/-- The binary quotient is close enough to the decimal one to round to it. -/
theorem round_major (h : |cents| < 2 ^ 52) :
    round (|nearest ((cents : ℚ) / 100)| * 10 ^ 2) = |cents| := by
  have hdist := (abs_abs_sub_abs_le ((cents : ℚ) / 100) (nearest (cents / 100))).trans (major_error h)
  rw [abs_div, abs_of_pos (by norm_num : (0 : ℚ) < 100)] at hdist
  obtain ⟨hlow, hhigh⟩ := abs_le.mp hdist
  rw [round_eq_iff, Set.mem_Ico]
  push_cast
  constructor
  · linarith
  · linarith

theorem major_neg_iff (h : |cents| < 2 ^ 52) : nearest ((cents : ℚ) / 100) < 0 ↔ cents < 0 := by
  obtain ⟨hlow, hhigh⟩ := abs_le.mp (major_error h)
  rcases lt_trichotomy cents 0 with hneg | rfl | hpos
  · have hle : (cents : ℚ) ≤ -1 := by exact_mod_cast Int.le_sub_one_of_lt hneg
    refine iff_of_true ?_ hneg
    linarith
  · have hzero := nearest_intCast (n := 0) (by norm_num)
    simp only [Int.cast_zero] at hzero
    simp [hzero]
  · have hle : (1 : ℚ) ≤ cents := by exact_mod_cast hpos
    refine iff_of_false ?_ (not_lt_of_gt hpos)
    linarith

/-- The code prints the canonical decimal. -/
theorem formatAmountFromCents_eq (h : |cents| < 2 ^ 52) :
    formatAmountFromCents cents = String.ofList (Decimal.fixed 2 cents).text :=
  toFixed_eq (round_major h) (major_neg_iff h)

/-! ### Reading -/

theorem isMoney_text {d : Decimal} (h : d.frac.length ≤ 2) : isMoney d.text = true := by
  have hwhole : d.whole.isEmpty = false := by simpa using d.whole_ne_nil
  have hfrac : d.frac.all Char.isDigit = true := List.all_eq_true.mpr d.frac_digits
  simp only [isMoney, Decimal.takeWhile_text, Decimal.dropWhile_text, hwhole]
  cases hcase : d.frac with
  | nil => rfl
  | cons c cs =>
      rw [hcase] at h hfrac
      have hlength : (c :: cs).length = 1 ∨ (c :: cs).length = 2 := by
        rw [List.length_cons] at h ⊢
        omega
      simpa [hfrac] using hlength

/-- The accepted texts are the decimals of at most two places. -/
theorem isMoney_iff {text : List Char} :
    isMoney text = true ↔ ∃ d : Decimal, d.text = text ∧ d.frac.length ≤ 2 := by
  constructor
  · intro h
    have hsign : text = (if text.head? = some '-' then ['-'] else []) ++ Decimal.unsigned text := by
      unfold Decimal.unsigned
      split
      · next hminus =>
          cases text with
          | nil => cases hminus
          | cons c cs =>
              cases hminus
              rfl
      · rfl
    have hsplit := (List.takeWhile_append_dropWhile (p := Char.isDigit) (l := Decimal.unsigned text)).symm
    have hwhole : (Decimal.unsigned text).takeWhile Char.isDigit ≠ [] := by
      intro hnil
      simp [isMoney, hnil] at h
    have hdigits := List.all_eq_true.mp (List.all_takeWhile (p := Char.isDigit) (l := Decimal.unsigned text))
    have hdecimal : ∃ frac : List Char, frac.length ≤ 2 ∧ (∀ c ∈ frac, c.isDigit) ∧
        (Decimal.unsigned text).dropWhile Char.isDigit = if frac = [] then [] else '.' :: frac := by
      revert h
      unfold isMoney
      split
      · next hrest => exact fun _ => ⟨[], by decide, by simp, by simpa using hrest⟩
      · next frac hrest =>
          intro h
          simp only [Bool.and_eq_true, Bool.or_eq_true, beq_iff_eq] at h
          obtain ⟨-, hall, hlength⟩ := h
          have hne : frac ≠ [] := by
            rintro rfl
            simp at hlength
          exact ⟨frac, by omega, List.all_eq_true.mp hall, by rw [if_neg hne, hrest]⟩
      · intro h
        simp at h
    obtain ⟨frac, hlength, hfrac, hrest⟩ := hdecimal
    refine ⟨⟨decide (text.head? = some '-'), _, frac, hwhole, hdigits, hfrac⟩, ?_, hlength⟩
    rw [Decimal.text]
    simp only [decide_eq_true_iff]
    rw [List.append_assoc, ← hrest, ← hsplit]
    exact hsign.symm
  · rintro ⟨d, rfl, hlength⟩
    exact isMoney_text hlength

theorem dot_not_mem_digits {cs : List Char} (h : ∀ c ∈ cs, c.isDigit) : '.' ∉ cs :=
  fun hmem => absurd (h '.' hmem) (by decide)

theorem splitOn_text (d : Decimal) :
    (Decimal.unsigned d.text).splitOn '.' = d.whole :: if d.frac = [] then [] else [d.frac] := by
  rw [Decimal.unsigned_text]
  split
  · rw [List.append_nil, List.splitOn_eq_singleton (dot_not_mem_digits d.whole_digits)]
  · rw [List.splitOn_append_cons_self_of_not_mem (dot_not_mem_digits d.whole_digits),
      List.splitOn_eq_singleton (dot_not_mem_digits d.frac_digits)]

/-- The cents of a text without its sign. -/
def centsOf (d : Decimal) : ℕ :=
  decimalValue d.whole * 100 + decimalValue ((d.frac ++ ['0', '0']).take 2)

theorem centsOf_eq {d : Decimal} (h : d.frac.length ≤ 2) :
    centsOf d = decimalValue (d.whole ++ d.frac) * 10 ^ (2 - d.frac.length) := by
  rw [centsOf, decimalValue_append]
  match hfrac : d.frac, h with
  | [], _ => simp [decimalValue, Nat.ofDigitChars_cons]
  | [c], _ =>
      have hpad : decimalValue [c, '0'] = 10 * decimalValue [c] := by
        rw [show [c, '0'] = [c] ++ ['0'] from rfl, decimalValue_append]
        rfl
      simp only [List.cons_append, List.nil_append, List.take_succ_cons, List.take_zero, hpad,
        List.length_singleton]
      omega
  | [c, c'], _ => simp; omega

theorem value_mul_hundred {d : Decimal} (h : d.frac.length ≤ 2) :
    d.value * 100 = if d.negative then -(centsOf d : ℚ) else centsOf d := by
  have hscale : (100 : ℚ) = 10 ^ d.frac.length * 10 ^ (2 - d.frac.length) := by
    rw [← pow_add, Nat.add_sub_cancel' h]
    norm_num
  have hunits : d.value * 100 = d.units * 10 ^ (2 - d.frac.length) := by
    rw [Decimal.value, hscale, ← mul_assoc, div_mul_cancel₀ _ (by positivity)]
  rw [hunits, centsOf_eq h, Decimal.units]
  split
  · push_cast
    ring
  · push_cast
    ring

/-- The code reads the value of the decimal, as long as binary64 holds it. -/
theorem yuanStringToCents_text {yuan : String} {d : Decimal} (htext : d.text = (trim yuan).toList)
    (hlength : d.frac.length ≤ 2) (hsize : |d.value * 100| < 2 ^ 53) :
    yuanStringToCents yuan = .ok (d.value * 100) := by
  have hcents : centsOf d < 2 ^ 53 := by
    have habs : |d.value * 100| = centsOf d := by
      rw [value_mul_hundred hlength]
      split
      · rw [abs_neg, Nat.abs_cast]
      · rw [Nat.abs_cast]
    rw [habs] at hsize
    exact_mod_cast hsize
  have hparts := splitOn_text d
  have hwhole : ((Decimal.unsigned d.text).splitOn '.').getD 0 [] = d.whole := by rw [hparts]; rfl
  have hfrac : ((Decimal.unsigned d.text).splitOn '.').getD 1 [] = d.frac := by
    rw [hparts]
    split
    · next hnil => rw [hnil]; rfl
    · rfl
  have hexact : nearest (nearest (number d.whole * 100) + number ((d.frac ++ ['0', '0']).take 2)) =
      centsOf d := by
    unfold centsOf at hcents
    have hunit := nearest_natCast (n := decimalValue d.whole) (by omega)
    have hproduct := nearest_natCast (n := decimalValue d.whole * 100) (by omega)
    have hrest := nearest_natCast (n := decimalValue ((d.frac ++ ['0', '0']).take 2)) (by omega)
    have hsum := nearest_natCast hcents
    push_cast at hproduct hsum
    rw [number, number, hunit, hproduct, hrest, hsum, centsOf]
    push_cast
    rfl
  unfold yuanStringToCents
  simp only [← htext, isMoney_text hlength, if_true, Decimal.head_text, hwhole, hfrac, hexact,
    value_mul_hundred hlength]

theorem no_space_text (d : Decimal) : ∀ c ∈ d.text, isJsSpace c = false := by
  have hdigit : ∀ c : Char, c.isDigit → isJsSpace c = false := by
    intro c hc
    have hrange : 48 ≤ c.toNat ∧ c.toNat ≤ 57 := Char.isDigit_iff_toNat.mp hc
    simp only [isJsSpace, Bool.or_eq_false_iff, Bool.and_eq_false_iff, decide_eq_false_iff_not,
      List.contains_eq_mem, List.mem_cons, List.not_mem_nil, not_or, not_false_eq_true, and_true]
    omega
  intro c hc
  rw [Decimal.text, List.mem_append, List.mem_append] at hc
  rcases hc with (hsign | hwhole) | hfrac
  · split at hsign
    · obtain rfl := List.mem_singleton.mp hsign
      rfl
    · cases hsign
  · exact hdigit c (d.whole_digits c hwhole)
  · split at hfrac
    · cases hfrac
    · rcases List.mem_cons.mp hfrac with rfl | hfrac
      · rfl
      · exact hdigit c (d.frac_digits c hfrac)

/-- The text of a decimal, as a string. -/
theorem trim_text (d : Decimal) : trim (String.ofList d.text) = String.ofList d.text :=
  trim_of_no_space (by simpa using no_space_text d)

/-- The range of `Order.amountCents`. -/
def IsInt32 (x : ℚ) : Prop := -2 ^ 31 ≤ x ∧ x < 2 ^ 31

theorem IsInt32.abs_lt_pow {x : ℚ} (h : IsInt32 x) : |x| < 2 ^ 52 := by
  obtain ⟨hlow, hhigh⟩ := h
  norm_num at hlow hhigh
  rw [abs_lt]
  constructor
  · linarith
  · linarith

/-- Amounts survive being printed and read; an accepted text is printed in its canonical form. -/
theorem amount_round_trips :
    (∀ cents : ℤ, IsInt32 cents → yuanStringToCents (formatAmountFromCents cents) = .ok (cents : ℚ)) ∧
    ∀ (yuan : String) (result : ℚ), yuanStringToCents yuan = .ok result →
      (∃ d : Decimal, d.text = (trim yuan).toList) ∧
      ∀ d : Decimal, d.text = (trim yuan).toList → IsInt32 (d.value * 100) →
        result = d.value * 100 ∧
          ∃ canonical : Decimal, formatAmountFromCents result = String.ofList canonical.text ∧
            canonical.Canonical 2 ∧ canonical.value = d.value ∧
            ∀ other : Decimal, other.Canonical 2 → other.value = d.value → other = canonical := by
  constructor
  · intro cents hrange
    have hsize : |cents| < 2 ^ 52 := by exact_mod_cast hrange.abs_lt_pow
    have hvalue : (Decimal.fixed 2 cents).value * 100 = cents := by
      rw [Decimal.value_fixed]
      norm_num
    rw [formatAmountFromCents_eq hsize]
    refine (yuanStringToCents_text (d := Decimal.fixed 2 cents) ?_ ?_ ?_).trans (congrArg _ hvalue)
    · rw [trim_text, String.toList_ofList]
    · rw [Decimal.length_frac_fixed]
    · rw [hvalue]
      exact hrange.abs_lt_pow.trans (by norm_num)
  · intro yuan result hresult
    have haccepted : isMoney (trim yuan).toList = true := by
      by_contra hrefused
      simp [yuanStringToCents, hrefused] at hresult
    obtain ⟨d, htext, hlength⟩ := isMoney_iff.mp haccepted
    refine ⟨⟨d, htext⟩, ?_⟩
    intro d' htext' hrange
    obtain rfl : d = d' := Decimal.text_injective (htext.trans htext'.symm)
    have hread := yuanStringToCents_text htext hlength (hrange.abs_lt_pow.trans (by norm_num))
    rw [hresult] at hread
    obtain rfl : result = d.value * 100 := Except.ok.inj hread
    refine ⟨rfl, ?_⟩
    obtain ⟨cents, hcents⟩ : ∃ cents : ℤ, d.value * 100 = cents := by
      rw [value_mul_hundred hlength]
      split
      · exact ⟨-centsOf d, by push_cast; rfl⟩
      · exact ⟨centsOf d, by push_cast; rfl⟩
    have hsize : |cents| < 2 ^ 52 := by
      have hlt := hrange.abs_lt_pow
      rw [hcents] at hlt
      exact_mod_cast hlt
    have hvalue : d.value = cents / 10 ^ 2 := by
      rw [← hcents]
      norm_num
    refine ⟨Decimal.fixed 2 cents, ?_, Decimal.canonical_fixed cents, ?_, ?_⟩
    · rw [hcents, formatAmountFromCents_eq hsize]
    · rw [Decimal.value_fixed, hvalue]
    · intro other hcanonical hother
      exact Decimal.eq_fixed_of_canonical hcanonical (hother.trans hvalue)

/-- Half a yuan, written with one fraction digit and a minus. -/
theorem amount_round_trips_half :
    yuanStringToCents (formatAmountFromCents (-50 : ℤ)) = .ok ((-50 : ℤ) : ℚ) ∧
      ∃ canonical : Decimal, formatAmountFromCents (-50) = String.ofList canonical.text ∧
        canonical.Canonical 2 ∧ canonical.value = (Decimal.fixed 1 (-5)).value := by
  obtain ⟨hprint, hparse⟩ := amount_round_trips
  refine ⟨hprint (-50) ⟨by norm_num, by norm_num⟩, ?_⟩
  have hread : yuanStringToCents " -0.5" = .ok (-50) := by decide +kernel
  have hvalue : (Decimal.fixed 1 (-5)).value * 100 = -50 := by
    rw [Decimal.value_fixed]
    norm_num
  have hrange : IsInt32 ((Decimal.fixed 1 (-5)).value * 100) := by
    rw [hvalue]
    exact ⟨by norm_num, by norm_num⟩
  obtain ⟨-, canonical, hformat, hcanonical, hsame, -⟩ :=
    (hparse " -0.5" (-50) hread).2 (Decimal.fixed 1 (-5)) (by decide +kernel) hrange
  exact ⟨canonical, hformat, hcanonical, hsame⟩

/-! ### Orders -/

theorem padded_three (n : ℕ) :
    padded 3 n = Nat.toDigits 10 (n / 100) ++ [Nat.digitChar (n / 10 % 10), Nat.digitChar (n % 10)] := by
  have hcentury : n / 10 / 10 = n / 100 := Nat.div_div_eq_div_mul n 10 10
  by_cases hunits : n < 10
  · rw [padded, Nat.toDigits_of_lt_base hunits, Nat.div_eq_of_lt (by omega), Nat.div_eq_of_lt hunits,
      Nat.mod_eq_of_lt hunits]
    rfl
  · by_cases htens : n < 100
    · rw [padded, Nat.toDigits_of_base_le (by omega) (by omega), Nat.toDigits_of_lt_base (by omega),
        Nat.div_eq_of_lt htens, Nat.mod_eq_of_lt (show n / 10 < 10 by omega)]
      rfl
    · have hlength := Nat.length_toDigits_pos (b := 10) (n := n / 10 / 10)
      have hdigits : Nat.toDigits 10 n =
          Nat.toDigits 10 (n / 10 / 10) ++ [Nat.digitChar (n / 10 % 10)] ++ [Nat.digitChar (n % 10)] := by
        rw [← Nat.toDigits_of_base_le (by omega) (by omega), ← Nat.toDigits_of_base_le (by omega) (by omega)]
      rw [padded, hdigits, ← hcentury, Nat.sub_eq_zero_of_le (by simp; omega), List.replicate_zero,
        List.nil_append, List.append_assoc]
      rfl

theorem two_digits {n : ℕ} (h : n < 100) : (if n < 10 then "0" else "") ++ toString n =
    String.ofList [Nat.digitChar (n / 10), Nat.digitChar (n % 10)] := by
  rw [Nat.toString_eq_ofList_toDigits]
  by_cases hunits : n < 10
  · rw [if_pos hunits, Nat.toDigits_of_lt_base hunits, Nat.div_eq_of_lt hunits, Nat.mod_eq_of_lt hunits]
    rw [show "0" = String.ofList ['0'] from rfl, ← String.ofList_append]
    rfl
  · rw [if_neg hunits, Nat.toDigits_of_base_le (by omega) (by omega), Nat.toDigits_of_lt_base (by omega)]
    rfl

/-- Integer arithmetic prints the amounts of orders as the division does. -/
theorem formatAmountFromCents_eq_integer (h : |cents| < 2 ^ 52) :
    formatAmountFromCents cents = Billing.formatAmountFromCents cents := by
  have hlength : (padded 3 cents.natAbs).length - 2 = (Nat.toDigits 10 (cents.natAbs / 100)).length := by
    rw [padded_three, List.length_append]
    rfl
  have hwhole : (Decimal.fixed 2 cents).whole = Nat.toDigits 10 (cents.natAbs / 100) := by
    rw [Decimal.whole_fixed, hlength, padded_three, List.take_left]
  have hfrac : (Decimal.fixed 2 cents).frac =
      [Nat.digitChar (cents.natAbs / 10 % 10), Nat.digitChar (cents.natAbs % 10)] := by
    rw [Decimal.frac_fixed, hlength, padded_three, List.drop_left]
  have hcents := two_digits (n := cents.natAbs % 100) (Nat.mod_lt _ (by omega))
  rw [show cents.natAbs % 100 / 10 = cents.natAbs / 10 % 10 by omega,
    show cents.natAbs % 100 % 10 = cents.natAbs % 10 by omega] at hcents
  rw [formatAmountFromCents_eq h, Decimal.text_fixed, hwhole, hfrac, Billing.formatAmountFromCents,
    String.append_assoc, hcents, Nat.toString_eq_ofList_toDigits]
  by_cases hneg : cents < 0
  · simp [hneg, String.append_assoc]
  · simp [hneg, String.append_assoc]

end MibServer.Money
