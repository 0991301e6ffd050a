import Mathlib.Data.Rat.Defs
import Mathlib.Data.Int.Log
import Mathlib.Data.List.Basic
import Mathlib.Data.List.Induction
import Mathlib.Tactic.Linarith
import Mathlib.Tactic.FieldSimp
import Mathlib.Tactic.Ring

/-!
Decimal texts.

A decimal is a sign, a whole part of at least one digit and any number of fraction digits;
the text says which number it is. Its canonical form with a given number of fraction
digits has no leading zero and a minus for the negative values only; there is one for each
multiple of the last place (`fixed`), and no other text is canonical for it
(`eq_fixed_of_canonical`).
-/

namespace MibServer.Lib

/-! ### Digits -/

/-- The number a list of digits stands for. -/
def decimalValue (cs : List Char) : ℕ := Nat.ofDigitChars 10 cs 0

theorem decimalValue_append (cs cs' : List Char) :
    decimalValue (cs ++ cs') = 10 ^ cs'.length * decimalValue cs + decimalValue cs' := by
  rw [decimalValue, Nat.ofDigitChars_append, Nat.ofDigitChars_eq_ofDigitChars_zero]
  rfl

/-- A digit is the one printed for its value. -/
theorem digitChar_of_isDigit {c : Char} (h : c.isDigit) :
    c.toNat - 48 < 10 ∧ Nat.digitChar (c.toNat - 48) = c := by
  have hrange : 48 ≤ c.toNat ∧ c.toNat ≤ 57 := Char.isDigit_iff_toNat.mp h
  refine ⟨by omega, ?_⟩
  rw [← Char.toNat_inj, Nat.toNat_digitChar_of_lt_ten (by omega)]
  omega

theorem decimalValue_singleton (c : Char) : decimalValue [c] = c.toNat - 48 := by
  rw [decimalValue, Nat.ofDigitChars_cons, Nat.ofDigitChars_nil]
  simp

/-- Digits are the printed value behind leading zeros. -/
theorem digits_eq_padded {cs : List Char} (hne : cs ≠ []) (h : ∀ c ∈ cs, c.isDigit) :
    ∃ zeros, cs = List.replicate zeros '0' ++ Nat.toDigits 10 (decimalValue cs) := by
  induction cs using List.reverseRecOn with
  | nil => exact absurd rfl hne
  | append_singleton cs c ih =>
      obtain ⟨hlt, hchar⟩ := digitChar_of_isDigit (h c (by simp))
      have hvalue : decimalValue (cs ++ [c]) = 10 * decimalValue cs + (c.toNat - 48) := by
        rw [decimalValue_append, decimalValue_singleton]
        rfl
      by_cases hinit : decimalValue cs = 0
      · -- only zeros before the last digit
        have hlast : Nat.toDigits 10 (decimalValue (cs ++ [c])) = [c] := by
          rw [hvalue, hinit, Nat.mul_zero, Nat.zero_add, Nat.toDigits_of_lt_base hlt, hchar]
        rw [hlast]
        by_cases hnil : cs = []
        · exact ⟨0, by rw [hnil]; rfl⟩
        · obtain ⟨zeros, hzeros⟩ := ih hnil fun c hc => h c (List.mem_append_left _ hc)
          refine ⟨zeros + 1, ?_⟩
          rw [hinit, Nat.toDigits_zero] at hzeros
          rw [List.replicate_succ', ← hzeros]
      · have hnil : cs ≠ [] := by
          rintro rfl
          exact hinit rfl
        obtain ⟨zeros, hzeros⟩ := ih hnil fun c hc => h c (List.mem_append_left _ hc)
        refine ⟨zeros, ?_⟩
        rw [hvalue, ← Nat.toDigits_append_toDigits (by omega) (Nat.pos_of_ne_zero hinit) hlt,
          Nat.toDigits_of_lt_base hlt, hchar, ← List.append_assoc, ← hzeros]

/-- The digits of a number, with zeros in front up to a length. -/
def padded (length n : ℕ) : List Char :=
  List.replicate (length - (Nat.toDigits 10 n).length) '0' ++ Nat.toDigits 10 n

theorem length_padded (length n : ℕ) :
    (padded length n).length = max length (Nat.toDigits 10 n).length := by
  rw [padded, List.length_append, List.length_replicate]
  omega

theorem padded_digits (length n : ℕ) : ∀ c ∈ padded length n, c.isDigit := by
  intro c hc
  rcases List.mem_append.mp hc with hzero | hdigit
  · obtain rfl := List.eq_of_mem_replicate hzero
    rfl
  · exact Nat.isDigit_of_mem_toDigits (by omega) (by omega) hdigit

theorem decimalValue_padded (length n : ℕ) : decimalValue (padded length n) = n := by
  rw [padded, decimalValue_append, decimalValue, Nat.ofDigitChars_replicate_zero, Nat.mul_zero,
    Nat.mul_zero, Nat.zero_add]
  exact Nat.ofDigitChars_ten_toDigits

theorem head_toDigits_ne_zero {n : ℕ} (h : 0 < n) : (Nat.toDigits 10 n).head? ≠ some '0' := by
  induction n using Nat.strong_induction_on with
  | _ n ih =>
      by_cases hlt : n < 10
      · rw [Nat.toDigits_of_lt_base hlt, List.head?_cons, Ne, Option.some.injEq, Nat.digitChar_eq_zero]
        omega
      · rw [Nat.toDigits_of_base_le (by omega) (by omega), List.head?_append_of_ne_nil _ Nat.toDigits_ne_nil]
        exact ih (n / 10) (by omega) (by omega)

/-! ### Decimals -/

structure Decimal where
  negative : Bool
  whole : List Char
  frac : List Char
  whole_ne_nil : whole ≠ []
  whole_digits : ∀ c ∈ whole, c.isDigit
  frac_digits : ∀ c ∈ frac, c.isDigit

namespace Decimal

variable {d : Decimal} {places : ℕ}

@[ext] theorem ext {d d' : Decimal} (hnegative : d.negative = d'.negative) (hwhole : d.whole = d'.whole)
    (hfrac : d.frac = d'.frac) : d = d' := by
  cases d
  cases d'
  cases hnegative
  cases hwhole
  cases hfrac
  rfl

def text (d : Decimal) : List Char :=
  (if d.negative then ['-'] else []) ++ d.whole ++ (if d.frac = [] then [] else '.' :: d.frac)

/-- The value in units of the last place. -/
def units (d : Decimal) : ℤ :=
  if d.negative then -(decimalValue (d.whole ++ d.frac)) else decimalValue (d.whole ++ d.frac)

def value (d : Decimal) : ℚ := d.units / 10 ^ d.frac.length

/-- No leading zero, and a minus for the negative values only. -/
structure Canonical (places : ℕ) (d : Decimal) : Prop where
  frac_length : d.frac.length = places
  lead : d.whole.length = 1 ∨ d.whole.head? ≠ some '0'
  sign : d.negative = true ↔ d.value < 0

theorem value_neg_iff : d.value < 0 ↔ d.units < 0 := by
  rw [value, div_lt_iff₀ (by positivity), zero_mul]
  exact Int.cast_lt_zero

theorem natAbs_units (d : Decimal) : d.units.natAbs = decimalValue (d.whole ++ d.frac) := by
  unfold units
  split
  · rw [Int.natAbs_neg, Int.natAbs_natCast]
  · exact Int.natAbs_natCast _

/-! ### Reading a text -/

theorem head_text (d : Decimal) : d.text.head? = some '-' ↔ d.negative = true := by
  cases hneg : d.negative with
  | true => simp [text, hneg]
  | false =>
      cases hwhole : d.whole with
      | nil => exact absurd hwhole d.whole_ne_nil
      | cons c cs =>
          have hdigit : c.isDigit := d.whole_digits c (by simp [hwhole])
          have hminus : c ≠ '-' := by
            rintro rfl
            cases hdigit
          simp [text, hneg, hwhole, hminus]

/-- A text without its sign. -/
def unsigned (text : List Char) : List Char := if text.head? = some '-' then text.tail else text

theorem unsigned_text (d : Decimal) :
    unsigned d.text = d.whole ++ (if d.frac = [] then [] else '.' :: d.frac) := by
  simp only [unsigned, head_text]
  cases hneg : d.negative with
  | true => simp [text, hneg]
  | false => simp [text, hneg]

theorem takeWhile_text (d : Decimal) : (unsigned d.text).takeWhile Char.isDigit = d.whole := by
  rw [unsigned_text, List.takeWhile_append_of_pos d.whole_digits]
  split
  · rw [List.takeWhile_nil, List.append_nil]
  · rw [List.takeWhile_cons_of_neg (by decide), List.append_nil]

theorem dropWhile_text (d : Decimal) :
    (unsigned d.text).dropWhile Char.isDigit = if d.frac = [] then [] else '.' :: d.frac := by
  rw [unsigned_text, List.dropWhile_append_of_pos d.whole_digits]
  split
  · rw [List.dropWhile_nil]
  · rw [List.dropWhile_cons_of_neg (by decide)]

/-- A text says which decimal it is. -/
theorem text_injective {d d' : Decimal} (h : d.text = d'.text) : d = d' := by
  refine Decimal.ext ?_ ?_ ?_
  · rw [Bool.eq_iff_iff, ← head_text, ← head_text, h]
  · rw [← takeWhile_text, ← takeWhile_text, h]
  · have hrest := dropWhile_text d
    rw [h, dropWhile_text d'] at hrest
    split at hrest
    · next hnil' =>
        split at hrest
        · next hnil => rw [hnil, hnil']
        · cases hrest
    · split at hrest
      · cases hrest
      · exact (List.cons.inj hrest).2.symm

/-! ### The canonical form -/

theorem split_whole_ne_nil (n : ℕ) :
    (padded (places + 1) n).take ((padded (places + 1) n).length - places) ≠ [] := by
  have hlength := length_padded (places + 1) n
  intro hnil
  have htake := congrArg List.length hnil
  rw [List.length_take, List.length_nil] at htake
  omega

theorem split_whole_digits (n : ℕ) :
    ∀ c ∈ (padded (places + 1) n).take ((padded (places + 1) n).length - places), c.isDigit :=
  fun c hc => padded_digits _ _ c (List.mem_of_mem_take hc)

theorem split_frac_digits (n : ℕ) :
    ∀ c ∈ (padded (places + 1) n).drop ((padded (places + 1) n).length - places), c.isDigit :=
  fun c hc => padded_digits _ _ c (List.mem_of_mem_drop hc)

/-- The decimal of a multiple of the last place. -/
def fixed (places : ℕ) (n : ℤ) : Decimal where
  negative := decide (n < 0)
  whole := (padded (places + 1) n.natAbs).take ((padded (places + 1) n.natAbs).length - places)
  frac := (padded (places + 1) n.natAbs).drop ((padded (places + 1) n.natAbs).length - places)
  whole_ne_nil := split_whole_ne_nil n.natAbs
  whole_digits := split_whole_digits n.natAbs
  frac_digits := split_frac_digits n.natAbs

theorem whole_fixed (n : ℤ) : (fixed places n).whole =
    (padded (places + 1) n.natAbs).take ((padded (places + 1) n.natAbs).length - places) := rfl

theorem frac_fixed (n : ℤ) : (fixed places n).frac =
    (padded (places + 1) n.natAbs).drop ((padded (places + 1) n.natAbs).length - places) := rfl

theorem fixed_digits (n : ℤ) :
    (fixed places n).whole ++ (fixed places n).frac = padded (places + 1) n.natAbs :=
  List.take_append_drop _ _

theorem length_frac_fixed (n : ℤ) : (fixed places n).frac.length = places := by
  have hlength := length_padded (places + 1) n.natAbs
  rw [frac_fixed, List.length_drop]
  omega

theorem text_fixed (n : ℤ) : (fixed places n).text =
    (if n < 0 then ['-'] else []) ++ (fixed places n).whole ++
      (if places = 0 then [] else '.' :: (fixed places n).frac) := by
  have hsign : (fixed places n).negative = decide (n < 0) := rfl
  have hfrac : (fixed places n).frac = [] ↔ places = 0 := by
    rw [← List.length_eq_zero_iff, length_frac_fixed]
  simp only [text, hsign, decide_eq_true_iff, hfrac]

theorem units_fixed (n : ℤ) : (fixed places n).units = n := by
  have hsign : (fixed places n).negative = decide (n < 0) := rfl
  rw [units, fixed_digits, decimalValue_padded, hsign]
  by_cases hneg : n < 0
  · rw [if_pos (decide_eq_true hneg)]
    omega
  · rw [if_neg (by simpa using hneg)]
    omega

theorem value_fixed (n : ℤ) : (fixed places n).value = n / 10 ^ places := by
  rw [value, units_fixed, length_frac_fixed]

theorem canonical_fixed (n : ℤ) : (fixed places n).Canonical places where
  frac_length := length_frac_fixed n
  lead := by
    have hlength := length_padded (places + 1) n.natAbs
    by_cases hpadded : (Nat.toDigits 10 n.natAbs).length ≤ places + 1
    · left
      rw [whole_fixed, List.length_take]
      omega
    · -- longer than the padding, so the first digit is that of the number
      right
      have hpos : 0 < n.natAbs := by
        by_contra hzero
        rw [Nat.eq_zero_of_not_pos hzero, Nat.toDigits_zero, List.length_singleton] at hpadded
        omega
      have hplain : padded (places + 1) n.natAbs = Nat.toDigits 10 n.natAbs := by
        rw [padded, Nat.sub_eq_zero_of_le (by omega), List.replicate_zero, List.nil_append]
      rw [whole_fixed, hplain, List.head?_take, if_neg (by omega)]
      exact head_toDigits_ne_zero hpos
  sign := by
    rw [value_neg_iff, units_fixed]
    exact decide_eq_true_iff

/-- The canonical form of a value is unique. -/
theorem eq_fixed_of_canonical {n : ℤ} (h : d.Canonical places) (hvalue : d.value = n / 10 ^ places) :
    d = fixed places n := by
  have hunits : d.units = n := by
    rw [value, h.frac_length, div_left_inj' (by positivity)] at hvalue
    exact_mod_cast hvalue
  have hne : d.whole ++ d.frac ≠ [] := by
    intro hnil
    exact d.whole_ne_nil (List.append_eq_nil_iff.mp hnil).1
  have hdigits : d.whole ++ d.frac = padded (places + 1) n.natAbs := by
    obtain ⟨zeros, hzeros⟩ := digits_eq_padded hne fun c hc =>
      (List.mem_append.mp hc).elim (d.whole_digits c) (d.frac_digits c)
    rw [← natAbs_units, hunits] at hzeros
    have hlength := congrArg List.length hzeros
    rw [List.length_append, List.length_append, List.length_replicate, h.frac_length] at hlength
    rcases h.lead with hone | hlead
    · rw [hzeros, padded]
      congr 2
      omega
    · cases zeros with
      | zero =>
          have hwhole := List.length_pos_iff.mpr d.whole_ne_nil
          rw [hzeros, padded, Nat.sub_eq_zero_of_le (by omega)]
      | succ zeros =>
          have hhead := congrArg List.head? hzeros
          rw [List.head?_append_of_ne_nil _ d.whole_ne_nil, List.replicate_succ, List.cons_append,
            List.head?_cons] at hhead
          exact absurd hhead hlead
  have hnegative : d.negative = decide (n < 0) := by
    rw [Bool.eq_iff_iff, h.sign, value_neg_iff, hunits, decide_eq_true_iff]
  have hlength : (d.whole ++ d.frac).length - places = d.whole.length := by
    rw [List.length_append, h.frac_length]
    omega
  refine Decimal.ext hnegative ?_ ?_
  · rw [whole_fixed, ← hdigits, hlength, List.take_left]
  · rw [frac_fixed, ← hdigits, hlength, List.drop_left]

end Decimal

end MibServer.Lib
