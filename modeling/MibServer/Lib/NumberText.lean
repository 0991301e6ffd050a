import MibServer.Lib.Binary64
import MibServer.Lib.Decimal
import Mathlib.Data.Nat.Find

/-!
JavaScript numbers and their texts.

A number is printed with as few digits as bring it back, in the layout of
`Number.prototype.toString`. A text is read as the number nearest to its decimal value.
Reading what was printed gives the number again (`toNumber_text`).
-/

namespace MibServer.Lib

/-- A number other than NaN and the infinities. The two zeros, equal to each other, are one
here. -/
structure Double where
  value : ℚ
  exact : nearest value = value
  bounded : |value| < 2 ^ 1024

inductive Number where
  | finite (x : Double)
  | infinite (negative : Bool)
  | nan

/-- The number of a decimal value. -/
def toNumber (q : ℚ) : Number :=
  if h : |nearest q| < 2 ^ 1024 then .finite ⟨nearest q, nearest_nearest q, h⟩
  else .infinite (decide (q < 0))

def Number.finite? : Number → Option ℚ
  | .finite x => some x.value
  | _ => none

/-- The characters of a literal. -/
def isNumberChar (c : Char) : Bool := c.isDigit || ['-', '+', '.', 'e', 'E'].contains c

theorem toNumber_of_nearest {x : Double} {q : ℚ} (h : nearest q = x.value) : toNumber q = .finite x := by
  obtain ⟨value, exact, bounded⟩ := x
  dsimp only at h
  subst h
  rw [toNumber, dif_pos bounded]

/-! ### Literals -/

/-- A literal: the fraction has a point where it is there, the exponent an `e` and a sign. -/
def literal (negative : Bool) (whole frac : List Char) (exponent : Option ℤ) : List Char :=
  (if negative then ['-'] else []) ++ (whole ++ ((if frac = [] then [] else '.' :: frac) ++
    exponent.elim [] fun e => 'e' :: (if e < 0 then '-' else '+') :: Nat.toDigits 10 e.natAbs))

def literalValue (negative : Bool) (whole frac : List Char) (exponent : ℤ) : ℚ :=
  (if negative then -1 else 1) * (decimalValue (whole ++ frac) * 10 ^ (exponent - frac.length))

/-- The digits behind a point, if there is one, and what follows. -/
def readFraction (text : List Char) : Option (List Char × List Char) :=
  if text.head? = some '.' then
    if text.tail.takeWhile Char.isDigit = [] then none
    else some (text.tail.takeWhile Char.isDigit, text.tail.dropWhile Char.isDigit)
  else some ([], text)

def readDigits (text : List Char) : Option ℕ :=
  if text ≠ [] ∧ text.all Char.isDigit then some (decimalValue text) else none

/-- An exponent, which goes to the end of the text. -/
def readExponent : List Char → Option ℤ
  | [] => some 0
  | e :: text =>
      if e = 'e' ∨ e = 'E' then
        if text.head? = some '-' then (readDigits text.tail).map fun n : ℕ => -(n : ℤ)
        else if text.head? = some '+' then (readDigits text.tail).map Int.ofNat
        else (readDigits text).map Int.ofNat
      else none

/-- The value of a literal, without a zero in front of the whole part. -/
def readLiteral (text : List Char) : Option ℚ :=
  let body := Decimal.unsigned text
  let whole := body.takeWhile Char.isDigit
  if whole ≠ [] ∧ (whole.length = 1 ∨ whole.head? ≠ some '0') then
    (readFraction (body.dropWhile Char.isDigit)).bind fun (frac, rest) =>
      (readExponent rest).map fun e => literalValue (text.head? = some '-') whole frac e
  else none

/-! ### `Number(text)` -/

/-- The digits behind a point, of which there may be none, and what follows. -/
def readPoint : List Char → List Char × List Char
  | '.' :: text => (text.takeWhile Char.isDigit, text.dropWhile Char.isDigit)
  | text => ([], text)

/-- Digits before or behind a point, and an exponent; unlike in a literal, zeros may stand in
front. -/
def readUnsigned (text : List Char) : Option ℚ :=
  let whole := text.takeWhile Char.isDigit
  let (frac, rest) := readPoint (text.dropWhile Char.isDigit)
  if whole = [] ∧ frac = [] then none else (readExponent rest).map (literalValue false whole frac)

def readSigned : List Char → Option ℚ
  | '-' :: text => (readUnsigned text).map (- ·)
  | '+' :: text | text => readUnsigned text

def radix? (c : Char) : Option ℕ :=
  if c = 'x' ∨ c = 'X' then some 16
  else if c = 'o' ∨ c = 'O' then some 8
  else if c = 'b' ∨ c = 'B' then some 2
  else none

/-- The value of a digit or, from ten on, of a letter in either case. -/
def digitValue (c : Char) : ℕ :=
  if c.isDigit then c.toNat - '0'.toNat else c.toLower.toNat - 'a'.toNat + 10

def readRadix (base : ℕ) (digits : List Char) : Option ℕ :=
  if digits ≠ [] ∧ digits.all (fun c => c.isAlphanum && digitValue c < base) then
    some (digits.foldl (fun n c => base * n + digitValue c) 0)
  else none

/-- A text without spaces around it, `none` for `NaN`. -/
def readNumeric : List Char → Option ℚ
  | [] => some 0
  | '0' :: c :: digits =>
      match radix? c with
      | some base => (readRadix base digits).map Nat.cast
      | none => readSigned ('0' :: c :: digits)
  | text => readSigned text

/-! ### Texts of literals -/

variable {negative : Bool} {whole frac : List Char} {exponent : Option ℤ}

theorem isNumberChar_of_isDigit {c : Char} (h : c.isDigit) : isNumberChar c := by
  rw [isNumberChar, h, Bool.true_or]

theorem literal_chars (hwhole : ∀ c ∈ whole, c.isDigit) (hfrac : ∀ c ∈ frac, c.isDigit) :
    ∀ c ∈ literal negative whole frac exponent, isNumberChar c := by
  have hexponent : ∀ n : ℕ, ∀ c ∈ Nat.toDigits 10 n, isNumberChar c :=
    fun n c hc => isNumberChar_of_isDigit (Nat.isDigit_of_mem_toDigits (by omega) (by omega) hc)
  intro c hc
  simp only [literal, List.mem_append] at hc
  rcases hc with hsign | hc | hpoint | htail
  · split at hsign
    · rw [List.mem_singleton.mp hsign]
      rfl
    · cases hsign
  · exact isNumberChar_of_isDigit (hwhole c hc)
  · split at hpoint
    · cases hpoint
    · rcases List.mem_cons.mp hpoint with rfl | hc
      · rfl
      · exact isNumberChar_of_isDigit (hfrac c hc)
  · cases exponent with
    | none => cases htail
    | some e =>
        rw [Option.elim_some, List.mem_cons, List.mem_cons] at htail
        rcases htail with rfl | rfl | hc
        · rfl
        · split <;> rfl
        · exact hexponent _ c hc

theorem readDigits_toDigits (n : ℕ) : readDigits (Nat.toDigits 10 n) = some n := by
  have hdigits : ∀ c ∈ Nat.toDigits 10 n, c.isDigit :=
    fun c hc => Nat.isDigit_of_mem_toDigits (by omega) (by omega) hc
  rw [readDigits, if_pos ⟨Nat.toDigits_ne_nil, List.all_eq_true.mpr hdigits⟩, decimalValue,
    Nat.ofDigitChars_ten_toDigits]

theorem readExponent_elim (exponent : Option ℤ) :
    readExponent (exponent.elim [] fun e => 'e' :: (if e < 0 then '-' else '+') :: Nat.toDigits 10 e.natAbs)
      = some (exponent.getD 0) := by
  cases exponent with
  | none => rfl
  | some e =>
      by_cases hneg : e < 0
      · simp only [Option.elim_some, readExponent, hneg, if_true, true_or, List.head?_cons, List.tail_cons,
          readDigits_toDigits, Option.map_some, Option.getD_some, Option.some.injEq]
        omega
      · simp only [Option.elim_some, readExponent, hneg, if_true, if_false, true_or, List.head?_cons,
          List.tail_cons, readDigits_toDigits, Option.map_some, Option.getD_some, Option.some.injEq,
          Char.reduceEq]
        exact Int.natAbs_of_nonneg (by omega)

/-- What follows digits ends them if it starts with something else. -/
theorem span_append {α : Type} {p : α → Bool} {xs rest : List α} (h : ∀ x ∈ xs, p x)
    (hrest : ∀ x ∈ rest.head?, p x = false) :
    (xs ++ rest).takeWhile p = xs ∧ (xs ++ rest).dropWhile p = rest := by
  rw [List.takeWhile_append_of_pos h, List.dropWhile_append_of_pos h]
  cases rest with
  | nil => exact ⟨List.append_nil _, rfl⟩
  | cons x rest =>
      have hx : ¬ p x := by simpa using hrest x rfl
      rw [List.takeWhile_cons_of_neg hx, List.dropWhile_cons_of_neg hx]
      exact ⟨List.append_nil _, rfl⟩

theorem head_exponent (exponent : Option ℤ) :
    ∀ c ∈ (exponent.elim [] fun e => 'e' :: (if e < 0 then '-' else '+') :: Nat.toDigits 10 e.natAbs).head?,
      c = 'e' := by
  cases exponent with
  | none => simp
  | some e => simp

theorem readFraction_elim (hfrac : ∀ c ∈ frac, c.isDigit) {rest : List Char}
    (hrest : ∀ c ∈ rest.head?, c = 'e') :
    readFraction ((if frac = [] then [] else '.' :: frac) ++ rest) = some (frac, rest) := by
  have hdigit : ∀ c ∈ rest.head?, c.isDigit = false := fun c hc => hrest c hc ▸ rfl
  by_cases hnil : frac = []
  · have hpoint : rest.head? ≠ some '.' := by
      intro hpoint
      cases hrest '.' hpoint
    rw [if_pos hnil, List.nil_append, readFraction, if_neg hpoint, hnil]
  · obtain ⟨htake, hdrop⟩ := span_append hfrac hdigit
    rw [if_neg hnil, List.cons_append, readFraction, List.head?_cons, if_pos rfl, List.tail_cons, htake,
      hdrop, if_neg hnil]

/-- A literal is read as its value. -/
theorem readLiteral_literal (hwhole : ∀ c ∈ whole, c.isDigit) (hfrac : ∀ c ∈ frac, c.isDigit)
    (hne : whole ≠ []) (hlead : whole.length = 1 ∨ whole.head? ≠ some '0') :
    readLiteral (literal negative whole frac exponent) =
      some (literalValue negative whole frac (exponent.getD 0)) := by
  set tail := exponent.elim [] fun e => 'e' :: (if e < 0 then '-' else '+') :: Nat.toDigits 10 e.natAbs
    with htail
  have hrest := head_exponent exponent
  rw [← htail] at hrest
  have hplain : ∀ c ∈ ((if frac = [] then [] else '.' :: frac) ++ tail).head?, c.isDigit = false := by
    by_cases hnil : frac = []
    · rw [if_pos hnil, List.nil_append]
      exact fun c hc => hrest c hc ▸ rfl
    · rw [if_neg hnil, List.cons_append, List.head?_cons]
      rintro c ⟨⟩
      rfl
  obtain ⟨htake, hdrop⟩ := span_append hwhole hplain
  have hminus : whole.head? ≠ some '-' := by
    intro hhead
    have hdigit := hwhole '-' (List.mem_of_mem_head? hhead)
    cases hdigit
  have hsign : (literal negative whole frac exponent).head? = some '-' ↔ negative = true := by
    cases negative with
    | true => simp [literal]
    | false => simp [literal, List.head?_append_of_ne_nil _ hne, hminus]
  have hbody : Decimal.unsigned (literal negative whole frac exponent) =
      whole ++ ((if frac = [] then [] else '.' :: frac) ++ tail) := by
    rw [Decimal.unsigned]
    simp only [hsign]
    cases negative with
    | true => rfl
    | false => rfl
  simp only [readLiteral, hbody, htake, hdrop, hsign, Bool.decide_eq_true]
  rw [if_pos ⟨hne, hlead⟩, readFraction_elim hfrac hrest, Option.bind_some, readExponent_elim]
  rfl

/-! ### Layouts -/

/-- The text of digits with the decimal point behind the first `n` of them. -/
def layout (negative : Bool) (digits : List Char) (n : ℤ) : List Char :=
  if digits.length ≤ n ∧ n ≤ 21 then
    literal negative (digits ++ List.replicate (n - digits.length).toNat '0') [] none
  else if 0 < n ∧ n ≤ 21 then literal negative (digits.take n.toNat) (digits.drop n.toNat) none
  else if -6 < n ∧ n ≤ 0 then literal negative ['0'] (List.replicate (-n).toNat '0' ++ digits) none
  else literal negative (digits.take 1) (digits.drop 1) (some (n - 1))

variable {digits : List Char} {n : ℤ}

theorem decimalValue_replicate (m : ℕ) : decimalValue (List.replicate m '0') = 0 := by
  rw [decimalValue, Nat.ofDigitChars_replicate_zero, Nat.mul_zero]

theorem layout_digits (h : ∀ c ∈ digits, c.isDigit) (m : ℕ) :
    (∀ c ∈ digits ++ List.replicate m '0', c.isDigit) ∧ ∀ c ∈ List.replicate m '0' ++ digits, c.isDigit := by
  have hzeros : ∀ c ∈ List.replicate m '0', c.isDigit := by
    intro c hc
    rw [List.eq_of_mem_replicate hc]
    rfl
  constructor
  · exact fun c hc => (List.mem_append.mp hc).elim (h c) (hzeros c)
  · exact fun c hc => (List.mem_append.mp hc).elim (hzeros c) (h c)

/-- Every layout of digits reads as the same number. -/
theorem readLiteral_layout (hdigits : ∀ c ∈ digits, c.isDigit) (hne : digits ≠ [])
    (hhead : digits.head? ≠ some '0') :
    readLiteral (layout negative digits n) =
      some ((if negative then -1 else 1) * ((decimalValue digits : ℚ) * 10 ^ (n - digits.length))) := by
  have hlength := List.length_pos_iff.mpr hne
  have htake : ∀ m, ∀ c ∈ digits.take m, c.isDigit := fun m c hc => hdigits c (List.mem_of_mem_take hc)
  have hdrop : ∀ m, ∀ c ∈ digits.drop m, c.isDigit := fun m c hc => hdigits c (List.mem_of_mem_drop hc)
  have htake_ne : ∀ m, 0 < m → digits.take m ≠ [] := by
    intro m hm hnil
    rcases List.take_eq_nil_iff.mp hnil with hzero | hnil
    · omega
    · exact hne hnil
  unfold layout
  split
  · next hwhole =>
      rw [readLiteral_literal (layout_digits hdigits _).1 (List.forall_mem_nil _)]
      · rw [literalValue, List.append_nil, decimalValue_append, decimalValue_replicate, List.length_replicate]
        obtain ⟨m, hm⟩ := Int.eq_ofNat_of_zero_le (show 0 ≤ n - digits.length by omega)
        rw [hm, Int.toNat_natCast, zpow_natCast]
        push_cast
        simp [mul_comm]
      · exact fun hnil => hne (List.append_eq_nil_iff.mp hnil).1
      · right
        rwa [List.head?_append_of_ne_nil _ hne]
  · split
    · next hpoint =>
        rw [readLiteral_literal (htake _) (hdrop _) (htake_ne _ (by omega))]
        · rw [literalValue, List.take_append_drop, List.length_drop, Option.getD_none]
          have hplace : (0 : ℤ) - (digits.length - n.toNat : ℕ) = n - digits.length := by omega
          rw [hplace]
        · right
          rwa [List.head?_take, if_neg (by omega)]
    · split
      · next hsmall =>
          rw [readLiteral_literal (by simp) (layout_digits hdigits _).2 (by simp) (Or.inl rfl)]
          have hvalue : decimalValue (['0'] ++ (List.replicate (-n).toNat '0' ++ digits)) =
              decimalValue digits := by
            rw [decimalValue_append, decimalValue_append, decimalValue_replicate]
            simp [decimalValue_singleton]
          have hplace : (0 : ℤ) - ((-n).toNat + digits.length : ℕ) = n - digits.length := by omega
          rw [literalValue, List.length_append, List.length_replicate, Option.getD_none, hvalue, hplace]
      · rw [readLiteral_literal (htake 1) (hdrop 1) (htake_ne 1 Nat.one_pos)]
        · rw [literalValue, List.take_append_drop, List.length_drop, Option.getD_some]
          have hplace : n - 1 - (digits.length - 1 : ℕ) = n - digits.length := by omega
          rw [hplace]
        · right
          rwa [List.head?_take, if_neg Nat.one_ne_zero]

theorem layout_chars (hdigits : ∀ c ∈ digits, c.isDigit) : ∀ c ∈ layout negative digits n, isNumberChar c := by
  unfold layout
  split
  · exact literal_chars (layout_digits hdigits _).1 (List.forall_mem_nil _)
  · split
    · exact literal_chars (fun c hc => hdigits c (List.mem_of_mem_take hc))
        (fun c hc => hdigits c (List.mem_of_mem_drop hc))
    · split
      · exact literal_chars (by simp) (layout_digits hdigits _).2
      · exact literal_chars (fun c hc => hdigits c (List.mem_of_mem_take hc))
          (fun c hc => hdigits c (List.mem_of_mem_drop hc))

/-! ### Printing -/

namespace Double

variable (x : Double)

/-- A multiple of `10 ^ t` next to the number that is read as it, the closest one first. -/
def significand? (t : ℤ) : Option ℤ :=
  [roundEven (x.value / 10 ^ t), ⌊x.value / 10 ^ t⌋, ⌈x.value / 10 ^ t⌉].find? fun s =>
    nearest (s * 10 ^ t) = x.value

/-- The place of the last of `k` digits; one more than the places of the number for `k = 0`. -/
def place (k : ℕ) : ℤ := Int.log 10 |x.value| + 1 - k

variable {x}

theorem nearest_of_significand? {s t : ℤ} (h : x.significand? t = some s) : nearest (s * 10 ^ t) = x.value := by
  simpa using List.find?_some h

theorem mul_two_zpow (m : ℤ) (d p : ℕ) :
    (m : ℚ) * 2 ^ (-(p : ℤ) + d) = (m * 2 ^ d * 5 ^ p : ℤ) * 10 ^ (-(p : ℤ)) := by
  have hten : (10 : ℚ) ^ (-(p : ℤ)) = 2 ^ (-(p : ℤ)) * 5 ^ (-(p : ℤ)) := by
    rw [← mul_zpow]
    norm_num
  have hfive : (5 : ℚ) ^ p * 5 ^ (-(p : ℤ)) = 1 := by
    rw [← zpow_natCast, ← zpow_add₀ (by norm_num), add_neg_cancel, zpow_zero]
  calc (m : ℚ) * 2 ^ (-(p : ℤ) + d) = m * 2 ^ d * 2 ^ (-(p : ℤ)) * (5 ^ p * 5 ^ (-(p : ℤ))) := by
        rw [hfive, zpow_add₀ two_ne_zero, zpow_natCast]
        ring
    _ = (m * 2 ^ d * 5 ^ p : ℤ) * 10 ^ (-(p : ℤ)) := by
        rw [hten]
        push_cast
        ring

/-- A number is a whole multiple of 10^-1074. -/
theorem exists_scaled (x : Double) : ∃ n : ℤ, x.value = n * 10 ^ (-1074 : ℤ) := by
  obtain ⟨m, e, -, he, hvalue⟩ := nearest_eq_mul x.value
  obtain ⟨d, hd⟩ := Int.le.dest he
  rw [x.exact, ← hd] at hvalue
  exact ⟨_, hvalue.trans (mul_two_zpow m d 1074)⟩

theorem exists_significand (x : Double) (h : x.value ≠ 0) : ∃ k, (x.significand? (x.place k)).isSome := by
  obtain ⟨n, hn⟩ := x.exists_scaled
  have hunit : (0 : ℚ) < 10 ^ (-1074 : ℤ) := zpow_pos (by norm_num) _
  have hsize : (10 : ℚ) ^ (-1074 : ℤ) ≤ |x.value| := by
    have hpos : 0 < |n| := by
      refine abs_pos.mpr ?_
      rintro rfl
      exact h (by rw [hn, Int.cast_zero, zero_mul])
    have hone : (1 : ℚ) ≤ |n| := by exact_mod_cast hpos
    rw [hn, abs_mul, abs_of_pos hunit, ← Int.cast_abs]
    exact le_mul_of_one_le_left (le_of_lt hunit) hone
  have hlog := (Int.zpow_le_iff_le_log (b := 10) (by norm_num) (abs_pos.mpr h)).mp hsize
  refine ⟨(Int.log 10 |x.value| + 1075).toNat, ?_⟩
  have hplace : x.place (Int.log 10 |x.value| + 1075).toNat = -1074 := by
    rw [place]
    omega
  have hscaled : x.value / 10 ^ (-1074 : ℤ) = n := by
    rw [div_eq_iff (ne_of_gt hunit)]
    exact hn
  rw [hplace, significand?, List.find?_isSome, hscaled]
  refine ⟨roundEven n, List.mem_cons_self, ?_⟩
  rw [roundEven_intCast, ← hn]
  exact decide_eq_true x.exact

/-- As few digits as possible. -/
def precision (x : Double) (h : x.value ≠ 0) : ℕ := Nat.find (x.exists_significand h)

theorem significand_isSome (x : Double) (h : x.value ≠ 0) :
    (x.significand? (x.place (x.precision h))).isSome := Nat.find_spec (x.exists_significand h)

def significand (x : Double) (h : x.value ≠ 0) : ℤ :=
  (x.significand? (x.place (x.precision h))).get (x.significand_isSome h)

/-- `Number.prototype.toString` -/
def text (x : Double) : List Char :=
  if h : x.value = 0 then ['0']
  else
    let digits := Nat.toDigits 10 (x.significand h).natAbs
    layout (x.significand h < 0) digits (x.place (x.precision h) + digits.length)

theorem text_chars (x : Double) : ∀ c ∈ x.text, isNumberChar c := by
  unfold text
  split
  · simp [isNumberChar]
  · exact layout_chars fun c hc => Nat.isDigit_of_mem_toDigits (by omega) (by omega) hc

theorem nearest_significand (h : x.value ≠ 0) :
    nearest (x.significand h * 10 ^ x.place (x.precision h)) = x.value :=
  nearest_of_significand? (Option.some_get _).symm

/-- What was printed is read as the number. -/
theorem toNumber_text (x : Double) : (readLiteral x.text).map toNumber = some (.finite x) := by
  by_cases h : x.value = 0
  · have hzero : readLiteral ['0'] = some 0 := by
      rw [show ['0'] = literal false ['0'] [] none by rfl, readLiteral_literal (by simp) (by simp) (by simp)
        (Or.inl rfl), literalValue]
      simp [decimalValue_singleton]
    rw [text, dif_pos h, hzero, Option.map_some, toNumber_of_nearest]
    rw [h]
    exact nearest_intCast (n := 0) (by norm_num)
  · have hnearest := nearest_significand h
    have hpos : 0 < (x.significand h).natAbs := by
      refine Int.natAbs_pos.mpr ?_
      intro hzero
      rw [hzero, Int.cast_zero, zero_mul] at hnearest
      exact h (hnearest.symm.trans (nearest_intCast (n := 0) (by norm_num)))
    have hdigits : ∀ c ∈ Nat.toDigits 10 (x.significand h).natAbs, c.isDigit :=
      fun c hc => Nat.isDigit_of_mem_toDigits (by omega) (by omega) hc
    have hsigned : (if decide (x.significand h < 0) then (-1 : ℚ) else 1) * (x.significand h).natAbs =
        x.significand h := by
      by_cases hneg : x.significand h < 0
      · rw [if_pos (decide_eq_true hneg), neg_one_mul, Nat.cast_natAbs, abs_of_neg hneg, Int.cast_neg, neg_neg]
      · rw [if_neg (by simpa using hneg), one_mul, Nat.cast_natAbs, abs_of_nonneg (by omega)]
    rw [text, dif_neg h, readLiteral_layout hdigits Nat.toDigits_ne_nil (head_toDigits_ne_zero hpos),
      Option.map_some, toNumber_of_nearest]
    rw [decimalValue, Nat.ofDigitChars_ten_toDigits, ← mul_assoc, hsigned, add_sub_cancel_right]
    exact hnearest

end Double

end MibServer.Lib
