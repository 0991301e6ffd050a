import Mathlib.Data.List.DropRight
import Mathlib.Data.String.Basic
import MibServer.Auth.JwtExpiry

/-!
How the two readings of `JWT_EXPIRES_IN` compare.

Where the value is a number both take it as the same seconds. A timespan is not a number, so
`ms` gives the lifetime of the token; `getJwtExpiresInSeconds` agrees with it on the
timespans of its own form (`Timespan.Simple`) and takes seven days for every other.
-/

namespace MibServer.Auth

open MibServer.Lib

/-! ### Characters -/

theorem isDigit_range {c : Char} (h : c.isDigit = true) : 48 ≤ c.toNat ∧ c.toNat ≤ 57 := by
  simp only [Char.isDigit, Bool.and_eq_true, decide_eq_true_eq, ge_iff_le, UInt32.le_iff_toNat_le] at h
  exact h

/-- What is a letter in lower case is a letter. -/
theorem letter_range {c : Char} (h : c.toLower.isLower = true) :
    65 ≤ c.toNat ∧ c.toNat ≤ 90 ∨ 97 ≤ c.toNat ∧ c.toNat ≤ 122 := by
  by_cases hupper : c.val ≥ 65 ∧ c.val ≤ 90
  · exact Or.inl hupper
  · have hsame : c.toLower = c := dif_neg hupper
    rw [hsame] at h
    have hlower : c.val ≥ 97 ∧ c.val ≤ 122 := of_decide_eq_true ((Bool.decide_and _ _).trans h)
    exact Or.inr hlower

theorem not_isJsSpace {c : Char}
    (h : 45 ≤ c.toNat ∧ c.toNat ≤ 57 ∨ 65 ≤ c.toNat ∧ c.toNat ≤ 90 ∨ 97 ≤ c.toNat ∧ c.toNat ≤ 122) :
    isJsSpace c = false := by
  simp only [isJsSpace, List.contains_eq_mem, List.mem_cons, List.not_mem_nil, or_false,
    Bool.or_eq_false_iff, decide_eq_false_iff_not, Bool.and_eq_false_iff]
  omega

/-! ### `trim` -/

theorem trim_eq (text : String) :
    trim text = String.ofList ((text.toList.dropWhile isJsSpace).rdropWhile isJsSpace) := rfl

theorem trim_trim (text : String) : trim (trim text) = trim text := by
  rw [trim_eq (trim text), trim_eq text, String.toList_ofList]
  generalize hm : text.toList.dropWhile isJsSpace = m
  have hhead : (m.rdropWhile isJsSpace).dropWhile isJsSpace = m.rdropWhile isJsSpace := by
    refine List.dropWhile_eq_self_iff.mpr fun hpos => ?_
    obtain ⟨rest, hrest⟩ := m.rdropWhile_prefix (p := isJsSpace)
    have hm' : m.dropWhile isJsSpace = m := by rw [← hm, List.dropWhile_idempotent]
    have hlength : 0 < m.length := by
      rw [← hrest, List.length_append]
      omega
    have hfirst := List.dropWhile_eq_self_iff.mp hm' hlength
    have hsame : m[0]? = (m.rdropWhile isJsSpace)[0]? := by
      have happend : (m.rdropWhile isJsSpace ++ rest)[0]? = (m.rdropWhile isJsSpace)[0]? :=
        List.getElem?_append_left hpos
      rwa [hrest] at happend
    rw [List.getElem?_eq_getElem hlength, List.getElem?_eq_getElem hpos] at hsame
    rwa [← Option.some.inj hsame]
  rw [hhead, List.rdropWhile_idempotent]

theorem finiteNumber_trim (value : String) : finiteNumber (trim value) = finiteNumber value := by
  rw [finiteNumber, finiteNumber, trim_trim]

/-! ### The text of a timespan -/

theorem TimeUnit.names_spelled (unit : TimeUnit) :
    ∀ n ∈ unit.names, n.toList.head?.any (['m', 's', 'h', 'd', 'w', 'y'].contains ·) = true ∧
      n.toList.all Char.isLower = true := by
  cases unit <;> decide

namespace Timespan

variable (d : Timespan)

theorem name_spelled : ∃ n ∈ d.unit.names, d.name.map Char.toLower = n.toList :=
  ⟨_, d.named, by rw [String.toList_ofList]⟩

theorem name_letter {c : Char} (h : c ∈ d.name) :
    65 ≤ c.toNat ∧ c.toNat ≤ 90 ∨ 97 ≤ c.toNat ∧ c.toNat ≤ 122 := by
  obtain ⟨n, hn, hname⟩ := d.name_spelled
  have hlower := List.all_eq_true.mp (d.unit.names_spelled n hn).2
  exact letter_range (hlower _ (hname ▸ List.mem_map_of_mem h))

theorem name_cons : ∃ c rest, d.name = c :: rest ∧ c.toLower ∈ ['m', 's', 'h', 'd', 'w', 'y'] := by
  obtain ⟨n, hn, hname⟩ := d.name_spelled
  have hhead := (d.unit.names_spelled n hn).1
  rw [← hname] at hhead
  cases hd : d.name with
  | nil =>
      rw [hd] at hhead
      cases hhead
  | cons c rest =>
      rw [hd] at hhead
      exact ⟨c, rest, rfl, by simpa using hhead⟩

/-- The spaces or the unit stand where a number of JavaScript ends. -/
theorem tail_cons : ∃ c rest, d.tail = c :: rest ∧ c.isDigit = false ∧ c ≠ '.' ∧ c ≠ 'e' ∧ c ≠ 'E' ∧
    radix? c = none ∧ c ≠ '-' ∧ c ≠ '+' := by
  obtain ⟨c, rest, hname, hc⟩ := d.name_cons
  cases hspaces : d.spaces with
  | zero =>
      refine ⟨c, rest, by rw [tail, hspaces, hname]; rfl, ?_⟩
      have hrange := d.name_letter (hname ▸ List.mem_cons_self : c ∈ d.name)
      have hne : ∀ x : Char, x.toLower ∉ ['m', 's', 'h', 'd', 'w', 'y'] → c ≠ x := by
        rintro x hx rfl
        exact hx hc
      refine ⟨?_, hne _ (by decide), hne _ (by decide), hne _ (by decide), ?_, hne _ (by decide),
        hne _ (by decide)⟩
      · refine Bool.eq_false_iff.mpr fun hdigit => ?_
        have hdigits := isDigit_range hdigit
        omega
      · rw [radix?, if_neg, if_neg, if_neg]
        all_goals
          rintro (h | h)
          · exact hne _ (by decide) h
          · exact hne _ (by decide) h
  | succ n =>
      refine ⟨' ', List.replicate n ' ' ++ d.name, by rw [tail, hspaces]; rfl, ?_⟩
      decide

/-- What follows the whole part begins with a point or is the tail. -/
theorem rest_cons : ∃ c rest, d.rest = c :: rest ∧ c.isDigit = false ∧ radix? c = none ∧ c ≠ '-' ∧ c ≠ '+' := by
  unfold rest
  cases d.fraction with
  | none =>
      obtain ⟨c, rest, htail, hdigit, -, -, -, hradix, hminus, hplus⟩ := d.tail_cons
      exact ⟨c, rest, htail, hdigit, hradix, hminus, hplus⟩
  | some f => exact ⟨'.', f ++ d.tail, rfl, by decide⟩

theorem takeWhile_unsigned : d.unsigned.takeWhile Char.isDigit = d.whole := by
  obtain ⟨c, rest, hrest, hdigit, -⟩ := d.rest_cons
  rw [unsigned, List.takeWhile_append_of_pos (List.all_eq_true.mp d.whole_digits), hrest,
    List.takeWhile_cons_of_neg (by simp [hdigit]), List.append_nil]

theorem dropWhile_unsigned : d.unsigned.dropWhile Char.isDigit = d.rest := by
  obtain ⟨c, rest, hrest, hdigit, -⟩ := d.rest_cons
  rw [unsigned, List.dropWhile_append_of_pos (List.all_eq_true.mp d.whole_digits), hrest,
    List.dropWhile_cons_of_neg (by simp [hdigit])]

theorem readPoint_rest : readPoint d.rest = (d.fraction.getD [], d.tail) := by
  obtain ⟨c, rest, htail, hdigit, hpoint, -⟩ := d.tail_cons
  unfold Timespan.rest
  cases hfraction : d.fraction with
  | none =>
      simp only [Option.getD_none]
      rw [htail]
      unfold readPoint
      split
      · rename_i heq
        cases heq
        exact absurd rfl hpoint
      · rfl
  | some f =>
      have hf := List.all_eq_true.mp (d.fraction_digits f hfraction).2
      simp only [Option.getD_some, readPoint]
      rw [List.takeWhile_append_of_pos hf, List.dropWhile_append_of_pos hf, htail,
        List.takeWhile_cons_of_neg (by simp [hdigit]), List.dropWhile_cons_of_neg (by simp [hdigit]),
        List.append_nil]

/-! ### A timespan is not a number -/

theorem readUnsigned_unsigned : readUnsigned d.unsigned = none := by
  obtain ⟨c, rest, htail, -, -, he, hE, -⟩ := d.tail_cons
  have hexponent : readExponent d.tail = none := by
    rw [htail]
    simp [readExponent, he, hE]
  simp only [readUnsigned, takeWhile_unsigned, dropWhile_unsigned, readPoint_rest, hexponent]
  split
  · rfl
  · rfl

theorem unsigned_cons : ∃ c rest, d.unsigned = c :: rest ∧ c ≠ '-' ∧ c ≠ '+' ∧
    (45 ≤ c.toNat ∧ c.toNat ≤ 57) := by
  unfold unsigned
  cases hwhole : d.whole with
  | nil =>
      cases hfraction : d.fraction with
      | none => exact absurd hwhole (d.number hfraction)
      | some f =>
          refine ⟨'.', f ++ d.tail, by rw [rest, hfraction]; rfl, ?_⟩
          decide
  | cons c whole =>
      have hdigit := isDigit_range (List.all_eq_true.mp d.whole_digits c (hwhole ▸ List.mem_cons_self))
      refine ⟨c, whole ++ d.rest, rfl, ?_, ?_, by omega⟩
      · rintro rfl
        revert hdigit
        decide
      · rintro rfl
        revert hdigit
        decide

theorem readSigned_unsigned : readSigned d.unsigned = none := by
  obtain ⟨c, rest, hunsigned, hminus, hplus, -⟩ := d.unsigned_cons
  have hnone := d.readUnsigned_unsigned
  rw [hunsigned] at hnone ⊢
  unfold readSigned
  split
  · rename_i heq
    cases heq
    exact absurd rfl hminus
  · rename_i heq
    cases heq
    exact absurd rfl hplus
  · exact hnone

theorem radix_digit {c : Char} (h : c.isDigit = true) : radix? c = none := by
  have hne : ∀ x : Char, x.isDigit = false → c ≠ x := by
    rintro x hx rfl
    rw [hx] at h
    cases h
  rw [radix?, if_neg, if_neg, if_neg]
  all_goals
    rintro (h | h)
    · exact hne _ (by decide) h
    · exact hne _ (by decide) h

/-- After a first zero comes a digit, a point or the tail. -/
theorem radix_second {c : Char} {digits : List Char} (h : d.unsigned = '0' :: c :: digits) :
    radix? c = none := by
  obtain ⟨first, rest, hrest, hdigit, hradix, -⟩ := d.rest_cons
  rw [unsigned, hrest] at h
  have hall := List.all_eq_true.mp d.whole_digits
  cases hwhole : d.whole with
  | nil =>
      rw [hwhole] at h
      cases h
      cases hdigit
  | cons zero whole =>
      rw [hwhole] at h hall
      cases whole with
      | nil =>
          cases h
          exact hradix
      | cons c' whole =>
          cases h
          exact radix_digit (hall c (List.mem_cons_of_mem _ List.mem_cons_self))

theorem readNumeric_chars : readNumeric d.chars = none := by
  unfold chars
  split
  · simp [readNumeric, readSigned, readUnsigned_unsigned]
  · have hnone := d.readSigned_unsigned
    obtain ⟨c, rest, hunsigned, -⟩ := d.unsigned_cons
    unfold readNumeric
    split
    · rename_i heq
      rw [hunsigned] at heq
      cases heq
    · rename_i c' digits heq
      rw [d.radix_second heq]
      exact heq ▸ hnone
    · exact hnone

/-- The name of the unit comes last, and something before it. -/
theorem unsigned_eq_append : ∃ before, before ≠ [] ∧ d.unsigned = before ++ d.name := by
  unfold unsigned rest tail
  cases hfraction : d.fraction with
  | none =>
      refine ⟨d.whole ++ List.replicate d.spaces ' ', ?_, (List.append_assoc ..).symm⟩
      exact List.append_ne_nil_of_left_ne_nil (d.number hfraction) _
  | some f =>
      refine ⟨d.whole ++ '.' :: (f ++ List.replicate d.spaces ' '), ?_, by simp⟩
      exact List.append_ne_nil_of_right_ne_nil _ (List.cons_ne_nil _ _)

/-- A timespan begins with a sign, a digit or a point and ends with a letter. -/
theorem chars_ends : ∃ first middle last, d.chars = first :: (middle ++ [last]) ∧
    isJsSpace first = false ∧ isJsSpace last = false := by
  obtain ⟨n, rest, hname, -⟩ := d.name_cons
  have hne : d.name ≠ [] := by
    rw [hname]
    exact List.cons_ne_nil _ _
  have hlast := not_isJsSpace (Or.inr (d.name_letter (List.getLast_mem hne)))
  -- The part before the name is not empty.
  have hbefore : ∃ first middle, d.chars = first :: middle ++ d.name ∧ isJsSpace first = false := by
    have hunsigned : ∃ first middle, d.unsigned = first :: middle ++ d.name ∧ isJsSpace first = false := by
      obtain ⟨before, hne, hunsigned⟩ := d.unsigned_eq_append
      obtain ⟨first, middle, rfl⟩ := List.exists_cons_of_ne_nil hne
      obtain ⟨c, rest', hcons, -, -, hrange⟩ := d.unsigned_cons
      obtain ⟨rfl, -⟩ := List.cons.inj (hcons.symm.trans hunsigned)
      exact ⟨c, middle, hunsigned, not_isJsSpace (Or.inl hrange)⟩
    obtain ⟨first, middle, hunsigned, hspace⟩ := hunsigned
    unfold chars
    split
    · exact ⟨'-', first :: middle, by rw [hunsigned]; rfl, by decide⟩
    · exact ⟨first, middle, hunsigned, hspace⟩
  obtain ⟨first, middle, hchars, hspace⟩ := hbefore
  refine ⟨first, middle ++ d.name.dropLast, d.name.getLast hne, ?_, hspace, hlast⟩
  rw [hchars, List.append_assoc, List.dropLast_append_getLast hne, List.cons_append]

theorem trim_text : trim d.text = d.text := by
  obtain ⟨first, middle, last, hchars, hfirst, hlast⟩ := d.chars_ends
  exact trim_eq_self (by rw [text, String.toList_ofList, hchars]) hfirst hlast

theorem finiteNumber_text : finiteNumber d.text = none := by
  rw [finiteNumber, trim_text, text, String.toList_ofList, readNumeric_chars]
  rfl

theorem getJwtExpiresIn_text : getJwtExpiresIn d.text = .text d.text := by
  rw [getJwtExpiresIn, finiteNumber_text]

/-! ### What the blacklist makes of a timespan -/

/-- The form the blacklist reads: no sign, no point, and a unit of one letter up to days. -/
def Simple : Prop :=
  d.negative = false ∧ d.fraction = none ∧ ∃ c, d.name = [c] ∧ c.toLower ∈ ['s', 'm', 'h', 'd']

theorem dropWhile_tail : d.tail.dropWhile isJsSpace = d.name := by
  obtain ⟨c, rest, hname, -⟩ := d.name_cons
  have hletter := not_isJsSpace (Or.inr (d.name_letter (hname ▸ List.mem_cons_self : c ∈ d.name)))
  rw [tail, List.dropWhile_append_of_pos fun x hx => ?_, hname, List.dropWhile_cons_of_neg (by simp [hletter])]
  rw [List.eq_of_mem_replicate hx]
  decide

theorem amountAndUnit_simple {c : Char} (hsign : d.negative = false) (hfraction : d.fraction = none)
    (hname : d.name = [c]) (hc : c.toLower ∈ ['s', 'm', 'h', 'd']) :
    amountAndUnit d.chars = some (d.whole, c) := by
  have hchars : d.chars = d.unsigned := by simp [chars, hsign]
  have hrest : d.rest = d.tail := by simp [rest, hfraction]
  simp only [amountAndUnit, hchars, takeWhile_unsigned, dropWhile_unsigned, hrest, dropWhile_tail, hname]
  rw [if_neg (d.number hfraction), if_pos (by simpa using hc)]

theorem amountAndUnit_other (h : ¬ d.Simple) : amountAndUnit d.chars = none := by
  cases hsign : d.negative with
  | true => simp [amountAndUnit, chars, hsign, Char.isDigit]
  | false =>
      have hchars : d.chars = d.unsigned := by simp [chars, hsign]
      simp only [amountAndUnit, hchars, takeWhile_unsigned, dropWhile_unsigned]
      split
      · rfl
      · cases hfraction : d.fraction with
        | some f =>
            obtain ⟨c, rest, htail, -⟩ := d.tail_cons
            have hrest : d.rest = '.' :: (f ++ c :: rest) := by simp [Timespan.rest, hfraction, htail]
            rw [hrest, List.dropWhile_cons_of_neg (by decide)]
            split
            · rename_i heq
              cases f <;> cases heq
            · rfl
        | none =>
            have hrest : d.rest = d.tail := by simp [rest, hfraction]
            rw [hrest, dropWhile_tail]
            split
            · rename_i c heq
              refine if_neg fun hc => h ⟨hsign, hfraction, c, heq, ?_⟩
              simpa using hc
            · rfl

theorem getJwtExpiresInSeconds_text : getJwtExpiresInSeconds d.text =
    match amountAndUnit d.chars with
    | none => 7 * 24 * 3600
    | some (amount, unit) => decimalValue amount * unitSeconds unit.toLower := by
  have hchars : d.text.toList = d.chars := by rw [text, String.toList_ofList]
  cases hparts : amountAndUnit d.chars with
  | none | some _ =>
      simp only [getJwtExpiresInSeconds, trim_text, finiteNumber_text, Option.filter_none, hchars, hparts]

theorem getJwtExpiresInSeconds_other (h : ¬ d.Simple) : getJwtExpiresInSeconds d.text = 604800 := by
  rw [getJwtExpiresInSeconds_text, d.amountAndUnit_other h]

theorem milliseconds_of_letter (unit : TimeUnit) {c : Char} (hc : c ∈ ['s', 'm', 'h', 'd'])
    (h : String.ofList [c] ∈ unit.names) : unit.milliseconds = unitSeconds c * 1000 := by
  simp only [List.mem_cons, List.not_mem_nil, or_false] at hc
  obtain rfl | rfl | rfl | rfl := hc
  all_goals cases unit <;> first | rfl | exact absurd h (by decide)

/-- In its own form the blacklist reads what `ms` reads. -/
theorem getJwtExpiresInSeconds_simple (h : d.Simple) :
    d.milliseconds / 1000 = (getJwtExpiresInSeconds d.text : ℚ) := by
  obtain ⟨hsign, hfraction, c, hname, hc⟩ := h
  have hunit : d.unit.milliseconds = unitSeconds c.toLower * 1000 := by
    refine milliseconds_of_letter d.unit hc ?_
    have hnamed := d.named
    rwa [hname] at hnamed
  rw [getJwtExpiresInSeconds_text, d.amountAndUnit_simple hsign hfraction hname hc]
  simp only [milliseconds, amount, hsign, hfraction, Option.getD_none, hunit, List.append_nil,
    List.length_nil, pow_zero, div_one]
  push_cast
  field_simp

end Timespan

/-! ### The two lifetimes -/

/-- What `jsonwebtoken` accepts for `expiresIn`: a whole number of seconds, or a timespan. -/
def Accepted (value : String) : Prop :=
  (∃ seconds : ℚ, finiteNumber value = some seconds ∧ trim value ≠ "" ∧ seconds.isInt = true) ∨
    ∃ d : Timespan, d.chars.length ≤ 100 ∧ value = d.text

/-- A timespan that the blacklist reads, or one of seven days at most. -/
def Covered (value : String) : Prop :=
  ∀ d : Timespan, value = d.text → d.Simple ∨ d.milliseconds < 604801000

section Lifetimes

variable {ms : String → Option ℚ} {value : String}

theorem Timespan.text_inj {d d' : Timespan} (h : d.text = d'.text) : d.chars = d'.chars :=
  String.ofList_inj.mp h

theorem tokenLifetime_text (hms : MsGrammar ms) {d : Timespan} (hlength : d.chars.length ≤ 100) :
    tokenLifetime ms (getJwtExpiresIn d.text) = some ⌊d.milliseconds / 1000⌋ := by
  rw [d.getJwtExpiresIn_text, tokenLifetime, hms d hlength, Option.map_some]

/-- A timespan that is accepted is within the length `ms` reads. -/
theorem Accepted.length_le {d : Timespan} (h : Accepted d.text) : d.chars.length ≤ 100 := by
  rcases h with ⟨seconds, hnumber, -⟩ | ⟨d', hlength, htext⟩
  · rw [d.finiteNumber_text] at hnumber
    cases hnumber
  · rwa [Timespan.text_inj htext]

/-- The blacklist entry of a covered value lasts as long as the token. -/
theorem lifetime_le (hms : MsGrammar ms) (hv : Accepted value) (hcovered : Covered value) {lifetime : Int}
    (hlifetime : tokenLifetime ms (getJwtExpiresIn value) = some lifetime) :
    lifetime ≤ 0 ∨ lifetime ≤ getJwtExpiresInSeconds value := by
  rcases hv with ⟨seconds, hnumber, htrim, hint⟩ | ⟨d, hlength, rfl⟩
  · have hread : getJwtExpiresIn value = .number seconds := by
      rw [getJwtExpiresIn, hnumber]
      exact if_pos htrim
    rw [hread, tokenLifetime, if_pos hint] at hlifetime
    cases hlifetime
    by_cases hpos : 0 < seconds
    · refine Or.inr (Int.le_of_eq ?_)
      have hseconds : getJwtExpiresInSeconds value = ⌊seconds⌋.toNat := by
        have hfilter : (some seconds).filter (0 < ·) = some seconds :=
          Option.filter_some_pos (decide_eq_true hpos)
        simp only [getJwtExpiresInSeconds, finiteNumber_trim, hnumber, hfilter]
      rw [hseconds, Int.toNat_of_nonneg (Int.floor_nonneg.mpr (le_of_lt hpos))]
    · exact Or.inl (Int.floor_nonpos (not_lt.mp hpos))
  · rw [tokenLifetime_text hms hlength] at hlifetime
    cases hlifetime
    refine Or.inr ?_
    by_cases hsimple : d.Simple
    · rw [d.getJwtExpiresInSeconds_simple hsimple, Int.floor_natCast]
    · rw [d.getJwtExpiresInSeconds_other hsimple]
      have hshort := (hcovered d rfl).resolve_left hsimple
      refine Int.lt_add_one_iff.mp (Int.floor_lt.mpr ?_)
      push_cast
      linarith

/-- Any other value gives a token that outlives its blacklist entry of seven days. -/
theorem lifetime_gt (hms : MsGrammar ms) (hv : Accepted value) (hcovered : ¬ Covered value) :
    ∃ lifetime, tokenLifetime ms (getJwtExpiresIn value) = some lifetime ∧
      getJwtExpiresInSeconds value = 604800 ∧ 604800 < lifetime := by
  obtain ⟨d, hd⟩ := not_forall.mp hcovered
  obtain ⟨rfl, hlong⟩ := Classical.not_imp.mp hd
  obtain ⟨hsimple, hlong⟩ := not_or.mp hlong
  refine ⟨_, tokenLifetime_text hms hv.length_le, d.getJwtExpiresInSeconds_other hsimple, ?_⟩
  have hfloor : (604801 : Int) ≤ ⌊d.milliseconds / 1000⌋ := by
    refine Int.le_floor.mpr ?_
    push_cast
    linarith
  omega

end Lifetimes

/-! ### A parser of timespans -/

def TimeUnit.ofName? (name : String) : Option TimeUnit :=
  [millisecond, second, minute, hour, day, week, year].find? fun unit => unit.names.contains name

theorem TimeUnit.ofName?_of_mem (unit : TimeUnit) :
    ∀ name ∈ unit.names, TimeUnit.ofName? name = some unit := by
  cases unit <;> decide

def parseUnsigned (text : List Char) : Option ℚ :=
  let (fraction, rest) := readPoint (text.dropWhile Char.isDigit)
  let size : ℚ := decimalValue (text.takeWhile Char.isDigit ++ fraction) / 10 ^ fraction.length
  (TimeUnit.ofName? (String.ofList ((rest.dropWhile (· = ' ')).map Char.toLower))).map fun unit =>
    size * unit.milliseconds

def parseMs (value : String) : Option ℚ :=
  match value.toList with
  | '-' :: text => (parseUnsigned text).map (- ·)
  | text => parseUnsigned text

namespace Timespan

variable (d : Timespan)

theorem dropSpaces_tail : d.tail.dropWhile (· = ' ') = d.name := by
  obtain ⟨c, rest, hname, hc⟩ := d.name_cons
  have hletter : c ≠ ' ' := by
    rintro rfl
    exact absurd hc (by decide)
  rw [tail, List.dropWhile_append_of_pos fun x hx => ?_, hname, List.dropWhile_cons_of_neg (by simp [hletter])]
  rw [List.eq_of_mem_replicate hx]
  rfl

theorem parseUnsigned_unsigned : parseUnsigned d.unsigned =
    some ((decimalValue (d.whole ++ d.fraction.getD []) : ℚ) / 10 ^ (d.fraction.getD []).length *
      (d.unit.milliseconds : ℚ)) := by
  simp only [parseUnsigned, takeWhile_unsigned, dropWhile_unsigned, readPoint_rest, dropSpaces_tail,
    d.unit.ofName?_of_mem _ d.named, Option.map_some]

end Timespan

/-- The parser reads the whole grammar. -/
theorem msGrammar_parseMs : MsGrammar parseMs := by
  intro d _
  rw [parseMs, Timespan.text, String.toList_ofList, Timespan.chars]
  cases hsign : d.negative with
  | true => simp [d.parseUnsigned_unsigned, Timespan.milliseconds, Timespan.amount, hsign]
  | false =>
      obtain ⟨c, rest, hunsigned, hminus, -⟩ := d.unsigned_cons
      have hparse := d.parseUnsigned_unsigned
      simp only [Bool.false_eq_true, if_false]
      rw [hunsigned] at hparse ⊢
      split
      · rename_i heq
        cases heq
        exact absurd rfl hminus
      · simp [hparse, Timespan.milliseconds, Timespan.amount, hsign]

end MibServer.Auth
