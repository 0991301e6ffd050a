import MibServer.Lib.Json

/-!
Strings in a JSON text.

A string is printed between quotation marks with the escapes of `JSON.stringify`: half a
surrogate pair is one of them, so that what is printed is always well-formed UTF-16. What
was printed reads as the string (`readString_quoteUnits`).
-/

namespace MibServer.Lib

/-! ### Well-formed strings -/

/-- Half a surrogate pair. -/
def isSurrogate (u : UInt16) : Bool := isHighSurrogate u.toNat || isLowSurrogate u.toNat

/-- Two halves that belong together. -/
def isPair (u v : UInt16) : Bool := isHighSurrogate u.toNat && isLowSurrogate v.toNat

/-- `isWellFormed`: no surrogate without its other half. -/
def isWellFormed : JsString → Bool
  | [] => true
  | [u] => !isSurrogate u
  | u :: v :: s => if isPair u v then isWellFormed s else !isSurrogate u && isWellFormed (v :: s)

/-- `toWellFormed`: the replacement character for a surrogate without its other half. It is
also what the string is after its way through UTF-8. -/
def toWellFormed : JsString → JsString
  | [] => []
  | [u] => [if isSurrogate u then 0xFFFD else u]
  | u :: v :: s =>
      if isPair u v then u :: v :: toWellFormed s
      else (if isSurrogate u then 0xFFFD else u) :: toWellFormed (v :: s)

variable {s s' : JsString} {u v : UInt16}

theorem length_toWellFormed (s : JsString) : (toWellFormed s).length = s.length := by
  fun_induction toWellFormed s with
  | case1 => rfl
  | case2 u => rfl
  | case3 u v s hpair ih => rw [List.length_cons, List.length_cons, ih]; rfl
  | case4 u v s hpair ih => rw [List.length_cons, ih]; rfl

theorem replacement_eq_iff : (if isSurrogate u then 0xFFFD else u) = u ↔ isSurrogate u = false := by
  by_cases hsurrogate : isSurrogate u
  · rw [if_pos hsurrogate, hsurrogate]
    refine ⟨?_, by simp⟩
    rintro rfl
    revert hsurrogate
    decide
  · simp [hsurrogate]

theorem toWellFormed_eq_self_iff : toWellFormed s = s ↔ isWellFormed s := by
  fun_induction toWellFormed s with
  | case1 => simp [isWellFormed]
  | case2 u =>
      rw [List.cons.injEq, replacement_eq_iff]
      simp [isWellFormed]
  | case3 u v s hpair ih => simp [isWellFormed, hpair, ih]
  | case4 u v s hpair ih =>
      rw [List.cons.injEq, replacement_eq_iff, ih]
      simp [isWellFormed, hpair]

theorem isWellFormed_cons (hplain : isSurrogate u = false) : isWellFormed (u :: s) = isWellFormed s := by
  have hhigh : isHighSurrogate u.toNat = false := (Bool.or_eq_false_iff.mp hplain).1
  cases s with
  | nil => simp [isWellFormed, hplain]
  | cons v s => simp [isWellFormed, hplain, isPair, hhigh]

theorem isWellFormed_append (h : isWellFormed s) : isWellFormed (s ++ s') = isWellFormed s' := by
  fun_induction isWellFormed s with
  | case1 => rfl
  | case2 u => exact isWellFormed_cons (by simpa using h)
  | case3 u v s hpair ih =>
      rw [List.cons_append, List.cons_append, isWellFormed, if_pos hpair]
      exact ih h
  | case4 u v s hpair ih =>
      obtain ⟨hplain, hrest⟩ := Bool.and_eq_true_iff.mp h
      rw [List.cons_append, isWellFormed_cons (by simpa using hplain)]
      exact ih hrest

/-! ### Printing -/

def quotationMark : UInt16 := 0x22

def backslash : UInt16 := 0x5C

/-- The code unit of an ASCII character. -/
def unit (c : Char) : UInt16 := UInt16.ofNat c.toNat

/-- The units with an escape of their own, and its letter. -/
def shortEscapes : List (UInt16 × UInt16) :=
  [(quotationMark, quotationMark), (backslash, backslash), (0x08, unit 'b'), (0x09, unit 't'),
    (0x0A, unit 'n'), (0x0C, unit 'f'), (0x0D, unit 'r')]

def hexUnit (n : Nat) : UInt16 := unit (Nat.digitChar n)

/-- `\uXXXX` -/
def unicodeEscape (u : UInt16) : JsString :=
  [backslash, unit 'u', hexUnit (u.toNat / 4096), hexUnit (u.toNat / 256 % 16),
    hexUnit (u.toNat / 16 % 16), hexUnit (u.toNat % 16)]

def quoteUnit (u : UInt16) : JsString :=
  match shortEscapes.lookup u with
  | some letter => [backslash, letter]
  | none => if u < 0x20 || isSurrogate u then unicodeEscape u else [u]

def quoteUnits : JsString → JsString
  | [] => []
  | [u] => quoteUnit u
  | u :: v :: s => if isPair u v then u :: v :: quoteUnits s else quoteUnit u ++ quoteUnits (v :: s)

/-- `QuoteJSONString` -/
def quote (s : JsString) : JsString := quotationMark :: (quoteUnits s ++ [quotationMark])

/-! ### Reading -/

def hexValue? (u : UInt16) : Option Nat :=
  let n := u.toNat
  if 48 ≤ n ∧ n ≤ 57 then some (n - 48)
  else if 97 ≤ n ∧ n ≤ 102 then some (n - 87)
  else if 65 ≤ n ∧ n ≤ 70 then some (n - 55)
  else none

/-- The unit of four hexadecimal digits. -/
def readHex (a b c d : UInt16) : Option UInt16 := do
  let a ← hexValue? a
  let b ← hexValue? b
  let c ← hexValue? c
  let d ← hexValue? d
  return UInt16.ofNat (4096 * a + 256 * b + 16 * c + d)

/-- The unit of a letter behind a backslash. -/
def readLetter (letter : UInt16) : Option UInt16 :=
  (((unit '/', unit '/') :: shortEscapes).find? fun e => e.2 = letter).map Prod.fst

/-- A string from behind its opening quotation mark on, and what follows it. -/
def readString : JsString → Option (JsString × JsString)
  | [] => none
  | u :: text =>
      if u = quotationMark then some ([], text)
      else if u = backslash then
        match text with
        | [] => none
        | letter :: text =>
            if letter = unit 'u' then
              match text with
              | a :: b :: c :: d :: text =>
                  (readHex a b c d).bind fun v => (readString text).map fun (s, rest) => (v :: s, rest)
              | _ => none
            else (readLetter letter).bind fun v => (readString text).map fun (s, rest) => (v :: s, rest)
      else if u < 0x20 then none
      else (readString text).map fun (s, rest) => (u :: s, rest)

/-! ### What was printed reads as the string -/

theorem isWellFormed_of_plain (h : ∀ u ∈ s, isSurrogate u = false) : isWellFormed s := by
  induction s with
  | nil => rfl
  | cons u s ih =>
      rw [isWellFormed_cons (h u List.mem_cons_self)]
      exact ih fun v hv => h v (List.mem_cons_of_mem u hv)

theorem hexValue?_hexUnit {n : Nat} (h : n < 16) : hexValue? (hexUnit n) = some n := by
  revert n
  decide

theorem hexUnit_plain {n : Nat} (h : n < 16) : isSurrogate (hexUnit n) = false := by
  revert n
  decide

theorem toNat_lt (u : UInt16) : u.toNat < 65536 := u.toBitVec.isLt

theorem readHex_hexUnit (u : UInt16) :
    readHex (hexUnit (u.toNat / 4096)) (hexUnit (u.toNat / 256 % 16)) (hexUnit (u.toNat / 16 % 16))
      (hexUnit (u.toNat % 16)) = some u := by
  have hsize := toNat_lt u
  rw [readHex, hexValue?_hexUnit (by omega), hexValue?_hexUnit (by omega), hexValue?_hexUnit (by omega),
    hexValue?_hexUnit (by omega)]
  have hvalue : 4096 * (u.toNat / 4096) + 256 * (u.toNat / 256 % 16) + 16 * (u.toNat / 16 % 16) + u.toNat % 16 =
      u.toNat := by
    omega
  simp only [Option.bind_eq_bind, Option.bind_some, Option.pure_def, hvalue, UInt16.ofNat_toNat]

theorem mem_of_lookup {letter : UInt16} (h : shortEscapes.lookup u = some letter) :
    (u, letter) ∈ shortEscapes := by
  obtain ⟨before, after, hsplit, -⟩ := List.lookup_eq_some_iff.mp h
  rw [hsplit]
  exact List.mem_append_right before List.mem_cons_self

theorem shortEscapes_read : ∀ e ∈ shortEscapes, e.2 ≠ unit 'u' ∧ readLetter e.2 = some e.1 :=
  forall_mem_of_all (by decide)

theorem readString_quotationMark (text : JsString) : readString (quotationMark :: text) = some ([], text) := by
  rw [readString.eq_def]
  rfl

theorem readString_plain {text : JsString} (hmark : u ≠ quotationMark) (hslash : u ≠ backslash)
    (hcontrol : ¬ u < 0x20) :
    readString (u :: text) = (readString text).map fun (s, rest) => (u :: s, rest) := by
  rw [readString.eq_def]
  dsimp only
  rw [if_neg hmark, if_neg hslash, if_neg hcontrol]

/-- A printed unit reads as the unit. -/
theorem readString_quoteUnit (u : UInt16) (text : JsString) :
    readString (quoteUnit u ++ text) = (readString text).map fun (s, rest) => (u :: s, rest) := by
  rw [quoteUnit]
  split
  · next letter hletter =>
      obtain ⟨hne, hread⟩ := shortEscapes_read _ (mem_of_lookup hletter)
      rw [List.cons_append, readString.eq_def]
      dsimp only [List.cons_append, List.nil_append] at hne hread ⊢
      rw [if_neg (by decide), if_pos rfl, if_neg hne, hread, Option.bind_some]
  · next hnone =>
      split
      · rw [unicodeEscape, List.cons_append, readString.eq_def]
        dsimp only [List.cons_append, List.nil_append]
        rw [if_neg (by decide), if_pos rfl, if_pos rfl, readHex_hexUnit, Option.bind_some]
      · next hplain =>
          refine readString_plain ?_ ?_ ?_
          · rintro rfl
            cases hnone
          · rintro rfl
            cases hnone
          · intro hcontrol
            simp [hcontrol] at hplain

/-- Half a pair is read as it stands. -/
theorem readString_surrogate (text : JsString) (h : isSurrogate u) :
    readString (u :: text) = (readString text).map fun (s, rest) => (u :: s, rest) := by
  refine readString_plain ?_ ?_ ?_
  · rintro rfl
    cases h
  · rintro rfl
    cases h
  · intro hcontrol
    have hsmall : u.toNat < 32 := UInt16.lt_iff_toNat_lt.mp hcontrol
    simp only [isSurrogate, isHighSurrogate, isLowSurrogate, Bool.or_eq_true, Bool.and_eq_true,
      decide_eq_true_eq] at h
    omega

theorem readString_quoteUnits (s text : JsString) :
    readString (quoteUnits s ++ quotationMark :: text) = some (s, text) := by
  fun_induction quoteUnits s with
  | case1 => exact readString_quotationMark text
  | case2 u =>
      rw [readString_quoteUnit, readString_quotationMark]
      rfl
  | case3 u v s hpair ih =>
      obtain ⟨hhigh, hlow⟩ := Bool.and_eq_true_iff.mp hpair
      rw [List.cons_append, List.cons_append, readString_surrogate _ (by simp [isSurrogate, hhigh]),
        readString_surrogate _ (by simp [isSurrogate, hlow]), ih]
      rfl
  | case4 u v s hpair ih =>
      rw [List.append_assoc, readString_quoteUnit, ih]
      rfl

/-! ### What is printed is well formed -/

theorem quoteUnit_plain (u : UInt16) : ∀ v ∈ quoteUnit u, isSurrogate v = false := by
  rw [quoteUnit]
  split
  · next letter hletter =>
      have hletters : ∀ e ∈ shortEscapes, isSurrogate e.2 = false := forall_mem_of_all (by decide)
      intro v hv
      rcases List.mem_cons.mp hv with rfl | hv
      · rfl
      · rw [List.mem_singleton.mp hv]
        exact hletters _ (mem_of_lookup hletter)
  · split
    · have hsize := toNat_lt u
      simp only [unicodeEscape, List.forall_mem_cons]
      refine ⟨rfl, rfl, hexUnit_plain (by omega), hexUnit_plain (by omega), hexUnit_plain (by omega),
        hexUnit_plain (by omega), List.forall_mem_nil _⟩
    · next hplain =>
        intro v hv
        rw [List.mem_singleton.mp hv]
        simpa using (Bool.or_eq_false_iff.mp (Bool.eq_false_iff.mpr hplain)).2

theorem isWellFormed_quoteUnits (s : JsString) : isWellFormed (quoteUnits s) := by
  fun_induction quoteUnits s with
  | case1 => rfl
  | case2 u => exact isWellFormed_of_plain (quoteUnit_plain u)
  | case3 u v s hpair ih =>
      rw [isWellFormed, if_pos hpair]
      exact ih
  | case4 u v s hpair ih =>
      rw [isWellFormed_append (isWellFormed_of_plain (quoteUnit_plain u))]
      exact ih

theorem isWellFormed_quote (s : JsString) : isWellFormed (quote s) := by
  rw [quote, isWellFormed_cons rfl, isWellFormed_append (isWellFormed_quoteUnits s)]
  rfl

/-! ### A string is shorter than its text -/

theorem length_of_readString {text rest : JsString} (h : readString text = some (s, rest)) :
    s.length + rest.length < text.length := by
  fun_induction readString text generalizing s rest with
  | case1 => cases h
  | case2 text =>
      cases h
      simp
  | case3 => cases h
  | case4 a b c d text _ ih =>
      obtain ⟨v, -, hv⟩ := Option.bind_eq_some_iff.mp h
      obtain ⟨⟨s', rest'⟩, hread, hout⟩ := Option.map_eq_some_iff.mp hv
      cases hout
      have hlength := ih hread
      simp only [List.length_cons]
      omega
  | case5 => cases h
  | case6 letter text _ _ ih =>
      obtain ⟨v, -, hv⟩ := Option.bind_eq_some_iff.mp h
      obtain ⟨⟨s', rest'⟩, hread, hout⟩ := Option.map_eq_some_iff.mp hv
      cases hout
      have hlength := ih hread
      simp only [List.length_cons]
      omega
  | case7 => cases h
  | case8 u text _ _ _ ih =>
      obtain ⟨⟨s', rest'⟩, hread, hout⟩ := Option.map_eq_some_iff.mp h
      cases hout
      have hlength := ih hread
      simp only [List.length_cons]
      omega

end MibServer.Lib
