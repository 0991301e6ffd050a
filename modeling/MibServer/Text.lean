import Mathlib.Init

/-!
JavaScript text. A string is a Lean `String`; lengths and cuts count UTF-16 code
units, as JavaScript does.
-/

namespace MibServer

/-- White space and line terminators, as `trim` strips them. -/
def isJsSpace (c : Char) : Bool :=
  [0x09, 0x0A, 0x0B, 0x0C, 0x0D, 0x20, 0xA0, 0x1680, 0x2028, 0x2029, 0x202F, 0x205F, 0x3000,
    0xFEFF].contains c.toNat || (0x2000 ≤ c.toNat && c.toNat ≤ 0x200A)

/-- `text.trim()` -/
def trim (text : String) : String :=
  String.ofList ((text.toList.dropWhile isJsSpace).reverse.dropWhile isJsSpace).reverse

/-- The code units of a character. -/
def utf16Size (c : Char) : Nat := if c.toNat < 0x10000 then 1 else 2

def utf16Length : List Char → Nat
  | [] => 0
  | c :: cs => utf16Size c + utf16Length cs

/-- The first `n` code units. A character cut in half is sent to a UTF-8 peer as the
replacement character. -/
def utf16Take (n : Nat) : List Char → List Char
  | [] => []
  | c :: cs =>
      if utf16Size c ≤ n then c :: utf16Take (n - utf16Size c) cs
      else if n = 0 then [] else [Char.ofNat 0xFFFD]

/-- The code units of one character. -/
def charUnits (c : Char) : List Nat :=
  if c.toNat < 0x10000 then [c.toNat]
  else [0xD800 + (c.toNat - 0x10000) / 0x400, 0xDC00 + (c.toNat - 0x10000) % 0x400]

/-- The code units of a text, by which JavaScript compares strings. -/
def codeUnits (text : String) : List Nat := text.toList.flatMap charUnits

/-- `text.length` -/
def jsLength (text : String) : Nat := utf16Length text.toList

/-- `text.slice(0, n)` -/
def slice (text : String) (n : Nat) : String := String.ofList (utf16Take n text.toList)

/-- What is so of the elements of a fixed list is checked one by one. -/
theorem forall_mem_of_all {α : Type} {p : α → Prop} [DecidablePred p] {xs : List α}
    (h : xs.all (fun x => p x) = true) : ∀ x ∈ xs, p x := by
  simpa using h

/-! ### Lengths and ends -/

theorem length_le_utf16Length (cs : List Char) : cs.length ≤ utf16Length cs := by
  induction cs with
  | nil => exact Nat.le_refl 0
  | cons c cs ih =>
      have hsize : 1 ≤ utf16Size c := by
        unfold utf16Size
        split <;> decide
      rw [List.length_cons, utf16Length]
      omega

/-- Nothing is trimmed from a text with no space at either end. -/
theorem trim_eq_self {text : String} {first last : Char} {middle : List Char}
    (h : text.toList = first :: (middle ++ [last])) (hfirst : isJsSpace first = false)
    (hlast : isJsSpace last = false) : trim text = text := by
  have hends : (text.toList.dropWhile isJsSpace).reverse = last :: (middle.reverse ++ [first]) := by
    rw [h, List.dropWhile_cons_of_neg (by simp [hfirst])]
    simp
  rw [trim, hends, List.dropWhile_cons_of_neg (by simp [hlast])]
  refine String.toList_inj.mp ?_
  rw [String.toList_ofList, h]
  simp

theorem trim_of_no_space {text : String} (h : ∀ c ∈ text.toList, isJsSpace c = false) :
    trim text = text := by
  have hkeep : ∀ cs : List Char, (∀ c ∈ cs, isJsSpace c = false) → cs.dropWhile isJsSpace = cs := by
    intro cs hcs
    cases cs with
    | nil => rfl
    | cons c cs => exact List.dropWhile_cons_of_neg (by simp [hcs c])
  have hreverse : ∀ c ∈ text.toList.reverse, isJsSpace c = false :=
    fun c hc => h c (List.mem_reverse.mp hc)
  rw [trim, hkeep _ h, hkeep _ hreverse, List.reverse_reverse, String.ofList_toList]

/-! ### Code units -/

def isHighSurrogate (u : Nat) : Bool := 0xD800 ≤ u && u < 0xDC00

def isLowSurrogate (u : Nat) : Bool := 0xDC00 ≤ u && u < 0xE000

/-- A code unit that stands for itself. -/
def unitChar (u : Nat) : Char :=
  if isHighSurrogate u || isLowSurrogate u then Char.ofNat 0xFFFD else Char.ofNat u

/-- The text of code units; a surrogate without its other half becomes the replacement
character. -/
def decodeUtf16 : List Nat → List Char
  | [] => []
  | [u] => [unitChar u]
  | u :: v :: us =>
      if isHighSurrogate u && isLowSurrogate v then
        Char.ofNat (0x10000 + (u - 0xD800) * 0x400 + (v - 0xDC00)) :: decodeUtf16 us
      else unitChar u :: decodeUtf16 (v :: us)

theorem codeUnits_toList (text : String) : codeUnits text = text.toList.flatMap charUnits := rfl

theorem codeUnits_append (text text' : String) :
    codeUnits (text ++ text') = codeUnits text ++ codeUnits text' := by
  rw [codeUnits_toList, String.toList_append, List.flatMap_append]
  rfl

theorem length_charUnits (c : Char) : (charUnits c).length = utf16Size c := by
  unfold charUnits utf16Size
  split <;> rfl

theorem length_codeUnits (text : String) : (codeUnits text).length = jsLength text := by
  rw [codeUnits_toList, jsLength]
  induction text.toList with
  | nil => rfl
  | cons c cs ih => rw [List.flatMap_cons, List.length_append, ih, length_charUnits, utf16Length]

/-- A character is not a surrogate. -/
theorem not_surrogate (c : Char) : ¬ (0xD800 ≤ c.toNat ∧ c.toNat < 0xE000) := by
  have hvalid : c.toNat < 0xD800 ∨ 0xDFFF < c.toNat ∧ c.toNat < 0x110000 := c.valid
  omega

theorem decodeUtf16_cons_char {c : Char} (us : List Nat) :
    decodeUtf16 (c.toNat :: us) = c :: decodeUtf16 us := by
  have hvalid := not_surrogate c
  have hhigh : isHighSurrogate c.toNat = false := by
    simp only [isHighSurrogate, Bool.and_eq_false_iff, decide_eq_false_iff_not]
    omega
  have hlow : isLowSurrogate c.toNat = false := by
    simp only [isLowSurrogate, Bool.and_eq_false_iff, decide_eq_false_iff_not]
    omega
  have hunit : unitChar c.toNat = c := by
    simp [unitChar, hhigh, hlow, Char.ofNat_toNat]
  cases us with
  | nil => simp only [decodeUtf16, hunit]
  | cons v us => simp only [decodeUtf16, hhigh, hunit, Bool.false_and, Bool.false_eq_true, if_false]

/-- Cutting code units and decoding what is left is cutting the text. -/
theorem decodeUtf16_take (n : Nat) (cs : List Char) :
    decodeUtf16 ((cs.flatMap charUnits).take n) = utf16Take n cs := by
  induction cs generalizing n with
  | nil => simp [decodeUtf16, utf16Take]
  | cons c cs ih =>
      rw [List.flatMap_cons, utf16Take]
      by_cases hbmp : c.toNat < 0x10000
      · rw [charUnits, if_pos hbmp, utf16Size, if_pos hbmp]
        cases n with
        | zero => rfl
        | succ n =>
            rw [if_pos (Nat.succ_le_succ (Nat.zero_le n)), List.cons_append, List.nil_append,
              List.take_succ_cons, decodeUtf16_cons_char, ih]
            rfl
      · rw [charUnits, if_neg hbmp, utf16Size, if_neg hbmp]
        have hmax : c.toNat < 0x110000 := by
          have hvalid : c.toNat < 0xD800 ∨ 0xDFFF < c.toNat ∧ c.toNat < 0x110000 := c.valid
          omega
        have hhigh : isHighSurrogate (0xD800 + (c.toNat - 0x10000) / 0x400) = true := by
          simp only [isHighSurrogate, Bool.and_eq_true, decide_eq_true_eq]
          omega
        have hlow : isLowSurrogate (0xDC00 + (c.toNat - 0x10000) % 0x400) = true := by
          simp only [isLowSurrogate, Bool.and_eq_true, decide_eq_true_eq]
          omega
        match n with
        | 0 => rfl
        | 1 => simp [decodeUtf16, unitChar, hhigh]
        | n + 2 =>
            have hwhole : 0x10000 + (0xD800 + (c.toNat - 0x10000) / 0x400 - 0xD800) * 0x400 +
                (0xDC00 + (c.toNat - 0x10000) % 0x400 - 0xDC00) = c.toNat := by
              omega
            rw [if_pos (by omega), List.cons_append, List.cons_append, List.nil_append,
              List.take_succ_cons, List.take_succ_cons, decodeUtf16, hhigh, hlow, hwhole,
              Char.ofNat_toNat, ih]
            rfl

/-- A text is cut by its code units. -/
theorem slice_eq_decode (text : String) (n : Nat) :
    slice text n = String.ofList (decodeUtf16 ((codeUnits text).take n)) := by
  rw [slice, codeUnits_toList, decodeUtf16_take]

theorem utf16Take_of_le {n : Nat} {cs : List Char} (h : utf16Length cs ≤ n) : utf16Take n cs = cs := by
  induction cs generalizing n with
  | nil => rfl
  | cons c cs ih =>
      rw [utf16Length] at h
      rw [utf16Take, if_pos (by omega), ih (by omega)]

theorem decodeUtf16_codeUnits (text : String) : decodeUtf16 (codeUnits text) = text.toList := by
  have htake := decodeUtf16_take (jsLength text) text.toList
  rw [← codeUnits_toList, ← length_codeUnits, List.take_length, length_codeUnits] at htake
  exact htake.trans (utf16Take_of_le (Nat.le_refl _))

/-- JavaScript tells two texts apart by their code units. -/
theorem codeUnits_injective {text text' : String} (h : codeUnits text = codeUnits text') :
    text = text' := by
  refine String.toList_inj.mp ?_
  rw [← decodeUtf16_codeUnits, ← decodeUtf16_codeUnits, h]

end MibServer
