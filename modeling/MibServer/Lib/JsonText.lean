import MibServer.Lib.JsonString
import MibServer.Lib.NumberText

/-!
`JSON.stringify` and `JSON.parse`.

A text is read by recursion on a fuel, which bounds how deep values nest and how many of
them follow each other; the length of the text is enough. The text of a value with distinct
names and finite numbers is read as the value (`parse_stringify`), and a string that is read
is shorter than its text (`length_of_parse_string`).
-/

namespace MibServer.Lib

/-! ### Printing -/

def comma : UInt16 := 0x2C

def colon : UInt16 := 0x3A

def beginArray : UInt16 := 0x5B

def endArray : UInt16 := 0x5D

def beginObject : UInt16 := 0x7B

def endObject : UInt16 := 0x7D

def commaSeparated : List JsString → JsString
  | [] => []
  | [text] => text
  | text :: texts => text ++ comma :: commaSeparated texts

/-- A number that is not finite is printed as `null`. -/
def Number.text : Number → JsString
  | .finite x => x.text.map unit
  | .infinite _ | .nan => js "null"

mutual

/-- `JSON.stringify` -/
def stringify : Json Number → JsString
  | .null => js "null"
  | .bool b => js (if b then "true" else "false")
  | .number x => x.text
  | .string s => quote s
  | .array items => beginArray :: (commaSeparated (stringifyItems items) ++ [endArray])
  | .object fields => beginObject :: (commaSeparated (stringifyFields fields) ++ [endObject])

def stringifyItems : List (Json Number) → List JsString
  | [] => []
  | v :: items => stringify v :: stringifyItems items

def stringifyFields : List (JsString × Json Number) → List JsString
  | [] => []
  | (key, v) :: fields => (quote key ++ colon :: stringify v) :: stringifyFields fields

end

/-! ### Objects -/

/-- The number of a name that is an array index. -/
def arrayIndex? (key : JsString) : Option ℕ :=
  let n := decimalValue (key.map fun u => Char.ofNat u.toNat)
  if key = (Nat.toDigits 10 n).map unit ∧ n < 2 ^ 32 - 1 then some n else none

/-- The order in which an object enumerates its fields: array indices come first and ascend. -/
def enumerate (fields : List (JsString × Json Number)) : List (JsString × Json Number) :=
  ((fields.filter fun f => (arrayIndex? f.1).isSome).mergeSort fun f g =>
      (arrayIndex? f.1).getD 0 ≤ (arrayIndex? g.1).getD 0) ++
    fields.filter fun f => (arrayIndex? f.1).isNone

/-- A field that is there keeps its place and takes the new value. -/
def define (fields : List (JsString × Json Number)) (f : JsString × Json Number) :
    List (JsString × Json Number) :=
  if f.1 ∈ fields.map Prod.fst then fields.map fun g => if g.1 = f.1 then f else g else fields ++ [f]

/-! ### Reading -/

def isJsonSpace (u : UInt16) : Bool := [0x20, 0x09, 0x0A, 0x0D].contains u

def skip (text : JsString) : JsString := text.dropWhile isJsonSpace

def isNumberUnit (u : UInt16) : Bool := isNumberChar (Char.ofNat u.toNat)

def parseNumber (text : JsString) : Option (Json Number × JsString) :=
  (readLiteral ((text.takeWhile isNumberUnit).map fun u => Char.ofNat u.toNat)).map fun q =>
    (.number (toNumber q), text.dropWhile isNumberUnit)

/-- A value of one token, other than a string. -/
def parseScalar (text : JsString) : Option (Json Number × JsString) :=
  if (js "null").isPrefixOf text then some (.null, text.drop 4)
  else if (js "true").isPrefixOf text then some (.bool true, text.drop 4)
  else if (js "false").isPrefixOf text then some (.bool false, text.drop 5)
  else parseNumber text

section

variable {α : Type} (item : JsString → Option (α × JsString)) (close : UInt16)

/-- One item or more up to the closing unit. -/
def parseItems : ℕ → JsString → Option (List α × JsString)
  | 0, _ => none
  | fuel + 1, text =>
      (item text).bind fun (x, rest) =>
        match skip rest with
        | [] => none
        | u :: rest =>
            if u = comma then (parseItems fuel rest).map fun (xs, rest) => (x :: xs, rest)
            else if u = close then some ([x], rest)
            else none

/-- Any number of items. -/
def parseList (text : JsString) : Option (List α × JsString) :=
  if (skip text).head? = some close then some ([], (skip text).tail)
  else parseItems item close text.length text

end

def parseField (value : JsString → Option (Json Number × JsString)) (text : JsString) :
    Option ((JsString × Json Number) × JsString) :=
  match skip text with
  | [] => none
  | u :: rest =>
      if u = quotationMark then
        (readString rest).bind fun (key, rest) =>
          if (skip rest).head? = some colon then
            (value (skip rest).tail).map fun (v, rest) => ((key, v), rest)
          else none
      else none

def parseValue : ℕ → JsString → Option (Json Number × JsString)
  | 0, _ => none
  | fuel + 1, text =>
      match skip text with
      | [] => none
      | u :: rest =>
          if u = quotationMark then (readString rest).map fun (s, rest) => (.string s, rest)
          else if u = beginArray then
            (parseList (parseValue fuel) (endArray) rest).map fun (items, rest) => (.array items, rest)
          else if u = beginObject then
            (parseList (parseField (parseValue fuel)) (endObject) rest).map fun (fields, rest) =>
              (.object (enumerate (fields.foldl define [])), rest)
          else parseScalar (u :: rest)

/-- `JSON.parse`; `none` where it throws. -/
def parse (text : JsString) : Option (Json Number) :=
  (parseValue text.length text).bind fun (v, rest) => if skip rest = [] then some v else none

/-! ### Tokens -/

/-- The text goes on with something else than a number. -/
def Ends (text : JsString) : Prop := ∀ u ∈ text.head?, isNumberUnit u = false

variable {v : Json Number} {text rest : JsString}

theorem toNat_unit {c : Char} (h : c.toNat < 65536) : Char.ofNat (unit c).toNat = c := by
  rw [unit, UInt16.toNat_ofNat', Nat.mod_eq_of_lt h, Char.ofNat_toNat]

theorem isNumberChar_lt {c : Char} (h : isNumberChar c) : c.toNat < 65536 := by
  rcases Bool.or_eq_true_iff.mp h with hdigit | hother
  · have hrange : 48 ≤ c.toNat ∧ c.toNat ≤ 57 := Char.isDigit_iff_toNat.mp hdigit
    omega
  · simp only [List.contains_eq_mem, List.mem_cons, List.not_mem_nil, or_false, decide_eq_true_eq] at hother
    rcases hother with rfl | rfl | rfl | rfl | rfl
    all_goals decide

theorem skip_cons {u : UInt16} (h : isJsonSpace u = false) : skip (u :: text) = u :: text := by
  rw [skip, List.dropWhile_cons_of_neg (by simp [h])]

theorem length_skip_le (text : JsString) : (skip text).length ≤ text.length :=
  (List.dropWhile_sublist _).length_le

theorem parseNumber_text (x : Double) (hrest : Ends rest) :
    parseNumber (x.text.map unit ++ rest) = some (.number (.finite x), rest) := by
  have hunits : ∀ u ∈ x.text.map unit, isNumberUnit u := by
    intro u hu
    obtain ⟨c, hc, rfl⟩ := List.mem_map.mp hu
    rw [isNumberUnit, toNat_unit (isNumberChar_lt (x.text_chars c hc))]
    exact x.text_chars c hc
  have hchars : (x.text.map unit).map (fun u => Char.ofNat u.toNat) = x.text := by
    rw [List.map_map]
    refine (List.map_congr_left ?_).trans (List.map_id _)
    exact fun c hc => toNat_unit (isNumberChar_lt (x.text_chars c hc))
  obtain ⟨htake, hdrop⟩ := span_append hunits hrest
  obtain ⟨q, hq, hnumber⟩ := Option.map_eq_some_iff.mp x.toNumber_text
  rw [parseNumber, htake, hdrop, hchars, hq, Option.map_some, hnumber]

theorem text_ne_nil (x : Double) : x.text ≠ [] := by
  intro hnil
  have hread := x.toNumber_text
  rw [hnil] at hread
  cases hread

/-- A printed value starts with a unit that is no space and closes nothing. -/
def Opens (text : JsString) : Prop :=
  ∃ u rest, text = u :: rest ∧ isJsonSpace u = false ∧ u ≠ endArray ∧ u ≠ endObject

theorem isNumberChar_opens {c : Char} (h : isNumberChar c) :
    isJsonSpace (unit c) = false ∧ isSurrogate (unit c) = false ∧
      ∀ u ∈ [endArray, endObject, quotationMark, beginArray, beginObject, unit 'n', unit 't', unit 'f'],
        unit c ≠ u := by
  rcases Bool.or_eq_true_iff.mp h with hdigit | hother
  · obtain ⟨hlt, hchar⟩ := digitChar_of_isDigit hdigit
    rw [← hchar]
    generalize c.toNat - 48 = n at hlt
    refine (and_assoc.mp ⟨?_, forall_mem_of_all ?_⟩)
    · revert n
      decide
    · revert n
      decide
  · simp only [List.contains_eq_mem, List.mem_cons, List.not_mem_nil, or_false, decide_eq_true_eq] at hother
    rcases hother with rfl | rfl | rfl | rfl | rfl
    all_goals exact ⟨by decide, by decide, forall_mem_of_all (by decide)⟩

theorem opens_text (x : Double) : Opens (x.text.map unit) := by
  obtain ⟨c, cs, hcs⟩ := List.exists_cons_of_ne_nil (text_ne_nil x)
  obtain ⟨hspace, -, hne⟩ := isNumberChar_opens (x.text_chars c (by simp [hcs]))
  refine ⟨unit c, cs.map unit, by rw [hcs, List.map_cons], hspace, hne _ ?_, hne _ ?_⟩
  · simp
  · simp

theorem opens_stringify (v : Json Number) : Opens (stringify v) := by
  cases v with
  | null => exact ⟨_, _, rfl, by decide⟩
  | bool b => cases b <;> exact ⟨_, _, rfl, by decide⟩
  | number x =>
      cases x with
      | finite x => exact opens_text x
      | infinite _ | nan => exact ⟨_, _, rfl, by decide⟩
  | string s => exact ⟨_, _, rfl, by decide⟩
  | array items => exact ⟨_, _, rfl, by decide⟩
  | object fields => exact ⟨_, _, rfl, by decide⟩

/-! ### Lists -/

section

variable {α : Type} {item : JsString → Option (α × JsString)} {close : UInt16} {print : α → JsString}

theorem commaSeparated_cons_cons (text text' : JsString) (texts : List JsString) :
    commaSeparated (text :: text' :: texts) = text ++ comma :: commaSeparated (text' :: texts) := rfl

theorem exists_commaSeparated_cons (text : JsString) (texts : List JsString) :
    ∃ rest, commaSeparated (text :: texts) = text ++ rest := by
  cases texts with
  | nil => exact ⟨[], (List.append_nil text).symm⟩
  | cons text' texts => exact ⟨_, rfl⟩

theorem length_le_commaSeparated {texts : List JsString} (h : text ∈ texts) :
    text.length ≤ (commaSeparated texts).length := by
  fun_induction commaSeparated texts with
  | case1 => cases h
  | case2 t => rw [List.mem_singleton.mp h]
  | case3 t ts hne ih =>
      rw [List.length_append, List.length_cons]
      rcases List.mem_cons.mp h with rfl | hin
      · omega
      · have hle := ih hin
        omega

theorem length_texts_le (texts : List JsString) : texts.length ≤ (commaSeparated texts).length + 1 := by
  fun_induction commaSeparated texts with
  | case1 => simp
  | case2 t => simp
  | case3 t ts hne ih =>
      rw [List.length_cons, List.length_append, List.length_cons]
      omega

theorem parseItems_commaSeparated (hspace : isJsonSpace close = false) (hends : isNumberUnit close = false)
    (hcomma : close ≠ comma) {xs : List α} (hne : xs ≠ [])
    (hitem : ∀ x ∈ xs, ∀ rest, Ends rest → item (print x ++ rest) = some (x, rest)) {fuel : ℕ}
    (hfuel : xs.length ≤ fuel) (rest : JsString) :
    parseItems item close fuel (commaSeparated (xs.map print) ++ close :: rest) = some (xs, rest) := by
  induction xs generalizing fuel with
  | nil => exact absurd rfl hne
  | cons x xs ih =>
      obtain ⟨fuel, rfl⟩ := Nat.exists_eq_add_of_le' (show 1 ≤ fuel from Nat.le_trans (by simp) hfuel)
      cases xs with
      | nil =>
          rw [List.map_singleton, commaSeparated, parseItems,
            hitem x List.mem_cons_self _ (by simpa [Ends] using hends), Option.bind_some]
          simp only [skip_cons hspace, if_neg hcomma, if_true]
      | cons y ys =>
          have htail := ih (List.cons_ne_nil y ys) (fun z hz => hitem z (List.mem_cons_of_mem x hz))
            (Nat.le_of_succ_le_succ hfuel)
          have hcommaEnds : Ends (comma :: (commaSeparated ((y :: ys).map print) ++ close :: rest)) := by
            rintro u ⟨⟩
            decide
          rw [List.map_cons, List.map_cons, commaSeparated_cons_cons, ← List.map_cons, List.append_assoc,
            List.cons_append, parseItems, hitem x List.mem_cons_self _ hcommaEnds, Option.bind_some]
          simp only [skip_cons (show isJsonSpace comma = false by decide), if_true]
          rw [htail, Option.map_some]

theorem parseList_commaSeparated (hspace : isJsonSpace close = false) (hends : isNumberUnit close = false)
    (hcomma : close ≠ comma) {xs : List α}
    (hopens : ∀ x ∈ xs, ∃ u rest, print x = u :: rest ∧ isJsonSpace u = false ∧ u ≠ close)
    (hitem : ∀ x ∈ xs, ∀ rest, Ends rest → item (print x ++ rest) = some (x, rest)) (rest : JsString) :
    parseList item close (commaSeparated (xs.map print) ++ close :: rest) = some (xs, rest) := by
  cases xs with
  | nil =>
      rw [List.map_nil, commaSeparated, List.nil_append, parseList, skip_cons hspace, List.head?_cons,
        if_pos rfl, List.tail_cons]
  | cons x xs =>
      obtain ⟨u, tail, hu, huspace, huclose⟩ := hopens x List.mem_cons_self
      obtain ⟨tail', htail'⟩ := exists_commaSeparated_cons (print x) (xs.map print)
      have hopen : (skip (commaSeparated ((x :: xs).map print) ++ close :: rest)).head? ≠ some close := by
        rw [List.map_cons, htail', hu, List.cons_append, List.cons_append, skip_cons huspace, List.head?_cons]
        simpa using huclose
      have hlength := length_texts_le ((x :: xs).map print)
      rw [List.length_map] at hlength
      rw [parseList, if_neg hopen]
      refine parseItems_commaSeparated hspace hends hcomma (List.cons_ne_nil x xs) hitem ?_ rest
      simp only [List.length_append, List.length_cons] at hlength ⊢
      omega

end

/-! ### Values -/

/-- What JSON can represent of a value itself: a number is finite, an object has one field of
each name and lists them in the order of enumeration. -/
def Plain : Json Number → Prop
  | .number x => ∃ d, x = .finite d
  | .object fields => (fields.map Prod.fst).Nodup ∧ enumerate fields = fields
  | _ => True

/-- A value that JSON can represent. -/
def Representable (v : Json Number) : Prop := ∀ w, Json.Within w v → Plain w

theorem Representable.plain (h : Representable v) : Plain v := h v (.refl v)

theorem Representable.item {items : List (Json Number)} (h : Representable (.array items)) (hv : v ∈ items) :
    Representable v := fun w hw => h w (.item hv hw)

theorem Representable.field {fields : List (JsString × Json Number)} (h : Representable (.object fields))
    {f : JsString × Json Number} (hf : f ∈ fields) : Representable f.2 := fun w hw => h w (.field hf hw)

theorem stringifyItems_eq_map (items : List (Json Number)) : stringifyItems items = items.map stringify := by
  induction items with
  | nil => rfl
  | cons v items ih => rw [stringifyItems, ih, List.map_cons]

def fieldText (f : JsString × Json Number) : JsString := quote f.1 ++ colon :: stringify f.2

theorem stringifyFields_eq_map (fields : List (JsString × Json Number)) :
    stringifyFields fields = fields.map fieldText := by
  induction fields with
  | nil => rfl
  | cons f fields ih =>
      obtain ⟨key, v⟩ := f
      rw [stringifyFields, ih, List.map_cons]
      rfl

/-- Fields of different names are defined one behind the other. -/
theorem foldl_define {fields fields' : List (JsString × Json Number)}
    (h : ((fields ++ fields').map Prod.fst).Nodup) : fields'.foldl define fields = fields ++ fields' := by
  induction fields' generalizing fields with
  | nil => exact (List.append_nil fields).symm
  | cons f fields' ih =>
      have hfresh : f.1 ∉ fields.map Prod.fst := by
        intro hin
        rw [List.map_append, List.map_cons] at h
        exact (List.nodup_append.mp h).2.2 f.1 hin f.1 List.mem_cons_self rfl
      rw [List.foldl_cons, define, if_neg hfresh, ih, List.append_assoc, List.singleton_append]
      rwa [List.append_assoc, List.singleton_append]

theorem parseField_fieldText {value : JsString → Option (Json Number × JsString)} {f : JsString × Json Number}
    (hvalue : value (stringify f.2 ++ rest) = some (f.2, rest)) :
    parseField value (fieldText f ++ rest) = some (f, rest) := by
  have htext : fieldText f ++ rest =
      quotationMark :: (quoteUnits f.1 ++ quotationMark :: colon :: (stringify f.2 ++ rest)) := by
    simp [fieldText, quote]
  rw [htext, parseField, skip_cons (by decide)]
  simp only [if_true]
  rw [readString_quoteUnits, Option.bind_some, skip_cons (by decide), List.head?_cons, if_pos rfl,
    List.tail_cons, hvalue, Option.map_some]

theorem parseValue_scalar {u : UInt16} {fuel : ℕ} (hspace : isJsonSpace u = false)
    (hmark : u ≠ quotationMark) (harray : u ≠ beginArray) (hobject : u ≠ beginObject) :
    parseValue (fuel + 1) (u :: text) = parseScalar (u :: text) := by
  rw [parseValue, skip_cons hspace]
  dsimp only
  rw [if_neg hmark, if_neg harray, if_neg hobject]

theorem parseScalar_number {u : UInt16} (hnull : u ≠ unit 'n') (htrue : u ≠ unit 't') (hfalse : u ≠ unit 'f') :
    parseScalar (u :: text) = parseNumber (u :: text) := by
  have hword : ∀ c word, u ≠ c → ¬ (c :: word).isPrefixOf (u :: text) := by
    intro c word hne hprefix
    rw [List.isPrefixOf_iff_prefix] at hprefix
    exact hne (List.cons_prefix_cons.mp hprefix).1.symm
  have hn : js "null" = unit 'n' :: (js "null").tail := rfl
  have ht : js "true" = unit 't' :: (js "true").tail := rfl
  have hf : js "false" = unit 'f' :: (js "false").tail := rfl
  rw [parseScalar, hn, if_neg (hword _ _ hnull), ht, if_neg (hword _ _ htrue), hf, if_neg (hword _ _ hfalse)]

theorem exists_fuel {fuel : ℕ} (h : (stringify v).length ≤ fuel) : ∃ fuel', fuel = fuel' + 1 := by
  obtain ⟨u, tail, hu, -⟩ := opens_stringify v
  rw [hu, List.length_cons] at h
  exact Nat.exists_eq_add_one_of_ne_zero (by omega)

theorem parseValue_stringify (h : Representable v) {fuel : ℕ} (hfuel : (stringify v).length ≤ fuel)
    (hrest : Ends rest) : parseValue fuel (stringify v ++ rest) = some (v, rest) := by
  induction v using Json.induct generalizing fuel rest with
  | null =>
      obtain ⟨fuel, rfl⟩ := exists_fuel hfuel
      rfl
  | bool b =>
      obtain ⟨fuel, rfl⟩ := exists_fuel hfuel
      cases b <;> rfl
  | number x =>
      obtain ⟨fuel, rfl⟩ := exists_fuel hfuel
      obtain ⟨d, rfl⟩ := h.plain
      obtain ⟨c, cs, hcs⟩ := List.exists_cons_of_ne_nil (text_ne_nil d)
      obtain ⟨hspace, -, hne⟩ := isNumberChar_opens (d.text_chars c (by simp [hcs]))
      have hread := parseNumber_text d hrest
      rw [hcs, List.map_cons, List.cons_append] at hread
      rw [stringify, Number.text, hcs, List.map_cons, List.cons_append,
        parseValue_scalar hspace (hne _ (by simp)) (hne _ (by simp)) (hne _ (by simp)),
        parseScalar_number (hne _ (by simp)) (hne _ (by simp)) (hne _ (by simp)), hread]
  | string s =>
      obtain ⟨fuel, rfl⟩ := exists_fuel hfuel
      rw [stringify, quote, List.cons_append, parseValue, skip_cons (by decide)]
      simp only [if_true]
      rw [List.append_assoc, List.singleton_append, readString_quoteUnits, Option.map_some]
  | array items ih =>
      obtain ⟨fuel, rfl⟩ := exists_fuel hfuel
      rw [stringify, stringifyItems_eq_map, List.length_cons, List.length_append] at hfuel
      have hitems : parseList (parseValue fuel) endArray
          (commaSeparated (items.map stringify) ++ endArray :: rest) = some (items, rest) := by
        refine parseList_commaSeparated (by decide) (by decide) (by decide) (fun v _ => ?_)
          (fun v hv => ?_) rest
        · exact (opens_stringify v).imp fun u => Exists.imp fun tail hu => ⟨hu.1, hu.2.1, hu.2.2.1⟩
        · intro rest' hrest'
          have hlength := length_le_commaSeparated (List.mem_map_of_mem (f := stringify) hv)
          exact ih v hv (h.item hv) (by omega) hrest'
      rw [stringify, stringifyItems_eq_map, List.cons_append, parseValue, skip_cons (by decide)]
      dsimp only
      rw [if_neg (by decide), if_pos rfl, List.append_assoc, List.singleton_append, hitems, Option.map_some]
  | object fields ih =>
      obtain ⟨fuel, rfl⟩ := exists_fuel hfuel
      rw [stringify, stringifyFields_eq_map, List.length_cons, List.length_append] at hfuel
      have hitems : parseList (parseField (parseValue fuel)) endObject
          (commaSeparated (fields.map fieldText) ++ endObject :: rest) = some (fields, rest) := by
        refine parseList_commaSeparated (by decide) (by decide) (by decide) (fun f _ => ?_)
          (fun f hf => ?_) rest
        · exact ⟨quotationMark, _, rfl, by decide, by decide⟩
        · intro rest' hrest'
          have hlength := length_le_commaSeparated (List.mem_map_of_mem (f := fieldText) hf)
          rw [fieldText, List.length_append, List.length_cons] at hlength
          exact parseField_fieldText (ih f hf (h.field hf) (by omega) hrest')
      obtain ⟨hnodup, henumerate⟩ := h.plain
      rw [stringify, stringifyFields_eq_map, List.cons_append, parseValue, skip_cons (by decide)]
      dsimp only
      rw [if_neg (by decide), if_neg (by decide), if_pos rfl, List.append_assoc, List.singleton_append, hitems,
        Option.map_some, foldl_define (by simpa using hnodup), List.nil_append, henumerate]

/-- **Round trip**: what was printed is read as the value. -/
theorem parse_stringify (h : Representable v) : parse (stringify v) = some v := by
  have hread : parseValue (stringify v).length (stringify v ++ []) = some (v, []) :=
    parseValue_stringify h (Nat.le_refl _) (by simp [Ends])
  rw [List.append_nil] at hread
  rw [parse, hread]
  rfl

/-! ### What is read is taken from the text -/

/-- A reader takes something from every text it accepts. -/
def Consumes {α : Type} (item : JsString → Option (α × JsString)) : Prop :=
  ∀ text x rest, item text = some (x, rest) → rest.length < text.length

theorem length_tail_skip {u : UInt16} (h : (skip text).head? = some u) :
    (skip text).tail.length < text.length := by
  have hle := length_skip_le text
  cases hskip : skip text with
  | nil =>
      rw [hskip] at h
      cases h
  | cons u' rest' =>
      rw [hskip, List.length_cons] at hle
      exact hle

theorem parseNumber_eq_some (h : parseNumber text = some (v, rest)) :
    rest.length < text.length ∧ ∃ x, v = .number x := by
  obtain ⟨q, hq, hout⟩ := Option.map_eq_some_iff.mp h
  cases hout
  refine ⟨?_, _, rfl⟩
  have hsplit := congrArg List.length (List.takeWhile_append_dropWhile (p := isNumberUnit) (l := text))
  have hne : text.takeWhile isNumberUnit ≠ [] := by
    intro hnil
    rw [hnil] at hq
    cases hq
  have hpos := List.length_pos_iff.mpr hne
  rw [List.length_append] at hsplit
  omega

theorem parseScalar_eq_some (h : parseScalar text = some (v, rest)) :
    rest.length < text.length ∧ ∀ s, v ≠ .string s := by
  have hword : ∀ word n, js word ≠ [] → (js word).length = n → (js word).isPrefixOf text →
      (text.drop n).length < text.length := by
    intro word n hne hn hprefix
    have hle := (List.isPrefixOf_iff_prefix.mp hprefix).length_le
    have hpos := List.length_pos_iff.mpr hne
    rw [List.length_drop]
    omega
  rw [parseScalar] at h
  split at h
  · next hnull =>
      cases h
      exact ⟨hword "null" 4 (List.cons_ne_nil _ _) rfl hnull, by simp⟩
  · split at h
    · next htrue =>
        cases h
        exact ⟨hword "true" 4 (List.cons_ne_nil _ _) rfl htrue, by simp⟩
    · split at h
      · next hfalse =>
          cases h
          exact ⟨hword "false" 5 (List.cons_ne_nil _ _) rfl hfalse, by simp⟩
      · obtain ⟨hlength, x, rfl⟩ := parseNumber_eq_some h
        exact ⟨hlength, by simp⟩

section

variable {α : Type} {item : JsString → Option (α × JsString)} {close : UInt16}

theorem Consumes.parseItems (h : Consumes item) (fuel : ℕ) : Consumes (parseItems item close fuel) := by
  induction fuel with
  | zero =>
      intro text xs rest hread
      cases hread
  | succ fuel ih =>
      intro text xs rest hread
      obtain ⟨⟨x, after⟩, hitem, hnext⟩ := Option.bind_eq_some_iff.mp hread
      have hlength := h _ _ _ hitem
      have hle := length_skip_le after
      dsimp only at hnext
      split at hnext
      · cases hnext
      · next u after' hskip =>
          rw [hskip, List.length_cons] at hle
          split at hnext
          · obtain ⟨⟨ys, rest'⟩, hrest, hout⟩ := Option.map_eq_some_iff.mp hnext
            cases hout
            have hlength' := ih _ _ _ hrest
            dsimp only
            omega
          · split at hnext
            · cases hnext
              omega
            · cases hnext

theorem Consumes.parseList (h : Consumes item) : Consumes (parseList item close) := by
  intro text xs rest hread
  rw [MibServer.Lib.parseList] at hread
  split at hread
  · next hclose =>
      cases hread
      exact length_tail_skip hclose
  · exact h.parseItems _ _ _ _ hread

end

theorem Consumes.parseField {value : JsString → Option (Json Number × JsString)} (h : Consumes value) :
    Consumes (parseField value) := by
  intro text f rest hread
  have hle := length_skip_le text
  rw [MibServer.Lib.parseField] at hread
  split at hread
  · cases hread
  · next u after hskip =>
      rw [hskip, List.length_cons] at hle
      split at hread
      · obtain ⟨⟨key, after'⟩, hkey, hvalue⟩ := Option.bind_eq_some_iff.mp hread
        have hlength := length_of_readString hkey
        dsimp only at hvalue
        split at hvalue
        · next hcolon =>
            obtain ⟨⟨v, rest'⟩, hv, hout⟩ := Option.map_eq_some_iff.mp hvalue
            cases hout
            have htail := length_tail_skip hcolon
            have hlength' := h _ _ _ hv
            dsimp only
            omega
        · cases hvalue
      · cases hread

/-- A value takes something from its text, and a string is shorter than what it takes. -/
theorem parseValue_eq_some {fuel : ℕ} (h : parseValue fuel text = some (v, rest)) :
    rest.length < text.length ∧ ∀ s, v = .string s → s.length + rest.length < text.length := by
  induction fuel generalizing text v rest with
  | zero => cases h
  | succ fuel ih =>
      have hconsumes : Consumes (parseValue fuel) := fun _ _ _ hread => (ih hread).1
      have hle := length_skip_le text
      rw [parseValue] at h
      split at h
      · cases h
      · next u after hskip =>
          rw [hskip, List.length_cons] at hle
          split at h
          · obtain ⟨⟨s, rest'⟩, hs, hout⟩ := Option.map_eq_some_iff.mp h
            cases hout
            have hlength := length_of_readString hs
            refine ⟨by omega, ?_⟩
            rintro s' ⟨⟩
            omega
          · split at h
            · obtain ⟨⟨items, rest'⟩, hitems, hout⟩ := Option.map_eq_some_iff.mp h
              cases hout
              have hlength := hconsumes.parseList _ _ _ hitems
              exact ⟨by omega, by simp⟩
            · split at h
              · obtain ⟨⟨fields, rest'⟩, hfields, hout⟩ := Option.map_eq_some_iff.mp h
                cases hout
                have hlength := hconsumes.parseField.parseList _ _ _ hfields
                exact ⟨by omega, by simp⟩
              · obtain ⟨hlength, hstring⟩ := parseScalar_eq_some h
                rw [List.length_cons] at hlength
                exact ⟨by omega, fun s hs => absurd hs (hstring s)⟩

/-- A string that is read is shorter than its text. -/
theorem length_of_parse_string {s : JsString} (h : parse text = some (.string s)) : s.length < text.length := by
  obtain ⟨⟨v, rest⟩, hread, hrest⟩ := Option.bind_eq_some_iff.mp h
  dsimp only at hrest
  split at hrest
  · cases hrest
    have hlength := (parseValue_eq_some hread).2 s rfl
    omega
  · cases hrest

/-! ### What is printed is well formed -/

theorem isWellFormed_commaSeparated {texts : List JsString} (h : ∀ t ∈ texts, isWellFormed t) :
    isWellFormed (commaSeparated texts) := by
  fun_induction commaSeparated texts with
  | case1 => rfl
  | case2 t => exact h t List.mem_cons_self
  | case3 t ts hne ih =>
      rw [isWellFormed_append (h t List.mem_cons_self), isWellFormed_cons (by decide)]
      exact ih fun t' ht' => h t' (List.mem_cons_of_mem t ht')

theorem isWellFormed_enclosed {u u' : UInt16} (hu : isSurrogate u = false) (hu' : isSurrogate u' = false)
    {s : JsString} (h : isWellFormed s) : isWellFormed (u :: (s ++ [u'])) := by
  rw [isWellFormed_cons hu, isWellFormed_append h, isWellFormed_cons hu']
  rfl

/-- A printed value has no half of a surrogate pair. -/
theorem isWellFormed_stringify (v : Json Number) : isWellFormed (stringify v) := by
  induction v using Json.induct with
  | null => rfl
  | bool b => cases b <;> rfl
  | number x =>
      cases x with
      | finite x =>
          refine isWellFormed_of_plain ?_
          intro u hu
          obtain ⟨c, hc, rfl⟩ := List.mem_map.mp hu
          exact (isNumberChar_opens (x.text_chars c hc)).2.1
      | infinite _ | nan => rfl
  | string s => exact isWellFormed_quote s
  | array items ih =>
      rw [stringify, stringifyItems_eq_map]
      refine isWellFormed_enclosed (by decide) (by decide) (isWellFormed_commaSeparated ?_)
      intro t ht
      obtain ⟨v, hv, rfl⟩ := List.mem_map.mp ht
      exact ih v hv
  | object fields ih =>
      rw [stringify, stringifyFields_eq_map]
      refine isWellFormed_enclosed (by decide) (by decide) (isWellFormed_commaSeparated ?_)
      intro t ht
      obtain ⟨f, hf, rfl⟩ := List.mem_map.mp ht
      rw [fieldText, isWellFormed_append (isWellFormed_quote f.1), isWellFormed_cons (by decide)]
      exact ih f hf

end MibServer.Lib
