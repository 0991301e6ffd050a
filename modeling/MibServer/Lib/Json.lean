import MibServer.Text

/-!
JSON values as JavaScript holds them.

A string is its UTF-16 code units, so that every JavaScript string is one, also a string
with half a surrogate pair. An object lists its own fields in the order in which it
enumerates them. The numbers are a parameter.
-/

namespace MibServer.Lib

/-- A JavaScript string: its code units. -/
abbrev JsString := List UInt16

instance : LawfulBEq JsString := inferInstance

/-- The string of a text. -/
def js (text : String) : JsString := (codeUnits text).map UInt16.ofNat

inductive Json (N : Type) where
  | null
  | bool (b : Bool)
  | number (x : N)
  | string (s : JsString)
  | array (items : List (Json N))
  | object (fields : List (JsString × Json N))

namespace Json

variable {N : Type}

/-- A value somewhere in another one. -/
inductive Within : Json N → Json N → Prop
  | refl (v : Json N) : Within v v
  | item {w v : Json N} {items : List (Json N)} (hv : v ∈ items) (hw : Within w v) : Within w (.array items)
  | field {w : Json N} {f : JsString × Json N} {fields : List (JsString × Json N)} (hf : f ∈ fields)
      (hw : Within w f.2) : Within w (.object fields)

/-- The names of all fields, at any depth, satisfy `P`. -/
def AllFields (P : JsString → Prop) (v : Json N) : Prop :=
  ∀ fields, (Json.object fields).Within v → ∀ f ∈ fields, P f.1

variable {P : JsString → Prop}

theorem allFields_leaf {v : Json N} (h : ∀ w, Within w v → w = v) (hv : ∀ fields, v ≠ .object fields) :
    v.AllFields P :=
  fun fields hwithin => absurd (h _ hwithin).symm (hv fields)

@[simp] theorem allFields_null : (Json.null : Json N).AllFields P :=
  allFields_leaf (by rintro w ⟨⟩; rfl) (by simp)

@[simp] theorem allFields_bool (b : Bool) : (Json.bool b : Json N).AllFields P :=
  allFields_leaf (by rintro w ⟨⟩; rfl) (by simp)

@[simp] theorem allFields_number (x : N) : (Json.number x).AllFields P :=
  allFields_leaf (by rintro w ⟨⟩; rfl) (by simp)

@[simp] theorem allFields_string (s : JsString) : (Json.string s : Json N).AllFields P :=
  allFields_leaf (by rintro w ⟨⟩; rfl) (by simp)

theorem allFields_array {items : List (Json N)} :
    (Json.array items).AllFields P ↔ ∀ v ∈ items, v.AllFields P := by
  constructor
  · intro h v hv fields hwithin
    exact h fields (.item hv hwithin)
  · intro h fields hwithin
    cases hwithin with
    | item hv hw => exact h _ hv fields hw

theorem allFields_object {fields : List (JsString × Json N)} :
    (Json.object fields).AllFields P ↔ ∀ f ∈ fields, P f.1 ∧ f.2.AllFields P := by
  constructor
  · intro h f hf
    exact ⟨h fields (.refl _) f hf, fun fields' hwithin => h fields' (.field hf hwithin)⟩
  · intro h fields' hwithin
    cases hwithin with
    | refl => exact fun f hf => (h f hf).1
    | field hf hw => exact (h _ hf).2 fields' hw

/-- Every value holds what its parts hand up. -/
@[elab_as_elim] theorem induct {motive : Json N → Prop} (null : motive .null)
    (bool : ∀ b, motive (.bool b)) (number : ∀ x, motive (.number x)) (string : ∀ s, motive (.string s))
    (array : ∀ items : List (Json N), (∀ v ∈ items, motive v) → motive (.array items))
    (object : ∀ fields : List (JsString × Json N), (∀ f ∈ fields, motive f.2) → motive (.object fields))
    (v : Json N) : motive v :=
  @Json.rec N motive (fun items => ∀ v ∈ items, motive v) (fun fields => ∀ f ∈ fields, motive f.2)
    (fun f => motive f.2) null bool number string array object
    (List.forall_mem_nil _) (fun _ _ hv hvs => List.forall_mem_cons.mpr ⟨hv, hvs⟩)
    (List.forall_mem_nil _) (fun _ _ hf hfs => List.forall_mem_cons.mpr ⟨hf, hfs⟩)
    (fun _ _ hv => hv) v

end Json

end MibServer.Lib
