import MibServer.Lib.Json
import Mathlib.Data.List.Basic

/-!
`redactForLog`: what is left of a value before it is written to a log.

Fields with a sensitive name are removed and phone numbers masked, names compared in lower
case. The code looks the lower-case key up in a set that holds one name with a capital
letter, so that name is never found; a field called `__proto__` is assigned and so becomes
the prototype instead of a field; and the two ends that the mask keeps of a short number
overlap.
-/

namespace MibServer.Logging

open MibServer.Lib

/-- `toLowerCase`. Beyond ASCII only the absence of ASCII capitals matters. -/
structure LowerCase where
  toLowerCase : JsString → JsString
  ascii : ∀ s : JsString, (∀ u ∈ s, u < 128) →
    toLowerCase s = s.map fun u => if 65 ≤ u ∧ u ≤ 90 then u + 32 else u
  noCapital : ∀ s : JsString, ∀ u ∈ toLowerCase s, ¬ (65 ≤ u ∧ u ≤ 90)

def SENSITIVE_KEYS : List JsString :=
  [js "password", js "passwordhash", js "token", js "authorization", js "refreshtoken",
    js "accesstoken", js "secret", js "qrToken"]

def PII_KEYS : List JsString := [js "phone", js "emergencyphone"]

def maskPhone (value : JsString) : JsString :=
  if value.length ≤ 4 then js "****"
  else value.take 3 ++ js "****" ++ value.drop (value.length - 4)

variable {N : Type} (L : LowerCase)

/-- `out[key] = val`; assigning to `__proto__` makes no field. -/
def assign (key : JsString) (val : Json N) (out : List (JsString × Json N)) :
    List (JsString × Json N) :=
  if key = js "__proto__" then out else (key, val) :: out

/-- `PII_KEYS.has(lower) && typeof val === 'string'` -/
def phoneString (lower : JsString) : Json N → Option JsString
  | .string s => if lower ∈ PII_KEYS then some s else none
  | _ => none

mutual

def redactForLog : Json N → Json N
  | .null => .null
  | .bool b => .bool b
  | .number x => .number x
  | .string s => .string s
  | .array items => .array (redactItems items)
  | .object fields => .object (redactEntries fields)

/-- `value.map(redactForLog)` -/
def redactItems : List (Json N) → List (Json N)
  | [] => []
  | v :: items => redactForLog v :: redactItems items

/-- The loop over `Object.entries(value)`. -/
def redactEntries : List (JsString × Json N) → List (JsString × Json N)
  | [] => []
  | (key, val) :: fields =>
      let lower := L.toLowerCase key
      if lower ∈ SENSITIVE_KEYS then redactEntries fields
      else match phoneString lower val with
        | some s => assign key (.string (maskPhone s)) (redactEntries fields)
        | none => assign key (redactForLog val) (redactEntries fields)

end

/-- What the loop assigns for a field that it keeps. -/
def redactField (key : JsString) (val : Json N) : Json N :=
  match phoneString (L.toLowerCase key) val with
  | some s => .string (maskPhone s)
  | none => redactForLog L val

theorem redactEntries_cons (key : JsString) (val : Json N) (fields : List (JsString × Json N)) :
    redactEntries L ((key, val) :: fields) =
      if L.toLowerCase key ∈ SENSITIVE_KEYS then redactEntries L fields
      else assign key (redactField L key val) (redactEntries L fields) := by
  rw [redactEntries, redactField]
  cases phoneString (L.toLowerCase key) val with
  | none => rfl
  | some s => rfl

/-! ### What redaction is for -/

/-- Two names that are the same but for letter case. -/
def SameName (key name : JsString) : Prop := L.toLowerCase key = L.toLowerCase name

def Sensitive (key : JsString) : Prop := ∃ name ∈ SENSITIVE_KEYS, SameName L key name

def Phone (key : JsString) : Prop := ∃ name ∈ PII_KEYS, SameName L key name

/-- The mask does not give a value of this length away. -/
def Hides (n : Nat) : Prop :=
  ∃ s s' : JsString, s.length = n ∧ s'.length = n ∧ s ≠ s' ∧ maskPhone s = maskPhone s'

mutual

/-- What the log may hold of a value: sensitive fields are gone, phone numbers masked, and
the rest is as it was. -/
def Redacts : Json N → Json N → Prop
  | .array items, out => ∃ items', out = .array items' ∧ RedactsItems items items'
  | .object fields, out => ∃ fields', out = .object fields' ∧ RedactsFields fields fields'
  | .null, out => out = .null
  | .bool b, out => out = .bool b
  | .number x, out => out = .number x
  | .string s, out => out = .string s

def RedactsItems : List (Json N) → List (Json N) → Prop
  | [], out => out = []
  | v :: items, out => ∃ v' items', out = v' :: items' ∧ Redacts v v' ∧ RedactsItems items items'

def RedactsFields : List (JsString × Json N) → List (JsString × Json N) → Prop
  | [], out => out = []
  | (key, val) :: fields, out =>
      (Sensitive L key ∧ RedactsFields fields out) ∨
      (¬ Sensitive L key ∧ ∃ val' fields', out = (key, val') :: fields' ∧ RedactsFields fields fields' ∧
        ((∃ s, Phone L key ∧ val = .string s ∧ val' = .string (maskPhone s) ∧ (s ≠ [] → Hides s.length)) ∨
          (¬ (∃ s, Phone L key ∧ val = .string s) ∧ Redacts val val')))

end

/-- No object at any depth has a sensitive field. -/
def NoSensitive (v : Json N) : Prop := v.AllFields fun key => ¬ Sensitive L key

mutual

/-- Where the code gets to, no field is called `qrToken` in any case or exactly `__proto__`,
and no phone number has five, six or seven code units. -/
def Clean : Json N → Prop
  | .array items => CleanItems items
  | .object fields => CleanFields fields
  | _ => True

def CleanItems : List (Json N) → Prop
  | [] => True
  | v :: items => Clean v ∧ CleanItems items

def CleanFields : List (JsString × Json N) → Prop
  | [] => True
  | (key, val) :: fields =>
      (L.toLowerCase key ∈ SENSITIVE_KEYS ∨
        (¬ SameName L key (js "qrToken") ∧ key ≠ js "__proto__" ∧
          (∀ s, phoneString (L.toLowerCase key) val = some s → s.length < 5 ∨ 7 < s.length) ∧ Clean val)) ∧
      CleanFields fields

end

/-! ### Names -/

variable {L} {key : JsString}

theorem toLowerCase_of_lower {s : JsString} (h : ∀ u ∈ s, u < 128 ∧ ¬ (65 ≤ u ∧ u ≤ 90)) :
    L.toLowerCase s = s := by
  rw [L.ascii s fun u hu => (h u hu).1]
  calc s.map (fun u => if 65 ≤ u ∧ u ≤ 90 then u + 32 else u)
      _ = s.map id := List.map_congr_left fun u hu => if_neg (h u hu).2
      _ = s := List.map_id s

theorem toLowerCase_qrToken : L.toLowerCase (js "qrToken") = js "qrtoken" :=
  (L.ascii _ (forall_mem_of_all (by decide))).trans (by decide)

/-- The lower-case key is looked up in the set, where one name is not in lower case. -/
theorem mem_sensitive_iff :
    L.toLowerCase key ∈ SENSITIVE_KEYS ↔ Sensitive L key ∧ ¬ SameName L key (js "qrToken") := by
  have hlower : ∀ name ∈ SENSITIVE_KEYS, name ≠ js "qrToken" → L.toLowerCase name = name := by
    intro name hname hne
    refine toLowerCase_of_lower (forall_mem_of_all ?_)
    revert name
    decide
  constructor
  · intro hmem
    have hne : L.toLowerCase key ≠ js "qrToken" := by
      intro heq
      exact L.noCapital key 84 (heq ▸ by decide) (by decide)
    refine ⟨⟨_, hmem, (hlower _ hmem hne).symm⟩, ?_⟩
    intro hsame
    rw [SameName, toLowerCase_qrToken] at hsame
    rw [hsame] at hmem
    revert hmem
    decide
  · rintro ⟨⟨name, hname, hsame⟩, hqr⟩
    have hne : name ≠ js "qrToken" := by
      rintro rfl
      exact hqr hsame
    rw [SameName, hlower name hname hne] at hsame
    exact hsame ▸ hname

theorem mem_pii_iff : L.toLowerCase key ∈ PII_KEYS ↔ Phone L key := by
  have hlower : ∀ name ∈ PII_KEYS, L.toLowerCase name = name := by
    intro name hname
    refine toLowerCase_of_lower (forall_mem_of_all ?_)
    revert name
    decide
  constructor
  · intro hmem
    exact ⟨_, hmem, (hlower _ hmem).symm⟩
  · rintro ⟨name, hname, hsame⟩
    rw [SameName, hlower name hname] at hsame
    exact hsame ▸ hname

theorem phoneString_eq_some {val : Json N} {s : JsString} :
    phoneString (L.toLowerCase key) val = some s ↔ Phone L key ∧ val = .string s := by
  rw [← mem_pii_iff]
  cases val with
  | string s' =>
      by_cases hpii : L.toLowerCase key ∈ PII_KEYS
      · simp [phoneString, hpii]
      · simp [phoneString, hpii]
  | null | bool _ | number _ | array _ | object _ => simp [phoneString]

/-! ### The mask -/

/-- Two short numbers with one mask are the same number: the two ends cover it. -/
theorem maskPhone_injective {s s' : JsString} (hlong : 5 ≤ s.length) (hshort : s.length ≤ 7)
    (hlength : s'.length = s.length) (h : maskPhone s = maskPhone s') : s = s' := by
  unfold maskPhone at h
  rw [if_neg (by omega), if_neg (by omega), hlength] at h
  obtain ⟨hhead, htail⟩ := List.append_inj' h (by simp [hlength])
  obtain ⟨hfirst, -⟩ := List.append_inj' hhead rfl
  have hrest : s.drop 3 = s'.drop 3 := by
    have hdrop := congrArg (List.drop (7 - s.length)) htail
    rw [List.drop_drop, List.drop_drop, show s.length - 4 + (7 - s.length) = 3 by omega] at hdrop
    exact hdrop
  rw [← List.take_append_drop 3 s, ← List.take_append_drop 3 s', hfirst, hrest]

/-- The fourth code unit of a long number is behind the mask. -/
theorem maskPhone_long {head rest : JsString} (u : UInt16) (hhead : head.length = 3) (hrest : 4 ≤ rest.length) :
    maskPhone (head ++ u :: rest) = head ++ js "****" ++ rest.drop (rest.length - 4) := by
  have hlength : (head ++ u :: rest).length = rest.length + 4 := by
    rw [List.length_append, List.length_cons, hhead]
    omega
  have htake : (head ++ u :: rest).take 3 = head := by rw [← hhead, List.take_left]
  have hdrop : (head ++ u :: rest).drop (rest.length + 4 - 4) = rest.drop (rest.length - 4) := by
    rw [show rest.length + 4 - 4 = head.length + (rest.length - 4 + 1) by omega, List.drop_append,
      List.drop_eq_nil_of_le (by omega), List.nil_append, Nat.add_sub_cancel_left, List.drop_succ_cons]
  rw [maskPhone, hlength, if_neg (by omega), htake, hdrop]

theorem hides_iff {n : Nat} (hpos : 0 < n) : Hides n ↔ n < 5 ∨ 7 < n := by
  constructor
  · rintro ⟨s, s', rfl, hlength, hne, hmask⟩
    by_contra hbetween
    exact hne (maskPhone_injective (by omega) (by omega) hlength hmask)
  · rintro (hshort | hlong)
    · refine ⟨List.replicate n 48, List.replicate n 49, List.length_replicate, List.length_replicate, ?_, ?_⟩
      · intro heq
        have hhead := congrArg List.head? heq
        rw [List.head?_replicate, List.head?_replicate, if_neg (by omega), if_neg (by omega)] at hhead
        exact absurd hhead (by decide)
      · simp [maskPhone, show n ≤ 4 by omega]
    · refine ⟨List.replicate 3 48 ++ 48 :: List.replicate (n - 4) 48,
        List.replicate 3 48 ++ 49 :: List.replicate (n - 4) 48, ?_, ?_, ?_, ?_⟩
      · simp
        omega
      · simp
        omega
      · simp
      · have hrest : 4 ≤ (List.replicate (n - 4) (48 : UInt16)).length := by
          rw [List.length_replicate]
          omega
        rw [maskPhone_long _ List.length_replicate hrest, maskPhone_long _ List.length_replicate hrest]

/-! ### The loop over the fields -/

theorem not_sensitive_of_redactsFields {fields out : List (JsString × Json N)}
    (h : RedactsFields L fields out) : ∀ f ∈ out, ¬ Sensitive L f.1 := by
  induction fields generalizing out with
  | nil =>
      obtain rfl : out = [] := h
      exact List.forall_mem_nil _
  | cons f fields ih =>
      rcases h with ⟨-, hrest⟩ | ⟨hkeep, val', fields', rfl, hrest, -⟩
      · exact ih hrest
      · exact List.forall_mem_cons.mpr ⟨hkeep, ih hrest⟩

theorem not_proto_of_mem_redactEntries {fields : List (JsString × Json N)} :
    ∀ f ∈ redactEntries L fields, f.1 ≠ js "__proto__" := by
  have hassign : ∀ (key : JsString) (val : Json N) (out : List (JsString × Json N)),
      (∀ f ∈ out, f.1 ≠ js "__proto__") → ∀ f ∈ assign key val out, f.1 ≠ js "__proto__" := by
    intro key val out hout
    unfold assign
    split
    · exact hout
    · next hkey => exact List.forall_mem_cons.mpr ⟨hkey, hout⟩
  induction fields with
  | nil => exact List.forall_mem_nil _
  | cons f fields ih =>
      rw [redactEntries_cons]
      split
      · exact ih
      · exact hassign _ _ _ ih

theorem not_sameName_proto : ¬ SameName L (js "__proto__") (js "qrToken") := by
  have hproto : L.toLowerCase (js "__proto__") = js "__proto__" :=
    toLowerCase_of_lower (forall_mem_of_all (by decide))
  rw [SameName, hproto, toLowerCase_qrToken]
  decide

/-- A field that the code keeps is kept as it should be. -/
theorem field_iff {val : Json N} (hval : Redacts L val (redactForLog L val) ↔ Clean L val) :
    (((∃ s, Phone L key ∧ val = .string s ∧ redactField L key val = .string (maskPhone s) ∧
        (s ≠ [] → Hides s.length)) ∨
      (¬ (∃ s, Phone L key ∧ val = .string s) ∧ Redacts L val (redactField L key val))) ↔
    (∀ s, phoneString (L.toLowerCase key) val = some s → s.length < 5 ∨ 7 < s.length) ∧ Clean L val) := by
  unfold redactField
  cases hphone : phoneString (L.toLowerCase key) val with
  | some s =>
      obtain ⟨hkey, rfl⟩ := phoneString_eq_some.mp hphone
      have hclean : Clean L (Json.string s : Json N) := trivial
      constructor
      · rintro (⟨s', -, hs', -, hhides⟩ | ⟨hnot, -⟩)
        · obtain rfl := Json.string.inj hs'
          refine ⟨?_, hclean⟩
          intro s' hs'
          obtain rfl := Option.some.inj hs'
          by_cases hnil : s = []
          · rw [hnil]
            exact Or.inl (by decide)
          · exact (hides_iff (List.length_pos_iff.mpr hnil)).mp (hhides hnil)
        · exact absurd ⟨s, hkey, rfl⟩ hnot
      · rintro ⟨hlength, -⟩
        refine Or.inl ⟨s, hkey, rfl, rfl, ?_⟩
        intro hne
        exact (hides_iff (List.length_pos_iff.mpr hne)).mpr (hlength s rfl)
  | none =>
      have hnot : ¬ ∃ s, Phone L key ∧ val = .string s := by
        rintro ⟨s, hs⟩
        rw [phoneString_eq_some.mpr hs] at hphone
        cases hphone
      constructor
      · rintro (⟨s, hkey, hs, -⟩ | ⟨-, hredacts⟩)
        · exact absurd ⟨s, hkey, hs⟩ hnot
        · refine ⟨?_, hval.mp hredacts⟩
          intro s hs
          cases hs
      · rintro ⟨-, hclean⟩
        exact Or.inr ⟨hnot, hval.mpr hclean⟩

theorem redactsFields_iff {fields : List (JsString × Json N)}
    (ih : ∀ f ∈ fields, (Redacts L f.2 (redactForLog L f.2) ↔ Clean L f.2)) :
    RedactsFields L fields (redactEntries L fields) ↔ CleanFields L fields := by
  induction fields with
  | nil => exact iff_of_true rfl trivial
  | cons f fields hfields =>
      obtain ⟨key, val⟩ := f
      have hrest := hfields fun f hf => ih f (List.mem_cons_of_mem _ hf)
      have hval := ih (key, val) List.mem_cons_self
      rw [CleanFields, RedactsFields, redactEntries_cons]
      by_cases hcode : L.toLowerCase key ∈ SENSITIVE_KEYS
      · -- removed by the code
        have hsensitive := (mem_sensitive_iff.mp hcode).1
        simp only [hcode, hsensitive, if_true, true_and, true_or, not_true_eq_false, false_and, or_false]
        exact hrest
      · simp only [hcode, if_false, false_or]
        by_cases hsensitive : Sensitive L key
        · -- kept, although it should be gone
          have hqr : SameName L key (js "qrToken") := by
            by_contra hne
            exact hcode (mem_sensitive_iff.mpr ⟨hsensitive, hne⟩)
          have hproto : key ≠ js "__proto__" := by
            rintro rfl
            exact not_sameName_proto hqr
          simp only [hsensitive, hqr, not_true_eq_false, false_and, or_false, true_and, iff_false]
          rw [assign, if_neg hproto]
          intro hredacts
          exact not_sensitive_of_redactsFields hredacts _ List.mem_cons_self hsensitive
        · have hqr : ¬ SameName L key (js "qrToken") := by
            intro hsame
            exact hsensitive ⟨js "qrToken", by decide, hsame⟩
          simp only [hsensitive, hqr, false_and, false_or, not_false_eq_true, true_and]
          by_cases hproto : key = js "__proto__"
          · -- lost, although it should stay
            simp only [hproto, ne_eq, not_true_eq_false, false_and, iff_false, assign, if_true]
            rintro ⟨val', fields', hout, -⟩
            exact not_proto_of_mem_redactEntries (js "__proto__", val') (hout ▸ List.mem_cons_self) rfl
          · rw [assign, if_neg hproto, and_iff_right hproto, ← field_iff hval, ← hrest, and_comm]
            constructor
            · rintro ⟨val', fields', hout, hfields, hvalue⟩
              obtain ⟨hfirst, rfl⟩ := List.cons.inj hout
              obtain ⟨-, rfl⟩ := Prod.mk.inj hfirst
              exact ⟨hfields, hvalue⟩
            · rintro ⟨hfields, hvalue⟩
              exact ⟨_, _, rfl, hfields, hvalue⟩

theorem redactsItems_iff {items : List (Json N)}
    (ih : ∀ v ∈ items, (Redacts L v (redactForLog L v) ↔ Clean L v)) :
    RedactsItems L items (redactItems L items) ↔ CleanItems L items := by
  induction items with
  | nil => exact iff_of_true rfl trivial
  | cons v items hitems =>
      rw [CleanItems, RedactsItems, redactItems, ← ih v List.mem_cons_self,
        ← hitems fun v hv => ih v (List.mem_cons_of_mem _ hv)]
      constructor
      · rintro ⟨v', items', hout, hv, hrest⟩
        obtain ⟨rfl, rfl⟩ := List.cons.inj hout
        exact ⟨hv, hrest⟩
      · rintro ⟨hv, hrest⟩
        exact ⟨_, _, rfl, hv, hrest⟩

theorem redacts_iff (v : Json N) : Redacts L v (redactForLog L v) ↔ Clean L v := by
  induction v using Json.induct with
  | null | bool b | number x | string s => exact iff_of_true rfl trivial
  | array items ih =>
      rw [redactForLog, Redacts, Clean, ← redactsItems_iff ih]
      constructor
      · rintro ⟨items', hout, hitems⟩
        obtain rfl := Json.array.inj hout
        exact hitems
      · exact fun hitems => ⟨_, rfl, hitems⟩
  | object fields ih =>
      rw [redactForLog, Redacts, Clean, ← redactsFields_iff ih]
      constructor
      · rintro ⟨fields', hout, hfields⟩
        obtain rfl := Json.object.inj hout
        exact hfields
      · exact fun hfields => ⟨_, rfl, hfields⟩

/-! ### No sensitive field is left -/

theorem exists_of_redactsItems {items out : List (Json N)} (h : RedactsItems L items out) :
    ∀ v' ∈ out, ∃ v ∈ items, Redacts L v v' := by
  induction items generalizing out with
  | nil =>
      obtain rfl : out = [] := h
      exact List.forall_mem_nil _
  | cons v items ih =>
      obtain ⟨v', items', rfl, hv, hrest⟩ := h
      refine List.forall_mem_cons.mpr ⟨⟨v, List.mem_cons_self, hv⟩, ?_⟩
      intro w hw
      obtain ⟨u, hu, huw⟩ := ih hrest w hw
      exact ⟨u, List.mem_cons_of_mem _ hu, huw⟩

theorem exists_of_redactsFields {fields out : List (JsString × Json N)} (h : RedactsFields L fields out) :
    ∀ f' ∈ out, (∃ s, f'.2 = .string s) ∨ ∃ f ∈ fields, Redacts L f.2 f'.2 := by
  induction fields generalizing out with
  | nil =>
      obtain rfl : out = [] := h
      exact List.forall_mem_nil _
  | cons f fields ih =>
      have hlift : ∀ {out'}, RedactsFields L fields out' →
          ∀ f' ∈ out', (∃ s, f'.2 = .string s) ∨ ∃ g ∈ f :: fields, Redacts L g.2 f'.2 := by
        intro out' hrest f' hf'
        rcases ih hrest f' hf' with hstring | ⟨g, hg, hgf⟩
        · exact Or.inl hstring
        · exact Or.inr ⟨g, List.mem_cons_of_mem _ hg, hgf⟩
      rcases h with ⟨-, hrest⟩ | ⟨-, val', fields', rfl, hrest, hvalue⟩
      · exact hlift hrest
      · refine List.forall_mem_cons.mpr ⟨?_, hlift hrest⟩
        rcases hvalue with ⟨s, -, -, hs, -⟩ | ⟨-, hval⟩
        · exact Or.inl ⟨_, hs⟩
        · exact Or.inr ⟨f, List.mem_cons_self, hval⟩

theorem noSensitive_of_redacts {v out : Json N} (h : Redacts L v out) : NoSensitive L out := by
  induction v using Json.induct generalizing out with
  | null | bool b | number x | string s =>
      rw [Redacts] at h
      subst h
      simp [NoSensitive]
  | array items ih =>
      obtain ⟨items', rfl, hitems⟩ := h
      refine Json.allFields_array.mpr ?_
      intro v' hv'
      obtain ⟨v, hmem, hredacts⟩ := exists_of_redactsItems hitems v' hv'
      exact ih v hmem hredacts
  | object entries ih =>
      obtain ⟨entries', rfl, hentries⟩ := h
      refine Json.allFields_object.mpr ?_
      intro f' hf'
      refine ⟨not_sensitive_of_redactsFields hentries f' hf', ?_⟩
      rcases exists_of_redactsFields hentries f' hf' with ⟨s, hs⟩ | ⟨f, hmem, hredacts⟩
      · rw [hs]
        exact Json.allFields_string s
      · exact ih f hmem hredacts

/-- The code redacts a value if and only if the value stays clear of the three slips. -/
theorem redactForLog_iff (L : LowerCase) (v : Json N) :
    (NoSensitive L (redactForLog L v) ∧ Redacts L v (redactForLog L v)) ↔ Clean L v := by
  rw [← redacts_iff]
  exact and_iff_right_of_imp noSensitive_of_redacts

/-! ### Slips -/

def lowerUnit (u : UInt16) : UInt16 := if 65 ≤ u ∧ u ≤ 90 then u + 32 else u

theorem lowerUnit_noCapital (s : JsString) : ∀ u ∈ s.map lowerUnit, ¬ (65 ≤ u ∧ u ≤ 90) := by
  intro u hu
  obtain ⟨v, -, rfl⟩ := List.mem_map.mp hu
  unfold lowerUnit
  split
  · next hcapital =>
      simp only [UInt16.le_iff_toNat_le, UInt16.toNat_add] at hcapital ⊢
      have hvalues : (65 : UInt16).toNat = 65 ∧ (90 : UInt16).toNat = 90 ∧ (32 : UInt16).toNat = 32 := by
        decide
      omega
  · next hother => exact hother

/-- Lower case on ASCII; other code units stay. -/
def asciiLowerCase : LowerCase where
  toLowerCase s := s.map lowerUnit
  ascii _ _ := rfl
  noCapital := lowerUnit_noCapital

/-- A field that the set lists is left in the log. -/
theorem qrToken_left : ¬ ∀ (L : LowerCase) (v : Json Unit),
    NoSensitive L (redactForLog L v) ∧ Redacts L v (redactForLog L v) := by
  intro h
  have hsensitive : Sensitive asciiLowerCase (js "qrToken") := ⟨js "qrToken", by decide, rfl⟩
  have hsame : redactForLog asciiLowerCase (.object [(js "qrToken", .string (js "abc"))] : Json Unit) =
      .object [(js "qrToken", .string (js "abc"))] := rfl
  have hleft := (h asciiLowerCase (.object [(js "qrToken", .string (js "abc"))])).1
  rw [hsame] at hleft
  exact hleft _ (.refl _) (js "qrToken", .string (js "abc")) List.mem_cons_self hsensitive

end MibServer.Logging
