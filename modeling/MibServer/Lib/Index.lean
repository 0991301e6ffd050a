import Mathlib.Data.List.Nodup
import Mathlib.Data.List.Pairwise
import Mathlib.Data.List.Flatten

/-!
Tables under unique indexes.

`keys r` lists the index entries a row occupies: one per unique index, none for
an index whose columns are null in the row. A table is well formed when no entry
is occupied twice (`UniqueOn`), and `Indexed` carries that fact, so a write that
would break it has no result: the write operations are partial.
-/

namespace MibServer.Lib

variable {R K : Type} {keys : R → List K}

/-- No index entry is occupied twice. -/
def UniqueOn (keys : R → List K) (rows : List R) : Prop :=
  (rows.flatMap keys).Nodup

instance [DecidableEq K] (keys : R → List K) (rows : List R) : Decidable (UniqueOn keys rows) :=
  inferInstanceAs (Decidable (List.Nodup _))

/-- Two rows that occupy a common entry are one row. -/
theorem UniqueOn.eq_of_mem {rows : List R} (h : UniqueOn keys rows) {r r' : R} {k : K}
    (hr : r ∈ rows) (hr' : r' ∈ rows) (hk : k ∈ keys r) (hk' : k ∈ keys r') : r = r' := by
  by_contra hne
  have hsymm : Std.Symm (Function.onFun List.Disjoint keys) :=
    ⟨fun _ _ h _ hk hk' => h hk' hk⟩
  have hdisj := (List.nodup_flatMap.mp h).2.forall hr hr' hne
  exact hdisj hk hk'

/-- At most one row occupies an entry. -/
theorem UniqueOn.countP_le_one [DecidableEq K] {rows : List R} (h : UniqueOn keys rows) {k : K}
    {p : R → Bool} (hp : ∀ r ∈ rows, p r = true → k ∈ keys r) : rows.countP p ≤ 1 := by
  have hcount : rows.countP p ≤ (rows.flatMap keys).count k := by
    clear h
    induction rows with
    | nil => exact Nat.le_refl 0
    | cons r rows ih =>
        rw [List.flatMap_cons, List.count_append, List.countP_cons]
        have hrest := ih fun r' hr' => hp r' (List.mem_cons_of_mem _ hr')
        split
        · rename_i hr
          have hone := List.one_le_count_iff.mpr (hp r List.mem_cons_self hr)
          omega
        · omega
  exact Nat.le_trans hcount (List.nodup_iff_count_le_one.mp h k)

/-- A condition that only rows of one entry meet selects no row, or the one row of
that entry. -/
theorem UniqueOn.select_cases [DecidableEq K] {rows : List R} (h : UniqueOn keys rows) {k : K}
    {p : R → Bool} (hp : ∀ r ∈ rows, p r = true → k ∈ keys r) :
    ((∀ r ∈ rows, p r = false) ∧ rows.countP p = 0) ∨
      ∃ r ∈ rows, p r = true ∧ rows.countP p = 1 ∧ ∀ r' ∈ rows, (p r' = true ↔ k ∈ keys r') := by
  by_cases hsel : ∃ r ∈ rows, p r = true
  · obtain ⟨r, hr, hpr⟩ := hsel
    have hpos : 0 < rows.countP p := List.countP_pos_iff.mpr ⟨r, hr, hpr⟩
    have hone := h.countP_le_one hp
    refine Or.inr ⟨r, hr, hpr, by omega, fun r' hr' => ⟨hp r' hr', fun hk => ?_⟩⟩
    rwa [h.eq_of_mem hr' hr hk (hp r hr hpr)]
  · have hnone : ∀ r ∈ rows, p r = false :=
      fun r hr => Bool.eq_false_iff.mpr fun hpr => hsel ⟨r, hr, hpr⟩
    exact Or.inl ⟨hnone, List.countP_eq_zero.mpr fun r hr => by simp [hnone r hr]⟩

theorem UniqueOn.sublist {rows rows' : List R} (h : UniqueOn keys rows)
    (hsub : rows'.Sublist rows) : UniqueOn keys rows' :=
  List.Nodup.sublist (hsub.flatMap keys) h

/-- A row may join a table when its entries are distinct and unoccupied. -/
theorem uniqueOn_append_singleton {rows : List R} {r : R} :
    UniqueOn keys (rows ++ [r]) ↔
      UniqueOn keys rows ∧ (keys r).Nodup ∧ ∀ k ∈ keys r, k ∉ rows.flatMap keys := by
  unfold UniqueOn
  rw [List.flatMap_append, List.nodup_append', List.flatMap_singleton]
  refine and_congr_right fun _ => and_congr_right fun _ => ?_
  exact ⟨fun h k hk hmem => h hmem hk, fun h k hmem hk => h k hk hmem⟩

/-- Rewriting rows in place keeps the index when no row's entries change. -/
theorem UniqueOn.map_of_keys_eq {rows : List R} (h : UniqueOn keys rows) {f : R → R}
    (hf : ∀ r ∈ rows, keys (f r) = keys r) : UniqueOn keys (rows.map f) := by
  unfold UniqueOn at *
  rw [List.flatMap_map]
  have hcongr : rows.flatMap (fun r => keys (f r)) = rows.flatMap keys :=
    List.flatMap_congr hf
  rwa [hcongr]

/-- Giving a free entry to the rows of one entry keeps the index. -/
theorem UniqueOn.map_of_free {rows : List R} (h : UniqueOn keys rows) {p : R → Bool} {f : R → R}
    {e new : K} (hold : ∀ r ∈ rows, p r = true → e ∈ keys r) (hnew : new ∉ rows.flatMap keys)
    (hnodup : ∀ r ∈ rows, (keys (f r)).Nodup)
    (hf : ∀ r ∈ rows, p r = true → ∀ k ∈ keys (f r), k = new ∨ k ∈ keys r) :
    UniqueOn keys (rows.map fun r => if p r then f r else r) := by
  have hfree : ∀ r ∈ rows, new ∉ keys r := fun r hr hk => hnew (List.mem_flatMap.mpr ⟨r, hr, hk⟩)
  unfold UniqueOn at *
  obtain ⟨hrows, hpairs⟩ := List.nodup_flatMap.mp h
  refine List.nodup_flatMap.mpr ⟨fun r' hr' => ?_, List.pairwise_map.mpr ?_⟩
  · obtain ⟨r, hr, rfl⟩ := List.mem_map.mp hr'
    split
    · exact hnodup r hr
    · exact hrows r hr
  · refine hpairs.imp_of_mem fun {r r'} hr hr' hdisjoint => ?_
    -- An entry of a rewritten row is the new one, or one of the row before.
    have hentry : ∀ r ∈ rows, ∀ k ∈ keys (if p r then f r else r),
        k = new ∧ p r = true ∨ k ∈ keys r := by
      intro r hr k hk
      split at hk
      · rename_i hp
        exact (hf r hr hp k hk).imp (fun heq => ⟨heq, hp⟩) id
      · exact Or.inr hk
    intro k hk hk'
    rcases hentry r hr k hk with ⟨rfl, hp⟩ | hkey <;> rcases hentry r' hr' k hk' with ⟨heq, hp'⟩ | hkey'
    · exact hdisjoint (hold r hr hp) (hold r' hr' hp')
    · exact hfree r' hr' hkey'
    · exact hfree r hr (heq ▸ hkey)
    · exact hdisjoint hkey hkey'

/-- Rewriting the row of one entry keeps the index exactly when the entries of the new row are
distinct and no other row occupies one of them. -/
theorem UniqueOn.map_iff {rows : List R} (h : UniqueOn keys rows) {p : R → Bool} {f : R → R} {e : K}
    {r : R} (hr : r ∈ rows) (hp : p r = true) (hold : ∀ r ∈ rows, p r = true → e ∈ keys r) :
    UniqueOn keys (rows.map fun r => if p r then f r else r) ↔
      (keys (f r)).Nodup ∧ ∀ r' ∈ rows, r' ≠ r → List.Disjoint (keys (f r)) (keys r') := by
  have hother : ∀ r' ∈ rows, r' ≠ r → p r' = false := fun r' hr' hne =>
    Bool.eq_false_iff.mpr fun hp' => hne (h.eq_of_mem hr' hr (hold r' hr' hp') (hold r hr hp))
  constructor
  · intro hmap
    obtain ⟨hrows, hpairs⟩ := List.nodup_flatMap.mp hmap
    refine ⟨by simpa [hp] using hrows _ (List.mem_map_of_mem hr), fun r' hr' hne => ?_⟩
    have hsymm : Std.Symm fun a b => List.Disjoint (keys (if p a then f a else a))
        (keys (if p b then f b else b)) := ⟨fun _ _ h _ hk hk' => h hk' hk⟩
    have hdisjoint := (List.pairwise_map.mp hpairs).forall hr hr' (Ne.symm hne)
    simpa [hp, hother r' hr' hne] using hdisjoint
  · rintro ⟨hnodup, hfree⟩
    obtain ⟨hrows, hpairs⟩ := List.nodup_flatMap.mp h
    refine List.nodup_flatMap.mpr ⟨fun r' hr' => ?_, List.pairwise_map.mpr ?_⟩
    · obtain ⟨a, ha, rfl⟩ := List.mem_map.mp hr'
      by_cases har : a = r
      · simpa [har, hp] using hnodup
      · simpa [hother a ha har] using hrows a ha
    · refine hpairs.imp_of_mem fun {a b} ha hb hdisjoint => ?_
      by_cases har : a = r <;> by_cases hbr : b = r
      · -- The row is there once.
        exact absurd (hold r hr hp) fun he => hdisjoint (har ▸ he) (hbr ▸ he)
      · simpa [har, hp, hother b hb hbr] using hfree b hb hbr
      · simpa [hbr, hp, hother a ha har] using List.disjoint_symm (hfree a ha har)
      · simpa [hother a ha har, hother b hb hbr] using hdisjoint

/-- A table whose rows respect its unique indexes. -/
@[ext]
structure Indexed (R K : Type) (keys : R → List K) where
  rows : List R
  unique : UniqueOn keys rows

namespace Indexed

instance : EmptyCollection (Indexed R K keys) := ⟨⟨[], List.nodup_nil⟩⟩

@[simp] theorem rows_empty : (∅ : Indexed R K keys).rows = [] := rfl

def deleteWhere (t : Indexed R K keys) (p : R → Bool) : Indexed R K keys :=
  ⟨t.rows.filter fun r => !p r, t.unique.sublist List.filter_sublist⟩

theorem mem_deleteWhere {t : Indexed R K keys} {p : R → Bool} {r : R} :
    r ∈ (t.deleteWhere p).rows ↔ r ∈ t.rows ∧ p r = false := by
  simp [deleteWhere]

/-- Rewrite the rows that satisfy `p` by a function that leaves their entries alone. -/
def modify (t : Indexed R K keys) (p : R → Bool) (f : R → R) (hf : ∀ r, keys (f r) = keys r) :
    Indexed R K keys where
  rows := t.rows.map fun r => if p r then f r else r
  unique := t.unique.map_of_keys_eq fun r _ => by
    split
    · exact hf r
    · rfl

theorem mem_modify {t : Indexed R K keys} {p : R → Bool} {f : R → R}
    {hf : ∀ r, keys (f r) = keys r} {r : R} :
    r ∈ (t.modify p f hf).rows ↔ ∃ r₀ ∈ t.rows, (if p r₀ then f r₀ else r₀) = r :=
  List.mem_map

variable [DecidableEq K]

/-- Replace the rows, unless the new rows violate an index. -/
def replace? (_ : Indexed R K keys) (rows : List R) : Option (Indexed R K keys) :=
  if h : UniqueOn keys rows then some ⟨rows, h⟩ else none

/-- Insert rows together, all or none. -/
def insertMany? (t : Indexed R K keys) (rs : List R) : Option (Indexed R K keys) :=
  t.replace? (t.rows ++ rs)

def insert? (t : Indexed R K keys) (r : R) : Option (Indexed R K keys) :=
  t.insertMany? [r]

/-- Rewrite the rows that satisfy `p`. -/
def updateWhere? (t : Indexed R K keys) (p : R → Bool) (f : R → R) : Option (Indexed R K keys) :=
  t.replace? (t.rows.map fun r => if p r then f r else r)

theorem replace?_some {t t' : Indexed R K keys} {rows : List R}
    (h : t.replace? rows = some t') : t'.rows = rows := by
  unfold replace? at h
  split at h
  · cases h; rfl
  · cases h

theorem replace?_of_unique (t : Indexed R K keys) {rows : List R} (h : UniqueOn keys rows) :
    t.replace? rows = some ⟨rows, h⟩ := dif_pos h

theorem replace?_of_not_unique (t : Indexed R K keys) {rows : List R} (h : ¬ UniqueOn keys rows) :
    t.replace? rows = none := dif_neg h

/-- The row under an entry. -/
def row? (t : Indexed R K keys) (k : K) : Option R := t.rows.find? fun r => decide (k ∈ keys r)

theorem row?_eq_some_iff {t : Indexed R K keys} {k : K} {r : R} :
    t.row? k = some r ↔ r ∈ t.rows ∧ k ∈ keys r := by
  unfold row?
  constructor
  · intro h
    exact ⟨List.mem_of_find?_eq_some h, by simpa using List.find?_some h⟩
  · rintro ⟨hr, hk⟩
    have hsome : (t.rows.find? fun r => decide (k ∈ keys r)).isSome := by
      rw [List.find?_isSome]
      exact ⟨r, hr, by simpa using hk⟩
    obtain ⟨r', hfind⟩ := Option.isSome_iff_exists.mp hsome
    have hk' : k ∈ keys r' := by simpa using List.find?_some hfind
    rwa [t.unique.eq_of_mem hr (List.mem_of_find?_eq_some hfind) hk hk']

theorem row?_eq_none_iff {t : Indexed R K keys} {k : K} :
    t.row? k = none ↔ ∀ r ∈ t.rows, k ∉ keys r := by
  simp [row?, List.find?_eq_none]

theorem rows_insert? {t t' : Indexed R K keys} {r : R} (h : t.insert? r = some t') :
    t'.rows = t.rows ++ [r] :=
  replace?_some (t := t) h

theorem mem_insertMany? {t t' : Indexed R K keys} {rs : List R}
    (h : t.insertMany? rs = some t') {r : R} : r ∈ t'.rows ↔ r ∈ t.rows ∨ r ∈ rs := by
  rw [replace?_some h, List.mem_append]

theorem mem_insert? {t t' : Indexed R K keys} {r₀ : R}
    (h : t.insert? r₀ = some t') {r : R} : r ∈ t'.rows ↔ r ∈ t.rows ∨ r = r₀ := by
  rw [mem_insertMany? h, List.mem_singleton]

theorem mem_updateWhere? {t t' : Indexed R K keys} {p : R → Bool} {f : R → R}
    (h : t.updateWhere? p f = some t') {r : R} :
    r ∈ t'.rows ↔ ∃ r₀ ∈ t.rows, (if p r₀ then f r₀ else r₀) = r := by
  rw [replace?_some h, List.mem_map]

/-! ### Inserting what fits -/

/-- The entries of the row are distinct and unoccupied. -/
def Free (t : Indexed R K keys) (r : R) : Prop :=
  (keys r).Nodup ∧ ∀ k ∈ keys r, k ∉ t.rows.flatMap keys

omit [DecidableEq K] in
theorem Free.mono {t t' : Indexed R K keys} {r : R} (h : t'.Free r)
    (hsub : ∀ r ∈ t.rows, r ∈ t'.rows) : t.Free r := by
  obtain ⟨hnodup, hfree⟩ := h
  refine ⟨hnodup, fun k hk hmem => ?_⟩
  obtain ⟨r', hr', hk'⟩ := List.mem_flatMap.mp hmem
  exact hfree k hk (List.mem_flatMap.mpr ⟨r', hsub r' hr', hk'⟩)

/-- Insert the rows one after another and leave out each that finds an entry occupied. -/
def insertFree (t : Indexed R K keys) (rs : List R) : Indexed R K keys :=
  rs.foldl (fun t r => (t.insert? r).getD t) t

theorem insert?_of_not_free {t : Indexed R K keys} {r : R} (h : ¬ t.Free r) : t.insert? r = none := by
  have hunique : ¬ UniqueOn keys (t.rows ++ [r]) :=
    fun hunique => h (uniqueOn_append_singleton.mp hunique).2
  exact replace?_of_not_unique t hunique

theorem insert?_of_free {t : Indexed R K keys} {r : R} (h : t.Free r) :
    ∃ t', t.insert? r = some t' ∧ t'.rows = t.rows ++ [r] := by
  have hunique : UniqueOn keys (t.rows ++ [r]) := uniqueOn_append_singleton.mpr ⟨t.unique, h⟩
  exact ⟨⟨t.rows ++ [r], hunique⟩, replace?_of_unique t hunique, rfl⟩

theorem insertFree_of_not_free {t : Indexed R K keys} {rs : List R} (h : ∀ r ∈ rs, ¬ t.Free r) :
    t.insertFree rs = t := by
  induction rs with
  | nil => rfl
  | cons r rs ih =>
      have hskip := insert?_of_not_free (h r List.mem_cons_self)
      rw [insertFree, List.foldl_cons, hskip]
      exact ih fun r' hr' => h r' (List.mem_cons_of_mem _ hr')

/-- Of rows that occupy different entries, those whose entries are free get in. -/
theorem mem_insertFree {t : Indexed R K keys} {rs : List R} (hrs : UniqueOn keys rs) {r : R} :
    r ∈ (t.insertFree rs).rows ↔ r ∈ t.rows ∨ r ∈ rs ∧ t.Free r := by
  induction rs generalizing t with
  | nil => simp [insertFree]
  | cons r₀ rs ih =>
      have hrest : UniqueOn keys rs := hrs.sublist (List.sublist_cons_self _ _)
      have hhead : ∀ r ∈ rs, (keys r₀).Disjoint (keys r) := by
        unfold UniqueOn at hrs
        rw [List.flatMap_cons, List.nodup_append'] at hrs
        exact fun r hr k hk hk' => hrs.2.2 hk (List.mem_flatMap.mpr ⟨r, hr, hk'⟩)
      rw [insertFree, List.foldl_cons]
      by_cases hfree : t.Free r₀
      · obtain ⟨t', hinsert, hrows⟩ := insert?_of_free hfree
        have hkeep : r ∈ rs → (t'.Free r ↔ t.Free r) := by
          intro hr
          constructor
          · exact fun h => h.mono fun r' hr' => by simp [hrows, hr']
          · rintro ⟨hnodup, hunoccupied⟩
            refine ⟨hnodup, fun k hk hmem => ?_⟩
            rw [hrows, List.flatMap_append, List.mem_append, List.flatMap_singleton] at hmem
            rcases hmem with hmem | hmem
            · exact hunoccupied k hk hmem
            · exact hhead r hr hmem hk
        rw [hinsert, Option.getD_some]
        refine (ih hrest).trans ?_
        rw [hrows, List.mem_append, List.mem_singleton, List.mem_cons]
        constructor
        · rintro ((hold | rfl) | ⟨hr, hfree'⟩)
          · exact Or.inl hold
          · exact Or.inr ⟨Or.inl rfl, hfree⟩
          · exact Or.inr ⟨Or.inr hr, (hkeep hr).mp hfree'⟩
        · rintro (hold | ⟨rfl | hr, hfree'⟩)
          · exact Or.inl (Or.inl hold)
          · exact Or.inl (Or.inr rfl)
          · exact Or.inr ⟨hr, (hkeep hr).mpr hfree'⟩
      · rw [insert?_of_not_free hfree, Option.getD_none]
        refine (ih hrest).trans (or_congr_right ?_)
        rw [List.mem_cons]
        constructor
        · exact fun h => ⟨Or.inr h.1, h.2⟩
        · rintro ⟨rfl | hr, hfree'⟩
          · exact absurd hfree' hfree
          · exact ⟨hr, hfree'⟩

end Indexed

end MibServer.Lib
