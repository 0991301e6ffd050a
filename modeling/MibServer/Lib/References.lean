import Mathlib.Data.Set.Finite.Basic
import MibServer.Lib.Index

/-!
What a table of rows that refer to each other shows to one who sees some of them.

`parents r` are the index entries row `r` refers to. Whoever sees a row sees what hangs on
it: `InView` is the least such set over the rows seen in their own right (`own`). Two tables
`Agree` when they show the same rows. Under closed references a row that is not in view can
be put in, taken out where nothing refers to it, or replaced under its entries, and the
tables still agree; these are the moves from which a second table is built that an observer
cannot tell from the first.
-/

namespace MibServer.Lib

/-- Rows that each have an entry are all different. -/
theorem UniqueOn.nodup {R K : Type} {keys : R → List K} {rows : List R} (h : UniqueOn keys rows)
    (hkeys : ∀ r, keys r ≠ []) : rows.Nodup := by
  refine (List.nodup_flatMap.mp h).2.imp fun {r r'} hdisjoint heq => ?_
  obtain ⟨k, hk⟩ := List.exists_mem_of_ne_nil _ (hkeys r)
  exact hdisjoint hk (heq ▸ hk)

namespace Indexed

variable {R K : Type} {keys parents : R → List K} {own : R → Prop} {t t' : Indexed R K keys}

/-- A row is under the entry. -/
def Has (t : Indexed R K keys) (k : K) : Prop := ∃ r ∈ t.rows, k ∈ keys r

/-- Every reference leads to a row. -/
def Closed (parents : R → List K) (t : Indexed R K keys) : Prop :=
  ∀ r ∈ t.rows, ∀ k ∈ parents r, t.Has k

/-- The row is seen, in its own right or with a row it refers to. -/
inductive InView (parents : R → List K) (own : R → Prop) (t : Indexed R K keys) : R → Prop
  | own {r : R} : own r → InView parents own t r
  | parent {r p : R} {k : K} : p ∈ t.rows → k ∈ parents r → k ∈ keys p → InView parents own t p →
      InView parents own t r

/-- The row under the entry is seen. -/
def SeenAt (parents : R → List K) (own : R → Prop) (t : Indexed R K keys) (k : K) : Prop :=
  ∃ r ∈ t.rows, k ∈ keys r ∧ t.InView parents own r

theorem inView_iff {r : R} :
    t.InView parents own r ↔ own r ∨ ∃ k ∈ parents r, t.SeenAt parents own k := by
  constructor
  · intro h
    cases h with
    | own h => exact Or.inl h
    | parent hp hk hkp hview => exact Or.inr ⟨_, hk, _, hp, hkp, hview⟩
  · rintro (h | ⟨k, hk, p, hp, hkp, hview⟩)
    · exact .own h
    · exact .parent hp hk hkp hview

theorem SeenAt.has {k : K} (h : t.SeenAt parents own k) : t.Has k := by
  obtain ⟨r, hr, hk, -⟩ := h
  exact ⟨r, hr, hk⟩

/-- What is under a seen entry is in view. -/
theorem SeenAt.inView {k : K} {r : R} (h : t.SeenAt parents own k) (hr : r ∈ t.rows) (hk : k ∈ keys r) :
    t.InView parents own r := by
  obtain ⟨p, hp, hkp, hview⟩ := h
  rwa [t.unique.eq_of_mem hr hp hk hkp]

/-! ### Tables that show the same -/

/-- The tables show the same rows. -/
def Agree (parents : R → List K) (own : R → Prop) (t t' : Indexed R K keys) : Prop :=
  ∀ r, r ∈ t.rows ∧ t.InView parents own r ↔ r ∈ t'.rows ∧ t'.InView parents own r

theorem Agree.refl (t : Indexed R K keys) : Agree parents own t t := fun _ => Iff.rfl

theorem Agree.symm (h : Agree parents own t t') : Agree parents own t' t := fun r => (h r).symm

theorem Agree.trans {t'' : Indexed R K keys} (h : Agree parents own t t')
    (h' : Agree parents own t' t'') : Agree parents own t t'' :=
  fun r => (h r).trans (h' r)

theorem Agree.seenAt (h : Agree parents own t t') {k : K} (hk : t.SeenAt parents own k) :
    t'.SeenAt parents own k := by
  obtain ⟨r, hr, hkr, hview⟩ := hk
  obtain ⟨hr', hview'⟩ := (h r).mp ⟨hr, hview⟩
  exact ⟨r, hr', hkr, hview'⟩

theorem Agree.inView (h : Agree parents own t t') {r : R} (hr : t.InView parents own r) :
    t'.InView parents own r := by
  rcases inView_iff.mp hr with hown | ⟨k, hk, hseen⟩
  · exact .own hown
  · exact inView_iff.mpr (Or.inr ⟨k, hk, h.seenAt hseen⟩)

theorem Agree.mem (h : Agree parents own t t') {r : R} (hview : t.InView parents own r) :
    r ∈ t.rows ↔ r ∈ t'.rows := by
  constructor
  · exact fun hr => ((h r).mp ⟨hr, hview⟩).1
  · exact fun hr => ((h r).mpr ⟨hr, h.inView hview⟩).1

/-- Under an entry where whatever is there is in view, the tables have the same row. -/
theorem Agree.row? [DecidableEq K] (h : Agree parents own t t') {k : K}
    (hview : ∀ r, k ∈ keys r → r ∈ t.rows ∨ r ∈ t'.rows → t.InView parents own r) :
    t.row? k = t'.row? k := by
  refine Option.ext fun r => ?_
  rw [row?_eq_some_iff, row?_eq_some_iff]
  constructor
  · rintro ⟨hr, hk⟩
    exact ⟨(h.mem (hview r hk (Or.inl hr))).mp hr, hk⟩
  · rintro ⟨hr, hk⟩
    exact ⟨(h.mem (hview r hk (Or.inr hr))).mpr hr, hk⟩

theorem Agree.row?_of_seenAt [DecidableEq K] (h : Agree parents own t t') {k : K}
    (hk : t.SeenAt parents own k) : t.row? k = t'.row? k := by
  refine h.row? fun r hkr hr => ?_
  rcases hr with hr | hr
  · exact hk.inView hr hkr
  · exact h.symm.inView ((h.seenAt hk).inView hr hkr)

/-- Rows in view are rows in view in the other table. -/
theorem Agree.inView_iff (h : Agree parents own t t') {r : R} :
    t.InView parents own r ↔ t'.InView parents own r :=
  ⟨h.inView, h.symm.inView⟩

/-! ### Changes to rows nothing refers to -/

/-- The tables have the same rows of those that rows can refer to. -/
def SameReferred (parents : R → List K) (t t' : Indexed R K keys) : Prop :=
  ∀ p, (∃ x, ∃ k ∈ parents x, k ∈ keys p) → (p ∈ t.rows ↔ p ∈ t'.rows)

theorem SameReferred.symm (h : SameReferred parents t t') : SameReferred parents t' t :=
  fun p hp => (h p hp).symm

theorem SameReferred.inView (h : SameReferred parents t t') {r : R} (hr : t.InView parents own r) :
    t'.InView parents own r := by
  induction hr with
  | own hown => exact .own hown
  | parent hp hk hkp _ ih => exact .parent ((h _ ⟨_, _, hk, hkp⟩).mp hp) hk hkp ih

theorem SameReferred.inView_iff (h : SameReferred parents t t') {r : R} :
    t.InView parents own r ↔ t'.InView parents own r :=
  ⟨h.inView, h.symm.inView⟩

theorem SameReferred.has (h : SameReferred parents t t') {x : R} {k : K} (hk : k ∈ parents x)
    (hhas : t.Has k) :
    t'.Has k := by
  obtain ⟨p, hp, hkp⟩ := hhas
  exact ⟨p, (h p ⟨x, k, hk, hkp⟩).mp hp, hkp⟩

/-- References stay closed when what a new row refers to was there. -/
theorem SameReferred.closed (h : SameReferred parents t t')
    (hnew : ∀ r ∈ t'.rows, ∀ k ∈ parents r, t.Has k) : Closed parents t' :=
  fun r hr k hk => h.has hk (hnew r hr k hk)

/-- Tables that show the same still do after changes to rows nothing refers to, when these are
the same changes to the rows in view. -/
theorem Agree.of_sameReferred {u u' : Indexed R K keys} (h : Agree parents own t t')
    (hu : SameReferred parents t u) (hu' : SameReferred parents t' u')
    (hrows : ∀ r, t.InView parents own r → (r ∈ u.rows ↔ r ∈ u'.rows)) : Agree parents own u u' := by
  intro r
  rw [← hu.inView_iff, ← hu'.inView_iff, ← h.inView_iff]
  exact and_congr_left fun hview => hrows r hview

/-! ### Moves out of view -/

/-- **Putting in** a row that is not in view. -/
theorem agree_append {r : R} (h : t'.rows = t.rows ++ [r]) (hclosed : Closed parents t)
    (hparents : ∀ k ∈ parents r, t.Has k) (hforeign : ¬ t.InView parents own r) :
    Agree parents own t t' ∧ Closed parents t' := by
  have hmem : ∀ x, x ∈ t'.rows ↔ x ∈ t.rows ∨ x = r := by
    intro x
    rw [h, List.mem_append, List.mem_singleton]
  have hhas : ∀ k, t.Has k → t'.Has k := fun k ⟨x, hx, hk⟩ => ⟨x, (hmem x).mpr (Or.inl hx), hk⟩
  have hto : ∀ x, t.InView parents own x → t'.InView parents own x := by
    intro x hview
    induction hview with
    | own hown => exact .own hown
    | parent hp hk hkp _ ih => exact .parent ((hmem _).mpr (Or.inl hp)) hk hkp ih
  -- A row that has all it refers to in the old table was in view there.
  have hfrom : ∀ x, t'.InView parents own x → (∀ k ∈ parents x, t.Has k) → t.InView parents own x := by
    intro x hview
    induction hview with
    | own hown => exact fun _ => .own hown
    | @parent x p k hp hk hkp _ ih =>
        intro hx
        obtain ⟨p', hp', hkp'⟩ := hx k hk
        obtain rfl := t'.unique.eq_of_mem hp ((hmem p').mpr (Or.inl hp')) hkp hkp'
        exact .parent hp' hk hkp (ih (hclosed p hp'))
  constructor
  · intro x
    constructor
    · rintro ⟨hx, hview⟩
      exact ⟨(hmem x).mpr (Or.inl hx), hto x hview⟩
    · rintro ⟨hx, hview⟩
      rcases (hmem x).mp hx with hold | rfl
      · exact ⟨hold, hfrom x hview (hclosed x hold)⟩
      · exact absurd (hfrom x hview hparents) hforeign
  · intro x hx k hk
    rcases (hmem x).mp hx with hold | rfl
    · exact hhas k (hclosed x hold k hk)
    · exact hhas k (hparents k hk)

/-- **Taking out** rows that are not in view and that no other row refers to. -/
theorem agree_deleteWhere {p : R → Bool} (hclosed : Closed parents t)
    (hunreferred : ∀ r ∈ t.rows, p r = true → ∀ x ∈ t.rows, p x = false → ∀ k ∈ parents x, k ∉ keys r)
    (hforeign : ∀ r ∈ t.rows, p r = true → ¬ t.InView parents own r) :
    Agree parents own t (t.deleteWhere p) ∧ Closed parents (t.deleteWhere p) := by
  have hto : ∀ x, t.InView parents own x → (t.deleteWhere p).InView parents own x := by
    intro x hview
    induction hview with
    | own hown => exact .own hown
    | @parent x q k hq hk hkq hqview ih =>
        have hp : p q = false := Bool.eq_false_iff.mpr fun hp => hforeign q hq hp hqview
        exact .parent (mem_deleteWhere.mpr ⟨hq, hp⟩) hk hkq ih
  have hfrom : ∀ x, (t.deleteWhere p).InView parents own x → t.InView parents own x := by
    intro x hview
    induction hview with
    | own hown => exact .own hown
    | parent hq hk hkq _ ih => exact .parent (mem_deleteWhere.mp hq).1 hk hkq ih
  constructor
  · intro x
    constructor
    · rintro ⟨hx, hview⟩
      have hp : p x = false := Bool.eq_false_iff.mpr fun hp => hforeign x hx hp hview
      exact ⟨mem_deleteWhere.mpr ⟨hx, hp⟩, hto x hview⟩
    · rintro ⟨hx, hview⟩
      exact ⟨(mem_deleteWhere.mp hx).1, hfrom x hview⟩
  · intro x hx k hk
    obtain ⟨hold, hkept⟩ := mem_deleteWhere.mp hx
    obtain ⟨r, hr, hkr⟩ := hclosed x hold k hk
    have hp : p r = false := Bool.eq_false_iff.mpr fun hp => hunreferred r hr hp x hold hkept k hk hkr
    exact ⟨r, mem_deleteWhere.mpr ⟨hr, hp⟩, hkr⟩

/-- **Replacing** a row that is not in view by another under the same entries. -/
theorem agree_modify {p : R → Bool} {f : R → R} {hf : ∀ r, keys (f r) = keys r}
    (hclosed : Closed parents t) (hparents : ∀ r ∈ t.rows, p r = true → ∀ k ∈ parents (f r), t.Has k)
    (hforeign : ∀ r ∈ t.rows, p r = true → ¬ t.InView parents own r ∧ ¬ t.InView parents own (f r)) :
    Agree parents own t (t.modify p f hf) ∧ Closed parents (t.modify p f hf) := by
  have hrow : ∀ x ∈ (t.modify p f hf).rows, x ∈ t.rows ∧ p x = false ∨
      ∃ r ∈ t.rows, p r = true ∧ x = f r := by
    intro x hx
    obtain ⟨r, hr, rfl⟩ := mem_modify.mp hx
    by_cases hp : p r = true
    · exact Or.inr ⟨r, hr, hp, if_pos hp⟩
    · exact Or.inl (by simpa [hp] using hr)
  have hkept : ∀ x ∈ t.rows, p x = false → x ∈ (t.modify p f hf).rows :=
    fun x hx hp => mem_modify.mpr ⟨x, hx, by simp [hp]⟩
  have hhas : ∀ k, t.Has k → (t.modify p f hf).Has k := by
    rintro k ⟨r, hr, hk⟩
    by_cases hp : p r = true
    · exact ⟨f r, mem_modify.mpr ⟨r, hr, if_pos hp⟩, by rwa [hf]⟩
    · exact ⟨r, hkept r hr (by simpa using hp), hk⟩
  have hto : ∀ x, t.InView parents own x → (t.modify p f hf).InView parents own x := by
    intro x hview
    induction hview with
    | own hown => exact .own hown
    | @parent x q k hq hk hkq hqview ih =>
        have hp : p q = false := Bool.eq_false_iff.mpr fun hp => (hforeign q hq hp).1 hqview
        exact .parent (hkept q hq hp) hk hkq ih
  have hfrom : ∀ x, (t.modify p f hf).InView parents own x → t.InView parents own x := by
    intro x hview
    induction hview with
    | own hown => exact .own hown
    | @parent x q k hq hk hkq _ ih =>
        rcases hrow q hq with ⟨hold, -⟩ | ⟨r, hr, hp, rfl⟩
        · exact .parent hold hk hkq ih
        · exact absurd ih (hforeign r hr hp).2
  constructor
  · intro x
    constructor
    · rintro ⟨hx, hview⟩
      have hp : p x = false := Bool.eq_false_iff.mpr fun hp => (hforeign x hx hp).1 hview
      exact ⟨hkept x hx hp, hto x hview⟩
    · rintro ⟨hx, hview⟩
      rcases hrow x hx with ⟨hold, -⟩ | ⟨r, hr, hp, rfl⟩
      · exact ⟨hold, hfrom x hview⟩
      · exact absurd (hfrom _ hview) (hforeign r hr hp).2
  · intro x hx k hk
    rcases hrow x hx with ⟨hold, -⟩ | ⟨r, hr, hp, rfl⟩
    · exact hhas k (hclosed x hold k hk)
    · exact hhas k (hparents r hr hp k hk)

/-! ### Rows that may be assumed -/

/-- Of infinitely many entries one is free. -/
theorem exists_free {α : Type} [Infinite α] {f : α → K} (hf : Function.Injective f)
    (t : Indexed R K keys) :
    ∃ a, ¬ t.Has (f a) := by
  classical
  obtain ⟨k, ⟨a, rfl⟩, ha⟩ :=
    (Set.infinite_range_of_injective hf).exists_notMem_finset (t.rows.flatMap keys).toFinset
  refine ⟨a, fun ⟨r, hr, hk⟩ => ha ?_⟩
  rw [List.mem_toFinset]
  exact List.mem_flatMap.mpr ⟨r, hr, hk⟩

/-- A row that is not in view may be there as well, if its entries are free. -/
theorem exists_append {r : R} (hfree : ∀ k ∈ keys r, ¬ t.Has k) (hnodup : (keys r).Nodup)
    (hclosed : Closed parents t) (hparents : ∀ k ∈ parents r, t.Has k)
    (hforeign : ¬ t.InView parents own r) :
    ∃ t' : Indexed R K keys, t'.rows = t.rows ++ [r] ∧ Agree parents own t t' ∧ Closed parents t' := by
  have hunique : UniqueOn keys (t.rows ++ [r]) := by
    refine uniqueOn_append_singleton.mpr ⟨t.unique, hnodup, fun k hk hmem => ?_⟩
    obtain ⟨x, hx, hkx⟩ := List.mem_flatMap.mp hmem
    exact hfree k hk ⟨x, hx, hkx⟩
  exact ⟨⟨t.rows ++ [r], hunique⟩, rfl, agree_append rfl hclosed hparents hforeign⟩

/-- A table that shows the same and has a row under the entry: this one, or one with a row
more. -/
theorem exists_has {r : R} {k : K} (hkeys : keys r = [k]) (hclosed : Closed parents t)
    (hparents : ∀ k ∈ parents r, t.Has k) (hforeign : ¬ t.InView parents own r) :
    ∃ t' : Indexed R K keys, Agree parents own t t' ∧ Closed parents t' ∧
      ∀ e, t'.Has e ↔ t.Has e ∨ e = k := by
  by_cases hhas : t.Has k
  · refine ⟨t, .refl t, hclosed, fun e => ⟨Or.inl, ?_⟩⟩
    rintro (he | rfl)
    · exact he
    · exact hhas
  · obtain ⟨t', hrows, hagree, hclosed'⟩ := exists_append (by simpa [hkeys] using hhas)
      (by rw [hkeys]; exact List.nodup_singleton k) hclosed hparents hforeign
    refine ⟨t', hagree, hclosed', fun e => ?_⟩
    simp only [Has, hrows, List.mem_append, List.mem_singleton, or_and_right, exists_or,
      exists_eq_left, hkeys]

end Indexed

end MibServer.Lib
