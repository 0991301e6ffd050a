import MibServer.Lib.Index

/-!
Labels of referenced rows.

A table whose rows carry a label answers which label the row under an entry has. Rows of
other tables refer to it by entries, and an invariant on references ("both ends have one
label") asks nothing of the table but these answers: an insertion keeps every answer there
was, and a rewriting that leaves entries and labels alone keeps all of them.
-/

namespace MibServer.Lib.Indexed

variable {R K L : Type} {keys : R → List K} {label : R → L} [DecidableEq K]

/-- The label of the row under an entry. -/
def labelOf (t : Indexed R K keys) (label : R → L) (k : K) : Option L := (t.row? k).map label

theorem labelOf_eq_some_iff {t : Indexed R K keys} {k : K} {l : L} :
    t.labelOf label k = some l ↔ ∃ r ∈ t.rows, k ∈ keys r ∧ label r = l := by
  unfold labelOf
  simp only [Option.map_eq_some_iff, row?_eq_some_iff, and_assoc]

theorem labelOf_of_mem {t : Indexed R K keys} {r : R} {k : K} (hr : r ∈ t.rows) (hk : k ∈ keys r) :
    t.labelOf label k = some (label r) :=
  labelOf_eq_some_iff.mpr ⟨r, hr, hk, rfl⟩

/-- An insertion keeps the labels there are. -/
theorem labelOf_insert? {t t' : Indexed R K keys} {r : R} (h : t.insert? r = some t') {k : K} {l : L}
    (hk : t.labelOf label k = some l) : t'.labelOf label k = some l := by
  obtain ⟨r', hr', hk', hlabel⟩ := labelOf_eq_some_iff.mp hk
  exact labelOf_eq_some_iff.mpr ⟨r', (mem_insert? h).mpr (Or.inl hr'), hk', hlabel⟩

/-- A rewriting that leaves entries and labels alone keeps all of them. -/
theorem labelOf_updateWhere? {t t' : Indexed R K keys} {p : R → Bool} {f : R → R}
    (h : t.updateWhere? p f = some t') (hkeys : ∀ r, keys (f r) = keys r)
    (hlabel : ∀ r, label (f r) = label r) (k : K) : t'.labelOf label k = t.labelOf label k := by
  have hrow : ∀ r, keys (if p r then f r else r) = keys r ∧
      label (if p r then f r else r) = label r := by
    intro r
    split
    · exact ⟨hkeys r, hlabel r⟩
    · exact ⟨rfl, rfl⟩
  unfold labelOf row?
  rw [replace?_some h, List.find?_map, Option.map_map]
  have hkeep : ((fun r => decide (k ∈ keys r)) ∘ fun r => if p r then f r else r) =
      fun r => decide (k ∈ keys r) := by
    funext r
    simp only [Function.comp_apply, (hrow r).1]
  have hkeepLabel : (label ∘ fun r => if p r then f r else r) = label := by
    funext r
    exact (hrow r).2
  rw [hkeep, hkeepLabel]

/-- Rewriting the one row of an entry. -/
theorem mem_updateWhere?_of_entry {t t' : Indexed R K keys} {p : R → Bool} {f : R → R} {k : K} {r : R}
    (h : t.updateWhere? p f = some t') (hp : ∀ r, p r = true → k ∈ keys r) (hr : r ∈ t.rows)
    (hpr : p r = true) : f r ∈ t'.rows ∧ ∀ r' ∈ t'.rows, r' ∈ t.rows ∨ r' = f r := by
  constructor
  · exact (mem_updateWhere? h).mpr ⟨r, hr, by rw [if_pos hpr]⟩
  · intro r' hr'
    obtain ⟨r₀, hr₀, rfl⟩ := (mem_updateWhere? h).mp hr'
    by_cases hsel : p r₀ = true
    · obtain rfl := t.unique.eq_of_mem hr₀ hr (hp _ hsel) (hp _ hpr)
      exact Or.inr (if_pos hsel)
    · rw [if_neg hsel]
      exact Or.inl hr₀

end MibServer.Lib.Indexed
