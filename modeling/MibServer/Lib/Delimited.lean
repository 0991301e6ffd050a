import Mathlib.Data.List.Basic

/-!
Fields joined by a delimiter.

A delimiter tells two fields apart when the one before it, or the one after it, does not
contain it. Between two free fields a delimiter can be read at several places: joining
three fields of which only the middle one is free of delimiters is not injective, and
`joined_three_iff` lists its collisions. All of them shift a delimiter and the middle field
from one end to the other (`Shifted`).
-/

namespace MibServer.Lib

variable {α : Type*} {sep : α}

/-- A delimiter that the fields after it do not contain is the last one of the text. -/
theorem delimited_right {xs xs' ys ys' : List α} (hys : sep ∉ ys) (hys' : sep ∉ ys')
    (h : xs ++ sep :: ys = xs' ++ sep :: ys') : xs = xs' ∧ ys = ys' := by
  rw [List.append_eq_append_iff] at h
  rcases h with ⟨rest, rfl, h⟩ | ⟨rest, rfl, h⟩
  · cases rest with
    | nil =>
        rw [List.nil_append, List.cons.injEq] at h
        exact ⟨(List.append_nil xs).symm, h.2⟩
    | cons x rest =>
        rw [List.cons_append, List.cons.injEq] at h
        exact absurd (h.2 ▸ List.mem_append_right rest List.mem_cons_self) hys
  · cases rest with
    | nil =>
        rw [List.nil_append, List.cons.injEq] at h
        exact ⟨List.append_nil xs', h.2.symm⟩
    | cons x rest =>
        rw [List.cons_append, List.cons.injEq] at h
        exact absurd (h.2 ▸ List.mem_append_right rest List.mem_cons_self) hys'

/-- A delimiter that the fields before it do not contain is the first one of the text. -/
theorem delimited_left {xs xs' ys ys' : List α} (hxs : sep ∉ xs) (hxs' : sep ∉ xs')
    (h : xs ++ sep :: ys = xs' ++ sep :: ys') : xs = xs' ∧ ys = ys' := by
  have hrev : ys.reverse ++ sep :: xs.reverse = ys'.reverse ++ sep :: xs'.reverse := by
    simpa using congrArg List.reverse h
  obtain ⟨hys, hxs⟩ := delimited_right (mt List.mem_reverse.mp hxs) (mt List.mem_reverse.mp hxs') hrev
  exact ⟨List.reverse_inj.mp hxs, List.reverse_inj.mp hys⟩

/-- The first field of the second triple has swallowed the middle field of the first triple,
and the last field of the first triple has swallowed the middle field of the second. -/
def Shifted (sep : α) (a b c a' b' c' : List α) : Prop :=
  (a' = a ++ sep :: b ∧ c = b' ++ sep :: c') ∨
    ∃ mid, a' = a ++ sep :: (b ++ sep :: mid) ∧ c = mid ++ sep :: (b' ++ sep :: c')

theorem Shifted.joined {a b c a' b' c' : List α} (h : Shifted sep a b c a' b' c') :
    a ++ sep :: (b ++ sep :: c) = a' ++ sep :: (b' ++ sep :: c') := by
  rcases h with ⟨rfl, rfl⟩ | ⟨mid, rfl, rfl⟩
  · simp only [List.append_assoc, List.cons_append]
  · simp only [List.append_assoc, List.cons_append]

theorem Shifted.length_lt {a b c a' b' c' : List α} (h : Shifted sep a b c a' b' c') :
    a.length < a'.length := by
  rcases h with ⟨rfl, -⟩ | ⟨mid, rfl, -⟩
  · simp
  · simp

/-- Joined triples with one text, where the first field of the second is the longer one. -/
theorem shifted_of_joined {a b c b' c' rest : List α} (hb : sep ∉ b)
    (h : b ++ sep :: c = rest ++ sep :: (b' ++ sep :: c')) :
    Shifted sep a b c (a ++ sep :: rest) b' c' := by
  rw [List.append_eq_append_iff] at h
  rcases h with ⟨tail, rfl, h⟩ | ⟨tail, rfl, h⟩
  · cases tail with
    | nil =>
        rw [List.nil_append, List.cons.injEq] at h
        exact Or.inl ⟨by rw [List.append_nil], h.2⟩
    | cons x mid =>
        rw [List.cons_append, List.cons.injEq] at h
        obtain ⟨rfl, rfl⟩ := h
        exact Or.inr ⟨mid, rfl, rfl⟩
  · cases tail with
    | nil =>
        rw [List.nil_append, List.cons.injEq] at h
        exact Or.inl ⟨by rw [List.append_nil], h.2.symm⟩
    | cons x tail =>
        rw [List.cons_append, List.cons.injEq] at h
        exact absurd (List.mem_append_right rest (h.1 ▸ List.mem_cons_self)) hb

/-- **The collisions of a joined triple** whose middle field is free of delimiters. -/
theorem joined_three_iff {a b c a' b' c' : List α} (hb : sep ∉ b) (hb' : sep ∉ b') :
    a ++ sep :: (b ++ sep :: c) = a' ++ sep :: (b' ++ sep :: c') ↔
      (a = a' ∧ b = b' ∧ c = c') ∨ Shifted sep a b c a' b' c' ∨ Shifted sep a' b' c' a b c := by
  constructor
  · intro h
    rw [List.append_eq_append_iff] at h
    rcases h with ⟨rest, rfl, h⟩ | ⟨rest, rfl, h⟩
    · cases rest with
      | nil =>
          rw [List.nil_append, List.cons.injEq] at h
          obtain ⟨rfl, rfl⟩ := delimited_left hb hb' h.2
          exact Or.inl ⟨(List.append_nil a).symm, rfl, rfl⟩
      | cons x rest =>
          rw [List.cons_append, List.cons.injEq] at h
          obtain ⟨rfl, h⟩ := h
          exact Or.inr (Or.inl (shifted_of_joined hb h))
    · cases rest with
      | nil =>
          rw [List.nil_append, List.cons.injEq] at h
          obtain ⟨rfl, rfl⟩ := delimited_left hb' hb h.2
          exact Or.inl ⟨List.append_nil a', rfl, rfl⟩
      | cons x rest =>
          rw [List.cons_append, List.cons.injEq] at h
          obtain ⟨rfl, h⟩ := h
          exact Or.inr (Or.inr (shifted_of_joined hb' h))
  · rintro (⟨rfl, rfl, rfl⟩ | h | h)
    · rfl
    · exact h.joined
    · exact h.joined.symm

end MibServer.Lib
