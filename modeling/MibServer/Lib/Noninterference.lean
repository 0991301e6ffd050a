import Mathlib.Init

/-!
Noninterference from one step.

Many actors act on one state, and one of them sees the replies to its own actions. `alike` are
the states it cannot tell apart. If its own actions reply the same in two such states and leave
two such states (`Unwinding.step`), and no action of the others takes it to a state it can tell
apart (`Unwinding.respect`), then its replies in a run are those of the run without the others
(`Unwinding.replies_filter`). Both conditions are asked of allowed actions only, and a run is
`Allowed` when each of its actions is, where it is taken.
-/

namespace MibServer.Lib

variable {S A O : Type}

/-- The replies to the observer's actions in a run. -/
def repliesTo (mine : A → Bool) (exec : S → A → O × S) : S → List A → List O
  | _, [] => []
  | s, a :: as =>
      let rest := repliesTo mine exec (exec s a).2 as
      if mine a then (exec s a).1 :: rest else rest

/-- Every action of the run is allowed in the state it is taken in. -/
def AllowedRun (exec : S → A → O × S) (allowed : S → A → Prop) : S → List A → Prop
  | _, [] => True
  | s, a :: as => allowed s a ∧ AllowedRun exec allowed (exec s a).2 as

structure Unwinding (mine : A → Bool) (exec : S → A → O × S) (allowed : S → A → Prop)
    (alike : S → S → Prop) : Prop where
  equivalence : Equivalence alike
  step : ∀ {s s' a}, alike s s' → mine a = true → allowed s a →
    (exec s a).1 = (exec s' a).1 ∧ alike (exec s a).2 (exec s' a).2
  respect : ∀ {s a}, mine a = false → allowed s a → alike s (exec s a).2

namespace Unwinding

variable {mine : A → Bool} {exec : S → A → O × S} {allowed : S → A → Prop} {alike : S → S → Prop}

/-- **Noninterference**: the observer's replies are those it gets without the others. -/
theorem replies_filter (h : Unwinding mine exec allowed alike) {as : List A} :
    ∀ {s s' : S}, alike s s' → AllowedRun exec allowed s as →
      repliesTo mine exec s as = repliesTo mine exec s' (as.filter mine) := by
  induction as with
  | nil => exact fun _ _ => rfl
  | cons a as ih =>
      rintro s s' halike ⟨hallowed, hrest⟩
      cases hmine : mine a with
      | true =>
          obtain ⟨hreply, hnext⟩ := h.step halike hmine hallowed
          rw [List.filter_cons_of_pos hmine]
          simp only [repliesTo, hmine, if_true]
          rw [hreply, ih hnext hrest]
      | false =>
          rw [List.filter_cons_of_neg (by simp [hmine])]
          simp only [repliesTo, hmine, Bool.false_eq_true, if_false]
          exact ih (h.equivalence.trans (h.equivalence.symm (h.respect hmine hallowed)) halike) hrest

end Unwinding

end MibServer.Lib
