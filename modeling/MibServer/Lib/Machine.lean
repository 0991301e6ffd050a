import Mathlib.Logic.Relation

/-!
Labelled machines: a partial step function, the runs it generates, and the rules
by which a safety property is carried along a run.

A run condition `ok : σ → α → Prop` is read on the state before a step and on the
action taken, so `ReachableBy ok` is "reached by a run whose steps all meet the
condition". Concrete runs are executed by `exec`; `reachableBy_exec` turns an
executed schedule into a run.
-/

namespace MibServer.Lib

/-- A machine: its initial states and the effect of each action, `none` where the
action is not enabled. -/
structure Machine (σ α : Type*) where
  init : σ → Prop
  step : σ → α → Option σ

namespace Machine

variable {σ α : Type*} {M : Machine σ α} {ok ok' : σ → α → Prop}

/-- One step by an action that `ok` admits in the state it is taken in. -/
def Next (M : Machine σ α) (ok : σ → α → Prop) (s s' : σ) : Prop :=
  ∃ a, ok s a ∧ M.step s a = some s'

/-- States reached by the runs whose steps all meet `ok`. -/
def ReachableBy (M : Machine σ α) (ok : σ → α → Prop) (s : σ) : Prop :=
  ∃ s₀, M.init s₀ ∧ Relation.ReflTransGen (M.Next ok) s₀ s

/-- States reached by any run. -/
abbrev Reachable (M : Machine σ α) (s : σ) : Prop :=
  M.ReachableBy (fun _ _ => True) s

theorem reachableBy_init {s : σ} (h : M.init s) : M.ReachableBy ok s :=
  ⟨s, h, .refl⟩

theorem ReachableBy.next {s s' : σ} {a : α} (h : M.ReachableBy ok s) (hok : ok s a)
    (hstep : M.step s a = some s') : M.ReachableBy ok s' := by
  obtain ⟨s₀, hinit, hrun⟩ := h
  exact ⟨s₀, hinit, hrun.tail ⟨a, hok, hstep⟩⟩

theorem ReachableBy.run {s s' : σ} (h : M.ReachableBy ok s)
    (hrun : Relation.ReflTransGen (M.Next ok) s s') : M.ReachableBy ok s' := by
  obtain ⟨s₀, hinit, hpast⟩ := h
  exact ⟨s₀, hinit, hpast.trans hrun⟩

/-- A run under a stronger condition. -/
theorem run_mono {s s' : σ} (hrun : Relation.ReflTransGen (M.Next ok) s s')
    (himp : ∀ s a, ok s a → ok' s a) : Relation.ReflTransGen (M.Next ok') s s' :=
  hrun.lift id fun s _ ⟨a, hok, hstep⟩ => ⟨a, himp s a hok, hstep⟩

/-- **The invariant rule**: what holds initially and is kept by every admitted
step holds in every state reached. -/
theorem ReachableBy.invariant {I : σ → Prop} {s : σ} (h : M.ReachableBy ok s)
    (base : ∀ s, M.init s → I s)
    (keep : ∀ s a s', I s → ok s a → M.step s a = some s' → I s') : I s := by
  obtain ⟨s₀, hinit, hrun⟩ := h
  induction hrun with
  | refl => exact base s₀ hinit
  | tail _ hnext ih =>
      obtain ⟨a, hok, hstep⟩ := hnext
      exact keep _ a _ ih hok hstep

/-- The invariant rule with what is known of every state reached. -/
theorem ReachableBy.induction {I : σ → Prop} {s : σ} (h : M.ReachableBy ok s)
    (base : ∀ s, M.init s → I s)
    (keep : ∀ s a s', M.ReachableBy ok s → I s → ok s a → M.step s a = some s' → I s') : I s := by
  refine (h.invariant (I := fun s => M.ReachableBy ok s ∧ I s) ?_ ?_).2
  · exact fun s hinit => ⟨reachableBy_init hinit, base s hinit⟩
  · rintro s a s' ⟨hreach, hI⟩ hok hstep
    exact ⟨hreach.next hok hstep, keep s a s' hreach hI hok hstep⟩

/-- The two-state rule: a preorder that every admitted step from an invariant
state respects relates the two ends of a run. -/
theorem run_related {I : σ → Prop} {R : σ → σ → Prop} {s s' : σ}
    (hrun : Relation.ReflTransGen (M.Next ok) s s') (hI : I s)
    (refl : ∀ s, R s s) (trans : ∀ {a b c}, R a b → R b c → R a c)
    (keep : ∀ s a s', I s → ok s a → M.step s a = some s' → I s' ∧ R s s') :
    I s' ∧ R s s' := by
  induction hrun with
  | refl => exact ⟨hI, refl s⟩
  | tail _ hnext ih =>
      obtain ⟨a, hok, hstep⟩ := hnext
      obtain ⟨hI', hR⟩ := keep _ a _ ih.1 hok hstep
      exact ⟨hI', trans ih.2 hR⟩

/-! ### Executing a schedule of actions -/

/-- Execute the actions in order. -/
def exec (M : Machine σ α) : σ → List α → Option σ
  | s, [] => some s
  | s, a :: as => (M.step s a).bind fun s' => M.exec s' as

/-- Every step of the schedule meets `ok`. -/
def Admits (M : Machine σ α) (ok : σ → α → Prop) : σ → List α → Prop
  | _, [] => True
  | s, a :: as => ok s a ∧ ∀ s' ∈ M.step s a, M.Admits ok s' as

instance decidableAdmits [∀ s a, Decidable (ok s a)] :
    ∀ (s : σ) (as : List α), Decidable (M.Admits ok s as)
  | _, [] => .isTrue trivial
  | s, a :: as =>
      have : Decidable (∀ s' ∈ M.step s a, M.Admits ok s' as) :=
        match M.step s a with
        | none => .isTrue fun _ h => by cases h
        | some s' =>
            match decidableAdmits s' as with
            | .isTrue h => .isTrue fun _ hs => by cases hs; exact h
            | .isFalse h => .isFalse fun hall => h (hall s' rfl)
      inferInstanceAs (Decidable (_ ∧ _))

theorem admits_true (s : σ) (as : List α) : M.Admits (fun _ _ => True) s as := by
  induction as generalizing s with
  | nil => trivial
  | cons a as ih => exact ⟨trivial, fun s' _ => ih s'⟩

/-- A condition that the actions of the schedule meet in every state. -/
theorem admits_of_forall {s : σ} {as : List α} (h : ∀ a ∈ as, ∀ s, ok s a) : M.Admits ok s as := by
  induction as generalizing s with
  | nil => trivial
  | cons a as ih =>
      exact ⟨h a List.mem_cons_self s, fun s' _ => ih fun b hb => h b (List.mem_cons_of_mem _ hb)⟩

theorem Admits.and {s : σ} {as : List α} (h : M.Admits ok s as) (h' : M.Admits ok' s as) :
    M.Admits (fun s a => ok s a ∧ ok' s a) s as := by
  induction as generalizing s with
  | nil => trivial
  | cons a as ih => exact ⟨⟨h.1, h'.1⟩, fun s' hs' => ih (h.2 s' hs') (h'.2 s' hs')⟩

/-- An executed schedule whose steps meet the condition is a run. -/
theorem run_exec {s₀ s : σ} {as : List α} (hok : M.Admits ok s₀ as) (hexec : M.exec s₀ as = some s) :
    Relation.ReflTransGen (M.Next ok) s₀ s := by
  induction as generalizing s₀ with
  | nil =>
      cases hexec
      exact .refl
  | cons a as ih =>
      obtain ⟨s₁, hstep, hrest⟩ := Option.bind_eq_some_iff.mp hexec
      exact (ih (hok.2 s₁ hstep) hrest).head ⟨a, hok.1, hstep⟩

theorem exec_append {s s' s'' : σ} {as as' : List α} (h : M.exec s as = some s')
    (h' : M.exec s' as' = some s'') : M.exec s (as ++ as') = some s'' := by
  induction as generalizing s with
  | nil =>
      cases h
      exact h'
  | cons a as ih =>
      obtain ⟨s₁, hstep, hrest⟩ := Option.bind_eq_some_iff.mp h
      simp only [List.cons_append, exec, hstep, Option.bind_some]
      exact ih hrest

/-- A run executes some schedule. -/
theorem exec_of_run {s s' : σ} (hrun : Relation.ReflTransGen (M.Next ok) s s') :
    ∃ as, M.exec s as = some s' := by
  induction hrun with
  | refl => exact ⟨[], rfl⟩
  | tail _ hnext ih =>
      obtain ⟨as, hexec⟩ := ih
      obtain ⟨a, -, hstep⟩ := hnext
      exact ⟨as ++ [a], exec_append hexec (by simp [exec, hstep])⟩

theorem reachableBy_exec {s₀ s : σ} {as : List α} (h : M.ReachableBy ok s₀)
    (hok : M.Admits ok s₀ as) (hexec : M.exec s₀ as = some s) : M.ReachableBy ok s := by
  obtain ⟨s₁, hinit, hrun⟩ := h
  exact ⟨s₁, hinit, hrun.trans (run_exec hok hexec)⟩

/-- Where a schedule leads does not depend on the initial states. -/
theorem exec_congr {M' : Machine σ α} (h : M.step = M'.step) (s : σ) (as : List α) :
    M.exec s as = M'.exec s as := by
  induction as generalizing s with
  | nil => rfl
  | cons a as ih => simp only [exec, h, ih]

/-- The end of an executed schedule, as a run. -/
theorem reachableBy_exec_get {s₀ : σ} {as : List α} (hinit : M.init s₀)
    (hok : M.Admits ok s₀ as) (hexec : (M.exec s₀ as).isSome) :
    M.ReachableBy ok ((M.exec s₀ as).get hexec) :=
  reachableBy_exec (reachableBy_init hinit) hok (Option.some_get hexec).symm

end Machine

/-! ### Numbered components

The components of a state are kept in a list; a step replaces one or adds one. -/

theorem getElem?_set_cases {α : Type*} {xs : List α} {i j : Nat} {x y : α}
    (h : (xs.set i x)[j]? = some y) : j = i ∧ y = x ∨ j ≠ i ∧ xs[j]? = some y := by
  rw [List.getElem?_set] at h
  split at h
  · rename_i hij
    split at h
    · cases h
      exact Or.inl ⟨hij.symm, rfl⟩
    · cases h
  · rename_i hij
    exact Or.inr ⟨fun heq => hij heq.symm, h⟩

theorem getElem?_concat_cases {α : Type*} {xs : List α} {j : Nat} {x y : α}
    (h : (xs ++ [x])[j]? = some y) : xs[j]? = some y ∨ j = xs.length ∧ y = x := by
  rcases Nat.lt_trichotomy j xs.length with hlt | rfl | hgt
  · exact Or.inl (by rwa [List.getElem?_append_left hlt] at h)
  · exact Or.inr ⟨rfl, by simpa [eq_comm] using h⟩
  · have hnone : (xs ++ [x])[j]? = none := by
      rw [List.getElem?_eq_none_iff, List.length_append, List.length_singleton]
      omega
    rw [hnone] at h
    cases h

theorem getElem?_concat_of_some {α : Type*} {xs : List α} {j : Nat} {x y : α}
    (h : xs[j]? = some y) : (xs ++ [x])[j]? = some y := by
  rw [List.getElem?_append_left (List.getElem?_eq_some_iff.mp h).1]
  exact h

end MibServer.Lib
