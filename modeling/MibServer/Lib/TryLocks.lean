import Mathlib.Logic.Function.Basic
import Mathlib.Logic.Relation
import Mathlib.Order.Defs.Unbundled
import Mathlib.Data.List.Pairwise

/-!
Parties that take locks in one order and do not wait.

A party asks for its locks one at a time. At the first one that is busy it gives up, and gives
back what it has. Nobody waits, so there is no deadlock; but each of two parties could still
give up because of the other. If all of them ask in one strict order this cannot be: whoever is
refused a lock is refused it by a party that has got further (`Blocked.step`), so somebody gets
through (`Reached.some_entered`).

With faults a party may stop anywhere and leave its locks behind, to be freed later. This costs
the progress and not the exclusion.
-/

namespace MibServer.Lib.TryLocks

inductive Stage where
  | idle | taking | inside | leaving | gone
deriving DecidableEq, Repr

/-- A party: the locks it is after, those it holds, those still to come, the one that was
refused, and whether it has got them all. -/
structure Party (R : Type*) where
  stage : Stage
  wants : List R
  held : List R
  todo : List R
  refusedAt : Option R
  entered : Bool

def Party.idle {R : Type*} : Party R := ⟨.idle, [], [], [], none, false⟩

/-- What a party may do, given the locks that are busy. -/
inductive Move {R : Type*} (lt : R → R → Prop) (faults : Prop) (busy : R → Prop) :
    Party R → Party R → Prop where
  | join {wants : List R} : wants.Pairwise lt →
      Move lt faults busy .idle ⟨.taking, wants, [], wants, none, false⟩
  | take {x : Party R} {r : R} {rest : List R} : x.stage = .taking → x.todo = r :: rest → ¬ busy r →
      Move lt faults busy x { x with held := x.held ++ [r], todo := rest }
  | refuse {x : Party R} {r : R} {rest : List R} : x.stage = .taking → x.todo = r :: rest → busy r →
      Move lt faults busy x { x with stage := .leaving, todo := [], refusedAt := some r }
  | enter {x : Party R} : x.stage = .taking → x.todo = [] →
      Move lt faults busy x { x with stage := .inside, entered := true }
  | leave {x : Party R} : x.stage = .inside → Move lt faults busy x { x with stage := .leaving }
  | give {x : Party R} {r : R} {rest : List R} : x.stage = .leaving → x.held = rest ++ [r] →
      Move lt faults busy x { x with held := rest }
  | done {x : Party R} : x.stage = .leaving → x.held = [] →
      Move lt faults busy x { x with stage := .gone }
  | stop {x : Party R} {held : List R} : faults → x.stage = .taking ∨ x.stage = .leaving →
      (∀ r ∈ held, r ∈ x.held ∨ ¬ busy r) →
      Move lt faults busy x { x with stage := .gone, held, todo := [] }
  | lose {x : Party R} {held : List R} : faults → x.stage = .gone → held ⊆ x.held →
      Move lt faults busy x { x with held }

section

variable {P R : Type*} {lt : R → R → Prop} {faults : Prop}

/-- Some party holds the lock. -/
def Busy (s : P → Party R) (r : R) : Prop := ∃ p, r ∈ (s p).held

/-- One party moves. -/
def Step [DecidableEq P] (lt : R → R → Prop) (faults : Prop) (s s' : P → Party R) : Prop :=
  ∃ p x, Move lt faults (Busy s) (s p) x ∧ s' = Function.update s p x

/-- States reached from one where every party is idle. -/
def Reached [DecidableEq P] (lt : R → R → Prop) (faults : Prop) (s : P → Party R) : Prop :=
  Relation.ReflTransGen (Step lt faults) (fun _ => Party.idle) s

/-! ### Each party -/

/-- What a party holds at each stage. -/
structure Party.Sound (lt : R → R → Prop) (faults : Prop) (x : Party R) : Prop where
  ordered : x.wants.Pairwise lt
  idle : x.stage = .idle → x.held = [] ∧ x.refusedAt = none
  taking : x.stage = .taking → x.held ++ x.todo = x.wants ∧ x.refusedAt = none
  inside : x.stage = .inside → x.held = x.wants ∧ x.entered
  refused : x.stage = .inside → x.refusedAt = none
  leaving : x.stage = .leaving → x.held <+: x.wants ∧ ∀ r' ∈ x.refusedAt, ∀ r ∈ x.held, lt r r'
  gone : x.stage = .gone → ¬ faults → x.held = []
  through : x.stage = .leaving ∨ x.stage = .gone → ¬ faults → x.entered ∨ x.refusedAt.isSome

theorem Party.sound_idle : (Party.idle : Party R).Sound lt faults := by
  constructor <;> simp [Party.idle]

theorem Move.sound {busy : R → Prop} {x x' : Party R} (hmove : Move lt faults busy x x')
    (h : x.Sound lt faults) : x'.Sound lt faults := by
  cases hmove with
  | join hordered => constructor <;> simp [hordered]
  | take hstage htodo hfree =>
      obtain ⟨htaking, hrefused⟩ := h.taking hstage
      rw [htodo] at htaking
      constructor <;> simp [hstage, h.ordered, hrefused, htaking]
  | @refuse _ r rest hstage htodo hbusy =>
      obtain ⟨htaking, -⟩ := h.taking hstage
      have hordered := h.ordered
      rw [← htaking, htodo] at hordered
      constructor <;> simp only [reduceCtorEq, false_implies, h.ordered, Option.isSome_some, or_true,
        implies_true]
      rintro -
      refine ⟨⟨_, htaking⟩, fun r' hr' a ha => ?_⟩
      obtain rfl := Option.some.inj hr'
      exact (List.pairwise_append.mp hordered).2.2 a ha r List.mem_cons_self
  | enter hstage htodo =>
      obtain ⟨htaking, hrefused⟩ := h.taking hstage
      rw [htodo, List.append_nil] at htaking
      constructor <;> simp [h.ordered, htaking, hrefused]
  | leave hstage =>
      obtain ⟨hheld, hentered⟩ := h.inside hstage
      have hrefused := h.refused hstage
      constructor <;> simp [h.ordered, hheld, hentered, hrefused]
  | give hstage hheld =>
      obtain ⟨hstart, hlt⟩ := h.leaving hstage
      rw [hheld] at hstart hlt
      constructor <;> simp only [hstage, reduceCtorEq, false_implies, h.ordered, true_or]
      · exact fun _ => ⟨(List.prefix_append _ _).trans hstart, fun r' hr' a ha =>
          hlt r' hr' a (List.mem_append_left _ ha)⟩
      · exact fun _ => h.through (Or.inl hstage)
  | done hstage hheld =>
      constructor <;> simp only [reduceCtorEq, false_implies, h.ordered, hheld, implies_true]
      exact fun _ => h.through (Or.inl hstage)
  | stop hfaults hstage hheld =>
      constructor <;> simp [h.ordered, hfaults]
  | lose hfaults hstage hheld =>
      constructor <;> simp [h.ordered, hfaults, hstage]

/-! ### Exclusion -/

/-- A party comes to hold free locks only. -/
theorem Move.held {busy : R → Prop} {x x' : Party R} (hmove : Move lt faults busy x x') {r : R}
    (hr : r ∈ x'.held) : r ∈ x.held ∨ ¬ busy r := by
  cases hmove with
  | join => exact absurd hr List.not_mem_nil
  | take _ _ hfree =>
      rcases List.mem_append.mp hr with hold | hnew
      · exact Or.inl hold
      · exact Or.inr (List.mem_singleton.mp hnew ▸ hfree)
  | refuse | enter | leave | done => exact Or.inl hr
  | give _ hheld => exact Or.inl (hheld ▸ List.mem_append_left _ hr)
  | stop _ _ hheld => exact hheld r hr
  | lose _ _ hheld => exact Or.inl (hheld hr)

/-- The parties are sound, and no two of them hold one lock. -/
structure Orderly (lt : R → R → Prop) (faults : Prop) (s : P → Party R) : Prop where
  sound : ∀ p, (s p).Sound lt faults
  exclusive : ∀ {p q r}, r ∈ (s p).held → r ∈ (s q).held → p = q

theorem Orderly.step [DecidableEq P] {s s' : P → Party R} (h : Orderly lt faults s)
    (hstep : Step lt faults s s') :
    Orderly lt faults s' := by
  obtain ⟨p, x, hmove, rfl⟩ := hstep
  -- What the party has in the new state that another one holds, the other one held before.
  have hother : ∀ {q r}, q ≠ p → r ∈ x.held → r ∉ (s q).held := by
    intro q r hne hx hq
    rcases hmove.held hx with hold | hfree
    · exact hne (h.exclusive hq hold)
    · exact hfree ⟨q, hq⟩
  constructor
  · intro q
    by_cases hq : q = p
    · subst hq
      rw [Function.update_self]
      exact hmove.sound (h.sound q)
    · rw [Function.update_of_ne hq]
      exact h.sound q
  · intro q q' r hr hr'
    by_cases hq : q = p <;> by_cases hq' : q' = p
    · rw [hq, hq']
    · subst hq
      rw [Function.update_self] at hr
      rw [Function.update_of_ne hq'] at hr'
      exact absurd hr' (hother hq' hr)
    · subst hq'
      rw [Function.update_of_ne hq] at hr
      rw [Function.update_self] at hr'
      exact absurd hr (hother hq hr')
    · rw [Function.update_of_ne hq] at hr
      rw [Function.update_of_ne hq'] at hr'
      exact h.exclusive hr hr'

theorem Reached.orderly [DecidableEq P] {s : P → Party R} (h : Reached lt faults s) :
    Orderly lt faults s := by
  induction h with
  | refl => exact ⟨fun _ => Party.sound_idle, fun hr => absurd hr List.not_mem_nil⟩
  | tail _ hstep ih => exact ih.step hstep

/-- **Exclusion**: parties that are inside together are after different locks. -/
theorem Orderly.inside_disjoint {s : P → Party R} (h : Orderly lt faults s) {p q : P} (hne : p ≠ q)
    (hp : (s p).stage = .inside) (hq : (s q).stage = .inside) {r : R} (hr : r ∈ (s p).wants) :
    r ∉ (s q).wants := by
  rw [← ((h.sound p).inside hp).1] at hr
  rw [← ((h.sound q).inside hq).1]
  exact fun hr' => hne (h.exclusive hr hr')

/-! ### Progress -/

/-- The party has got all its locks, or holds one from here on and is still taking. -/
def Party.Ahead (lt : R → R → Prop) (x : Party R) (r : R) : Prop :=
  x.entered ∨ x.stage = .taking ∧ ∃ r' ∈ x.held, r = r' ∨ lt r r'

/-- Some party has passed the lock. -/
def Passed (lt : R → R → Prop) (s : P → Party R) (r : R) : Prop := ∃ q, (s q).Ahead lt r

/-- Every lock that was refused, some party has passed. -/
def Blocked (lt : R → R → Prop) (s : P → Party R) : Prop :=
  ∀ p r, (s p).refusedAt = some r → Passed lt s r

theorem Party.Ahead.mono [IsStrictOrder R lt] {x : Party R} {r r' : R} (h : x.Ahead lt r')
    (hlt : lt r r') :
    x.Ahead lt r := by
  rcases h with hentered | ⟨hstage, r'', hr'', hle⟩
  · exact Or.inl hentered
  · refine Or.inr ⟨hstage, r'', hr'', Or.inr ?_⟩
    rcases hle with rfl | hlt'
    · exact hlt
    · exact trans_of lt hlt hlt'

/-- Whoever holds a lock has passed it, unless somebody else has. -/
theorem Orderly.passed_of_busy [IsStrictOrder R lt] {s : P → Party R} (h : Orderly lt False s)
    (hblocked : Blocked lt s) {r : R} (hbusy : Busy s r) : Passed lt s r := by
  obtain ⟨q, hr⟩ := hbusy
  cases hstage : (s q).stage with
  | idle => exact absurd hr (((h.sound q).idle hstage).1 ▸ List.not_mem_nil)
  | taking => exact ⟨q, Or.inr ⟨hstage, r, hr, Or.inl rfl⟩⟩
  | inside => exact ⟨q, Or.inl ((h.sound q).inside hstage).2⟩
  | leaving =>
      rcases (h.sound q).through (Or.inl hstage) not_false with hentered | hrefused
      · exact ⟨q, Or.inl hentered⟩
      · obtain ⟨r', hr'⟩ := Option.isSome_iff_exists.mp hrefused
        obtain ⟨q', hahead⟩ := hblocked q r' hr'
        exact ⟨q', hahead.mono (((h.sound q).leaving hstage).2 r' hr' r hr)⟩
  | gone => exact absurd hr ((h.sound q).gone hstage not_false ▸ List.not_mem_nil)

theorem Passed.update [DecidableEq P] {s : P → Party R} {r : R} {p : P} {x : Party R}
    (h : Passed lt s r)
    (hkeep : (s p).Ahead lt r → x.Ahead lt r) : Passed lt (Function.update s p x) r := by
  obtain ⟨q, hahead⟩ := h
  refine ⟨q, ?_⟩
  by_cases hq : q = p
  · subst hq
    rw [Function.update_self]
    exact hkeep hahead
  · rwa [Function.update_of_ne hq]

/-- Unless it is refused, a party stays ahead. -/
theorem Move.ahead {busy : R → Prop} {x x' : Party R} (hmove : Move lt False busy x x')
    (h : x'.refusedAt = x.refusedAt) (hsound : x.Sound lt False) {r : R} (hahead : x.Ahead lt r) :
    x'.Ahead lt r := by
  rcases hahead with hentered | ⟨hstage, r', hr', hle⟩
  · left
    cases hmove with
    | join => exact absurd hentered Bool.false_ne_true
    | enter => rfl
    | stop hfaults => exact hfaults.elim
    | lose hfaults => exact hfaults.elim
    | _ => exact hentered
  · cases hmove with
    | join => cases hstage
    | take => exact Or.inr ⟨hstage, r', List.mem_append_left _ hr', hle⟩
    | refuse => exact absurd (h.trans (hsound.taking hstage).2) (Option.some_ne_none _)
    | enter => exact Or.inl rfl
    | leave hinside => exact absurd (hinside.symm.trans hstage) (by decide)
    | give hleaving => exact absurd (hleaving.symm.trans hstage) (by decide)
    | done hleaving => exact absurd (hleaving.symm.trans hstage) (by decide)
    | stop hfaults => exact hfaults.elim
    | lose hfaults => exact hfaults.elim

/-- Being refused is the only way to a refusal. -/
theorem Move.refusedAt_cases {busy : R → Prop} {x x' : Party R} (hmove : Move lt faults busy x x') :
    x'.refusedAt = x.refusedAt ∨ ∃ r rest, x.stage = .taking ∧ x.todo = r :: rest ∧ busy r ∧
      x' = { x with stage := .leaving, todo := [], refusedAt := some r } := by
  cases hmove with
  | refuse hstage htodo hbusy => exact Or.inr ⟨_, _, hstage, htodo, hbusy, rfl⟩
  | _ => exact Or.inl rfl

theorem Blocked.step [DecidableEq P] [IsStrictOrder R lt] {s s' : P → Party R}
    (hblocked : Blocked lt s)
    (h : Orderly lt False s) (hstep : Step lt False s s') : Blocked lt s' := by
  obtain ⟨p, x, hmove, rfl⟩ := hstep
  rcases hmove.refusedAt_cases with hsame | ⟨r, rest, hstage, htodo, hbusy, rfl⟩
  · intro q r hq
    refine Passed.update (hblocked q r ?_) (hmove.ahead hsame (h.sound p))
    by_cases hqp : q = p
    · subst hqp
      rwa [Function.update_self, hsame] at hq
    · rwa [Function.update_of_ne hqp] at hq
  · -- What the refused party holds comes before the lock it is refused.
    have hbefore : ∀ r' ∈ (s p).held, lt r' r := by
      intro r' hr'
      have hordered := (h.sound p).ordered
      rw [← ((h.sound p).taking hstage).1, htodo] at hordered
      exact (List.pairwise_append.mp hordered).2.2 r' hr' r List.mem_cons_self
    have hpassed : Passed lt
        (Function.update s p { s p with stage := .leaving, todo := [], refusedAt := some r }) r := by
      refine (h.passed_of_busy hblocked hbusy).update ?_
      rintro (hentered | ⟨-, r', hr', hle⟩)
      · exact Or.inl hentered
      · rcases hle with rfl | hlt
        · exact absurd (hbefore r hr') (irrefl_of lt r)
        · exact absurd (trans_of lt hlt (hbefore r' hr')) (irrefl_of lt r)
    intro q r₀ hq
    by_cases hqp : q = p
    · subst hqp
      rw [Function.update_self] at hq
      obtain rfl := Option.some.inj hq
      exact hpassed
    · rw [Function.update_of_ne hqp] at hq
      obtain ⟨q', hahead⟩ := hblocked q r₀ hq
      by_cases hq' : q' = p
      · subst hq'
        rcases hahead with hentered | ⟨-, r', hr', hle⟩
        · exact ⟨q', Or.inl (by rwa [Function.update_self])⟩
        · obtain ⟨q'', hahead⟩ := hpassed
          refine ⟨q'', hahead.mono ?_⟩
          rcases hle with rfl | hlt
          · exact hbefore r₀ hr'
          · exact trans_of lt hlt (hbefore r' hr')
      · exact ⟨q', by rwa [Function.update_of_ne hq']⟩

theorem Reached.blocked [DecidableEq P] [IsStrictOrder R lt] {s : P → Party R}
    (h : Reached lt False s) :
    Blocked lt s := by
  induction h with
  | refl =>
      intro p r hp
      cases hp
  | tail hrun hstep ih => exact ih.step (Reached.orderly hrun) hstep

/-- **Progress**: when no party is taking locks any more, some party that came has got all of its own. -/
theorem Reached.some_entered [DecidableEq P] [IsStrictOrder R lt] {s : P → Party R}
    (h : Reached lt False s) (hrest : ∀ p, (s p).stage ≠ .taking) {p : P} (hp : (s p).stage ≠ .idle) :
    ∃ q, (s q).entered := by
  have hsound := h.orderly.sound p
  have hthrough : (s p).entered ∨ (s p).refusedAt.isSome := by
    cases hstage : (s p).stage with
    | idle => exact absurd hstage hp
    | taking => exact absurd hstage (hrest p)
    | inside => exact Or.inl (hsound.inside hstage).2
    | leaving => exact hsound.through (Or.inl hstage) not_false
    | gone => exact hsound.through (Or.inr hstage) not_false
  rcases hthrough with hentered | hrefused
  · exact ⟨p, hentered⟩
  · obtain ⟨r, hr⟩ := Option.isSome_iff_exists.mp hrefused
    obtain ⟨q, hentered | ⟨hstage, -⟩⟩ := h.blocked p r hr
    · exact ⟨q, hentered⟩
    · exact absurd hstage (hrest q)

/-- Without faults, nothing is held once every party has gone. -/
theorem Reached.not_busy [DecidableEq P] {s : P → Party R} (h : Reached lt False s)
    (hgone : ∀ p, (s p).stage = .idle ∨ (s p).stage = .gone) (r : R) : ¬ Busy s r := by
  rintro ⟨p, hr⟩
  rcases hgone p with hstage | hstage
  · exact absurd hr (((h.orderly.sound p).idle hstage).1 ▸ List.not_mem_nil)
  · exact absurd hr ((h.orderly.sound p).gone hstage not_false ▸ List.not_mem_nil)

end

end MibServer.Lib.TryLocks
