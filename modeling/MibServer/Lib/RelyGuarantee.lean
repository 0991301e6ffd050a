import MibServer.Lib.Transaction

/-!
Programs of single statements, under a rely.

A program without transactions may find the state changed between any two of its statements. A
`Rely` is a preorder that every statement of every call respects; what it leaves true is `Stable`.
`Keeps` says of a program in a state that each of its statements respects the rely, whatever the
others have done before it, and that the result meets `post`. `System.reachable_keeps` is the rule
for any number of calls.
-/

namespace MibServer.Lib

variable {σ Q : Type} {R : Q → Type} {Env ε α β C : Type}

/-- What the calls may do to the state between two statements of one of them. -/
structure Rely (σ : Type) where
  rel : σ → σ → Prop
  refl : ∀ s, rel s s
  trans : ∀ {a b c}, rel a b → rel b c → rel a c

/-- A fact the others leave true. -/
def Rely.Stable (G : Rely σ) (fact : σ → Prop) : Prop := ∀ s s', G.rel s s' → fact s → fact s'

theorem Rely.Stable.and {G : Rely σ} {p q : σ → Prop} (hp : G.Stable p) (hq : G.Stable q) :
    G.Stable fun s => p s ∧ q s :=
  fun s s' h hs => ⟨hp s s' h hs.1, hq s s' h hs.2⟩

namespace Prog

/-- From `s`, and whatever happens in between. -/
def Keeps (E : Engine σ Q R Env) (G : Rely σ) (post : α → σ → Prop) : Prog Q R ε α → σ → Prop
  | .ret a, s => post a s
  | .throw _, _ => True
  | .stmt q k, s => ∀ s' env, G.rel s s' →
      G.rel s' (E.exec q env s').2 ∧ (k (E.exec q env s').1).Keeps E G post (E.exec q env s').2
  | .start _ _, _ | .commit _, _ => False

/-- One piece after the other, for each item. -/
def forEach (body : β → Prog Q R ε Unit) : List β → Prog Q R ε Unit
  | [] => .ret ()
  | x :: xs => (body x).bind fun _ => forEach body xs

variable {E : Engine σ Q R Env} {G : Rely σ} {post post' : α → σ → Prop} {s s' : σ}

theorem Keeps.mono {p : Prog Q R ε α} (h : p.Keeps E G post s)
    (himp : ∀ a s', post a s' → post' a s') : p.Keeps E G post' s := by
  induction p generalizing s with
  | ret a => exact himp a s h
  | throw e => trivial
  | stmt q k ih => exact fun s' env hrel => ⟨(h s' env hrel).1, ih _ (h s' env hrel).2⟩
  | start _ _ _ => exact h
  | commit _ _ => exact h

/-- What a program keeps it keeps from any later state. -/
theorem Keeps.later {p : Prog Q R ε α} (h : p.Keeps E G post s) (hpost : ∀ a, G.Stable (post a))
    (hrel : G.rel s s') : p.Keeps E G post s' := by
  cases p with
  | ret a => exact hpost a s s' hrel h
  | throw e => trivial
  | stmt q k => exact fun s'' env hrel' => h s'' env (G.trans hrel hrel')
  | start _ _ => exact h
  | commit _ => exact h

/-- The end of a program is related to its beginning. -/
theorem Keeps.related {p : Prog Q R ε α} (h : p.Keeps E G post s) :
    p.Keeps E G (fun a s' => post a s' ∧ G.rel s s') s := by
  suffices hgen : ∀ s₁, G.rel s s₁ → p.Keeps E G post s₁ →
      p.Keeps E G (fun a s' => post a s' ∧ G.rel s s') s₁ from hgen s (G.refl s) h
  clear h
  induction p with
  | ret a => exact fun s₁ hrel h => ⟨h, hrel⟩
  | throw e => exact fun _ _ _ => trivial
  | stmt q k ih =>
      intro s₁ hrel h s' env hrel'
      obtain ⟨hstep, hrest⟩ := h s' env hrel'
      exact ⟨hstep, ih _ _ (G.trans (G.trans hrel hrel') hstep) hrest⟩
  | start _ _ _ => exact fun _ _ h => h
  | commit _ _ => exact fun _ _ h => h

theorem Keeps.bind {post : β → σ → Prop} {p : Prog Q R ε α} {f : α → Prog Q R ε β}
    (h : p.Keeps E G (fun a s' => (f a).Keeps E G post s') s) : (p.bind f).Keeps E G post s := by
  induction p generalizing s with
  | ret a => exact h
  | throw e => trivial
  | stmt q k ih => exact fun s' env hrel => ⟨(h s' env hrel).1, ih _ (h s' env hrel).2⟩
  | start _ _ _ => exact h.elim
  | commit _ _ => exact h.elim

/-- **The loop rule**: where each item's piece, from any state with `known`, comes to a fact that
stays, the loop comes to all of them. -/
theorem Keeps.forEach {body : β → Prog Q R ε Unit} {known : σ → Prop} {fact : β → σ → Prop}
    {xs : List β} (hknown : G.Stable known) (hfact : ∀ x, G.Stable (fact x))
    (hbody : ∀ x ∈ xs, ∀ s, known s → (body x).Keeps E G (fun _ => fact x) s) (hs : known s) :
    (Prog.forEach body xs).Keeps E G (fun _ s' => ∀ x ∈ xs, fact x s') s := by
  induction xs generalizing s with
  | nil => exact fun x hx => absurd hx List.not_mem_nil
  | cons x xs ih =>
      refine Keeps.bind ((hbody x List.mem_cons_self s hs).related.mono fun _ s₁ h => ?_)
      obtain ⟨hx, hrel⟩ := h
      have hrest := ih (fun y hy => hbody y (List.mem_cons_of_mem _ hy)) (hknown s s₁ hrel hs)
      refine hrest.related.mono fun _ s₂ h => ?_
      exact List.forall_mem_cons.mpr ⟨hfact x s₁ s₂ h.2 hx, h.1⟩

end Prog

/-! ### Any number of calls -/

section System

variable [∀ q, DecidableEq (R q)] {S : System σ Q R Env ε α C} {G : Rely σ}
  {post : C → α → σ → Prop} {s₀ : σ}

/-- Every call keeps to the rely from where the state is. -/
structure World.Keeps (S : System σ Q R Env ε α C) (G : Rely σ) (post : C → α → σ → Prop) (s₀ : σ)
    (w : World σ Q R Env ε α C) : Prop where
  since : G.rel s₀ w.committed
  threads : ∀ th ∈ w.threads, th.tx = none ∧ th.prog.Keeps S.engine G (post th.call) w.committed

theorem World.Keeps.step {w w' : World σ Q R Env ε α C} {a : Action C Env}
    (hw : w.Keeps S G post s₀) (hstable : ∀ c a, G.Stable (post c a))
    (hcalls : ∀ c s, G.rel s₀ s → (S.program c).Keeps S.engine G (post c) s)
    (h : w.step S a = some w') : w'.Keeps S G post s₀ := by
  cases a with
  | spawn c =>
      cases h
      refine ⟨hw.since, fun th hth => ?_⟩
      rcases List.mem_append.mp hth with hold | hnew
      · exact hw.threads th hold
      · rw [List.mem_singleton.mp hnew]
        exact ⟨rfl, hcalls c w.committed hw.since⟩
  | run t env =>
      simp only [World.step] at h
      split at h
      · rename_i th ht
        obtain ⟨⟨th', s'⟩, hrun, heq⟩ := Option.map_eq_some_iff.mp h
        cases heq
        obtain ⟨htx, hkeeps⟩ := hw.threads th (List.mem_of_getElem? ht)
        obtain ⟨call, prog, tx⟩ := th
        subst htx
        cases prog with
        | stmt q k =>
            cases hrun
            obtain ⟨hstep, hrest⟩ := hkeeps w.committed env (G.refl _)
            refine ⟨G.trans hw.since hstep, fun th hth => ?_⟩
            rcases List.mem_or_eq_of_mem_set hth with hold | rfl
            · obtain ⟨htx, hother⟩ := hw.threads th hold
              exact ⟨htx, hother.later (hstable th.call) hstep⟩
            · exact ⟨rfl, hrest⟩
        | start _ _ => exact hkeeps.elim
        | ret a => cases hrun
        | throw e => cases hrun
        | commit p => cases hrun
      · cases h
  | abort t =>
      simp only [World.step] at h
      split at h
      · split at h
        · cases h
        · cases h
          refine ⟨hw.since, fun th hth => ?_⟩
          rcases List.mem_or_eq_of_mem_set hth with hold | rfl
          · exact hw.threads th hold
          · exact ⟨rfl, trivial⟩
      · cases h

/-- **The rule**: calls that each keep to the rely keep to it together, and each result meets its
`post` from then on. -/
theorem System.reachable_keeps (hstable : ∀ c a, G.Stable (post c a))
    (hcalls : ∀ c s, G.rel s₀ s → (S.program c).Keeps S.engine G (post c) s)
    {w : World σ Q R Env ε α C} (h : (S.machine (· = s₀)).Reachable w) : w.Keeps S G post s₀ := by
  refine h.invariant ?_ fun w a w' hw _ hstep => hw.step hstable hcalls hstep
  rintro w ⟨rfl, hthreads⟩
  exact ⟨G.refl _, fun th hth => by rw [hthreads] at hth; cases hth⟩

omit [∀ q, DecidableEq (R q)] in
/-- The result of a finished call. -/
theorem World.Keeps.result {w : World σ Q R Env ε α C} (hw : w.Keeps S G post s₀)
    {th : Thread σ Q R Env ε α C} (hth : th ∈ w.threads) {a : α} (ha : th.result? = some a) :
    post th.call a w.committed := by
  obtain ⟨htx, hkeeps⟩ := hw.threads th hth
  have hprog : th.prog = .ret a := by
    simpa [Thread.result?, htx, Prog.result?_eq_some] using ha
  rw [hprog] at hkeeps
  exact hkeeps

end System

end MibServer.Lib
