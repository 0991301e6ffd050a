import MibServer.Lib.Sequential

/-!
Calls that do not fail when they are left alone.

`Prog.Ensures` is the total weakest precondition of a piece of a transaction body, in the
environments of which `fair` holds. A call is `Solo` when, left alone from here on, it comes to a
good end: it has not read anything yet, and would do so from any state (`Waiting`), or it is in
its transaction and sees the committed state, or it has returned. Its own steps keep it so
(`Thread.Solo.run`); the steps of other calls do unless they change what it has read
(`Thread.Solo.other`).
-/

namespace MibServer.Lib

variable {σ Q : Type} {R : Q → Type} {Env ε α β C : Type}

namespace Prog

/-- Run inside a transaction from `v`, this piece of a body returns a value and a working
state that satisfy `post`. -/
def Ensures (E : Engine σ Q R Env) (fair : Env → Prop) (post : α → σ → Prop) :
    View σ → Prog Q R ε α → Prop
  | v, .ret a => post a v.work
  | _, .throw _ => False
  | v, .stmt q k => ∀ env, fair env →
      (k (E.answer v q env).1).Ensures E fair post (v.at (E.answer v q env).2)
  | _, .start _ _ => False
  | _, .commit _ => False

variable {E : Engine σ Q R Env} {fair : Env → Prop}

theorem Ensures.mono {post post' : α → σ → Prop} {p : Prog Q R ε α} {v : View σ}
    (h : p.Ensures E fair post v) (himp : ∀ a w, post a w → post' a w) : p.Ensures E fair post' v := by
  induction p generalizing v with
  | ret a => exact himp a v.work h
  | throw e => exact h
  | stmt q k ih => exact fun env henv => ih _ (h env henv)
  | start _ _ _ => exact h
  | commit _ _ => exact h

/-- A body that ensures `post` ends with a commit of it. -/
theorem Ensures.alone {post : α → σ → Prop} {p : Prog Q R ε α} {v : View σ}
    (h : p.Ensures E fair post v) {supply : Nat → Env} (hsupply : ∀ n, fair (supply n)) (s : σ) :
    ∃ a work, post a work ∧
      (p.bind fun a => .commit (.ret a)).alone E (some v) supply s = (.ok a, work) := by
  induction p generalizing v supply with
  | ret a => exact ⟨a, v.work, h, rfl⟩
  | throw e => exact h.elim
  | stmt q k ih =>
      have hrest := ih (E.answer v q (supply 0)).1 (h (supply 0) (hsupply 0)) fun n => hsupply (n + 1)
      exact hrest
  | start _ _ _ => exact h.elim
  | commit _ _ => exact h.elim

/-- The program issues statements that leave the state alone, and then runs one transaction,
which begins with a plain read and, started anywhere, comes to a good end. -/
def Opens (E : Engine σ Q R Env) (fair : Env → Prop) (inv : σ → Prop)
    (good : Except ε α × σ → Prop) : Prog Q R ε α → Prop
  | .ret _ | .throw _ | .commit _ => False
  | .stmt q k => (∀ env s, (E.exec q env s).2 = s) ∧ ∀ r, (k r).Opens E fair inv good
  | .start isolation p => isolation = .repeatableRead ∧ (∃ q k, p = .stmt q k ∧ E.plainRead q = true) ∧
      p.Closes ∧ ∀ (s : σ) (supply : Nat → Env), inv s → (∀ n, fair (supply n)) →
        good (p.alone E (some (View.initial isolation s s)) supply s)

variable {inv : σ → Prop} {good : Except ε α × σ → Prop}

theorem Opens.alone {p : Prog Q R ε α} (h : p.Opens E fair inv good) {s : σ} (hs : inv s)
    {supply : Nat → Env} (hsupply : ∀ n, fair (supply n)) : good (p.alone E none supply s) := by
  induction p generalizing supply with
  | ret _ | throw _ => exact h.elim
  | commit _ _ => exact h.elim
  | start isolation p _ => exact h.2.2.2 s supply hs hsupply
  | stmt q k ih =>
      obtain ⟨hquiet, hrest⟩ := h
      have hlater : ∀ n, fair ((fun n => supply (n + 1)) n) := fun n => hsupply (n + 1)
      have hgood := ih (E.exec q (supply 0) s).1 (hrest _) hlater
      simpa only [Prog.alone, hquiet] using hgood

/-- A transaction whose body begins with a plain read. -/
theorem opens_transaction {q : Q} {k : R q → Prog Q R ε α} (hq : E.plainRead q = true)
    (hplain : (Prog.stmt q k).Plain)
    (h : ∀ s, inv s → (Prog.stmt q k).Ensures E fair (fun a work => good (.ok a, work))
      (View.initial .repeatableRead s s)) :
    (transaction .repeatableRead (Prog.stmt q k)).Opens E fair inv good := by
  refine ⟨rfl, ⟨q, _, rfl, hq⟩, hplain.bind_closes fun a => ⟨a, rfl⟩, fun s supply hs hsupply => ?_⟩
  obtain ⟨a, work, hgood, halone⟩ := (h s hs).alone hsupply s
  rw [halone]
  exact hgood

end Prog

/-! ### Threads -/

section Threads

variable [∀ q, DecidableEq (R q)] {E : Engine σ Q R Env} {fair : Env → Prop} {inv : σ → Prop}
  {good : Except ε α × σ → Prop} {th th' : Thread σ Q R Env ε α C} {s s' : σ} {env : Env}

/-- Left alone in `s`, the call comes to a good end. -/
def Thread.Settles (th : Thread σ Q R Env ε α C) (E : Engine σ Q R Env) (fair : Env → Prop)
    (good : Except ε α × σ → Prop) (s : σ) : Prop :=
  ∃ view, th.At E s view ∧ ∀ supply : Nat → Env, (∀ n, fair (supply n)) →
    good (th.prog.alone E view supply s)

theorem Thread.Settles.run (h : th.Settles E fair good s) (henv : fair env)
    (hrun : th.run E s env = some (th', s')) : th'.Settles E fair good s' := by
  obtain ⟨view, hat, hgood⟩ := h
  obtain ⟨view', hat', halone⟩ := hat.run henv hrun
  refine ⟨view', hat', fun supply hsupply => ?_⟩
  obtain ⟨supply', hsupply', heq⟩ := halone supply hsupply
  rw [heq]
  exact hgood supply' hsupply'

/-- The call has read nothing yet. -/
def Thread.Waiting (th : Thread σ Q R Env ε α C) (E : Engine σ Q R Env) (fair : Env → Prop)
    (inv : σ → Prop) (good : Except ε α × σ → Prop) : Prop :=
  (th.tx = none ∧ th.prog.Opens E fair inv good) ∨
    ∃ isolation, th.tx = some { isolation, body := th.prog } ∧
      (Prog.start isolation th.prog).Opens E fair inv good

theorem Thread.Waiting.settles (h : th.Waiting E fair inv good) (hs : inv s) :
    th.Settles E fair good s := by
  obtain ⟨call, prog, tx⟩ := th
  rcases h with ⟨htx, hopens⟩ | ⟨isolation, htx, hopens⟩
  · exact ⟨none, htx, fun supply hsupply => hopens.alone hs hsupply⟩
  · exact ⟨some (View.initial isolation s s), ⟨_, htx, by simp, rfl, rfl⟩,
      fun supply hsupply => hopens.2.2.2 s supply hs hsupply⟩

omit [∀ q, DecidableEq (R q)] in
/-- Nothing has been read by a call that waits. -/
theorem Thread.Waiting.unpinned (h : th.Waiting E fair inv good) : th.pinned = none := by
  rcases h with ⟨htx, -⟩ | ⟨isolation, htx, -⟩ <;> simp [Thread.pinned, htx]

/-- The call is in its transaction and has made its first read. -/
def Thread.Reading (th : Thread σ Q R Env ε α C) : Prop := th.pinned ≠ none ∧ th.prog.Closes

/-- A call that waits in its transaction makes its first read. -/
theorem Thread.Waiting.reads (h : th.Waiting E fair inv good) (htx : th.tx ≠ none)
    (hrun : th.run E s env = some (th', s')) : s' = s ∧ th'.Reading := by
  obtain ⟨call, prog, tx⟩ := th
  rcases h with ⟨hnone, -⟩ | ⟨isolation, hwaits, hiso, ⟨q, k, hprog, hread⟩, hcloses, -⟩
  · exact absurd hnone htx
  · dsimp only at hwaits hprog hcloses
    subst hwaits hprog hiso
    obtain ⟨work, -, heq⟩ := Option.map_eq_some_iff.mp hrun
    cases heq
    exact ⟨rfl, by simp [Thread.pinned, Tx.pin, hread], hcloses _⟩

/-- A call that waits goes on waiting, or makes its first read. -/
theorem Thread.Waiting.run (h : th.Waiting E fair inv good) (hrun : th.run E s env = some (th', s')) :
    s' = s ∧ (th'.Waiting E fair inv good ∨ th'.Reading) := by
  rcases id h with ⟨htx, hopens⟩ | ⟨isolation, htx, -⟩
  · obtain ⟨call, prog, tx⟩ := th
    dsimp only at htx hopens
    subst htx
    cases prog with
    | ret _ | throw _ | commit _ => cases hrun
    | stmt q k =>
        cases hrun
        exact ⟨hopens.1 env s, Or.inl (Or.inl ⟨rfl, hopens.2 _⟩)⟩
    | start isolation p =>
        cases hrun
        exact ⟨rfl, Or.inl (Or.inr ⟨isolation, rfl, hopens⟩)⟩
  · exact (h.reads (by simp [htx]) hrun).imp id Or.inr

/-- A call goes on seeing what it has read first, until it ends with its commit. -/
theorem Thread.run_pinned_stays {s₀ : σ} (h : th.prog.Closes) (hpinned : s₀ ∈ th.pinned)
    (hrun : th.run E s env = some (th', s')) :
    (s' = s ∧ s₀ ∈ th'.pinned ∧ th'.prog.Closes) ∨
      ∃ a, th.prog = .commit (.ret a) ∧ th'.tx = none ∧ th'.prog = .ret a := by
  obtain ⟨call, prog, tx⟩ := th
  cases tx with
  | none => cases hpinned
  | some tx =>
      cases prog with
      | ret _ | throw _ | start _ _ => cases hrun
      | stmt q k =>
          obtain ⟨work, -, heq⟩ := Option.map_eq_some_iff.mp hrun
          cases heq
          have hsnapshot : tx.snapshot = some s₀ := hpinned
          refine Or.inl ⟨rfl, ?_, h _⟩
          simp only [Thread.pinned, Option.bind_some, Tx.pin]
          split <;> simp [hsnapshot]
      | commit p =>
          obtain ⟨work, -, heq⟩ := Option.map_eq_some_iff.mp hrun
          cases heq
          obtain ⟨a, rfl⟩ := h
          exact Or.inr ⟨a, rfl, rfl, rfl⟩

/-- Left alone from here on, the call comes to a good end. -/
def Thread.Solo (th : Thread σ Q R Env ε α C) (E : Engine σ Q R Env) (fair : Env → Prop)
    (inv : σ → Prop) (good : Except ε α × σ → Prop) (s : σ) : Prop :=
  th.Waiting E fair inv good ∨ (th.Reading ∧ th.Settles E fair good s) ∨
    ∃ a, th.tx = none ∧ th.prog = .ret a ∧ good (.ok a, s)

theorem Thread.Solo.settles (h : th.Solo E fair inv good s) (hs : inv s) : th.Settles E fair good s := by
  rcases h with hwaiting | ⟨-, hsettles⟩ | ⟨a, htx, hprog, hgood⟩
  · exact hwaiting.settles hs
  · exact hsettles
  · refine ⟨none, htx, fun supply _ => ?_⟩
    rw [hprog, Prog.alone_ret]
    exact hgood

/-- Its own steps bring the call nearer to its end; only a call that has read changes the
state. -/
theorem Thread.Solo.run (h : th.Solo E fair inv good s) (hs : inv s) (henv : fair env)
    (hrun : th.run E s env = some (th', s')) :
    th'.Solo E fair inv good s' ∧ (s' = s ∨ th.pinned ≠ none) := by
  have hsettles' := (h.settles hs).run henv hrun
  rcases h with hwaiting | ⟨hreading, hsettles⟩ | ⟨a, htx, hprog, -⟩
  · obtain ⟨rfl, hwaiting' | hreading⟩ := hwaiting.run hrun
    · exact ⟨Or.inl hwaiting', Or.inl rfl⟩
    · exact ⟨Or.inr (Or.inl ⟨hreading, hsettles'⟩), Or.inl rfl⟩
  · obtain ⟨hpinned, hcloses⟩ := hreading
    obtain ⟨s₀, hs₀⟩ := Option.ne_none_iff_exists'.mp hpinned
    rcases Thread.run_pinned_stays hcloses hs₀ hrun with ⟨rfl, hs₀', hcloses'⟩ | ⟨a, -, htx, hprog⟩
    · have hreading' : th'.Reading := ⟨Option.ne_none_iff_exists'.mpr ⟨s₀, hs₀'⟩, hcloses'⟩
      exact ⟨Or.inr (Or.inl ⟨hreading', hsettles'⟩), Or.inl rfl⟩
    · obtain ⟨view, -, hgood⟩ := hsettles'
      have hend := hgood (fun _ => env) fun _ => henv
      rw [hprog, Prog.alone_ret] at hend
      exact ⟨Or.inr (Or.inr ⟨a, htx, hprog, hend⟩), Or.inr hpinned⟩
  · obtain ⟨call, prog, tx⟩ := th
    dsimp only at htx hprog
    subst htx hprog
    cases hrun

/-- A call that has read nothing, and a response that stays good, do not mind the steps of
others. -/
theorem Thread.Solo.other (h : th.Solo E fair inv good s) (hpinned : th.pinned = none)
    (hreturned : ∀ a, good (.ok a, s) → good (.ok a, s')) : th.Solo E fair inv good s' := by
  rcases h with hwaiting | ⟨hreading, -⟩ | ⟨a, htx, hprog, hgood⟩
  · exact Or.inl hwaiting
  · exact absurd hpinned hreading.1
  · exact Or.inr (Or.inr ⟨a, htx, hprog, hreturned a hgood⟩)

end Threads

end MibServer.Lib
