import MibServer.Lib.Transaction
import Mathlib.Data.Set.Operations

/-!
Programs that run to their end, one after another.

`Prog.alone` runs a program with nothing else on the store: its statements take their
environments from a supply, and a transaction works on the state it starts on and commits
into it. `World.runs_alone` says that this is a run of the interleaved system, in which the
call takes all of its steps before any other thread moves. A call in the middle of its program
is there with a view (`Thread.At`), and its next step leads to the program that is left
(`Thread.At.run`).
-/

namespace MibServer.Lib

variable {σ Q : Type} {R : Q → Type} {Env ε α β C : Type}

namespace Prog

/-- The outcome of the program and the state it leaves; with a view it is inside a
transaction. -/
def alone (E : Engine σ Q R Env) :
    Option (View σ) → Prog Q R ε α → (Nat → Env) → σ → Except ε α × σ
  | _, .ret a, _, s => (.ok a, s)
  | _, .throw e, _, s => (.error e, s)
  | none, .stmt q k, supply, s =>
      (k (E.exec q (supply 0) s).1).alone E none (fun n => supply (n + 1)) (E.exec q (supply 0) s).2
  | some v, .stmt q k, supply, s =>
      (k (E.answer v q (supply 0)).1).alone E (some (v.at (E.answer v q (supply 0)).2))
        (fun n => supply (n + 1)) s
  | none, .start isolation p, supply, s => p.alone E (some (View.initial isolation s s)) supply s
  | some v, .start _ p, supply, s => p.alone E (some v) supply s
  | none, .commit p, supply, s => p.alone E none supply s
  | some v, .commit p, supply, _ => p.alone E none supply v.work

variable {E : Engine σ Q R Env}

theorem alone_ret (view : Option (View σ)) (a : α) (supply : Nat → Env) (s : σ) :
    (Prog.ret a : Prog Q R ε α).alone E view supply s = (.ok a, s) := by
  cases view <;> rfl

theorem alone_throw (view : Option (View σ)) (e : ε) (supply : Nat → Env) (s : σ) :
    (Prog.throw e : Prog Q R ε α).alone E view supply s = (.error e, s) := by
  cases view <;> rfl

/-- A transaction body run alone is rolled back, or committed as its specification says. -/
theorem Yields.alone {post : α → σ → Prop} {p : Prog Q R ε α} {v : View σ}
    (h : p.Yields E post v) (supply : Nat → Env) (s : σ) :
    (∃ e, (p.bind fun a => .commit (.ret a)).alone E (some v) supply s = (.error e, s)) ∨
      ∃ a work, post a work ∧
        (p.bind fun a => .commit (.ret a)).alone E (some v) supply s = (.ok a, work) := by
  induction p generalizing v supply with
  | ret a => exact Or.inr ⟨a, v.work, h, rfl⟩
  | throw e => exact Or.inl ⟨e, rfl⟩
  | stmt q k ih =>
      have hrest := ih (E.answer v q (supply 0)).1 (h (supply 0)) fun n => supply (n + 1)
      exact hrest
  | start _ _ _ => exact h.elim
  | commit _ _ => exact h.elim

theorem alone_transaction {post : α → σ → Prop} (isolation : Isolation) {body : Prog Q R ε α} {s : σ}
    (h : body.Yields E post (View.initial isolation s s)) (supply : Nat → Env) :
    (∃ e, (transaction isolation body).alone E none supply s = (.error e, s)) ∨
      ∃ a work, post a work ∧ (transaction isolation body).alone E none supply s = (.ok a, work) :=
  h.alone supply s

/-- The statements of a serializable transaction are answered from the current rows. -/
theorem alone_view {p : Prog Q R ε α} (hplain : p.Plain) {v : View σ}
    (hv : v.isolation = .serializable) (supply : Nat → Env) (s : σ) :
    (p.bind fun a => .commit (.ret a)).alone E (some v) supply s =
      match p.alone E none supply v.work with
      | (.ok a, work) => (.ok a, work)
      | (.error e, _) => (.error e, s) := by
  induction p generalizing v supply with
  | ret a => rfl
  | throw e => rfl
  | stmt q k ih =>
      have hrest := ih (E.answer v q (supply 0)).1 (hplain _) (v := v.at (E.answer v q (supply 0)).2) hv
        fun n => supply (n + 1)
      rw [Engine.answer_serializable _ hv] at hrest
      simp only [stmt_bind, alone, Engine.answer_serializable _ hv]
      exact hrest
  | start _ _ _ => exact hplain.elim
  | commit _ _ => exact hplain.elim

/-- A serializable transaction commits what its statements leave when they run by themselves. -/
theorem alone_serializable {body : Prog Q R ε α} (hplain : body.Plain) (supply : Nat → Env) (s : σ) :
    (transaction .serializable body).alone E none supply s =
      match body.alone E none supply s with
      | (.ok a, work) => (.ok a, work)
      | (.error e, _) => (.error e, s) :=
  alone_view hplain (v := View.initial .serializable s s) rfl supply s

end Prog

/-! ### A run of the interleaved system -/

section Runs

variable [∀ q, DecidableEq (R q)]

/-- A log replayed with one entry more. -/
theorem Engine.replay_snoc {E : Engine σ Q R Env} {v : View σ} {log : List (Entry Q R Env)} {work : σ}
    (h : E.replay v log = some work) (q : Q) (env : Env) :
    E.replay v (log ++ [⟨q, env, (E.answer (v.at work) q env).1⟩]) =
      some (E.answer (v.at work) q env).2 := by
  induction log generalizing v with
  | nil =>
      cases h
      exact if_pos rfl
  | cons entry log ih =>
      obtain ⟨q', env', reply⟩ := entry
      simp only [Engine.replay] at h
      split at h
      · rename_i hreply
        simp only [List.cons_append, Engine.replay, hreply, if_true]
        exact ih h
      · cases h

/-- The view of a thread that is alone: outside a transaction, or where its log has taken
it from the committed state. -/
def Thread.At (th : Thread σ Q R Env ε α C) (E : Engine σ Q R Env) (committed : σ) :
    Option (View σ) → Prop
  | none => th.tx = none
  | some v => ∃ tx, th.tx = some tx ∧ (∀ s ∈ tx.snapshot, s = committed) ∧
      E.replay (tx.view committed) tx.log = some v.work ∧ v = (tx.view committed).at v.work

omit [∀ q, DecidableEq (R q)] in
/-- The snapshot of a thread that is alone is the committed state. -/
theorem Tx.view_pin {tx : Tx σ Q R Env ε α} {E : Engine σ Q R Env} {q : Q} {committed : σ}
    (h : ∀ s ∈ tx.snapshot, s = committed) :
    (tx.pin E q committed).view committed = tx.view committed ∧
      ∀ s ∈ (tx.pin E q committed).snapshot, s = committed := by
  obtain ⟨snapshot, hpin, hpinned⟩ := tx.pin_eq E q committed
  have hsame : ∀ s ∈ snapshot, s = committed := fun s hs => (hpinned s hs).elim (h s) id
  have hgetD : ∀ o : Option σ, (∀ s ∈ o, s = committed) → o.getD committed = committed := by
    intro o ho
    cases o with
    | none => rfl
    | some s => exact ho s rfl
  rw [hpin]
  refine ⟨?_, hsame⟩
  simp only [Tx.view, hgetD _ hsame, hgetD _ h]

/-- A thread that is alone can issue its next statement. -/
theorem Thread.At.stmt {E : Engine σ Q R Env} {call : C} {q : Q} {k : R q → Prog Q R ε α}
    {tx : Tx σ Q R Env ε α} {v : View σ} {s : σ}
    (h : (⟨call, .stmt q k, some tx⟩ : Thread σ Q R Env ε α C).At E s (some v)) (env : Env) :
    ∃ tx', (⟨call, .stmt q k, some tx⟩ : Thread σ Q R Env ε α C).run E s env =
        some (⟨call, k (E.answer v q env).1, some tx'⟩, s) ∧
      (⟨call, k (E.answer v q env).1, some tx'⟩ : Thread σ Q R Env ε α C).At E s
        (some (v.at (E.answer v q env).2)) := by
  obtain ⟨tx, htx, hsnapshot, hreplay, hv⟩ := h
  cases htx
  obtain ⟨hview, hpinned⟩ := Tx.view_pin (E := E) (q := q) hsnapshot
  have hlog : (tx.pin E q s).log = tx.log := by
    obtain ⟨snapshot, hpin, -⟩ := tx.pin_eq E q s
    rw [hpin]
  refine ⟨{ tx.pin E q s with log := tx.log ++ [⟨q, env, (E.answer v q env).1⟩] }, ?_, _, rfl, hpinned,
    ?_, ?_⟩
  · simp only [Thread.run, hview, hlog, hreplay, Option.map_some, ← hv]
  · have hanswer := Engine.replay_snoc hreplay q env
    rw [← hv] at hanswer
    exact (congrArg (fun v => E.replay v _) hview).trans hanswer
  · have hat : v.at (E.answer v q env).2 = ((tx.view s).at v.work).at (E.answer v q env).2 :=
      congrArg (View.at · (E.answer v q env).2) hv
    have hpin : (tx.view s).at (E.answer v q env).2 =
        ((tx.pin E q s).view s).at (E.answer v q env).2 := by
      rw [hview]
    exact hat.trans hpin

/-- One step of a thread that is alone, in environments of which `fair` holds. -/
theorem Thread.At.run {E : Engine σ Q R Env} {th th' : Thread σ Q R Env ε α C} {s s' : σ}
    {view : Option (View σ)} {env : Env} {fair : Env → Prop} (hat : th.At E s view) (henv : fair env)
    (hrun : th.run E s env = some (th', s')) :
    ∃ view', th'.At E s' view' ∧ ∀ supply : Nat → Env, (∀ n, fair (supply n)) →
      ∃ supply' : Nat → Env, (∀ n, fair (supply' n)) ∧
        th'.prog.alone E view' supply s' = th.prog.alone E view supply' s := by
  -- The environment of a statement comes first.
  have hcons : ∀ supply : Nat → Env, (∀ n, fair (supply n)) →
      ∀ n, fair ((fun | 0 => env | n + 1 => supply n : Nat → Env) n) := by
    rintro supply hsupply (_ | n)
    · exact henv
    · exact hsupply n
  obtain ⟨call, prog, tx⟩ := th
  cases view with
  | none =>
      obtain rfl : tx = none := hat
      cases prog with
      | ret _ | throw _ | commit _ => cases hrun
      | stmt q k =>
          cases hrun
          exact ⟨none, rfl, fun supply hsupply => ⟨_, hcons supply hsupply, rfl⟩⟩
      | start isolation p =>
          cases hrun
          exact ⟨some (View.initial isolation s s), ⟨_, rfl, by simp, rfl, rfl⟩,
            fun supply hsupply => ⟨supply, hsupply, rfl⟩⟩
  | some v =>
      obtain ⟨tx, rfl, -, hreplay, -⟩ := id hat
      cases prog with
      | ret _ | throw _ | start _ _ => cases hrun
      | stmt q k =>
          obtain ⟨tx', hstmt, hat'⟩ := hat.stmt env
          cases hstmt.symm.trans hrun
          exact ⟨_, hat', fun supply hsupply => ⟨_, hcons supply hsupply, rfl⟩⟩
      | commit p =>
          have hcommit : (⟨call, .commit p, some tx⟩ : Thread σ Q R Env ε α C).run E s env =
              some (⟨call, p, none⟩, v.work) := by
            simp only [Thread.run, hreplay, Option.map_some]
          cases hcommit.symm.trans hrun
          exact ⟨none, rfl, fun supply hsupply => ⟨supply, hsupply, rfl⟩⟩

/-- Where a thread is, what is left of its program is safe. -/
theorem Thread.Inv.safe_at {E : Engine σ Q R Env} {K : Contract σ C (Prog Q R ε α)}
    {th : Thread σ Q R Env ε α C} {s : σ} {view : Option (View σ)} (h : th.Inv E K s) (hs : K.inv s)
    (hat : th.At E s view) : th.prog.Safe E K th.call view := by
  cases view with
  | none =>
      rw [Thread.Inv, show th.tx = none from hat] at h
      exact h
  | some v =>
      obtain ⟨tx, htx, hsnapshot, hreplay, hv⟩ := hat
      rw [Thread.Inv, htx] at h
      obtain ⟨hsafe, hfollows, hpast⟩ := h
      have hpinned : K.inv (tx.snapshot.getD s) ∧ K.evolves (tx.snapshot.getD s) s := by
        cases hsnap : tx.snapshot with
        | none => exact ⟨hs, K.refl s⟩
        | some s₀ => exact hpast s₀ hsnap
      rw [hv]
      exact (hsafe _ s hpinned.1 hpinned.2 hs).replay hfollows hreplay

/-- How a thread ends. -/
def Thread.EndsWith (th : Thread σ Q R Env ε α C) : Except ε α → Prop
  | .ok a => th.result? = some a
  | .error e => th.prog = .throw e

variable {S : System σ Q R Env ε α C} {K : Contract σ C (Prog Q R ε α)} {init : σ → Prop}
  {ok : World σ Q R Env ε α C → Action C Env → Prop}

omit [∀ q, DecidableEq (R q)] in
theorem set_self {threads : List (Thread σ Q R Env ε α C)} {t : Nat} {th : Thread σ Q R Env ε α C}
    (ht : threads[t]? = some th) : threads.set t th = threads := by
  obtain ⟨_, hget⟩ := List.getElem?_eq_some_iff.mp ht
  rw [← hget, List.set_getElem_self]

omit [∀ q, DecidableEq (R q)] in
theorem getElem?_set_of_some {threads : List (Thread σ Q R Env ε α C)} {t : Nat}
    {th th' : Thread σ Q R Env ε α C} (ht : threads[t]? = some th) :
    (threads.set t th')[t]? = some th' :=
  List.getElem?_set_self (List.getElem?_eq_some_iff.mp ht).1

theorem World.step_run {w : World σ Q R Env ε α C} {t : Nat} {th th' : Thread σ Q R Env ε α C}
    {env : Env} {s : σ} (ht : w.threads[t]? = some th)
    (hrun : th.run S.engine w.committed env = some (th', s)) :
    w.step S (.run t env) = some { committed := s, threads := w.threads.set t th' } := by
  simp only [World.step, ht, hrun, Option.map_some]

/-- Thread `t` may go on, by steps that `ok` admits, whatever it has come to alone. -/
def World.MayRun (S : System σ Q R Env ε α C) (init : σ → Prop)
    (ok : World σ Q R Env ε α C → Action C Env → Prop) (fair : Env → Prop)
    (w : World σ Q R Env ε α C) (t : Nat) : Prop :=
  ∀ w', Relation.ReflTransGen ((S.machine init).Next ok) w w' →
    (∀ u, u ≠ t → w'.threads[u]? = w.threads[u]?) → ∀ env, fair env → ok w' (.run t env)

/-- Thread `t` comes to the end `outcome` without any other thread moving. -/
def World.RunsTo (S : System σ Q R Env ε α C) (init : σ → Prop)
    (ok : World σ Q R Env ε α C → Action C Env → Prop) (w : World σ Q R Env ε α C) (t : Nat)
    (call : C) (outcome : Except ε α × σ) : Prop :=
  ∃ th' : Thread σ Q R Env ε α C, Relation.ReflTransGen ((S.machine init).Next ok) w
      { committed := outcome.2, threads := w.threads.set t th' } ∧
    th'.call = call ∧ th'.EndsWith outcome.1

/-- The first step of a thread that runs to its end. -/
theorem World.RunsTo.cons {fair : Env → Prop} {w : World σ Q R Env ε α C} {t : Nat}
    {th th' : Thread σ Q R Env ε α C} {s : σ} {call : C} {outcome : Except ε α × σ} {env : Env}
    (ht : w.threads[t]? = some th) (hmay : World.MayRun S init ok fair w t) (henv : fair env)
    (hrun : th.run S.engine w.committed env = some (th', s))
    (h : World.MayRun S init ok fair { committed := s, threads := w.threads.set t th' } t →
      World.RunsTo S init ok { committed := s, threads := w.threads.set t th' } t call outcome) :
    World.RunsTo S init ok w t call outcome := by
  have hnext : (S.machine init).Next ok w { committed := s, threads := w.threads.set t th' } :=
    ⟨_, hmay w .refl (fun _ _ => rfl) env henv, World.step_run ht hrun⟩
  have hothers : ∀ u, u ≠ t → (w.threads.set t th')[u]? = w.threads[u]? :=
    fun u hu => List.getElem?_set_ne (Ne.symm hu)
  obtain ⟨th'', hrest, hends⟩ := h fun w' hrun' hsame env henv =>
    hmay w' (hrun'.head hnext) (fun u hu => (hsame u hu).trans (hothers u hu)) env henv
  refine ⟨th'', ?_, hends⟩
  rw [List.set_set] at hrest
  exact hrest.head hnext

/-- **Running alone is a run**: no other thread moves, and the thread ends as its program
does alone. -/
theorem World.runs_alone {fair : Env → Prop} (p : Prog Q R ε α) {w : World σ Q R Env ε α C} {t : Nat}
    {call : C} {tx : Option (Tx σ Q R Env ε α)} {view : Option (View σ)}
    (ht : w.threads[t]? = some ⟨call, p, tx⟩)
    (hat : (⟨call, p, tx⟩ : Thread σ Q R Env ε α C).At S.engine w.committed view)
    (hsafe : p.Safe S.engine K call view) (hs : K.inv w.committed)
    (hmay : World.MayRun S init ok fair w t) {supply : Nat → Env} (hsupply : ∀ n, fair (supply n)) :
    World.RunsTo S init ok w t call (p.alone S.engine view supply w.committed) := by
  induction p generalizing w tx view supply with
  | ret a =>
      cases view with
      | some v => exact hsafe.elim
      | none =>
          obtain rfl : tx = none := hat
          refine ⟨⟨call, .ret a, none⟩, ?_, rfl, rfl⟩
          rw [Prog.alone_ret, set_self ht]
  | throw e =>
      rw [Prog.alone_throw]
      refine ⟨⟨call, .throw e, tx⟩, ?_, rfl, rfl⟩
      rw [set_self ht]
  | stmt q k ih =>
      cases view with
      | none =>
          obtain rfl : tx = none := hat
          obtain ⟨hcommits, hrest⟩ := hsafe (supply 0) w.committed hs
          have hat' : Thread.At (⟨call, k (S.engine.exec q (supply 0) w.committed).1, none⟩ :
              Thread σ Q R Env ε α C) S.engine (S.engine.exec q (supply 0) w.committed).2 none := rfl
          exact .cons ht hmay (hsupply 0) rfl fun hmay' => ih _ (w := ⟨_, w.threads.set t _⟩)
            (getElem?_set_of_some ht) hat' hrest hcommits.inv hmay' fun n => hsupply (n + 1)
      | some v =>
          obtain ⟨tx, rfl, -⟩ := id hat
          obtain ⟨tx', hrun, hat'⟩ := hat.stmt (supply 0)
          exact .cons ht hmay (hsupply 0) hrun fun hmay' => ih _ (w := ⟨_, w.threads.set t _⟩)
            (getElem?_set_of_some ht) hat' (hsafe (supply 0)) hs hmay' fun n => hsupply (n + 1)
  | start isolation p ih =>
      cases view with
      | some v => exact hsafe.elim
      | none =>
          obtain rfl : tx = none := hat
          have hat' : Thread.At (⟨call, p, some { isolation, body := p }⟩ : Thread σ Q R Env ε α C)
              S.engine w.committed (some (View.initial isolation w.committed w.committed)) :=
            ⟨_, rfl, by simp, rfl, rfl⟩
          exact .cons ht hmay (hsupply 0) rfl fun hmay' => ih (w := ⟨_, w.threads.set t _⟩)
            (getElem?_set_of_some ht) hat' (hsafe w.committed w.committed hs (K.refl _) hs) hs hmay' hsupply
  | commit p ih =>
      cases view with
      | none => exact hsafe.elim
      | some v =>
          obtain ⟨tx, rfl, -, hreplay, -⟩ := hat
          have hrun : (⟨call, .commit p, some tx⟩ : Thread σ Q R Env ε α C).run S.engine w.committed
              (supply 0) = some (⟨call, p, none⟩, v.work) := by
            simp only [Thread.run, hreplay, Option.map_some]
          have hat' : Thread.At (⟨call, p, none⟩ : Thread σ Q R Env ε α C) S.engine v.work none := rfl
          exact .cons ht hmay (hsupply 0) hrun fun hmay' => ih (w := ⟨_, w.threads.set t _⟩)
            (getElem?_set_of_some ht) hat' hsafe.2 hsafe.1.inv hmay' hsupply

/-- A call that arrives and takes all of its steps leaves what its program leaves alone. -/
theorem World.call_alone {w : World σ Q R Env ε α C} {c : C}
    (hsafe : (S.program c).Safe S.engine K c none) (hs : K.inv w.committed) (supply : Nat → Env) :
    ∃ as w', (S.machine init).exec w as = some w' ∧
      w'.committed = ((S.program c).alone S.engine none supply w.committed).2 := by
  have hfound : (w.threads ++ [{ call := c, prog := S.program c }])[w.threads.length]? =
      some ⟨c, S.program c, none⟩ := by simp
  have hat : Thread.At (⟨c, S.program c, none⟩ : Thread σ Q R Env ε α C) S.engine w.committed none := rfl
  have hmay : World.MayRun S init (fun _ _ => True) (· ∈ Set.range supply)
      ⟨w.committed, w.threads ++ [{ call := c, prog := S.program c }]⟩ w.threads.length :=
    fun _ _ _ _ _ => trivial
  obtain ⟨th', hrun, -⟩ := World.runs_alone (w := ⟨w.committed, _⟩) (S.program c) hfound hat hsafe hs
    hmay (Set.mem_range_self (f := supply))
  obtain ⟨as, hexec⟩ := Machine.exec_of_run (hrun.head ⟨.spawn c, trivial, rfl⟩)
  exact ⟨as, _, hexec, rfl⟩

end Runs

end MibServer.Lib
