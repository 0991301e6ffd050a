import MibServer.Lib.Machine
import MibServer.Lib.Program

/-!
Any number of programs on one transactional store, their statements interleaved.

A statement of its own takes effect at once. A transaction works on the committed
state as it finds it and keeps a log of its statements with the replies they gave.
It commits only if the log, replayed on the state it commits into, still gives
these replies: that is what the locks held by its locking statements guarantee.
A plain read under `repeatableRead` is replayed on the transaction's snapshot,
which its first such read fixes.

`step_contract` is the rule of the library: when every program is safe under a
contract, every step of every interleaving that changes the committed state is a
commit under that contract.
-/

namespace MibServer.Lib

variable {σ Q : Type} {R : Q → Type} {Env ε α C : Type}

/-- A statement a transaction has issued, with its reply. -/
structure Entry (Q : Type) (R : Q → Type) (Env : Type) where
  q : Q
  env : Env
  reply : R q

/-- An open transaction; `body` is the program it was started with. -/
structure Tx (σ Q : Type) (R : Q → Type) (Env ε α : Type) where
  isolation : Isolation
  body : Prog Q R ε α
  snapshot : Option σ := none
  log : List (Entry Q R Env) := []

/-- A call and what is left of its program. -/
structure Thread (σ Q : Type) (R : Q → Type) (Env ε α C : Type) where
  call : C
  prog : Prog Q R ε α
  tx : Option (Tx σ Q R Env ε α) := none

/-- What a finished call has returned. -/
def Thread.result? (th : Thread σ Q R Env ε α C) : Option α :=
  if th.tx.isNone then th.prog.result? else none

structure World (σ Q : Type) (R : Q → Type) (Env ε α C : Type) where
  committed : σ
  threads : List (Thread σ Q R Env ε α C) := []

inductive Action (C Env : Type) where
  /-- A call arrives. -/
  | spawn (c : C)
  /-- Thread `t` takes its next step. -/
  | run (t : Nat) (env : Env)
  /-- Thread `t` fails: its transaction, if any, is rolled back. -/
  | abort (t : Nat)

/-- The program of each call, and the error a failed one ends with. -/
structure System (σ Q : Type) (R : Q → Type) (Env ε α C : Type) where
  engine : Engine σ Q R Env
  program : C → Prog Q R ε α
  aborted : ε

section Steps

variable [∀ q, DecidableEq (R q)]

/-- The working state the log leads to, if every statement replies as it did. -/
def Engine.replay (E : Engine σ Q R Env) (v : View σ) : List (Entry Q R Env) → Option σ
  | [] => some v.work
  | ⟨q, env, reply⟩ :: log =>
      if (E.answer v q env).1 = reply then E.replay (v.at (E.answer v q env).2) log else none

/-- The view of a transaction that would commit into `base`. -/
def Tx.view (tx : Tx σ Q R Env ε α) (base : σ) : View σ :=
  View.initial tx.isolation (tx.snapshot.getD base) base

/-- The first plain read under `repeatableRead` fixes the snapshot. -/
def Tx.pin (tx : Tx σ Q R Env ε α) (E : Engine σ Q R Env) (q : Q) (committed : σ) :
    Tx σ Q R Env ε α :=
  if E.plainRead q && tx.isolation == .repeatableRead then
    { tx with snapshot := some (tx.snapshot.getD committed) }
  else tx

/-- The next step of a thread: the thread after it and the committed state. -/
def Thread.run (th : Thread σ Q R Env ε α C) (E : Engine σ Q R Env) (committed : σ) (env : Env) :
    Option (Thread σ Q R Env ε α C × σ) :=
  match th.tx, th.prog with
  | none, .stmt q k =>
      some ({ th with prog := k (E.exec q env committed).1 }, (E.exec q env committed).2)
  | none, .start isolation p => some ({ th with prog := p, tx := some { isolation, body := p } }, committed)
  | some tx, .stmt q k =>
      let tx := tx.pin E q committed
      (E.replay (tx.view committed) tx.log).map fun work =>
        let reply := (E.answer ((tx.view committed).at work) q env).1
        ({ th with prog := k reply, tx := some { tx with log := tx.log ++ [⟨q, env, reply⟩] } },
          committed)
  | some tx, .commit p =>
      (E.replay (tx.view committed) tx.log).map fun work => ({ th with prog := p, tx := none }, work)
  | _, _ => none

variable (S : System σ Q R Env ε α C)

def World.step (w : World σ Q R Env ε α C) : Action C Env → Option (World σ Q R Env ε α C)
  | .spawn c => some { w with threads := w.threads ++ [{ call := c, prog := S.program c }] }
  | .run t env =>
      match w.threads[t]? with
      | some th => (th.run S.engine w.committed env).map fun next =>
          { committed := next.2, threads := w.threads.set t next.1 }
      | none => none
  | .abort t =>
      match w.threads[t]? with
      | some th =>
          if th.result?.isSome then none
          else some { w with
            threads := w.threads.set t { th with prog := .throw S.aborted, tx := none } }
      | none => none

/-- Any number of calls from an initial state. -/
def System.machine (init : σ → Prop) : Machine (World σ Q R Env ε α C) (Action C Env) where
  init w := init w.committed ∧ w.threads = []
  step := World.step S

/-! ### Threads -/

variable {S}

theorem Thread.run_call {th th' : Thread σ Q R Env ε α C} {E : Engine σ Q R Env} {s s' : σ} {env : Env}
    (h : th.run E s env = some (th', s')) : th'.call = th.call := by
  unfold Thread.run at h
  split at h
  · cases h; rfl
  · cases h; rfl
  · obtain ⟨_, _, heq⟩ := Option.map_eq_some_iff.mp h
    cases heq; rfl
  · obtain ⟨_, _, heq⟩ := Option.map_eq_some_iff.mp h
    cases heq; rfl
  · cases h

theorem Thread.run_finished {th : Thread σ Q R Env ε α C} {E : Engine σ Q R Env} {s : σ} {env : Env}
    (h : th.result?.isSome) : th.run E s env = none := by
  obtain ⟨call, prog, tx⟩ := th
  cases tx with
  | some tx => cases h
  | none => cases prog <;> first | rfl | cases h

/-- A thread stays the thread of its call, and a finished one stays as it is. -/
theorem World.step_thread {w w' : World σ Q R Env ε α C} {a : Action C Env}
    (h : w.step S a = some w') {t : Nat} {th : Thread σ Q R Env ε α C} (ht : w.threads[t]? = some th) :
    ∃ th', w'.threads[t]? = some th' ∧ th'.call = th.call ∧ (th.result?.isSome → th' = th) := by
  have hlt := (List.getElem?_eq_some_iff.mp ht).1
  -- A step that replaces thread `u` by `th'`.
  have hset : ∀ (u : Nat) (tu th' : Thread σ Q R Env ε α C), w.threads[u]? = some tu →
      th'.call = tu.call → tu.result?.isSome = false →
      ∃ th'', (w.threads.set u th')[t]? = some th'' ∧ th''.call = th.call ∧
        (th.result?.isSome → th'' = th) := by
    intro u tu th' hu hcall hrunning
    by_cases htu : u = t
    · subst htu
      cases ht.symm.trans hu
      exact ⟨th', List.getElem?_set_self hlt, hcall, fun hdone => by simp [hrunning] at hdone⟩
    · exact ⟨th, by rw [List.getElem?_set_ne htu]; exact ht, rfl, fun _ => rfl⟩
  cases a with
  | spawn c =>
      cases h
      exact ⟨th, getElem?_concat_of_some ht, rfl, fun _ => rfl⟩
  | run u env =>
      simp only [World.step] at h
      split at h
      · rename_i tu hu
        obtain ⟨⟨th', s'⟩, hrun, heq⟩ := Option.map_eq_some_iff.mp h
        cases heq
        refine hset u tu th' hu (Thread.run_call hrun) (Bool.eq_false_iff.mpr fun hdone => ?_)
        rw [Thread.run_finished hdone] at hrun
        cases hrun
      · cases h
  | abort u =>
      simp only [World.step] at h
      split at h
      · rename_i tu hu
        split at h
        · cases h
        · rename_i hrunning
          cases h
          exact hset u tu _ hu rfl (Bool.eq_false_iff.mpr hrunning)
      · cases h

theorem Thread.run_thrown {th : Thread σ Q R Env ε α C} {E : Engine σ Q R Env} {s : σ} {env : Env}
    {e : ε} (h : th.prog = .throw e) : th.run E s env = none := by
  obtain ⟨call, prog, tx⟩ := th
  subst h
  cases tx <;> rfl

/-- A call that has failed has failed for good. -/
theorem World.step_thrown {w w' : World σ Q R Env ε α C} {a : Action C Env}
    (h : w.step S a = some w') {t : Nat} {th : Thread σ Q R Env ε α C} {e : ε}
    (ht : w.threads[t]? = some th) (hprog : th.prog = .throw e) :
    ∃ th' e', w'.threads[t]? = some th' ∧ th'.prog = .throw e' := by
  have hlt := (List.getElem?_eq_some_iff.mp ht).1
  cases a with
  | spawn c =>
      cases h
      exact ⟨th, e, getElem?_concat_of_some ht, hprog⟩
  | run u env =>
      simp only [World.step] at h
      split at h
      · rename_i tu hu
        obtain ⟨⟨th', s'⟩, hrun, heq⟩ := Option.map_eq_some_iff.mp h
        cases heq
        have hne : u ≠ t := by
          rintro rfl
          cases ht.symm.trans hu
          simp [Thread.run_thrown hprog] at hrun
        exact ⟨th, e, by rw [List.getElem?_set_ne hne]; exact ht, hprog⟩
      · cases h
  | abort u =>
      simp only [World.step] at h
      split at h
      · split at h
        · cases h
        · cases h
          by_cases htu : u = t
          · subst htu
            exact ⟨_, S.aborted, List.getElem?_set_self hlt, rfl⟩
          · exact ⟨th, e, by rw [List.getElem?_set_ne htu]; exact ht, hprog⟩
      · cases h

/-- The call of a thread has arrived before the step, or arrives in it. -/
theorem World.call_of_step {w w' : World σ Q R Env ε α C} {a : Action C Env}
    (h : w.step S a = some w') {th' : Thread σ Q R Env ε α C} (hth' : th' ∈ w'.threads) :
    (∃ th ∈ w.threads, th.call = th'.call) ∨ a = .spawn th'.call := by
  cases a with
  | spawn c =>
      cases h
      rcases List.mem_append.mp hth' with hold | hnew
      · exact Or.inl ⟨th', hold, rfl⟩
      · obtain rfl := List.mem_singleton.mp hnew
        exact Or.inr rfl
  | run t env =>
      simp only [World.step] at h
      split at h
      · rename_i th hth
        obtain ⟨⟨next, s'⟩, hrun, heq⟩ := Option.map_eq_some_iff.mp h
        cases heq
        rcases List.mem_or_eq_of_mem_set hth' with hold | rfl
        · exact Or.inl ⟨th', hold, rfl⟩
        · exact Or.inl ⟨th, List.mem_of_getElem? hth, (Thread.run_call hrun).symm⟩
      · cases h
  | abort t =>
      simp only [World.step] at h
      split at h
      · rename_i th hth
        split at h
        · cases h
        · cases h
          rcases List.mem_or_eq_of_mem_set hth' with hold | rfl
          · exact Or.inl ⟨th', hold, rfl⟩
          · exact Or.inl ⟨th, List.mem_of_getElem? hth, rfl⟩
      · cases h

/-- Only the next step of a call changes the committed state. -/
theorem World.step_committed {w w' : World σ Q R Env ε α C} {a : Action C Env}
    (h : w.step S a = some w') : w'.committed = w.committed ∨ ∃ t env, a = .run t env := by
  cases a with
  | spawn c =>
      cases h
      exact Or.inl rfl
  | run t env => exact Or.inr ⟨t, env, rfl⟩
  | abort t =>
      simp only [World.step] at h
      split at h
      · split at h <;> cases h
        exact Or.inl rfl
      · cases h

/-- What no statement changes, no log changes. -/
theorem Engine.replay_keeps {E : Engine σ Q R Env} {β : Type} {f : σ → β}
    (hexec : ∀ q env s, f (E.exec q env s).2 = f s) {v : View σ} {log : List (Entry Q R Env)} {work : σ}
    (h : E.replay v log = some work) : f work = f v.work := by
  have hanswer : ∀ (v : View σ) q env, f (E.answer v q env).2 = f v.work := by
    intro v q env
    unfold Engine.answer
    split
    · rfl
    · exact hexec q env v.work
  induction log generalizing v with
  | nil =>
      cases h
      rfl
  | cons entry log ih =>
      obtain ⟨q, env, reply⟩ := entry
      simp only [Engine.replay] at h
      split at h
      · exact (ih h).trans (hanswer v q env)
      · cases h

theorem Thread.run_keeps {E : Engine σ Q R Env} {β : Type} {f : σ → β}
    (hexec : ∀ q env s, f (E.exec q env s).2 = f s) {th th' : Thread σ Q R Env ε α C} {s s' : σ}
    {env : Env} (h : th.run E s env = some (th', s')) : f s' = f s := by
  unfold Thread.run at h
  split at h
  · cases h
    exact hexec _ _ _
  · cases h
    rfl
  · obtain ⟨_, -, heq⟩ := Option.map_eq_some_iff.mp h
    cases heq
    rfl
  · obtain ⟨work, hreplay, heq⟩ := Option.map_eq_some_iff.mp h
    cases heq
    exact Engine.replay_keeps hexec hreplay
  · cases h

/-- What no statement changes, no step changes. -/
theorem World.step_keeps {β : Type} {f : σ → β} (hexec : ∀ q env s, f (S.engine.exec q env s).2 = f s)
    {w w' : World σ Q R Env ε α C} {a : Action C Env} (h : w.step S a = some w') :
    f w'.committed = f w.committed := by
  cases a with
  | spawn c =>
      cases h
      rfl
  | run t env =>
      simp only [World.step] at h
      split at h
      · obtain ⟨⟨th', s'⟩, hrun, heq⟩ := Option.map_eq_some_iff.mp h
        cases heq
        exact Thread.run_keeps hexec hrun
      · cases h
  | abort t =>
      simp only [World.step] at h
      split at h
      · split at h
        · cases h
        · cases h
          rfl
      · cases h

/-- A call that has returned stays as it is along every run. -/
theorem System.finished_stays {init : σ → Prop} {ok : World σ Q R Env ε α C → Action C Env → Prop}
    {w w' : World σ Q R Env ε α C} (hrun : Relation.ReflTransGen ((S.machine init).Next ok) w w')
    {t : Nat} {th : Thread σ Q R Env ε α C} (ht : w.threads[t]? = some th)
    (hdone : th.result?.isSome) : w'.threads[t]? = some th := by
  induction hrun with
  | refl => exact ht
  | tail _ hnext ih =>
      obtain ⟨a, -, hstep⟩ := hnext
      obtain ⟨th', hth', -, hsame⟩ := World.step_thread hstep ih
      rw [hth', hsame hdone]

/-! ### Calls without transactions -/

/-- Outside a transaction, and never to start one. -/
def Thread.Plain (th : Thread σ Q R Env ε α C) : Prop := th.tx = none ∧ th.prog.Plain

/-- Nothing holds up such a call: it has ended or can take its next step. -/
theorem Thread.Plain.progress {th : Thread σ Q R Env ε α C} (h : th.Plain) :
    th.result?.isSome ∨ (∃ e, th.prog = .throw e) ∨
      ∀ (E : Engine σ Q R Env) (s : σ) (env : Env), (th.run E s env).isSome := by
  obtain ⟨call, prog, tx⟩ := th
  obtain ⟨rfl, hplain⟩ := h
  cases prog with
  | ret a => exact Or.inl rfl
  | throw e => exact Or.inr (Or.inl ⟨e, rfl⟩)
  | stmt q k => exact Or.inr (Or.inr fun _ _ _ => rfl)
  | start _ _ => exact hplain.elim
  | commit _ => exact hplain.elim

theorem Thread.Plain.run {th th' : Thread σ Q R Env ε α C} {E : Engine σ Q R Env} {s s' : σ} {env : Env}
    (h : th.Plain) (hrun : th.run E s env = some (th', s')) : th'.Plain := by
  obtain ⟨call, prog, tx⟩ := th
  obtain ⟨rfl, hplain⟩ := h
  cases prog with
  | ret _ | throw _ => cases hrun
  | stmt q k =>
      cases hrun
      exact ⟨rfl, hplain _⟩
  | start _ _ => exact hplain.elim
  | commit _ => exact hplain.elim

/-- When all calls that arrive are plain, all threads are. -/
theorem World.plain_step {w w' : World σ Q R Env ε α C} {a : Action C Env}
    (hw : ∀ th ∈ w.threads, th.Plain) (hspawn : ∀ c, a = .spawn c → (S.program c).Plain)
    (h : w.step S a = some w') : ∀ th ∈ w'.threads, th.Plain := by
  intro th hth
  cases a with
  | spawn c =>
      cases h
      rcases List.mem_append.mp hth with hold | hnew
      · exact hw th hold
      · rw [List.mem_singleton.mp hnew]
        exact ⟨rfl, hspawn c rfl⟩
  | run t env =>
      simp only [World.step] at h
      split at h
      · rename_i tu hu
        obtain ⟨⟨tu', s'⟩, hrun, heq⟩ := Option.map_eq_some_iff.mp h
        cases heq
        rcases List.mem_or_eq_of_mem_set hth with hold | rfl
        · exact hw th hold
        · exact (hw tu (List.mem_of_getElem? hu)).run hrun
      · cases h
  | abort t =>
      simp only [World.step] at h
      split at h
      · split at h
        · cases h
        · cases h
          rcases List.mem_or_eq_of_mem_set hth with hold | rfl
          · exact hw th hold
          · exact ⟨rfl, trivial⟩
      · cases h

/-! ### Snapshots -/

/-- The state that the plain reads of an open transaction see, once one has fixed it. -/
def Thread.pinned (th : Thread σ Q R Env ε α C) : Option σ := th.tx.bind Tx.snapshot

omit [∀ q, DecidableEq (R q)] in
/-- Fixing the snapshot touches nothing else, and fixes it to the committed state. -/
theorem Tx.pin_eq (tx : Tx σ Q R Env ε α) (E : Engine σ Q R Env) (q : Q) (committed : σ) :
    ∃ snapshot, tx.pin E q committed = { tx with snapshot } ∧
      ∀ s ∈ snapshot, s ∈ tx.snapshot ∨ s = committed := by
  unfold Tx.pin
  split
  · refine ⟨_, rfl, fun s hs => ?_⟩
    cases htx : tx.snapshot with
    | none => exact Or.inr (by simpa [htx, eq_comm] using hs)
    | some s₀ => exact Or.inl (by simpa [htx, eq_comm] using hs)
  · exact ⟨tx.snapshot, rfl, fun s hs => Or.inl hs⟩

theorem Thread.run_pinned {th th' : Thread σ Q R Env ε α C} {E : Engine σ Q R Env} {s s' s₀ : σ}
    {env : Env} (h : th.run E s env = some (th', s')) (hpinned : s₀ ∈ th'.pinned) :
    s₀ ∈ th.pinned ∨ s₀ = s := by
  unfold Thread.run at h
  split at h
  · cases h
    exact Or.inl hpinned
  · cases h
    cases hpinned
  · rename_i tx q k htx _
    obtain ⟨work, -, heq⟩ := Option.map_eq_some_iff.mp h
    cases heq
    obtain ⟨snapshot, hpin, hsnapshot⟩ := tx.pin_eq E q s
    simp only [Thread.pinned, hpin, Option.bind_some] at hpinned
    simp only [Thread.pinned, htx, Option.bind_some]
    exact hsnapshot s₀ hpinned
  · obtain ⟨work, -, heq⟩ := Option.map_eq_some_iff.mp h
    cases heq
    cases hpinned
  · cases h

/-- A snapshot is one fixed before, or the committed state. -/
theorem World.step_pinned {w w' : World σ Q R Env ε α C} {a : Action C Env}
    (h : w.step S a = some w') {th' : Thread σ Q R Env ε α C} (hth' : th' ∈ w'.threads) {s : σ}
    (hpinned : s ∈ th'.pinned) : (∃ th ∈ w.threads, s ∈ th.pinned) ∨ s = w.committed := by
  cases a with
  | spawn c =>
      cases h
      rcases List.mem_append.mp hth' with hold | hnew
      · exact Or.inl ⟨th', hold, hpinned⟩
      · rw [List.mem_singleton.mp hnew] at hpinned
        cases hpinned
  | run t env =>
      simp only [World.step] at h
      split at h
      · rename_i th hth
        obtain ⟨⟨next, s'⟩, hrun, heq⟩ := Option.map_eq_some_iff.mp h
        cases heq
        rcases List.mem_or_eq_of_mem_set hth' with hold | rfl
        · exact Or.inl ⟨th', hold, hpinned⟩
        · refine (Thread.run_pinned hrun hpinned).imp_left fun hs => ?_
          exact ⟨th, List.mem_of_getElem? hth, hs⟩
      · cases h
  | abort t =>
      simp only [World.step] at h
      split at h
      · split at h
        · cases h
        · cases h
          rcases List.mem_or_eq_of_mem_set hth' with hold | rfl
          · exact Or.inl ⟨th', hold, hpinned⟩
          · cases hpinned
      · cases h

/-! ### Following a log -/

/-- `p` arrives at `p'` by issuing the statements of the log and getting its
replies. -/
inductive Prog.Follows : Prog Q R ε α → List (Entry Q R Env) → Prog Q R ε α → Prop where
  | nil (p : Prog Q R ε α) : Follows p [] p
  | stmt {q : Q} {k : R q → Prog Q R ε α} {env : Env} {reply : R q} {log : List (Entry Q R Env)}
      {p : Prog Q R ε α} (h : Follows (k reply) log p) : Follows (.stmt q k) (⟨q, env, reply⟩ :: log) p

omit [∀ q, DecidableEq (R q)] in
theorem Prog.Follows.snoc {p : Prog Q R ε α} {log : List (Entry Q R Env)} {q : Q}
    {k : R q → Prog Q R ε α} (h : p.Follows log (.stmt q k)) (env : Env) (reply : R q) :
    p.Follows (log ++ [⟨q, env, reply⟩]) (k reply) := by
  generalize hp' : Prog.stmt q k = p' at h
  induction h with
  | nil p =>
      subst hp'
      exact .stmt (.nil _)
  | stmt _ ih => exact .stmt (ih hp')

omit [∀ q, DecidableEq (R q)] in
/-- What the first piece of a program throws, it throws by itself. -/
theorem Prog.Follows.of_bind {β : Type} {p : Prog Q R ε β} {f : β → Prog Q R ε α}
    {log : List (Entry Q R Env)} {e : ε} (h : (p.bind f).Follows log (.throw e))
    (hf : ∀ (b : β) (log : List (Entry Q R Env)), ¬ (f b).Follows log (.throw e)) :
    p.Follows log (.throw e) := by
  induction p generalizing log with
  | ret b => exact absurd h (hf b log)
  | throw e' =>
      cases h
      exact .nil _
  | stmt q k ih =>
      cases h with
      | stmt h => exact .stmt (ih _ h)
  | start _ _ _ => cases h
  | commit _ _ => cases h

omit [∀ q, DecidableEq (R q)] in
theorem Prog.Follows.closes {p p' : Prog Q R ε α} {log : List (Entry Q R Env)}
    (hfollows : p.Follows log p') (h : p.Closes) : p'.Closes := by
  induction hfollows with
  | nil p => exact h
  | stmt _ ih => exact ih (h _)

/-- A safe body is safe wherever a replayed log has taken it. -/
theorem Prog.Safe.replay {E : Engine σ Q R Env} {K : Contract σ C (Prog Q R ε α)} {c : C}
    {p p' : Prog Q R ε α} {log : List (Entry Q R Env)} {v : View σ} {work : σ}
    (hsafe : p.Safe E K c (some v)) (hfollows : p.Follows log p')
    (hreplay : E.replay v log = some work) : p'.Safe E K c (some (v.at work)) := by
  induction hfollows generalizing v with
  | nil p =>
      cases hreplay
      exact hsafe
  | @stmt q k env reply log p' _ ih =>
      simp only [Engine.replay] at hreplay
      split at hreplay
      · rename_i hreply
        subst hreply
        have hrest := ih (hsafe env) hreplay
        exact hrest
      · cases hreplay

/-! ### Calls that are one transaction -/

/-- The thread has not started its transaction yet, is inside it, or has ended. -/
def Thread.InTransaction (th : Thread σ Q R Env ε α C) (isolation : Isolation) (body : Prog Q R ε α)
    (aborted : ε) : Prop :=
  match th.tx with
  | none => th.prog = .start isolation body ∨ (∃ a, th.prog = .ret a) ∨ th.prog = .throw aborted
  | some tx => tx.body = body ∧ body.Follows tx.log th.prog

theorem Thread.InTransaction.run {th th' : Thread σ Q R Env ε α C} {E : Engine σ Q R Env} {s s' : σ}
    {env : Env} {isolation : Isolation} {body : Prog Q R ε α} {aborted : ε} (hcloses : body.Closes)
    (h : th.InTransaction isolation body aborted) (hrun : th.run E s env = some (th', s')) :
    th'.InTransaction isolation body aborted := by
  obtain ⟨call, prog, tx⟩ := th
  cases tx with
  | none =>
      rcases h with hstart | ⟨a, hret⟩ | hthrow
      · dsimp only at hstart
        subst hstart
        cases hrun
        exact ⟨rfl, .nil _⟩
      · dsimp only at hret
        subst hret
        cases hrun
      · dsimp only at hthrow
        subst hthrow
        cases hrun
  | some tx =>
      obtain ⟨hbody, hfollows⟩ := h
      cases prog with
      | ret _ | throw _ | start _ _ => cases hrun
      | stmt q k =>
          obtain ⟨work, -, heq⟩ := Option.map_eq_some_iff.mp hrun
          cases heq
          obtain ⟨snapshot, hpin, -⟩ := tx.pin_eq E q s
          rw [hpin]
          exact ⟨hbody, hfollows.snoc _ _⟩
      | commit p =>
          obtain ⟨work, -, heq⟩ := Option.map_eq_some_iff.mp hrun
          cases heq
          obtain ⟨a, rfl⟩ : ∃ a, p = .ret a := hfollows.closes hcloses
          exact Or.inr (Or.inl ⟨a, rfl⟩)

/-- The calls that are one transaction are at their place in it, in every world reached. -/
theorem World.inTransaction_step {w w' : World σ Q R Env ε α C} {a : Action C Env}
    {isolation : C → Isolation} {body : C → Prog Q R ε α} {P : C → Prop}
    (hcloses : ∀ c, P c → (body c).Closes)
    (hprogram : ∀ c, P c → S.program c = .start (isolation c) (body c))
    (hw : ∀ th ∈ w.threads, P th.call →
      th.InTransaction (isolation th.call) (body th.call) S.aborted)
    (h : w.step S a = some w') : ∀ th ∈ w'.threads, P th.call →
      th.InTransaction (isolation th.call) (body th.call) S.aborted := by
  intro th hth hP
  cases a with
  | spawn c =>
      cases h
      rcases List.mem_append.mp hth with hold | hnew
      · exact hw th hold hP
      · obtain rfl := List.mem_singleton.mp hnew
        exact Or.inl (hprogram c hP)
  | run t env =>
      simp only [World.step] at h
      split at h
      · rename_i tu hu
        obtain ⟨⟨tu', s'⟩, hrun, heq⟩ := Option.map_eq_some_iff.mp h
        cases heq
        rcases List.mem_or_eq_of_mem_set hth with hold | rfl
        · exact hw th hold hP
        · have hcall := Thread.run_call hrun
          rw [hcall] at hP ⊢
          exact (hw tu (List.mem_of_getElem? hu) hP).run (hcloses _ hP) hrun
      · cases h
  | abort t =>
      simp only [World.step] at h
      split at h
      · split at h
        · cases h
        · cases h
          rcases List.mem_or_eq_of_mem_set hth with hold | rfl
          · exact hw th hold hP
          · exact Or.inr (Or.inr rfl)
      · cases h

/-! ### The rule -/

variable {K : Contract σ C (Prog Q R ε α)}

/-- What holds of a thread while the system is in `committed`. -/
def Thread.Inv (th : Thread σ Q R Env ε α C) (E : Engine σ Q R Env)
    (K : Contract σ C (Prog Q R ε α)) (committed : σ) : Prop :=
  match th.tx with
  | none => th.prog.Safe E K th.call none
  | some tx =>
      (Prog.start tx.isolation tx.body).Safe E K th.call none ∧ tx.body.Follows tx.log th.prog ∧
        ∀ s ∈ tx.snapshot, K.inv s ∧ K.evolves s committed

/-- What holds of every reachable world: the invariant of the contract, and every
thread is a call of the contract on its way through a safe program. -/
structure World.Inv (w : World σ Q R Env ε α C) (E : Engine σ Q R Env)
    (K : Contract σ C (Prog Q R ε α)) : Prop where
  committed : K.inv w.committed
  threads : ∀ th ∈ w.threads, K.calls th.call ∧ th.Inv E K w.committed

/-- The state a thread's plain reads see. -/
def Thread.snapshot (th : Thread σ Q R Env ε α C) (committed : σ) : σ :=
  (th.tx.bind Tx.snapshot).getD committed

/-- The commit a thread makes by going on to `rest`. -/
def Thread.commit (th : Thread σ Q R Env ε α C) (base work : σ) (rest : Prog Q R ε α) :
    Commit σ C (Prog Q R ε α) :=
  ⟨th.call, th.prog, th.snapshot base, base, work, rest⟩

/-- Only calls the contract is about arrive. -/
def Contract.Admits (K : Contract σ C (Prog Q R ε α)) : Action C Env → Prop
  | .spawn c => K.calls c
  | _ => True

/-- What a step does: it leaves the committed state and every result alone, or it
is a commit of the thread that moves, under the contract. -/
inductive World.Effect (S : System σ Q R Env ε α C) (K : Contract σ C (Prog Q R ε α))
    (w : World σ Q R Env ε α C) (a : Action C Env) (w' : World σ Q R Env ε α C) : Prop where
  | quiet (committed : w'.committed = w.committed)
      (results : ∀ (t : Nat) (th : Thread σ Q R Env ε α C), w'.threads[t]? = some th →
        th.result?.isSome → w.threads[t]? = some th ∨ th.prog = S.program th.call)
  | commit (t : Nat) (env : Env) (th : Thread σ Q R Env ε α C) (rest : Prog Q R ε α)
      (action : a = .run t env) (found : w.threads[t]? = some th) (call : K.calls th.call)
      (threads : w'.threads = w.threads.set t { th with prog := rest, tx := none })
      (commits : K.Commits (th.commit w.committed w'.committed rest))

omit [∀ q, DecidableEq (R q)] in
theorem Thread.Inv.evolve {th : Thread σ Q R Env ε α C} {E : Engine σ Q R Env} {s s' : σ}
    (h : th.Inv E K s) (hevolves : K.evolves s s') : th.Inv E K s' := by
  unfold Thread.Inv at *
  split at h
  · exact h
  · obtain ⟨hsafe, hfollows, hsnapshot⟩ := h
    exact ⟨hsafe, hfollows, fun s₀ hs₀ => ⟨(hsnapshot s₀ hs₀).1, K.trans (hsnapshot s₀ hs₀).2 hevolves⟩⟩

omit [∀ q, DecidableEq (R q)] in
/-- The threads after thread `t` has moved and the state has evolved. -/
theorem World.Inv.set {w : World σ Q R Env ε α C} {E : Engine σ Q R Env} (h : w.Inv E K) {s' : σ}
    (hinv : K.inv s') (hevolves : K.evolves w.committed s') (t : Nat)
    {th : Thread σ Q R Env ε α C} (hth : K.calls th.call ∧ th.Inv E K s') :
    World.Inv { committed := s', threads := w.threads.set t th } E K := by
  refine ⟨hinv, fun u hu => ?_⟩
  rcases List.mem_or_eq_of_mem_set hu with hold | rfl
  · exact ⟨(h.threads u hold).1, (h.threads u hold).2.evolve hevolves⟩
  · exact hth

/-- A transaction at its commit has run its body on the state it commits into. -/
theorem Thread.Inv.commit {th : Thread σ Q R Env ε α C} {E : Engine σ Q R Env} {s work : σ}
    {tx : Tx σ Q R Env ε α} {p : Prog Q R ε α} (h : th.Inv E K s) (hs : K.inv s)
    (htx : th.tx = some tx) (hprog : th.prog = .commit p)
    (hreplay : E.replay (tx.view s) tx.log = some work) :
    K.Commits (th.commit s work p) ∧ p.Safe E K th.call none := by
  simp only [Thread.Inv, htx] at h
  obtain ⟨hsafe, hfollows, hsnapshot⟩ := h
  rw [hprog] at hfollows
  have hpast : K.inv (tx.snapshot.getD s) ∧ K.evolves (tx.snapshot.getD s) s := by
    cases hsnap : tx.snapshot with
    | none => exact ⟨hs, K.refl s⟩
    | some s₀ => exact hsnapshot s₀ hsnap
  have hcommit := (hsafe _ s hpast.1 hpast.2 hs).replay hfollows hreplay
  rw [Thread.commit, Thread.snapshot, htx, hprog]
  exact hcommit

/-- One step of a thread: it goes on inside its transaction, or it commits. -/
theorem Thread.run_contract {th th' : Thread σ Q R Env ε α C} {E : Engine σ Q R Env} {s s' : σ}
    {env : Env} (h : th.Inv E K s) (hs : K.inv s)
    (hrun : th.run E s env = some (th', s')) :
    th'.Inv E K s' ∧ th'.call = th.call ∧ (s' = s ∧ th'.result? = none ∨
      ∃ rest, th' = { th with prog := rest, tx := none } ∧ K.Commits (th.commit s s' rest)) := by
  obtain ⟨call, prog, tx⟩ := th
  cases tx with
  | none =>
      cases prog with
      | ret _ | throw _ | commit _ => cases hrun
      | stmt q k =>
          cases hrun
          obtain ⟨hcommits, hsafe⟩ := h env s hs
          exact ⟨hsafe, rfl, Or.inr ⟨_, rfl, hcommits⟩⟩
      | start isolation p =>
          cases hrun
          exact ⟨⟨h, .nil p, fun _ h => by cases h⟩, rfl, Or.inl ⟨rfl, rfl⟩⟩
  | some tx =>
      cases prog with
      | ret _ | throw _ | start _ _ => cases hrun
      | stmt q k =>
          obtain ⟨work, -, heq⟩ := Option.map_eq_some_iff.mp hrun
          cases heq
          obtain ⟨hsafe, hfollows, hsnapshot⟩ := h
          obtain ⟨snapshot, hpin, hpinned⟩ := tx.pin_eq E q s
          refine ⟨?_, rfl, Or.inl ⟨rfl, rfl⟩⟩
          rw [hpin]
          refine ⟨hsafe, hfollows.snoc _ _, fun s₀ hs₀ => ?_⟩
          rcases hpinned s₀ hs₀ with hold | rfl
          · exact hsnapshot s₀ hold
          · exact ⟨hs, K.refl s₀⟩
      | commit p =>
          obtain ⟨work, hreplay, heq⟩ := Option.map_eq_some_iff.mp hrun
          cases heq
          obtain ⟨hcommits, hsafe⟩ := Thread.Inv.commit h hs rfl rfl hreplay
          exact ⟨hsafe, rfl, Or.inr ⟨p, rfl, hcommits⟩⟩

theorem spawn_contract (hprogram : ∀ c, K.calls c → (S.program c).Safe S.engine K c none)
    {w : World σ Q R Env ε α C} (hw : w.Inv S.engine K) {c : C} (hc : K.calls c) :
    ∃ w', w.step S (.spawn c) = some w' ∧ w'.Inv S.engine K ∧
      World.Effect S K w (Action.spawn c) w' := by
  refine ⟨_, rfl, ⟨hw.committed, fun u hu => ?_⟩, .quiet rfl fun u th hu _ => ?_⟩
  · rcases List.mem_append.mp hu with hold | hnew
    · exact hw.threads u hold
    · rw [List.mem_singleton.mp hnew]
      exact ⟨hc, hprogram c hc⟩
  · rcases getElem?_concat_cases hu with hold | ⟨-, rfl⟩
    · exact Or.inl hold
    · exact Or.inr rfl

omit [∀ q, DecidableEq (R q)] in
/-- A thread without a result takes no result away from, and gives none to, the
others. -/
theorem results_set {threads : List (Thread σ Q R Env ε α C)} {t : Nat}
    {th : Thread σ Q R Env ε α C} (hth : th.result? = none) (u : Nat)
    (th' : Thread σ Q R Env ε α C) (h : (threads.set t th)[u]? = some th')
    (hresult : th'.result?.isSome) : threads[u]? = some th' ∨ th'.prog = S.program th'.call := by
  rcases getElem?_set_cases h with ⟨-, rfl⟩ | ⟨-, hold⟩
  · simp [hth] at hresult
  · exact Or.inl hold

/-- **The contract rule**: when every call's program is safe, each admitted step
keeps the invariant, and changes the committed state only by a commit under the
contract. -/
theorem step_contract (hprogram : ∀ c, K.calls c → (S.program c).Safe S.engine K c none)
    {w w' : World σ Q R Env ε α C} {a : Action C Env} (hw : w.Inv S.engine K)
    (hok : K.Admits a) (hstep : w.step S a = some w') :
    w'.Inv S.engine K ∧ World.Effect S K w a w' := by
  cases a with
  | spawn c =>
      obtain ⟨w'', hspawn, hinv, heffect⟩ := spawn_contract hprogram hw hok
      rw [hspawn] at hstep
      cases hstep
      exact ⟨hinv, heffect⟩
  | abort t =>
      simp only [World.step] at hstep
      split at hstep
      · rename_i th hth
        split at hstep
        · cases hstep
        · cases hstep
          have hcall := (hw.threads th (List.mem_of_getElem? hth)).1
          exact ⟨hw.set hw.committed (K.refl _) t ⟨hcall, trivial⟩, .quiet rfl (results_set rfl)⟩
      · cases hstep
  | run t env =>
      simp only [World.step] at hstep
      split at hstep
      · rename_i th hth
        obtain ⟨⟨th', s'⟩, hrun, heq⟩ := Option.map_eq_some_iff.mp hstep
        cases heq
        obtain ⟨hcall, hinv⟩ := hw.threads th (List.mem_of_getElem? hth)
        obtain ⟨hinv', hcall', hstay | ⟨rest, hrest, hcommits⟩⟩ :=
          Thread.run_contract hinv hw.committed hrun
        · obtain ⟨rfl, hresult⟩ := hstay
          exact ⟨hw.set hw.committed (K.refl _) t ⟨hcall' ▸ hcall, hinv'⟩,
            .quiet rfl (results_set hresult)⟩
        · refine ⟨hw.set hcommits.inv hcommits.evolves t ⟨hcall' ▸ hcall, hinv'⟩, ?_⟩
          subst hrest
          exact .commit t env th rest rfl hth hcall rfl hcommits
      · cases hstep

/-- A property of worlds that quiet steps and commits under the contract keep holds
in every world reached. -/
theorem System.reachable_contract {init : σ → Prop}
    (hprogram : ∀ c, K.calls c → (S.program c).Safe S.engine K c none) (hinit : ∀ s, init s → K.inv s)
    {ok : World σ Q R Env ε α C → Action C Env → Prop} (hok : ∀ w a, ok w a → K.Admits a)
    {J : World σ Q R Env ε α C → Prop} {w : World σ Q R Env ε α C}
    (h : (S.machine init).ReachableBy ok w) (base : ∀ s, init s → J { committed := s })
    (keep : ∀ w w' a, w.Inv S.engine K → J w → ok w a → World.Effect S K w a w' → J w') :
    w.Inv S.engine K ∧ J w := by
  refine h.invariant (I := fun w => w.Inv S.engine K ∧ J w) ?_ ?_
  · rintro ⟨s, threads⟩ ⟨hs, rfl⟩
    exact ⟨⟨hinit s hs, fun _ h => by cases h⟩, base s hs⟩
  · rintro w a w' ⟨hw, hJ⟩ haok hstep
    obtain ⟨hw', heffect⟩ := step_contract hprogram hw (hok w a haok) hstep
    exact ⟨hw', keep w w' a hw hJ haok heffect⟩

theorem System.machine_init {init : σ → Prop} {s : σ} (h : init s) :
    (S.machine init).init { committed := s } :=
  ⟨h, rfl⟩

end Steps

end MibServer.Lib
