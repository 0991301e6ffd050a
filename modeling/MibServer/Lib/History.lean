import MibServer.Lib.Transaction

/-!
Histories of calls without transactions.

Such a call acts on the committed state one statement at a time, so a run is known by the
statements its calls have issued, each with the state it was issued in: `System.recorded`
keeps that list. In it each statement leaves the state the next one is issued in
(`Linked`), and the statements of one call are its program, followed with the replies they
got (`Traced`).

`Prog.Only` says which statements a program issues. `TraceSpec` is what may be said of the
log it leaves, and `Prog.Obeys` its weakest precondition; `Traced.issued` and
`Traced.finished` carry it over to every history.
-/

namespace MibServer.Lib

variable {σ Q : Type} {R : Q → Type} {Env ε α β C : Type}

/-- A statement as a thread has issued it, with the state it was issued in. -/
structure Issued (σ Q Env : Type) where
  thread : Nat
  q : Q
  env : Env
  before : σ

namespace Issued

variable (E : Engine σ Q R Env) (i : Issued σ Q Env)

def reply : R i.q := (E.exec i.q i.env i.before).1

def after : σ := (E.exec i.q i.env i.before).2

/-- What the thread sees of it. -/
def entry : Entry Q R Env := ⟨i.q, i.env, i.reply E⟩

end Issued

/-- The statements of one thread. -/
def own (t : Nat) (history : List (Issued σ Q Env)) : List (Issued σ Q Env) :=
  history.filter fun i => i.thread = t

theorem own_append (t : Nat) (h h' : List (Issued σ Q Env)) : own t (h ++ h') = own t h ++ own t h' :=
  List.filter_append ..

theorem own_self {t : Nat} {i : Issued σ Q Env} (h : i.thread = t) : own t [i] = [i] := by
  simp [own, h]

theorem own_other {t : Nat} {i : Issued σ Q Env} (h : i.thread ≠ t) : own t [i] = [] := by
  simp [own, h]

theorem mem_own {t : Nat} {h : List (Issued σ Q Env)} {i : Issued σ Q Env} :
    i ∈ own t h ↔ i ∈ h ∧ i.thread = t := by
  simp [own]

/-- A statement in the log of a thread is one of the history. -/
theorem logged {E : Engine σ Q R Env} {t : Nat} {h : List (Issued σ Q Env)} {q : Q} {env : Env}
    {reply : R q} (he : ⟨q, env, reply⟩ ∈ (own t h).map (Issued.entry E)) :
    ∃ s, ⟨t, q, env, s⟩ ∈ h ∧ (E.exec q env s).1 = reply := by
  obtain ⟨⟨t', q', env', s⟩, hi, hentry⟩ := List.mem_map.mp he
  obtain ⟨hmem, rfl⟩ := mem_own.mp hi
  cases hentry
  exact ⟨s, hmem, rfl⟩

/-! ### Histories as chains of states -/

/-- The history leads from `s` to `s'`. -/
def Linked (E : Engine σ Q R Env) : σ → List (Issued σ Q Env) → σ → Prop
  | s, [], s' => s = s'
  | s, i :: history, s' => i.before = s ∧ Linked E (i.after E) history s'

variable {E : Engine σ Q R Env}

theorem linked_append {s s' : σ} {h h' : List (Issued σ Q Env)} :
    Linked E s (h ++ h') s' ↔ ∃ m, Linked E s h m ∧ Linked E m h' s' := by
  induction h generalizing s with
  | nil => exact ⟨fun hl => ⟨s, rfl, hl⟩, fun ⟨m, hs, hl⟩ => hs ▸ hl⟩
  | cons i h ih =>
      constructor
      · rintro ⟨hbefore, hrest⟩
        obtain ⟨m, hm, hl⟩ := ih.mp hrest
        exact ⟨m, ⟨hbefore, hm⟩, hl⟩
      · rintro ⟨m, ⟨hbefore, hm⟩, hl⟩
        exact ⟨hbefore, ih.mpr ⟨m, hm, hl⟩⟩

theorem Linked.snoc {s : σ} {h : List (Issued σ Q Env)} {i : Issued σ Q Env}
    (hl : Linked E s h i.before) : Linked E s (h ++ [i]) (i.after E) :=
  linked_append.mpr ⟨i.before, hl, rfl, rfl⟩

/-- What comes before a statement leads to it, what comes after leads on from it. -/
theorem Linked.around {s s' : σ} {h h' : List (Issued σ Q Env)} {i : Issued σ Q Env}
    (hl : Linked E s (h ++ i :: h') s') : Linked E s h i.before ∧ Linked E (i.after E) h' s' := by
  obtain ⟨m, hm, hbefore, hrest⟩ := linked_append.mp hl
  exact ⟨hbefore ▸ hm, hrest⟩

/-- What every statement of a history keeps, the history keeps. -/
theorem Linked.keeps {I : σ → Prop} {s s' : σ} {h : List (Issued σ Q Env)} (hl : Linked E s h s')
    (hs : I s) (hkeep : ∀ i ∈ h, I i.before → I (i.after E)) : I s' := by
  induction h generalizing s with
  | nil => exact hl ▸ hs
  | cons i h ih =>
      obtain ⟨rfl, hrest⟩ := hl
      exact ih hrest (hkeep i List.mem_cons_self hs) fun j hj => hkeep j (List.mem_cons_of_mem _ hj)

/-! ### What programs leave in their logs -/

/-- What is to hold when a statement is issued, when the program returns and when it
throws, of the log it has left until then. -/
structure TraceSpec (Q : Type) (R : Q → Type) (Env ε α : Type) where
  issue : List (Entry Q R Env) → Q → Prop := fun _ _ => True
  finish : List (Entry Q R Env) → α → Prop := fun _ _ => True
  fail : List (Entry Q R Env) → ε → Prop := fun _ _ => True

namespace Prog

/-- The plain program issues only statements that satisfy `P`. -/
def Only (P : Q → Prop) : Prog Q R ε α → Prop
  | .ret _ | .throw _ => True
  | .stmt q k => P q ∧ ∀ r, (k r).Only P
  | .start _ _ => False
  | .commit _ => False

variable {P : Q → Prop}

theorem Only.bind {p : Prog Q R ε α} {f : α → Prog Q R ε β} (hp : p.Only P)
    (hf : ∀ a, (f a).Only P) : (p.bind f).Only P := by
  induction p with
  | ret a => exact hf a
  | throw e => trivial
  | stmt q k ih => exact ⟨hp.1, fun r => ih r (hp.2 r)⟩
  | start _ _ _ => exact hp.elim
  | commit _ _ => exact hp.elim

theorem Only.mono {P' : Q → Prop} {p : Prog Q R ε α} (hp : p.Only P) (himp : ∀ q, P q → P' q) :
    p.Only P' := by
  induction p with
  | ret a => trivial
  | throw e => trivial
  | stmt q k ih => exact ⟨himp q hp.1, fun r => ih r (hp.2 r)⟩
  | start _ _ _ => exact hp
  | commit _ _ => exact hp

theorem Only.plain {p : Prog Q R ε α} (hp : p.Only P) : p.Plain := by
  induction p with
  | ret a => trivial
  | throw e => trivial
  | stmt q k ih => exact fun r => ih r (hp.2 r)
  | start _ _ _ => exact hp
  | commit _ _ => exact hp

/-- What none of its statements changes, a piece of a transaction body leaves alone. -/
theorem Only.yields {γ : Type} {g : σ → γ} {p : Prog Q R ε α} {v : View σ} (hp : p.Only P)
    (hexec : ∀ q, P q → ∀ env s, g (E.exec q env s).2 = g s) :
    p.Yields E (fun _ work => g work = g v.work) v := by
  have hanswer : ∀ (v : View σ) q env, P q → g (E.answer v q env).2 = g v.work := by
    intro v q env hq
    unfold Engine.answer
    split
    · rfl
    · exact hexec q hq env v.work
  induction p generalizing v with
  | ret a => rfl
  | throw e => trivial
  | stmt q k ih =>
      intro env
      have hrest := ih (E.answer v q env).1 (v := v.at (E.answer v q env).2) (hp.2 _)
      exact hrest.mono fun _ work hwork => hwork.trans (hanswer v q env hp.1)
  | start _ _ _ => exact hp.elim
  | commit _ _ => exact hp.elim

theorem Follows.only {p p' : Prog Q R ε α} {log : List (Entry Q R Env)}
    (hfollows : p.Follows log p') (hp : p.Only P) : ∀ e ∈ log, P e.q := by
  induction hfollows with
  | nil p => exact fun e he => by cases he
  | @stmt q k env reply log p' _ ih =>
      intro e he
      rcases List.mem_cons.mp he with rfl | he
      · exact hp.1
      · exact ih (hp.2 reply) e he

/-- What the program throws satisfies `F`. -/
def Raises (F : ε → Prop) : Prog Q R ε α → Prop
  | .ret _ => True
  | .throw e => F e
  | .stmt _ k => ∀ r, (k r).Raises F
  | .start _ p => p.Raises F
  | .commit p => p.Raises F

theorem Raises.bind {F : ε → Prop} {p : Prog Q R ε α} {f : α → Prog Q R ε β} (hp : p.Raises F)
    (hf : ∀ a, (f a).Raises F) : (p.bind f).Raises F := by
  induction p with
  | ret a => exact hf a
  | throw e => exact hp
  | stmt q k ih => exact fun r => ih r (hp r)
  | start _ _ ih => exact ih hp
  | commit _ ih => exact ih hp

theorem raises_true (p : Prog Q R ε α) : p.Raises fun _ => True := by
  induction p with
  | ret _ | throw _ => trivial
  | stmt q k ih => exact ih
  | start _ _ ih => exact ih
  | commit _ ih => exact ih

/-- The plain program, gone on with after the log `past`, meets the specification
whatever replies it gets. -/
def Obeys (T : TraceSpec Q R Env ε α) : List (Entry Q R Env) → Prog Q R ε α → Prop
  | past, .ret a => T.finish past a
  | past, .throw e => T.fail past e
  | past, .stmt q k => T.issue past q ∧
      ∀ (env : Env) (reply : R q), (k reply).Obeys T (past ++ [⟨q, env, reply⟩])
  | _, .start _ _ => False
  | _, .commit _ => False

variable {T : TraceSpec Q R Env ε β}

/-- Sequencing: the log of the first piece is what the second one goes on from. -/
theorem Obeys.bind {p : Prog Q R ε α} {f : α → Prog Q R ε β} {past : List (Entry Q R Env)}
    (h : p.Obeys ⟨T.issue, fun past a => (f a).Obeys T past, T.fail⟩ past) :
    (p.bind f).Obeys T past := by
  induction p generalizing past with
  | ret a => exact h
  | throw e => exact h
  | stmt q k ih => exact ⟨h.1, fun env reply => ih reply (h.2 env reply)⟩
  | start _ _ _ => exact h.elim
  | commit _ _ => exact h.elim

theorem Obeys.mono {T' : TraceSpec Q R Env ε β} {p : Prog Q R ε β} {past : List (Entry Q R Env)}
    (h : p.Obeys T past) (hissue : ∀ past q, T.issue past q → T'.issue past q)
    (hfinish : ∀ past a, T.finish past a → T'.finish past a)
    (hfail : ∀ past e, T.fail past e → T'.fail past e) : p.Obeys T' past := by
  induction p generalizing past with
  | ret a => exact hfinish _ _ h
  | throw e => exact hfail _ _ h
  | stmt q k ih => exact ⟨hissue _ _ h.1, fun env reply => ih reply (h.2 env reply)⟩
  | start _ _ _ => exact h.elim
  | commit _ _ => exact h.elim

/-- A specification is only met by plain programs. -/
theorem Obeys.plain {p : Prog Q R ε β} {past : List (Entry Q R Env)} (env : Env)
    (h : p.Obeys T past) : p.Plain := by
  induction p generalizing past with
  | ret a => trivial
  | throw e => trivial
  | stmt q k ih => exact fun reply => ih reply (h.2 env reply)
  | start _ _ _ => exact h
  | commit _ _ => exact h

/-- A piece whose statements do not matter: the specification is asked for whatever log of
them it leaves. -/
theorem Only.obeys_raises {F : ε → Prop} {p : Prog Q R ε β} {past : List (Entry Q R Env)}
    (hp : p.Only P) (hraises : p.Raises F) (h : ∀ log : List (Entry Q R Env), (∀ e ∈ log, P e.q) →
      (∀ q, P q → T.issue (past ++ log) q) ∧ (∀ a, T.finish (past ++ log) a) ∧
        ∀ e, F e → T.fail (past ++ log) e) : p.Obeys T past := by
  have hnow := h [] (by simp)
  rw [List.append_nil] at hnow
  induction p generalizing past with
  | ret a => exact hnow.2.1 a
  | throw e => exact hnow.2.2 e hraises
  | stmt q k ih =>
      refine ⟨hnow.1 q hp.1, fun env reply => ?_⟩
      have hrest : ∀ log : List (Entry Q R Env), (∀ e ∈ log, P e.q) →
          (∀ q', P q' → T.issue (past ++ [⟨q, env, reply⟩] ++ log) q') ∧
            (∀ a, T.finish (past ++ [⟨q, env, reply⟩] ++ log) a) ∧
              ∀ e, F e → T.fail (past ++ [⟨q, env, reply⟩] ++ log) e := by
        intro log hlog
        rw [List.append_assoc]
        refine h (⟨q, env, reply⟩ :: log) fun e he => ?_
        rcases List.mem_cons.mp he with rfl | he
        · exact hp.1
        · exact hlog e he
      exact ih reply (hp.2 reply) (hraises reply) hrest (by simpa using hrest [] (by simp))
  | start _ _ _ => exact hp.elim
  | commit _ _ => exact hp.elim

theorem Only.obeys {p : Prog Q R ε β} {past : List (Entry Q R Env)} (hp : p.Only P)
    (h : ∀ log : List (Entry Q R Env), (∀ e ∈ log, P e.q) →
      (∀ q, P q → T.issue (past ++ log) q) ∧ (∀ a, T.finish (past ++ log) a) ∧
        ∀ e, T.fail (past ++ log) e) : p.Obeys T past := by
  refine hp.obeys_raises p.raises_true fun log hlog => ?_
  obtain ⟨hissue, hfinish, hfail⟩ := h log hlog
  exact ⟨hissue, hfinish, fun e _ => hfail e⟩

/-- Wherever a log has taken the program. -/
theorem Follows.obeys {p p' : Prog Q R ε β} {log past : List (Entry Q R Env)}
    (hfollows : p.Follows log p') (h : p.Obeys T past) : p'.Obeys T (past ++ log) := by
  induction hfollows generalizing past with
  | nil p => rwa [List.append_nil]
  | @stmt q k env reply log p' _ ih =>
      have hrest := ih (h.2 env reply)
      rwa [List.append_assoc] at hrest

/-- Each statement of the log was issued as the specification says. -/
theorem Follows.issued {p p' : Prog Q R ε β} {log log' past : List (Entry Q R Env)}
    {e : Entry Q R Env} (hfollows : p.Follows (log ++ e :: log') p') (h : p.Obeys T past) :
    T.issue (past ++ log) e.q := by
  induction log generalizing p past with
  | nil =>
      cases hfollows
      rw [List.append_nil]
      exact h.1
  | cons e' log ih =>
      cases hfollows with
      | @stmt q k env reply _ _ hrest =>
          have hissue := ih hrest (h.2 env reply)
          rwa [List.append_assoc] at hissue

end Prog

/-! ### Recorded runs -/

/-- A world with the statements issued on the way to it. -/
structure Recorded (σ Q : Type) (R : Q → Type) (Env ε α C : Type) where
  world : World σ Q R Env ε α C
  history : List (Issued σ Q Env) := []

/-- The statement of its own a step issues. -/
def World.issued (w : World σ Q R Env ε α C) : Action C Env → Option (Issued σ Q Env)
  | .run t env =>
      match w.threads[t]? with
      | some ⟨_, .stmt q _, none⟩ => some ⟨t, q, env, w.committed⟩
      | _ => none
  | _ => none

variable {S : System σ Q R Env ε α C}

/-- What the history says of a world whose calls are plain. -/
structure Traced (S : System σ Q R Env ε α C) (init : σ → Prop) (r : Recorded σ Q R Env ε α C) :
    Prop where
  linked : ∃ s, init s ∧ Linked S.engine s r.history r.world.committed
  issuers : ∀ i ∈ r.history, i.thread < r.world.threads.length
  /-- A thread is where its statements have taken its program, or it has failed there. -/
  threads : ∀ (t : Nat) (th : Thread σ Q R Env ε α C), r.world.threads[t]? = some th →
    th.Plain ∧ ∃ p, (S.program th.call).Follows ((own t r.history).map (Issued.entry S.engine)) p ∧
      (th.prog = p ∨ th.prog = .throw S.aborted)

/-- Nothing is recorded of a thread before it exists. -/
theorem own_eq_nil {h : List (Issued σ Q Env)} {t : Nat} (hold : ∀ i ∈ h, i.thread < t) :
    own t h = [] := by
  refine List.filter_eq_nil_iff.mpr fun i hi heq => ?_
  have hlt := hold i hi
  have hthread : i.thread = t := by simpa using heq
  omega

/-- The statements of a thread are statements of its program. -/
theorem Traced.only {init : σ → Prop} {r : Recorded σ Q R Env ε α C} (hr : Traced S init r)
    {P : Q → Prop} {th : Thread σ Q R Env ε α C} {i : Issued σ Q Env} (hi : i ∈ r.history)
    (hth : r.world.threads[i.thread]? = some th) (honly : (S.program th.call).Only P) : P i.q := by
  obtain ⟨-, p, hfollows, -⟩ := hr.threads i.thread th hth
  exact hfollows.only honly (i.entry S.engine) (List.mem_map_of_mem (mem_own.mpr ⟨hi, rfl⟩))

/-- The log of a thread, up to one of its statements. -/
theorem Traced.issued {init : σ → Prop} {r : Recorded σ Q R Env ε α C} (hr : Traced S init r)
    {T : TraceSpec Q R Env ε α} {t : Nat} {th : Thread σ Q R Env ε α C}
    (hth : r.world.threads[t]? = some th) (hobeys : (S.program th.call).Obeys T [])
    {h h' : List (Issued σ Q Env)} {i : Issued σ Q Env} (hhistory : r.history = h ++ i :: h')
    (hi : i.thread = t) : T.issue ((own t h).map (Issued.entry S.engine)) i.q := by
  obtain ⟨-, p, hfollows, -⟩ := hr.threads t th hth
  rw [hhistory, own_append, ← List.singleton_append, own_append, own_self hi,
    List.singleton_append, List.map_append, List.map_cons] at hfollows
  have hissue := hfollows.issued hobeys
  exact hissue

/-- The log of a thread that has returned. -/
theorem Traced.finished {init : σ → Prop} {r : Recorded σ Q R Env ε α C} (hr : Traced S init r)
    {T : TraceSpec Q R Env ε α} {t : Nat} {th : Thread σ Q R Env ε α C}
    (hth : r.world.threads[t]? = some th) (hobeys : (S.program th.call).Obeys T []) {a : α}
    (hresult : th.result? = some a) : T.finish ((own t r.history).map (Issued.entry S.engine)) a := by
  obtain ⟨⟨hnone, -⟩, p, hfollows, hp⟩ := hr.threads t th hth
  have hret : th.prog = .ret a := by
    rw [Thread.result?, hnone] at hresult
    exact Prog.result?_eq_some.mp hresult
  rcases hp with hp | hp
  · rw [← hp, hret] at hfollows
    exact hfollows.obeys hobeys
  · rw [hp] at hret
    cases hret

/-- The log of a thread that has failed by itself. -/
theorem Traced.failed {init : σ → Prop} {r : Recorded σ Q R Env ε α C} (hr : Traced S init r)
    {T : TraceSpec Q R Env ε α} {t : Nat} {th : Thread σ Q R Env ε α C}
    (hth : r.world.threads[t]? = some th) (hobeys : (S.program th.call).Obeys T []) {e : ε}
    (hthrown : th.prog = .throw e) :
    e = S.aborted ∨ T.fail ((own t r.history).map (Issued.entry S.engine)) e := by
  obtain ⟨-, p, hfollows, hp⟩ := hr.threads t th hth
  rcases hp with hp | hp
  · rw [← hp, hthrown] at hfollows
    exact Or.inr (hfollows.obeys hobeys)
  · rw [hp] at hthrown
    cases hthrown
    exact Or.inl rfl

section Steps

variable [∀ q, DecidableEq (R q)] (S : System σ Q R Env ε α C)

def Recorded.step (r : Recorded σ Q R Env ε α C) (a : Action C Env) :
    Option (Recorded σ Q R Env ε α C) :=
  (r.world.step S a).map fun world => { world, history := r.history ++ (r.world.issued a).toList }

/-- The machine of the system, with its history. -/
def System.recorded (init : σ → Prop) : Machine (Recorded σ Q R Env ε α C) (Action C Env) where
  init r := (S.machine init).init r.world ∧ r.history = []
  step := Recorded.step S

variable {S}

/-- One step of a plain thread issues its next statement. -/
theorem Traced.run {init : σ → Prop} {r : Recorded σ Q R Env ε α C} (hr : Traced S init r)
    {t : Nat} {env : Env} {world : World σ Q R Env ε α C}
    (hstep : r.world.step S (.run t env) = some world) :
    Traced S init { world, history := r.history ++ (r.world.issued (.run t env)).toList } := by
  simp only [World.step] at hstep
  split at hstep
  · rename_i th hth
    obtain ⟨⟨hnone, hprog⟩, p, hfollows, hp⟩ := hr.threads t th hth
    obtain ⟨⟨th', s'⟩, hrun, heq⟩ := Option.map_eq_some_iff.mp hstep
    have hplain := (hr.threads t th hth).1.run hrun
    obtain ⟨call, prog, tx⟩ := th
    dsimp only at hnone hprog hp
    subst hnone
    cases prog with
    | ret _ | throw _ => cases hrun
    | start _ _ => exact hprog.elim
    | commit _ => exact hprog.elim
    | stmt q k =>
        obtain rfl | hthrown := hp
        · cases hrun
          cases heq
          have hissued : r.world.issued (.run t env : Action C Env) = some ⟨t, q, env, r.world.committed⟩ := by
            simp [World.issued, hth]
          rw [hissued, Option.toList_some]
          obtain ⟨s, hs, hlinked⟩ := hr.linked
          refine ⟨⟨s, hs, hlinked.snoc (i := ⟨t, q, env, r.world.committed⟩)⟩, ?_, ?_⟩
          · intro i hi
            rw [List.length_set]
            rcases List.mem_append.mp hi with hold | hnew
            · exact hr.issuers i hold
            · rw [List.mem_singleton.mp hnew]
              exact (List.getElem?_eq_some_iff.mp hth).1
          · intro u tu hu
            rcases getElem?_set_cases hu with ⟨rfl, rfl⟩ | ⟨hne, hold⟩
            · refine ⟨hplain, _, ?_, Or.inl rfl⟩
              rw [own_append, own_self (i := ⟨u, q, env, r.world.committed⟩) rfl, List.map_append]
              exact hfollows.snoc env _
            · obtain ⟨hplain', p', hfollows', hp'⟩ := hr.threads u tu hold
              refine ⟨hplain', p', ?_, hp'⟩
              rw [own_append, own_other (Ne.symm hne), List.append_nil]
              exact hfollows'
        · cases hthrown
  · cases hstep

theorem Traced.step (hprogram : ∀ c, (S.program c).Plain) {init : σ → Prop}
    {r r' : Recorded σ Q R Env ε α C} {a : Action C Env} (hr : Traced S init r)
    (hstep : r.step S a = some r') : Traced S init r' := by
  obtain ⟨world, hworld, rfl⟩ := Option.map_eq_some_iff.mp hstep
  cases a with
  | run t env => exact hr.run hworld
  | spawn c =>
      cases hworld
      rw [show r.world.issued _ = none from rfl, Option.toList_none, List.append_nil]
      refine ⟨hr.linked, fun i hi => ?_, fun t th hth => ?_⟩
      · rw [List.length_append]
        exact Nat.lt_add_right _ (hr.issuers i hi)
      · rcases getElem?_concat_cases hth with hold | ⟨rfl, rfl⟩
        · exact hr.threads t th hold
        · refine ⟨⟨rfl, hprogram c⟩, _, ?_, Or.inl rfl⟩
          rw [own_eq_nil hr.issuers]
          exact .nil _
  | abort t =>
      simp only [World.step] at hworld
      split at hworld
      · rename_i tu hu
        split at hworld
        · cases hworld
        · cases hworld
          rw [show r.world.issued _ = none from rfl, Option.toList_none, List.append_nil]
          refine ⟨hr.linked, fun i hi => ?_, fun u th hth => ?_⟩
          · rw [List.length_set]
            exact hr.issuers i hi
          · rcases getElem?_set_cases hth with ⟨rfl, rfl⟩ | ⟨-, hold⟩
            · obtain ⟨-, p, hfollows, -⟩ := hr.threads u tu hu
              exact ⟨⟨rfl, trivial⟩, p, hfollows, Or.inr rfl⟩
            · exact hr.threads u th hold
      · cases hworld

/-- **The history rule**: plain calls do what their programs say, each statement on the
state the one before it has left. -/
theorem System.traced_of_reachable (hprogram : ∀ c, (S.program c).Plain) {init : σ → Prop}
    {ok : Recorded σ Q R Env ε α C → Action C Env → Prop} {r : Recorded σ Q R Env ε α C}
    (h : (S.recorded init).ReachableBy ok r) : Traced S init r := by
  refine h.invariant (I := Traced S init) ?_ fun r a r' hr _ hstep => hr.step hprogram hstep
  rintro ⟨⟨s, threads⟩, history⟩ ⟨⟨hs, rfl⟩, rfl⟩
  refine ⟨⟨s, hs, rfl⟩, ?_, ?_⟩
  · intro i hi
    cases hi
  · intro t th hth
    cases hth

/-- One call more, in an executed schedule. -/
theorem Recorded.exec_spawn {init : σ → Prop} {r : Recorded σ Q R Env ε α C} {c : C} {p : Prog Q R ε α}
    (hp : S.program c = p) (as : List (Action C Env)) :
    (S.recorded init).exec r (.spawn c :: as) = (S.recorded init).exec
      { r with world := { r.world with threads := r.world.threads ++ [⟨c, p, none⟩] } } as := by
  simp [Machine.exec, System.recorded, Recorded.step, World.step, World.issued, hp]

/-- One statement of a plain thread. -/
theorem Recorded.exec_stmt {init : σ → Prop} {r : Recorded σ Q R Env ε α C} {t : Nat} {c : C} {q : Q}
    {k : R q → Prog Q R ε α} (ht : r.world.threads[t]? = some ⟨c, .stmt q k, none⟩) {env : Env}
    {reply : R q} {s : σ} (hexec : S.engine.exec q env r.world.committed = (reply, s))
    (as : List (Action C Env)) :
    (S.recorded init).exec r (.run t env :: as) = (S.recorded init).exec
      { world := { committed := s, threads := r.world.threads.set t ⟨c, k reply, none⟩ }
        history := r.history ++ [⟨t, q, env, r.world.committed⟩] } as := by
  simp [Machine.exec, System.recorded, Recorded.step, World.step, World.issued, Thread.run, ht, hexec]

/-- The call has returned or thrown. -/
def Thread.Ended (th : Thread σ Q R Env ε α C) : Prop :=
  th.result?.isSome = true ∨ ∃ e, th.prog = .throw e

/-- What is left to throw, one step on. -/
theorem Prog.Raises.run {F : ε → Prop} {E : Engine σ Q R Env} {th th' : Thread σ Q R Env ε α C}
    {s s' : σ} {env : Env} (h : th.prog.Raises F) (hrun : th.run E s env = some (th', s')) :
    th'.prog.Raises F := by
  obtain ⟨call, prog, tx⟩ := th
  cases prog with
  | ret _ | throw _ => cases tx <;> cases hrun
  | stmt q k =>
      cases tx with
      | none =>
          cases hrun
          exact h _
      | some tx =>
          obtain ⟨work, -, heq⟩ := Option.map_eq_some_iff.mp hrun
          cases heq
          exact h _
  | start isolation p =>
      cases tx with
      | none =>
          cases hrun
          exact h
      | some tx => cases hrun
  | commit p =>
      cases tx with
      | none => cases hrun
      | some tx =>
          obtain ⟨work, -, heq⟩ := Option.map_eq_some_iff.mp hrun
          cases heq
          exact h

/-- A call that nothing aborts throws only what its program throws. -/
theorem System.raises_of_reachable {init : σ → Prop}
    {ok : Recorded σ Q R Env ε α C → Action C Env → Prop} {r : Recorded σ Q R Env ε α C}
    (h : (S.recorded init).ReachableBy ok r) {t : Nat} (hok : ∀ r, ¬ ok r (.abort t)) {F : ε → Prop} :
    ∀ th : Thread σ Q R Env ε α C, r.world.threads[t]? = some th → (S.program th.call).Raises F →
      th.prog.Raises F := by
  refine h.invariant (I := fun r => ∀ th : Thread σ Q R Env ε α C, r.world.threads[t]? = some th →
    (S.program th.call).Raises F → th.prog.Raises F) ?_ fun r a r' hr hadmits hstep => ?_
  · rintro ⟨⟨s, threads⟩, history⟩ ⟨⟨-, rfl⟩, -⟩ th hth
    cases hth
  · obtain ⟨world, hworld, rfl⟩ := Option.map_eq_some_iff.mp hstep
    intro th hth hprogram
    cases a with
    | spawn c =>
        cases hworld
        rcases getElem?_concat_cases hth with hold | ⟨-, rfl⟩
        · exact hr th hold hprogram
        · exact hprogram
    | run u env =>
        simp only [World.step] at hworld
        split at hworld
        · rename_i tu hu
          obtain ⟨⟨th', s'⟩, hrun, heq⟩ := Option.map_eq_some_iff.mp hworld
          cases heq
          rcases getElem?_set_cases hth with ⟨rfl, rfl⟩ | ⟨-, hold⟩
          · exact (hr tu hu (Thread.run_call hrun ▸ hprogram)).run hrun
          · exact hr th hold hprogram
        · cases hworld
    | abort u =>
        have hne : u ≠ t := by
          rintro rfl
          exact hok r hadmits
        simp only [World.step] at hworld
        split at hworld
        · split at hworld
          · cases hworld
          · cases hworld
            rcases getElem?_set_cases hth with ⟨rfl, -⟩ | ⟨-, hold⟩
            · exact absurd rfl hne
            · exact hr th hold hprogram
        · cases hworld

/-- What a run condition asks of each statement before it is issued is so of its history. -/
theorem System.history_of_reachable {init : σ → Prop}
    {ok : Recorded σ Q R Env ε α C → Action C Env → Prop} {P : C → Q → Prop}
    {r : Recorded σ Q R Env ε α C} (h : (S.recorded init).ReachableBy ok r)
    (hok : ∀ (r : Recorded σ Q R Env ε α C) (t : Nat) (env : Env) (th : Thread σ Q R Env ε α C) (q : Q)
      (k : R q → Prog Q R ε α), ok r (.run t env) → r.world.threads[t]? = some th →
        th.prog = .stmt q k → P th.call q) :
    ∀ i ∈ r.history, ∃ th, r.world.threads[i.thread]? = some th ∧ P th.call i.q := by
  refine h.invariant (I := fun r => ∀ i ∈ r.history, ∃ th : Thread σ Q R Env ε α C,
    r.world.threads[i.thread]? = some th ∧ P th.call i.q) ?_ fun r a r' hr hadmits hstep => ?_
  · rintro ⟨world, history⟩ ⟨-, rfl⟩ i hi
    cases hi
  · obtain ⟨world, hworld, rfl⟩ := Option.map_eq_some_iff.mp hstep
    -- The thread of a statement keeps its call.
    have hkeep : ∀ (i : Issued σ Q Env) (th : Thread σ Q R Env ε α C),
        r.world.threads[i.thread]? = some th → P th.call i.q →
        ∃ th' : Thread σ Q R Env ε α C, world.threads[i.thread]? = some th' ∧ P th'.call i.q := by
      intro i th hth hP
      obtain ⟨th', hth', hcall, -⟩ := World.step_thread hworld hth
      exact ⟨th', hth', hcall ▸ hP⟩
    intro i hi
    rcases List.mem_append.mp hi with hold | hnew
    · obtain ⟨th, hth, hP⟩ := hr i hold
      exact hkeep i th hth hP
    · have hissued : r.world.issued a = some i := by simpa using hnew
      cases a with
      | spawn _ | abort _ => cases hissued
      | run t env =>
          simp only [World.issued] at hissued
          split at hissued
          · rename_i call q k hth
            cases hissued
            exact hkeep _ _ hth (hok r t env _ q k hadmits hth rfl)
          · cases hissued

end Steps

end MibServer.Lib
