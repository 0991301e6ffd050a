import MibServer.Auth.Service

/-!
The expiry of a counter.

`incr` counts with one command and sets the expiry with a second one, which only the call
that has seen the value 1 issues. A counter without an expiry is therefore one whose
`EXPIRE` is still to come; if the call fails before it, nothing sets the expiry any more,
and the counter is there for ever.
-/

namespace MibServer.Auth

open MibServer.Lib MibServer.Redis

/-- A time to live that is positive. -/
structure Window where
  seconds : Nat
  pos : 0 < seconds

inductive CounterCall where
  | incr (key : String) (ttl : Window)
  /-- Time passes. -/
  | pass (milliseconds : Nat)

def counterProgram : CounterCall → AuthProg Nat
  | .incr key ttl => incr key ttl.seconds
  | .pass milliseconds => (query (.pass milliseconds)).bind fun _ => .ret 0

/-- Any number of clients. A call may fail, or its process stop, before and after each of its
commands. -/
def counters (platform : Platform) : System Db Stmt Stmt.Reply Env AuthException Nat CounterCall where
  engine := platform.engine
  program := counterProgram
  aborted := .http .internal

abbrev CounterWorld := World Db Stmt Stmt.Reply Env AuthException Nat CounterCall

/-- From a keyspace without the key. -/
abbrev counterMachine (platform : Platform) (key : String) :=
  (counters platform).machine fun db => db.redis.get? key = none

/-- No call is in progress. -/
def Idle (w : CounterWorld) : Prop :=
  ∀ th ∈ w.threads, (∃ value, th.prog = .ret value) ∨ ∃ e, th.prog = .throw e

/-- The key is absent, or it expires. -/
def Bounded (key : String) (db : Db) : Prop :=
  ∀ v, db.redis.get? key = some v → v.expiresAt.isSome

/-- The next command is the `EXPIRE` of the key. -/
def Expiring (key : String) (p : AuthProg Nat) : Prop :=
  ∃ seconds k, p = .stmt (.redis (.expire key seconds)) k

/-- No call fails between an `INCR` that has replied 1 and its `EXPIRE`. -/
def ExpiresAfterIncr (w : CounterWorld) : Action CounterCall Env → Prop
  | .abort t => ∀ th ∈ w.threads[t]?, ∀ key, ¬ Expiring key th.prog
  | _ => True

/-! ### The invariant -/

/-- Where a call can be. -/
inductive Position : AuthProg Nat → Prop where
  | start (key : String) (ttl : Window) : Position (incr key ttl.seconds)
  | expiring (key : String) (ttl : Window) (value : Nat) :
      Position ((query (.redis (.expire key ttl.seconds))).bind fun _ => .ret value)
  | passing (milliseconds : Nat) : Position ((query (.pass milliseconds)).bind fun _ => .ret 0)
  | returned (value : Nat) : Position (.ret value)
  | failed (e : AuthException) : Position (.throw e)

/-- A counter without an expiry has its `EXPIRE` to come. -/
structure CounterInv (key : String) (w : CounterWorld) : Prop where
  positions : ∀ th ∈ w.threads, th.tx = none ∧ Position th.prog
  pending : ¬ Bounded key w.committed → ∃ (t : Nat) (th : _), w.threads[t]? = some th ∧ Expiring key th.prog

variable {platform : Platform} {key : String} {db : Db} {env : Env}

/-- A statement that leaves the key alone leaves it without an expiry at most where it was. -/
theorem Bounded.exec {q : Stmt} (hwrites : key ∉ q.writes) (h : Bounded key db) :
    Bounded key (db.exec platform env q).2 := by
  intro v hv
  obtain ⟨hentry, hlive⟩ := Option.filter_eq_some_iff.mp hv
  rw [exec_redis_entries hwrites] at hentry
  cases hexpires : v.expiresAt with
  | some _ => rfl
  | none =>
      have hget : db.redis.get? key = some v := by
        refine Option.filter_eq_some_iff.mpr ⟨hentry, ?_⟩
        simp [Stored.live, hexpires]
      simpa [hexpires] using h v hget

theorem bounded_expire (seconds : Nat) :
    Bounded key (db.exec platform env (.redis (.expire key seconds))).2 := by
  intro v hv
  simp only [Db.exec, Keyspace.exec] at hv
  split at hv
  · next hnone =>
      dsimp only at hv
      rw [hnone] at hv
      cases hv
  · obtain ⟨hentry, -⟩ := Option.filter_eq_some_iff.mp hv
    dsimp only at hentry
    rw [Keyspace.entries_put_self] at hentry
    cases hentry
    rfl

/-- An `INCR` of a counter that exists keeps its expiry. -/
theorem bounded_incr (h : Bounded key db) (hlive : db.redis.Live key) :
    Bounded key (db.exec platform env (.redis (.incr key))).2 := by
  obtain ⟨v, hv⟩ := Option.isSome_iff_exists.mp hlive
  intro v' hv'
  obtain ⟨hentry, -⟩ := Option.filter_eq_some_iff.mp hv'
  simp only [Db.exec, Keyspace.exec, Keyspace.entries_put_self, Keyspace.incr, hv,
    Option.some.injEq] at hentry
  rw [← hentry]
  exact h v hv

/-- An `INCR` of a counter that does not exist replies 1. -/
theorem incr_reply (hdead : ¬ db.redis.Live key) :
    (db.exec platform env (.redis (.incr key))).1 = (1 : Nat) := by
  have hnone : db.redis.get? key = none := by simpa [Keyspace.Live] using hdead
  simp only [Db.exec, Keyspace.exec, Keyspace.incr, hnone]

/-! ### Steps -/

theorem incr_eq (key : String) (ttlSeconds : Nat) : incr key ttlSeconds =
    .stmt (.redis (.incr key)) fun value => if value = 1 ∧ 0 < ttlSeconds
      then (query (.redis (.expire key ttlSeconds))).bind fun _ => .ret value
      else .ret value := rfl

variable {w w' : CounterWorld}

/-- One command of a call. -/
theorem CounterInv.command (platform : Platform) (env : Env) (h : CounterInv key w) {t : Nat}
    {call : CounterCall} {q : Stmt}
    {k : q.Reply → AuthProg Nat} (ht : w.threads[t]? = some ⟨call, .stmt q k, none⟩)
    (hnext : Position (k (w.committed.exec platform env q).1))
    (hnew : Bounded key w.committed → ¬ Bounded key (w.committed.exec platform env q).2 →
      Expiring key (k (w.committed.exec platform env q).1))
    (hdone : Expiring key (.stmt q k) → Bounded key (w.committed.exec platform env q).2) :
    CounterInv key
      { committed := (w.committed.exec platform env q).2
        threads := w.threads.set t ⟨call, k (w.committed.exec platform env q).1, none⟩ } := by
  constructor
  · intro th hth
    rcases List.mem_or_eq_of_mem_set hth with hold | rfl
    · exact h.positions th hold
    · exact ⟨rfl, hnext⟩
  · intro hunbounded
    by_cases hbefore : Bounded key w.committed
    · refine ⟨t, _, List.getElem?_set_self (List.getElem?_eq_some_iff.mp ht).1, ?_⟩
      exact hnew hbefore hunbounded
    · obtain ⟨u, th, hu, hexpiring⟩ := h.pending hbefore
      refine ⟨u, th, ?_, hexpiring⟩
      rw [List.getElem?_set_ne]
      · exact hu
      · rintro rfl
        rw [ht] at hu
        cases hu
        exact hunbounded (hdone hexpiring)

theorem CounterInv.run (h : CounterInv key w) {t : Nat}
    (hstep : w.step (counters platform) (.run t env) = some w') : CounterInv key w' := by
  simp only [World.step] at hstep
  split at hstep
  · next th hth =>
      obtain ⟨hnone, hposition⟩ := h.positions th (List.mem_of_getElem? hth)
      obtain ⟨call, prog, tx⟩ := th
      dsimp only at hnone hposition
      subst hnone
      cases hposition with
      | returned _ => cases hstep
      | failed _ => cases hstep
      | start key' ttl =>
          rw [incr_eq] at hth hstep
          cases hstep
          refine h.command platform env hth ?_ ?_ ?_
          · split
            · exact .expiring key' ttl _
            · exact .returned _
          · intro hbounded hunbounded
            by_cases hkey : key' = key
            · subst hkey
              by_cases hlive : w.committed.redis.Live key'
              · exact absurd (bounded_incr hbounded hlive) hunbounded
              · rw [if_pos ⟨incr_reply hlive, ttl.pos⟩]
                exact ⟨ttl.seconds, _, rfl⟩
            · refine absurd (hbounded.exec ?_) hunbounded
              simpa [Stmt.writes, Command.writes] using Ne.symm hkey
          · rintro ⟨seconds, k, hk⟩
            cases hk
      | expiring key' ttl value =>
          cases hstep
          refine h.command platform env hth (.returned value) ?_ ?_
          · intro hbounded hunbounded
            by_cases hkey : key' = key
            · exact absurd (hkey ▸ bounded_expire ttl.seconds) hunbounded
            · refine absurd (hbounded.exec ?_) hunbounded
              simpa [Stmt.writes, Command.writes] using Ne.symm hkey
          · rintro ⟨seconds, k, hk⟩
            cases hk
            exact bounded_expire _
      | passing milliseconds =>
          cases hstep
          refine h.command platform env hth (.returned 0) ?_ ?_
          · intro hbounded hunbounded
            exact absurd (hbounded.exec (by simp [Stmt.writes])) hunbounded
          · rintro ⟨seconds, k, hk⟩
            cases hk
  · cases hstep

theorem CounterInv.step {a : Action CounterCall Env} (h : CounterInv key w) (hok : ExpiresAfterIncr w a)
    (hstep : w.step (counters platform) a = some w') : CounterInv key w' := by
  cases a with
  | run t env => exact h.run hstep
  | spawn call =>
      cases hstep
      constructor
      · intro th hth
        rcases List.mem_append.mp hth with hold | hnew
        · exact h.positions th hold
        · rw [List.mem_singleton.mp hnew]
          cases call with
          | incr key' ttl => exact ⟨rfl, .start key' ttl⟩
          | pass milliseconds => exact ⟨rfl, .passing milliseconds⟩
      · intro hunbounded
        obtain ⟨u, th, hu, hexpiring⟩ := h.pending hunbounded
        exact ⟨u, th, getElem?_concat_of_some hu, hexpiring⟩
  | abort t =>
      simp only [World.step] at hstep
      split at hstep
      · next tt htt =>
          split at hstep
          · cases hstep
          · cases hstep
            constructor
            · intro th hth
              rcases List.mem_or_eq_of_mem_set hth with hold | rfl
              · exact h.positions th hold
              · exact ⟨rfl, .failed _⟩
            · intro hunbounded
              obtain ⟨u, th, hu, hexpiring⟩ := h.pending hunbounded
              refine ⟨u, th, ?_, hexpiring⟩
              rw [List.getElem?_set_ne]
              · exact hu
              · rintro rfl
                exact hok th hu key hexpiring
      · cases hstep

/-- **Counters expire**: as long as no call fails between its `INCR` and its `EXPIRE`, a key
that is there when no call is in progress has an expiry. -/
theorem counter_expires (platform : Platform) (key : String) {w : CounterWorld}
    (hreach : (counterMachine platform key).ReachableBy ExpiresAfterIncr w) (hidle : Idle w) :
    Bounded key w.committed := by
  have hinv : CounterInv key w := by
    refine hreach.invariant ?_ fun w a w' h hok hstep => h.step hok hstep
    rintro ⟨db, threads⟩ ⟨habsent, rfl⟩
    refine ⟨List.forall_mem_nil _, ?_⟩
    intro hunbounded
    refine absurd ?_ hunbounded
    intro v hv
    dsimp only at habsent hv
    rw [habsent] at hv
    cases hv
  by_contra hunbounded
  obtain ⟨t, th, ht, seconds, k, hprog⟩ := hinv.pending hunbounded
  rcases hidle th (List.mem_of_getElem? ht) with ⟨value, hvalue⟩ | ⟨e, he⟩
  · rw [hprog] at hvalue
    cases hvalue
  · rw [hprog] at he
    cases he

/-! ### One counter -/

def flooringPlatform : Platform where
  compare password passwordHash := password == passwordHash
  hash _ password := password
  ttlSeconds milliseconds := milliseconds / 1000
  collate := lowerCase

def noRows : Db where
  redis := { now := 0, entries := fun _ => none }
  tenants := []
  users := ⟨[], List.nodup_nil⟩

theorem fifteenMinutes_pos : 0 < 900 := by decide

def fifteenMinutes : Window := ⟨900, fifteenMinutes_pos⟩

def countOnce : List (Action CounterCall Env) :=
  [.spawn (.incr "rate:login:ip:10.0.0.1" fifteenMinutes), .run 0 {}, .run 0 {}]

theorem countOnce_runs :
    ((counterMachine flooringPlatform "rate:login:ip:10.0.0.1").exec { committed := noRows }
      countOnce).isSome := by
  decide +kernel

def countedWorld : CounterWorld :=
  ((counterMachine flooringPlatform "rate:login:ip:10.0.0.1").exec _ countOnce).get countOnce_runs

theorem counter_expires_once : Bounded "rate:login:ip:10.0.0.1" countedWorld.committed := by
  refine counter_expires flooringPlatform _ (Machine.reachableBy_exec_get (by exact ⟨rfl, rfl⟩)
    (Machine.admits_of_forall ?_) _) ?_
  · intro a ha w
    simp only [countOnce, List.mem_cons, List.not_mem_nil, or_false] at ha
    rcases ha with rfl | rfl | rfl
    · trivial
    · trivial
    · trivial
  · intro th hth
    obtain rfl := List.mem_singleton.mp hth
    exact Or.inl ⟨_, rfl⟩

def stopAfterIncr : List (Action CounterCall Env) :=
  [.spawn (.incr "rate:login:ip:10.0.0.1" fifteenMinutes), .run 0 {}, .abort 0]

theorem stopAfterIncr_runs :
    ((counterMachine flooringPlatform "rate:login:ip:10.0.0.1").exec { committed := noRows }
      stopAfterIncr).isSome := by
  decide +kernel

def strandedWorld : CounterWorld :=
  ((counterMachine flooringPlatform "rate:login:ip:10.0.0.1").exec _ stopAfterIncr).get stopAfterIncr_runs

/-- A call that stops after its first command leaves a counter without an expiry. -/
theorem counter_stranded : ¬ ∀ (platform : Platform) (key : String) (w : CounterWorld),
    (counterMachine platform key).Reachable w → Idle w → Bounded key w.committed := by
  intro h
  have hreach : (counterMachine flooringPlatform "rate:login:ip:10.0.0.1").Reachable strandedWorld :=
    Machine.reachableBy_exec_get (by exact ⟨rfl, rfl⟩) (Machine.admits_true _ _) _
  have hidle : Idle strandedWorld := by
    intro th hth
    obtain rfl := List.mem_singleton.mp hth
    exact Or.inr ⟨_, rfl⟩
  have hbounded := h _ _ _ hreach hidle ⟨1, none⟩ rfl
  cases hbounded

end MibServer.Auth
