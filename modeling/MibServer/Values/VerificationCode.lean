import MibServer.Values.RedisService

/-!
A verification code that several calls consume at once.

`consumeVerificationCode` reads the code, compares it and deletes it with separate commands.
A second call that reads between the first one's `GET` and its `DEL` accepts the code too;
if none does, exactly one call accepts it.
-/

namespace MibServer.Values

open MibServer.Lib

section

variable (scene target : String) (code : JsString)

inductive CodeCall where
  | consume
  /-- Time passes. -/
  | pass (milliseconds : Nat)

/-- What a call returns; `none` for time that has passed. -/
def codeProgram : CodeCall → ValueProg (Option Bool)
  | .consume => (consumeVerificationCode scene target code).bind fun ok => .ret (some ok)
  | .pass milliseconds => (query (.pass milliseconds)).bind fun _ => .ret none

/-- Any number of calls that consume the code. A call may fail before each of its commands. -/
def consumers : System Keyspace Command Command.Reply Unit Unit (Option Bool) CodeCall where
  engine := engine
  program := codeProgram scene target code
  aborted := ()

abbrev CodeWorld := World Keyspace Command Command.Reply Unit Unit (Option Bool) CodeCall

abbrev CodeThread := Thread Keyspace Command Command.Reply Unit Unit (Option Bool) CodeCall

variable (ttlSeconds : Int) (r : Keyspace)

/-- From the keys that `setVerificationCode` leaves. -/
abbrev codeMachine := (consumers scene target code).machine fun s =>
  s = (run (setVerificationCode scene target code ttlSeconds) r).2

/-- The code as it was stored. -/
abbrev storedCode : Redis.Stored JsString Nat := stored r (.string code) (some ttlSeconds)

end

def CodeThread.returns (ok : Bool) (th : CodeThread) : Bool := th.prog.result? = some (some ok)

/-- Once a call has returned, exactly one has returned `true`. -/
def ExactlyOne (w : CodeWorld) : Prop :=
  (∃ th ∈ w.threads, ∃ ok, CodeThread.returns ok th) → w.threads.countP (CodeThread.returns true) = 1

def isGet : ValueProg (Option Bool) → Bool
  | .stmt (.get _) _ => true
  | _ => false

/-- A call that has accepted the code and has still to delete it. -/
def isDel : ValueProg (Option Bool) → Bool
  | .stmt (.del _) _ => true
  | _ => false

def CodeThread.deleting (th : CodeThread) : Bool := isDel th.prog

/-- No call reads the code between another one's `GET` that accepts it and its `DEL`. -/
def GetsApart (w : CodeWorld) : Action CodeCall Unit → Prop
  | .run t _ => (∃ th ∈ w.threads[t]?, isGet th.prog) → ∀ th ∈ w.threads, isDel th.prog = false
  | _ => True

instance (w : CodeWorld) : (a : Action CodeCall Unit) → Decidable (GetsApart w a)
  | .run t _ => inferInstanceAs
      (Decidable ((∃ th ∈ w.threads[t]?, isGet th.prog) → ∀ th ∈ w.threads, _ = false))
  | .spawn _ | .abort _ => .isTrue trivial

/-! ### Where a call can be -/

variable {scene target : String} {code : JsString} {ttlSeconds : Int} {r : Keyspace}

theorem codeProgram_consume : codeProgram scene target code .consume =
    .stmt (.get (verificationCodeKey scene target)) fun value =>
      if isCode code ((value.map deserialize).getD .null) then
        .stmt (.del [verificationCodeKey scene target]) fun _ => .ret (some true)
      else .ret (some false) := by
  refine congrArg (Prog.stmt _) (funext fun value => ?_)
  by_cases haccepted : isCode code ((value.map deserialize).getD .null) = true
  · simp only [Prog.pure_eq, Prog.ret_bind, haccepted, if_true]
    rfl
  · simp only [Prog.pure_eq, Prog.ret_bind, haccepted]
    rfl

inductive Position (scene target : String) (code : JsString) : ValueProg (Option Bool) → Prop where
  | reading : Position scene target code (codeProgram scene target code .consume)
  | deleting : Position scene target code
      (.stmt (.del [verificationCodeKey scene target]) fun _ => .ret (some true))
  | passing (milliseconds : Nat) : Position scene target code (.stmt (.pass milliseconds) fun _ => .ret none)
  | returned (ok : Option Bool) : Position scene target code (.ret ok)
  | failed : Position scene target code (.throw ())

/-- The code is there and at most one call has accepted it, or one call has returned `true`. -/
def Phase (key : String) (v : Redis.Stored JsString Nat) (w : CodeWorld) : Prop :=
  (w.committed.entries key = some v ∧ (∀ th ∈ w.threads, ∀ ok, CodeThread.returns ok th = false) ∧
      w.threads.countP CodeThread.deleting ≤ 1) ∨
    (w.committed.entries key = none ∧ w.threads.countP (CodeThread.returns true) = 1 ∧
      w.threads.countP CodeThread.deleting = 0)

structure CodeInv (scene target : String) (code : JsString) (v : Redis.Stored JsString Nat)
    (w : CodeWorld) : Prop where
  positions : ∀ th ∈ w.threads, th.tx = none ∧ Position scene target code th.prog
  phase : v.live w.committed.now → Phase (verificationCodeKey scene target) v w

/-! ### Steps -/

variable {w w' : CodeWorld} {key : String} {v : Redis.Stored JsString Nat} {t : Nat} {th new : CodeThread}

theorem countP_set_add {threads : List CodeThread} (ht : threads[t]? = some th) (new : CodeThread)
    (p : CodeThread → Bool) :
    (threads.set t new).countP p + (p th).toNat = threads.countP p + (p new).toNat := by
  obtain ⟨hlt, hget⟩ := List.getElem?_eq_some_iff.mp ht
  have hone : ∀ b : Bool, (if b = true then 1 else 0) = b.toNat := by decide
  have hle : (p th).toNat ≤ threads.countP p := by
    cases hp : p th with
    | false => exact Nat.zero_le _
    | true => exact List.countP_pos_iff.mpr ⟨th, List.mem_of_getElem? ht, hp⟩
  rw [List.countP_set hlt, hget, hone, hone]
  omega

/-- A step that returns nothing and accepts nothing. -/
theorem Phase.quiet (h : Phase key v w) (ht : w.threads[t]? = some th)
    (hreturns : ∀ ok, CodeThread.returns ok new = false)
    (hdeleting : new.deleting = true → th.deleting = true)
    (hold : CodeThread.returns true th = false) {s : Keyspace}
    (hs : s.entries key = w.committed.entries key) :
    Phase key v { committed := s, threads := w.threads.set t new } := by
  have htrue := countP_set_add ht new (CodeThread.returns true)
  have hdel := countP_set_add ht new CodeThread.deleting
  have hle : new.deleting.toNat ≤ th.deleting.toNat := by
    cases hnew : new.deleting with
    | false => exact Nat.zero_le _
    | true => rw [hdeleting hnew]
  rw [hold, hreturns] at htrue
  rcases h with ⟨hentry, hnone, hone⟩ | ⟨hentry, hone, hnone⟩
  · refine Or.inl ⟨hs.trans hentry, ?_, by dsimp only; omega⟩
    intro th' hth' ok
    rcases List.mem_or_eq_of_mem_set hth' with hin | rfl
    · exact hnone th' hin ok
    · exact hreturns ok
  · exact Or.inr ⟨hs.trans hentry, by dsimp only; omega, by dsimp only; omega⟩

theorem CodeInv.spawn (h : CodeInv scene target code v w) (call : CodeCall) :
    CodeInv scene target code v
      { w with threads := w.threads ++ [{ call, prog := codeProgram scene target code call }] } := by
  have hposition : Position scene target code (codeProgram scene target code call) := by
    cases call with
    | consume => exact .reading
    | pass milliseconds => exact .passing milliseconds
  have hreturns : ∀ ok,
      CodeThread.returns ok { call, prog := codeProgram scene target code call } = false := by
    cases call with
    | consume => exact fun ok => rfl
    | pass milliseconds => exact fun ok => rfl
  have hdeleting : CodeThread.deleting { call, prog := codeProgram scene target code call } = false := by
    cases call with
    | consume => rfl
    | pass milliseconds => rfl
  constructor
  · intro th hth
    rcases List.mem_append.mp hth with hold | hnew
    · exact h.positions th hold
    · rw [List.mem_singleton.mp hnew]
      exact ⟨rfl, hposition⟩
  · intro hlive
    rcases h.phase hlive with ⟨hentry, hnone, hone⟩ | ⟨hentry, hone, hnone⟩
    · refine Or.inl ⟨hentry, ?_, ?_⟩
      · intro th hth ok
        rcases List.mem_append.mp hth with hold | hnew
        · exact hnone th hold ok
        · rw [List.mem_singleton.mp hnew]
          exact hreturns ok
      · rw [List.countP_append, List.countP_singleton, hdeleting]
        exact hone
    · refine Or.inr ⟨hentry, ?_, ?_⟩
      · rw [List.countP_append, List.countP_singleton, hreturns]
        exact hone
      · rw [List.countP_append, List.countP_singleton, hdeleting]
        exact hnone

/-- The positions after a step of one call. -/
theorem CodeInv.set_positions (h : CodeInv scene target code v w) (hnone : new.tx = none)
    (hnew : Position scene target code new.prog) :
    ∀ th ∈ w.threads.set t new, th.tx = none ∧ Position scene target code th.prog := by
  intro th hth
  rcases List.mem_or_eq_of_mem_set hth with hold | rfl
  · exact h.positions th hold
  · exact ⟨hnone, hnew⟩

theorem CodeInv.abort (h : CodeInv scene target code v w) (ht : w.threads[t]? = some th)
    (hunfinished : th.result?.isSome = false) :
    CodeInv scene target code v
      { w with threads := w.threads.set t { th with prog := .throw (), tx := none } } := by
  refine ⟨h.set_positions rfl .failed, fun hlive => (h.phase hlive).quiet ht (fun ok => rfl) ?_ ?_ rfl⟩
  · intro hdeleting
    cases hdeleting
  · obtain ⟨hnone, -⟩ := h.positions th (List.mem_of_getElem? ht)
    rw [Thread.result?, hnone] at hunfinished
    cases hresult : th.prog.result? with
    | none => simp [CodeThread.returns, hresult]
    | some ok => simp [hresult] at hunfinished

/-- A `GET` accepts the code where it is there, and nothing else. -/
theorem isCode_read (key : String) (s : Keyspace) (hcode : deserialize v.value = .string code) :
    (s.entries key = some v → v.live s.now →
      isCode code (((s.exec (.get key)).1.map deserialize).getD .null) = true) ∧
    (s.entries key = none → isCode code (((s.exec (.get key)).1.map deserialize).getD .null) = false) := by
  constructor
  · intro hentry hlive
    rw [Keyspace.exec, Redis.Keyspace.get?, hentry, Option.filter_some, if_pos hlive]
    simp [hcode, isCode]
  · intro hentry
    rw [Keyspace.exec, Redis.Keyspace.get?, hentry]
    rfl

/-- The `GET` of a call while no other call has accepted the code and not yet deleted it. -/
theorem Phase.get (h : Phase key v w) (hcode : deserialize v.value = .string code)
    (hlive : v.live w.committed.now) (ht : w.threads[t]? = some th)
    {k : Option JsString → ValueProg (Option Bool)}
    (hth : th.prog = .stmt (.get key) k) (hapart : ∀ th ∈ w.threads, isDel th.prog = false)
    (hnew : new.prog = if isCode code (((w.committed.exec (.get key)).1.map deserialize).getD .null) = true then
      .stmt (.del [key]) fun _ => .ret (some true) else .ret (some false)) :
    Phase key v { committed := w.committed, threads := w.threads.set t new } := by
  have htrue := countP_set_add ht new (CodeThread.returns true)
  have hdel := countP_set_add ht new CodeThread.deleting
  have hnodel : w.threads.countP CodeThread.deleting = 0 := by
    rw [List.countP_eq_zero]
    intro th' hth'
    rw [CodeThread.deleting, hapart th' hth']
    exact Bool.false_ne_true
  obtain ⟨hthere, hgone⟩ := isCode_read key w.committed hcode
  rcases h with ⟨hentry, hnone, -⟩ | ⟨hentry, hone, -⟩
  · rw [if_pos (hthere hentry hlive)] at hnew
    refine Or.inl ⟨hentry, ?_, ?_⟩
    · intro th' hth' ok
      rcases List.mem_or_eq_of_mem_set hth' with hin | rfl
      · exact hnone th' hin ok
      · rw [CodeThread.returns, hnew]
        rfl
    · have hle := Bool.toNat_le new.deleting
      dsimp only
      omega
  · rw [if_neg (by rw [hgone hentry]; exact Bool.false_ne_true)] at hnew
    have hreturns : CodeThread.returns true new = false := by
      rw [CodeThread.returns, hnew]
      rfl
    have hold : CodeThread.returns true th = false := by
      rw [CodeThread.returns, hth]
      rfl
    have hdeleting : new.deleting = false := by
      rw [CodeThread.deleting, hnew]
      rfl
    rw [hreturns, hold] at htrue
    rw [hdeleting] at hdel
    refine Or.inr ⟨hentry, ?_, ?_⟩
    · dsimp only
      simp only [Bool.toNat_false] at htrue
      omega
    · dsimp only
      simp only [Bool.toNat_false] at hdel
      omega

/-- The `DEL` of the call that has accepted the code. -/
theorem Phase.del (h : Phase key v w) (ht : w.threads[t]? = some th) (hth : th.deleting = true)
    (hnew : new.prog = .ret (some true)) :
    Phase key v { committed := (w.committed.exec (.del [key])).2, threads := w.threads.set t new } := by
  have htrue := countP_set_add ht new (CodeThread.returns true)
  have hdel := countP_set_add ht new CodeThread.deleting
  have hpos : 0 < w.threads.countP CodeThread.deleting :=
    List.countP_pos_iff.mpr ⟨th, List.mem_of_getElem? ht, hth⟩
  rcases h with ⟨hentry, hnone, hone⟩ | ⟨-, -, hnone⟩
  · have hreturns : CodeThread.returns true new = true := by
      rw [CodeThread.returns, hnew]
      rfl
    have hold : CodeThread.returns true th = false := hnone th (List.mem_of_getElem? ht) true
    have hdeleting : new.deleting = false := by
      rw [CodeThread.deleting, hnew]
      rfl
    have hzero : w.threads.countP (CodeThread.returns true) = 0 := by
      rw [List.countP_eq_zero]
      intro th' hth'
      rw [hnone th' hth' true]
      exact Bool.false_ne_true
    rw [hreturns, hold, hzero] at htrue
    rw [hth, hdeleting] at hdel
    refine Or.inr ⟨if_pos (List.mem_singleton_self key), ?_, ?_⟩
    · simpa using htrue
    · simp only [Bool.toNat_true, Bool.toNat_false] at hdel
      dsimp only
      omega
  · omega

theorem CodeInv.run (hcode : deserialize v.value = .string code) (h : CodeInv scene target code v w)
    (hok : GetsApart w (.run t ())) (hstep : w.step (consumers scene target code) (.run t ()) = some w') :
    CodeInv scene target code v w' := by
  simp only [World.step] at hstep
  split at hstep
  · next th ht =>
      obtain ⟨hnone, hposition⟩ := h.positions th (List.mem_of_getElem? ht)
      obtain ⟨call, prog, tx⟩ := th
      dsimp only at hnone hposition
      subst hnone
      cases hposition with
      | reading =>
          rw [codeProgram_consume] at ht hstep
          cases hstep
          refine ⟨h.set_positions rfl ?_, fun hlive => ?_⟩
          · dsimp only [consumers, engine]
            split
            · exact .deleting
            · exact .returned _
          · exact (h.phase hlive).get hcode hlive ht rfl (hok ⟨_, ht, rfl⟩) rfl
      | deleting =>
          cases hstep
          exact ⟨h.set_positions rfl (.returned _), fun hlive => (h.phase hlive).del ht rfl rfl⟩
      | passing milliseconds =>
          cases hstep
          refine ⟨h.set_positions rfl (.returned _), fun hlive => ?_⟩
          have hbefore := Redis.Stored.live_of_le (Nat.le_add_right w.committed.now milliseconds) hlive
          refine Phase.quiet (h.phase hbefore) ht (fun ok => rfl) ?_ rfl rfl
          intro hdeleting
          cases hdeleting
      | returned ok => cases hstep
      | failed => cases hstep
  · cases hstep

theorem CodeInv.step (hcode : deserialize v.value = .string code) (h : CodeInv scene target code v w)
    {a : Action CodeCall Unit} (hok : GetsApart w a)
    (hstep : w.step (consumers scene target code) a = some w') : CodeInv scene target code v w' := by
  cases a with
  | run t env => exact h.run hcode hok hstep
  | spawn call =>
      cases hstep
      exact h.spawn call
  | abort t =>
      simp only [World.step] at hstep
      split at hstep
      · next th ht =>
          split at hstep
          · cases hstep
          · next hunfinished =>
              cases hstep
              exact h.abort ht (by simpa using hunfinished)
      · cases hstep

theorem Phase.exactlyOne (h : Phase key v w) : ExactlyOne w := by
  rintro ⟨th, hth, ok, hreturns⟩
  rcases h with ⟨-, hnone, -⟩ | ⟨-, hone, -⟩
  · rw [hnone th hth ok] at hreturns
    cases hreturns
  · exact hone

/-- **Codes are used once**: until the code expires, and as long as no call reads it between
the `GET` and the `DEL` of another one, exactly one call returns `true`. -/
theorem code_consumed_once (scene target : String) (code : JsString) (ttlSeconds : Int) (r : Keyspace)
    (hcode : parse code = none) (hwell : isWellFormed code) {w : CodeWorld}
    (hreach : (codeMachine scene target code ttlSeconds r).ReachableBy GetsApart w)
    (hlive : (storedCode code ttlSeconds r).live w.committed.now) : ExactlyOne w := by
  have hstored : deserialize (storedCode code ttlSeconds r).value = .string code := by
    refine (deserialize_sent_iff (representable_string code)).mpr ?_
    rintro ⟨s, ⟨⟩, hjson | hhalf⟩
    · rw [hcode] at hjson
      cases hjson
    · rw [hwell] at hhalf
      cases hhalf
  have hinv : CodeInv scene target code (storedCode code ttlSeconds r) w := by
    refine hreach.invariant ?_ fun w a w' h hok hstep => h.step hstored hok hstep
    rintro ⟨s, threads⟩ ⟨hs, rfl⟩
    dsimp only at hs
    rw [setVerificationCode, run_set] at hs
    subst hs
    refine ⟨List.forall_mem_nil _, fun _ =>
      Or.inl ⟨Redis.Keyspace.entries_put_self .., List.forall_mem_nil _, ?_⟩⟩
    exact Nat.zero_le 1
  exact (hinv.phase hlive).exactlyOne

/-! ### Two calls -/

def emptyKeys : Keyspace where
  now := 0
  entries := fun _ => none

def sentCode : Keyspace := (run (setVerificationCode "login" "13800000000" (js "A1B2C3") 300) emptyKeys).2

abbrev loginMachine := codeMachine "login" "13800000000" (js "A1B2C3") 300 emptyKeys

def oneAfterTheOther : List (Action CodeCall Unit) :=
  [.spawn .consume, .spawn .consume, .run 0 (), .run 0 (), .run 1 ()]

theorem oneAfterTheOther_runs : (loginMachine.exec { committed := sentCode } oneAfterTheOther).isSome := by
  decide +kernel

theorem oneAfterTheOther_apart : loginMachine.Admits GetsApart { committed := sentCode } oneAfterTheOther := by
  decide +kernel

def consumedWorld : CodeWorld :=
  (loginMachine.exec { committed := sentCode } oneAfterTheOther).get oneAfterTheOther_runs

theorem code_consumed_once_of_two : ExactlyOne consumedWorld :=
  code_consumed_once "login" "13800000000" (js "A1B2C3") 300 emptyKeys (by decide +kernel) (by decide +kernel)
    (Machine.reachableBy_exec_get (by exact ⟨rfl, rfl⟩) oneAfterTheOther_apart _) (by decide +kernel)

def bothAtOnce : List (Action CodeCall Unit) :=
  [.spawn .consume, .spawn .consume, .run 0 (), .run 1 (), .run 0 (), .run 1 ()]

theorem bothAtOnce_runs : (loginMachine.exec { committed := sentCode } bothAtOnce).isSome := by
  decide +kernel

def replayedWorld : CodeWorld := (loginMachine.exec { committed := sentCode } bothAtOnce).get bothAtOnce_runs

/-- Two calls that read the code before either deletes it both accept it. -/
theorem code_consumed_twice : ¬ ∀ (scene target : String) (code : JsString) (ttlSeconds : Int) (r : Keyspace)
    (w : CodeWorld), parse code = none → (codeMachine scene target code ttlSeconds r).Reachable w →
      (storedCode code ttlSeconds r).live w.committed.now → ExactlyOne w := by
  intro h
  have hone := h "login" "13800000000" (js "A1B2C3") 300 emptyKeys replayedWorld (by decide +kernel)
    (Machine.reachableBy_exec_get (by exact ⟨rfl, rfl⟩) (Machine.admits_true _ _) _) (by decide +kernel)
    ⟨_, List.mem_of_getElem? (show replayedWorld.threads[0]? = some _ from rfl), true, by decide +kernel⟩
  have htwo : replayedWorld.threads.countP (CodeThread.returns true) = 2 := by decide +kernel
  omega

end MibServer.Values
