import MibServer.Lessons.StaleChecks
import MibServer.Locks.BusinessLocks

/-!
A check-in against its timer.

`upsertAttendance` runs a transaction that deducts as the `fn` of `runWithBusinessLock`,
which answers when the transaction has ended or when the timer fires, and the timer leaves
the transaction running. So a call may answer 408 and deduct afterwards, and a release that
rejects turns a committed deduction into an error. A rejected check-in leaves the database
as it was along the runs in which no locked transaction outlasts its timer and no lock is
lost after a commit.

Time is counted in milliseconds. What the other calls do to the database is left open.
-/

namespace MibServer.Lessons

open MibServer.Lib MibServer.Prisma MibServer.Locks MibServer.Courses MibServer.Tenancy

/-! ### `attendance.service.ts` -/

def CHECKIN_LOCK_TTL_SECONDS : Int := 15

def CHECKIN_LOCK_OPERATION_TIMEOUT_MS : Int := 14000

/-- The `maxWait` and the `timeout` of the transaction. -/
def maxWait : Nat := 5000

def timeout : Nat := 15000

/-- `checkIn` up to its call of `upsertAttendance`: the `params` of that call. -/
def checkInParams (outside : Geofence) (ambient : Ambient) (dto : CheckInDto) :
    LessonProg AttendanceParams := do
  match ← find (LessonRead.findSchedule dto.scheduleId (resolveTenantWhere ambient)) with
  | none => .throw (.notFound "课次不存在")
  | some schedule =>
    if schedule.status = .cancelled then .throw (.badRequest "课次已取消")
    else
      let enrolled ← find (LessonRead.findClassStudent schedule.classId dto.studentId)
      if !enrolled then .throw (.forbidden "学员未加入该班级")
      else
        let leave ← find (LessonRead.findLeaveRequest dto.studentId dto.scheduleId)
        let now ← query .now
        let params : AttendanceParams :=
          { status := .leave, method := dto.method, checkInAt := some now,
            checkInLat := dto.latitude, checkInLng := dto.longitude, skipDeduct := true }
        if leave = some .approved then return params
        else if schedule.endsAt < now then return { params with status := .absent, checkInAt := none }
        else
          checkMethod outside dto schedule.venue now
          let graceEnd := schedule.startsAt + schedule.lateGraceMinutes * 60 * 1000
          return { params with
            status := if graceEnd < now then .late else .present
            skipDeduct := false
            deductAmount := some schedule.courseType.defaultLessonDeduct }

/-- What the `catch` makes of the error of `runWithBusinessLock`. -/
def lockError : LockFailure HttpException → HttpException
  | .redis | .BusinessLockBusyError _ => .internal
  | .onBusy error | .fn error => error
  | .LockOperationTimeoutError _ _ => .requestTimeout "签到处理超时，请稍后重试"

/-- The answer of the `try` block, by how the lock, `fn` and the release turn out. -/
def lockedAnswer (dto : CheckInDto) (acquireLock : Acquire)
    (fn : FnOutcome LessonResult HttpException) (releaseRejects : Bool) :
    Except HttpException LessonResult :=
  let env : Environment LessonResult HttpException :=
    { acquireLock := fun _ => acquireLock, fn, releaseRejects := fun _ => releaseRejects }
  match (runWithBusinessLocks env ["checkin:" ++ dto.studentId ++ ":" ++ dto.scheduleId]
    CHECKIN_LOCK_TTL_SECONDS
    { operationTimeoutMs := some CHECKIN_LOCK_OPERATION_TIMEOUT_MS
      onBusy := some (.conflict "签到处理中，请稍后重试") }).result with
  | .ok result => .ok result
  | .error failure => .error (lockError failure)

/-- With the lock, only a transaction that has resolved, and a release that does not reject,
answer well. -/
theorem lockedAnswer_token (dto : CheckInDto) (token : String)
    (fn : FnOutcome LessonResult HttpException) (releaseRejects : Bool) :
    lockedAnswer dto (.token token) fn releaseRejects =
      if releaseRejects then .error .internal
      else match fn with
        | .resolves result => .ok result
        | .rejects error => .error error
        | .outlives => .error (.requestTimeout "签到处理超时，请稍后重试") := by
  cases releaseRejects <;> cases fn <;>
    simp [lockedAnswer, lockError, runWithBusinessLocks, sortedResources, acquireLocks, releaseThen,
      releaseHeldBusinessLocks, releaseLoop]

theorem checkIn_eq (outside : Geofence) (ambient : Ambient) (dto : CheckInDto) :
    checkIn outside ambient dto =
      (checkInParams outside ambient dto).bind (upsertAttendance ambient dto.studentId dto.scheduleId) := by
  unfold checkIn checkInParams
  simp only [Prog.bind_eq, Prog.bind_assoc]
  refine congrArg _ (funext fun schedule => ?_)
  cases schedule with
  | none => rfl
  | some schedule =>
      simp only
      split
      · rfl
      · rw [Prog.bind_assoc]
        refine congrArg _ (funext fun enrolled => ?_)
        split
        · rfl
        · rw [Prog.bind_assoc]
          refine congrArg _ (funext fun leave => ?_)
          rw [Prog.bind_assoc]
          refine congrArg _ (funext fun now => ?_)
          split
          · rfl
          · split
            · rfl
            · rw [Prog.bind_assoc]
              rfl

/-! ### The race -/

/-- Where a call is. -/
inductive Phase where
  /-- Before `upsertAttendance`. -/
  | deciding (prog : LessonProg AttendanceParams)
  /-- At `acquireLock`. -/
  | locking (params : AttendanceParams)
  /-- Its transaction is under way since `since`, and has a connection since `began`; with a
  token it runs under the lock, against the timer. -/
  | transacting (token : Option String) (since : Int) (began : Option Int) (thread : LessonThread)
  /-- Rejected without a transaction. -/
  | over

structure CheckInCall where
  ambient : Ambient
  dto : CheckInDto
  phase : Phase
  answer : Option (Except HttpException LessonResult) := none
  /-- History: a step of the call has changed the tables. -/
  wrote : Bool := false

structure RaceWorld where
  db : LessonDb
  now : Int := 0
  calls : List CheckInCall := []

inductive CallAction where
  | run (env : Env)
  | acquireLock (reply : Acquire)
  /-- The timer fires before the transaction has been seen to end. -/
  | timer (releaseRejects : Bool)
  /-- The call sees that its transaction has ended. -/
  | settle (releaseRejects : Bool)
  /-- The database gives the transaction up. -/
  | abort

inductive RaceAction where
  | checkIn (ambient : Ambient) (dto : CheckInDto)
  | call (t : Nat) (a : CallAction)
  /-- Any other call leaves the database as `db`. -/
  | others (db : LessonDb)
  | pass (ms : Nat)

/-- The tables have changed. -/
def LessonDb.differs (db db' : LessonDb) : Bool :=
  !(decide (db'.cards.rows = db.cards.rows) && decide (db'.transactions.rows = db.transactions.rows) &&
    decide (db'.attendance.rows = db.attendance.rows))

/-- The transaction of `upsertAttendance`, about to start. -/
def CheckInCall.transact (call : CheckInCall) (params : AttendanceParams) (token : Option String)
    (now : Int) : Phase :=
  .transacting token now none
    ⟨.checkIn call.ambient call.dto,
      upsertAttendance call.ambient call.dto.studentId call.dto.scheduleId params, none⟩

/-- The limits of the transaction: it starts within `maxWait` and ends within `timeout`. -/
def withinLimits (now since : Int) : Option Int → Bool
  | none => decide (now ≤ since + maxWait)
  | some began => decide (now ≤ began + timeout)

/-- How the transaction has ended. -/
def outcome? (thread : LessonThread) : Option (FnOutcome LessonResult HttpException) :=
  match thread.tx, thread.prog with
  | none, .ret result => some (.resolves result)
  | _, .throw error => some (.rejects error)
  | _, _ => none

def settled : FnOutcome LessonResult HttpException → Option (Except HttpException LessonResult)
  | .resolves result => some (.ok result)
  | .rejects error => some (.error error)
  | .outlives => none

def CheckInCall.step (call : CheckInCall) (db : LessonDb) (now : Int) :
    CallAction → Option (CheckInCall × LessonDb)
  | .run env =>
      match call.phase with
      | .deciding (.stmt q k) =>
          let (reply, db') := lessonClient.engine.exec q env db
          some ({ call with phase := .deciding (k reply), wrote := call.wrote || db.differs db' }, db')
      | .deciding (.ret params) =>
          -- `needsDeduct`
          some ({ call with
            phase := if params.amountToDeduct.isSome then .locking params
              else call.transact params none now }, db)
      | .deciding (.throw error) =>
          some ({ call with phase := .over, answer := some (.error error) }, db)
      | .transacting token since began thread =>
          if withinLimits now since began then
            (thread.run lessonClient.engine db env).map fun next =>
              ({ call with
                phase := .transacting token since (began <|> some now) next.1
                wrote := call.wrote || db.differs next.2 }, next.2)
          else none
      | _ => none
  | .acquireLock reply =>
      match call.phase, reply with
      | .locking params, .token token =>
          some ({ call with phase := call.transact params (some token) now }, db)
      | .locking _, failed =>
          some ({ call with
            phase := .over, answer := some (lockedAnswer call.dto failed .outlives false) }, db)
      | _, _ => none
  | .timer releaseRejects =>
      match call.phase, call.answer with
      | .transacting (some token) since _ _, none =>
          if since + CHECKIN_LOCK_OPERATION_TIMEOUT_MS ≤ now then
            some ({ call with
              answer := some (lockedAnswer call.dto (.token token) .outlives releaseRejects) }, db)
          else none
      | _, _ => none
  | .settle releaseRejects =>
      match call.phase, call.answer with
      | .transacting token _ _ thread, none =>
          (outcome? thread).map fun fn =>
            ({ call with
              answer := match token with
                | some token => some (lockedAnswer call.dto (.token token) fn releaseRejects)
                | none => settled fn }, db)
      | _, _ => none
  | .abort =>
      match call.phase with
      | .transacting token since began thread =>
          if (outcome? thread).isSome then none
          else some ({ call with
            phase := .transacting token since began
              { thread with prog := .throw .internal, tx := none } }, db)
      | _ => none

/-- Check-ins, each against its timer, beside anything else that happens to the database. -/
def race (outside : Geofence) : Machine RaceWorld RaceAction where
  init w := w.calls = []
  step w
    | .checkIn ambient dto =>
        some { w with
          calls := w.calls ++ [{ ambient, dto, phase := .deciding (checkInParams outside ambient dto) }] }
    | .call t a =>
        match w.calls[t]? with
        | some call => (call.step w.db w.now a).map fun next =>
            { w with db := next.2, calls := w.calls.set t next.1 }
        | none => none
    | .others db => some { w with db }
    | .pass ms => some { w with now := w.now + ms }

/-! ### In time -/

/-- The transaction is at its commit. -/
def atCommit (thread : LessonThread) : Bool :=
  match thread.tx, thread.prog with
  | some _, .commit _ => true
  | _, _ => false

/-- The call waits for a committed transaction to be seen, before its timer. -/
def CheckInCall.awaits (call : CheckInCall) (now : Int) : Bool :=
  match call.phase, call.answer with
  | .transacting (some _) since _ thread, none =>
      !thread.result?.isSome || decide (now < since + CHECKIN_LOCK_OPERATION_TIMEOUT_MS)
  | _, _ => true

/-- A locked transaction commits before its timer, and its lock is then released without an
error. -/
def CheckInCall.inTime (call : CheckInCall) (now : Int) : CallAction → Bool
  | .run _ =>
      match call.phase with
      | .transacting (some _) since _ thread =>
          !atCommit thread || decide (now < since + CHECKIN_LOCK_OPERATION_TIMEOUT_MS)
      | _ => true
  | .settle true =>
      match call.phase with
      | .transacting (some _) _ _ thread => !thread.result?.isSome
      | _ => true
  | _ => true

/-- The run condition. -/
def InTime (w : RaceWorld) : RaceAction → Prop
  | .call t a => ∀ call ∈ w.calls[t]?, call.inTime w.now a = true
  | .pass ms => ∀ call ∈ w.calls, call.awaits (w.now + ms) = true
  | .checkIn _ _ | .others _ => True

instance (w : RaceWorld) : ∀ a, Decidable (InTime w a)
  | .call t a => inferInstanceAs (Decidable (∀ call ∈ w.calls[t]?, call.inTime w.now a = true))
  | .pass ms => inferInstanceAs (Decidable (∀ call ∈ w.calls, call.awaits (w.now + ms) = true))
  | .checkIn _ _ => .isTrue trivial
  | .others _ => .isTrue trivial

/-! ### What holds of a call -/

def IsRead : LessonStmt → Prop
  | .write _ => False
  | _ => True

theorem db_of_read {q : LessonStmt} (hq : IsRead q) (env : Env) (db : LessonDb) :
    (lessonClient.engine.exec q env db).2 = db := by
  cases q with
  | write w => exact hq.elim
  | _ => rfl

theorem find_reads {r : LessonRead} : (find r : LessonProg r.Row).Only IsRead := by
  refine ⟨trivial, fun reply => ?_⟩
  cases reply <;> trivial

theorem checkMethod_reads (outside : Geofence) (dto : CheckInDto) (venue : Venue) (now : Int) :
    (checkMethod outside dto venue now).Only IsRead := by
  unfold checkMethod
  split
  · trivial
  · split
    · trivial
    · refine find_reads.bind fun record => ?_
      split <;> trivial
  · split
    · split
      · split <;> trivial
      · trivial
    · trivial

theorem checkInParams_reads (outside : Geofence) (ambient : Ambient) (dto : CheckInDto) :
    (checkInParams outside ambient dto).Only IsRead := by
  refine find_reads.bind fun schedule => ?_
  split
  · trivial
  · split
    · trivial
    · refine find_reads.bind fun enrolled => ?_
      split
      · trivial
      · refine find_reads.bind fun leave => ⟨trivial, fun now => ?_⟩
        simp only [Prog.ret_bind]
        split
        · trivial
        · split
          · trivial
          · exact (checkMethod_reads outside dto _ now).bind fun _ => trivial

theorem LessonDb.differs_self (db : LessonDb) : db.differs db = false := by
  simp [LessonDb.differs]

/-- A transaction against its timer: it has written only if it has returned, and then it is
yet to be seen, before the timer, or has been answered well; the call is rejected only if it
has failed or the timer has fired. -/
structure Raced (call : CheckInCall) (now : Int) (token : Option String) (since : Int)
    (thread : LessonThread) : Prop where
  closes : thread.prog.Closes
  ready : thread.tx = none → ∀ q k, thread.prog ≠ .stmt q k
  wrote : call.wrote = true → thread.result?.isSome = true
  returned : thread.result?.isSome = true →
    call.answer = none ∧ (token.isSome = true → now < since + CHECKIN_LOCK_OPERATION_TIMEOUT_MS) ∨
      ∃ result, call.answer = some (.ok result)
  rejected : ∀ e, call.answer = some (.error e) → thread.prog.error?.isSome = true ∨
    token.isSome = true ∧ since + CHECKIN_LOCK_OPERATION_TIMEOUT_MS ≤ now
  answered : ∀ result, call.answer = some (.ok result) → thread.result?.isSome = true

def CheckInCall.Sound (call : CheckInCall) (now : Int) : Prop :=
  match call.phase with
  | .deciding prog => prog.Only IsRead ∧ call.answer = none ∧ call.wrote = false
  | .locking _ => call.answer = none ∧ call.wrote = false
  | .over => call.wrote = false
  | .transacting token since _ thread => Raced call now token since thread

theorem outcome?_returned {thread : LessonThread} (h : thread.result?.isSome = true) :
    ∃ result, outcome? thread = some (.resolves result) := by
  obtain ⟨call, prog, tx⟩ := thread
  cases tx with
  | some tx => cases h
  | none =>
      cases prog with
      | ret result => exact ⟨result, rfl⟩
      | _ => cases h

theorem outcome?_cases {thread : LessonThread} {fn : FnOutcome LessonResult HttpException}
    (h : outcome? thread = some fn) :
    (∃ result, fn = .resolves result ∧ thread.result?.isSome = true) ∨
      ∃ error, fn = .rejects error ∧ thread.prog = .throw error := by
  obtain ⟨call, prog, tx⟩ := thread
  cases prog with
  | ret result =>
      cases tx with
      | none =>
          cases h
          exact Or.inl ⟨result, rfl, rfl⟩
      | some tx => cases h
  | throw error =>
      have heq : outcome? (⟨call, .throw error, tx⟩ : LessonThread) = some (.rejects error) := by
        cases tx <;> rfl
      cases heq.symm.trans h
      exact Or.inr ⟨error, rfl, rfl⟩
  | _ => cases tx <;> cases h

theorem result?_of_error {thread : LessonThread} {e : HttpException} (h : thread.prog = .throw e) :
    thread.result? = none := by
  obtain ⟨call, prog, tx⟩ := thread
  subst h
  cases tx <;> rfl

/-! ### A step of a call -/

section Steps

variable {call : CheckInCall} {now : Int} {token : Option String} {since : Int} {thread : LessonThread}

theorem raced_start {params : AttendanceParams} (hanswer : call.answer = none) (hwrote : call.wrote = false) :
    Raced call now token since
      ⟨.checkIn call.ambient call.dto,
        upsertAttendance call.ambient call.dto.studentId call.dto.scheduleId params, none⟩ where
  closes := upsertAttendance_closes _ _ _ _
  ready := fun _ q k h => by cases h
  wrote := fun h => by simp [hwrote] at h
  returned := fun h => by cases h
  rejected := fun e h => by simp [hanswer] at h
  answered := fun result h => by simp [hanswer] at h

/-- A step of the transaction: it commits only before the timer. -/
theorem Raced.run {db db' : LessonDb} {env : Env} {thread' : LessonThread} {phase : Phase}
    (h : Raced call now token since thread)
    (hin : token.isSome = true → atCommit thread = true → now < since + CHECKIN_LOCK_OPERATION_TIMEOUT_MS)
    (hrun : thread.run lessonClient.engine db env = some (thread', db')) :
    Raced { call with phase, wrote := call.wrote || db.differs db' } now token since thread' := by
  obtain ⟨c, prog, tx⟩ := thread
  cases tx with
  | none =>
      cases prog with
      | ret _ | throw _ | commit _ => cases hrun
      | stmt q k => exact absurd rfl (h.ready rfl q k)
      | start isolation p =>
          cases hrun
          refine ⟨h.closes, fun hnone => (by cases hnone), fun hwrote => ?_, fun hdone => (by cases hdone),
            fun e he => ?_, fun result hresult => ?_⟩
          · rw [LessonDb.differs_self, Bool.or_false] at hwrote
            cases h.wrote hwrote
          · exact Or.inr ((h.rejected e he).resolve_left fun herror => by cases herror)
          · cases h.answered result hresult
  | some tx =>
      cases prog with
      | ret _ | throw _ | start _ _ => cases hrun
      | stmt q k =>
          obtain ⟨work, -, heq⟩ := Option.map_eq_some_iff.mp hrun
          cases heq
          refine ⟨h.closes _, fun hnone => (by cases hnone), fun hwrote => ?_, fun hdone => (by cases hdone),
            fun e he => ?_, fun result hresult => ?_⟩
          · rw [LessonDb.differs_self, Bool.or_false] at hwrote
            cases h.wrote hwrote
          · exact Or.inr ((h.rejected e he).resolve_left fun herror => by cases herror)
          · cases h.answered result hresult
      | commit p =>
          obtain ⟨work, -, heq⟩ := Option.map_eq_some_iff.mp hrun
          cases heq
          obtain ⟨a, rfl⟩ := h.closes
          have hpending : call.answer = none := by
            cases hanswer : call.answer with
            | none => rfl
            | some answer =>
                cases answer with
                | ok result => cases h.answered result hanswer
                | error e =>
                    rcases h.rejected e hanswer with herror | ⟨hlocked, hfired⟩
                    · cases herror
                    · have hearly := hin hlocked rfl
                      omega
          refine ⟨trivial, fun _ q k heq => (by cases heq), fun _ => rfl, fun _ => ?_, fun e he => ?_,
            fun _ _ => rfl⟩
          · exact Or.inl ⟨hpending, fun hlocked => hin hlocked rfl⟩
          · rw [hpending] at he
            cases he

/-- The timer fires: its transaction has not returned in time. -/
theorem Raced.timer {phase : Phase} {answer : Except HttpException LessonResult}
    (h : Raced call now token since thread)
    (hpending : call.answer = none) (hlocked : token.isSome = true)
    (hfired : since + CHECKIN_LOCK_OPERATION_TIMEOUT_MS ≤ now) (herror : ∀ result, answer ≠ .ok result) :
    Raced { call with phase, answer := some answer } now token since thread where
  closes := h.closes
  ready := h.ready
  wrote := h.wrote
  returned hdone := by
    rcases h.returned hdone with ⟨-, hearly⟩ | ⟨result, hanswer⟩
    · have hnow := hearly hlocked
      omega
    · rw [hpending] at hanswer
      cases hanswer
  rejected _ _ := Or.inr ⟨hlocked, hfired⟩
  answered result hanswer := absurd (Option.some.inj hanswer) (herror result)

/-- The end of the transaction is seen: it has returned and answers well, or it has failed. -/
theorem Raced.settle {phase : Phase} {answer : Except HttpException LessonResult}
    (h : Raced call now token since thread)
    (hend : (∃ result, answer = .ok result) ∧ thread.result?.isSome = true ∨
      (∃ e, answer = .error e) ∧ ∃ e, thread.prog = .throw e) :
    Raced { call with phase, answer := some answer } now token since thread := by
  refine ⟨h.closes, h.ready, h.wrote, fun hdone => ?_, fun e he => ?_, fun result hresult => ?_⟩
  · rcases hend with ⟨⟨result, rfl⟩, -⟩ | ⟨-, e, hthrow⟩
    · exact Or.inr ⟨result, rfl⟩
    · rw [result?_of_error hthrow] at hdone
      cases hdone
  · rcases hend with ⟨⟨result, rfl⟩, -⟩ | ⟨-, e, hthrow⟩
    · cases he
    · rw [hthrow]
      exact Or.inl rfl
  · rcases hend with ⟨-, hdone⟩ | ⟨⟨e, rfl⟩, -⟩
    · exact hdone
    · cases hresult

theorem Raced.abort {phase : Phase} (h : Raced call now token since thread) (hgoing : outcome? thread = none) :
    Raced { call with phase } now token since { thread with prog := .throw .internal, tx := none } := by
  have hnot : thread.result?.isSome = true → False := by
    intro hdone
    obtain ⟨result, houtcome⟩ := outcome?_returned hdone
    rw [hgoing] at houtcome
    cases houtcome
  exact ⟨trivial, fun _ q k heq => (by cases heq), fun hwrote => (hnot (h.wrote hwrote)).elim,
    fun hdone => (by cases hdone), fun _ _ => Or.inl rfl,
    fun result hresult => (hnot (h.answered result hresult)).elim⟩

theorem CheckInCall.Sound.step {a : CallAction} {db db' : LessonDb} {call' : CheckInCall}
    (h : call.Sound now) (hin : call.inTime now a = true) (hstep : call.step db now a = some (call', db')) :
    call'.Sound now := by
  cases a with
  | run env =>
      simp only [CheckInCall.step] at hstep
      split at hstep
      · rename_i q k hphase
        cases hstep
        simp only [CheckInCall.Sound, hphase] at h
        obtain ⟨⟨hread, hrest⟩, hanswer, hwrote⟩ := h
        refine ⟨hrest _, hanswer, ?_⟩
        simp only [hwrote, Bool.false_or]
        rw [db_of_read hread, LessonDb.differs_self]
      · rename_i params hphase
        cases hstep
        simp only [CheckInCall.Sound, hphase] at h
        obtain ⟨-, hanswer, hwrote⟩ := h
        cases params.amountToDeduct.isSome with
        | true => exact ⟨hanswer, hwrote⟩
        | false => exact raced_start hanswer hwrote
      · rename_i error hphase
        cases hstep
        simp only [CheckInCall.Sound, hphase] at h
        exact h.2.2
      · rename_i token since began thread hphase
        split at hstep
        · obtain ⟨⟨thread', db₁⟩, hrun, heq⟩ := Option.map_eq_some_iff.mp hstep
          cases heq
          simp only [CheckInCall.Sound, hphase] at h
          refine h.run (fun hlocked hcommit => ?_) hrun
          obtain ⟨token, rfl⟩ := Option.isSome_iff_exists.mp hlocked
          simpa [CheckInCall.inTime, hphase, hcommit] using hin
        · cases hstep
      · cases hstep
  | acquireLock reply =>
      simp only [CheckInCall.step] at hstep
      split at hstep
      · rename_i params token hphase
        cases hstep
        simp only [CheckInCall.Sound, hphase] at h
        exact raced_start h.1 h.2
      · rename_i params hphase _
        cases hstep
        simp only [CheckInCall.Sound, hphase] at h
        exact h.2
      · cases hstep
  | timer releaseRejects =>
      simp only [CheckInCall.step] at hstep
      split at hstep
      · rename_i token since began thread hphase hanswer
        split at hstep
        · rename_i hfired
          cases hstep
          simp only [CheckInCall.Sound, hphase] at h ⊢
          refine h.timer hanswer rfl hfired fun result => ?_
          rw [lockedAnswer_token]
          cases releaseRejects <;> simp
        · cases hstep
      · cases hstep
  | settle releaseRejects =>
      simp only [CheckInCall.step] at hstep
      split at hstep
      · rename_i token since began thread hphase hanswer
        obtain ⟨fn, houtcome, heq⟩ := Option.map_eq_some_iff.mp hstep
        cases heq
        simp only [CheckInCall.Sound, hphase] at h ⊢
        rcases outcome?_cases houtcome with ⟨result, rfl, hdone⟩ | ⟨error, rfl, hthrow⟩
        · cases token with
          | none => exact h.settle (Or.inl ⟨⟨result, rfl⟩, hdone⟩)
          | some token =>
              -- In time, the release after a commit does not reject.
              have hreleased : releaseRejects = false := by
                cases releaseRejects with
                | false => rfl
                | true => simp [CheckInCall.inTime, hphase, hdone] at hin
              subst hreleased
              refine h.settle (Or.inl ⟨⟨result, ?_⟩, hdone⟩)
              rw [lockedAnswer_token]
              rfl
        · cases token with
          | none => exact h.settle (Or.inr ⟨⟨error, rfl⟩, error, hthrow⟩)
          | some token =>
              refine h.settle (Or.inr ⟨?_, error, hthrow⟩)
              rw [lockedAnswer_token]
              cases releaseRejects <;> exact ⟨_, rfl⟩
      · cases hstep
  | abort =>
      simp only [CheckInCall.step] at hstep
      split at hstep
      · rename_i token since began thread hphase
        split at hstep
        · cases hstep
        · rename_i hgoing
          cases hstep
          simp only [CheckInCall.Sound, hphase] at h
          exact h.abort (by simpa using hgoing)
      · cases hstep

/-- Time passes: a committed transaction that is yet to be seen is so before its timer. -/
theorem CheckInCall.Sound.pass {later : Int} (h : call.Sound now) (hle : now ≤ later)
    (hawaits : call.awaits later = true) : call.Sound later := by
  unfold CheckInCall.Sound at h ⊢
  split
  · rename_i prog hphase
    simpa only [hphase] using h
  · rename_i params hphase
    simpa only [hphase] using h
  · rename_i hphase
    simpa only [hphase] using h
  · rename_i token since began thread hphase
    simp only [hphase] at h
    refine ⟨h.closes, h.ready, h.wrote, fun hdone => ?_, fun e he => ?_, h.answered⟩
    · rcases h.returned hdone with ⟨hpending, -⟩ | hanswered
      · refine Or.inl ⟨hpending, fun hlocked => ?_⟩
        obtain ⟨token, rfl⟩ := Option.isSome_iff_exists.mp hlocked
        simpa [CheckInCall.awaits, hphase, hpending, hdone] using hawaits
      · exact Or.inr hanswered
    · rcases h.rejected e he with herror | ⟨hlocked, hfired⟩
      · exact Or.inl herror
      · exact Or.inr ⟨hlocked, by omega⟩

/-- A rejected call has written nothing. -/
theorem CheckInCall.Sound.untouched {e : HttpException} (h : call.Sound now)
    (hrejected : call.answer = some (.error e)) : call.wrote = false := by
  unfold CheckInCall.Sound at h
  split at h
  · exact h.2.2
  · exact h.2
  · exact h
  · refine Bool.eq_false_iff.mpr fun hwrote => ?_
    rcases h.returned (h.wrote hwrote) with ⟨hpending, -⟩ | ⟨result, hanswered⟩
    · rw [hpending] at hrejected
      cases hrejected
    · rw [hanswered] at hrejected
      cases hrejected

end Steps

theorem race_step {outside : Geofence} {w w' : RaceWorld} {a : RaceAction}
    (h : ∀ call ∈ w.calls, call.Sound w.now) (hok : InTime w a) (hstep : (race outside).step w a = some w') :
    ∀ call ∈ w'.calls, call.Sound w'.now := by
  intro call hcall
  cases a with
  | checkIn ambient dto =>
      cases hstep
      rcases List.mem_append.mp hcall with hold | hnew
      · exact h call hold
      · rw [List.mem_singleton.mp hnew]
        exact ⟨checkInParams_reads outside ambient dto, rfl, rfl⟩
  | call t a =>
      simp only [race] at hstep
      split at hstep
      · rename_i found hfound
        obtain ⟨⟨call', db'⟩, hcallStep, heq⟩ := Option.map_eq_some_iff.mp hstep
        cases heq
        rcases List.mem_or_eq_of_mem_set hcall with hold | rfl
        · exact h call hold
        · exact (h found (List.mem_of_getElem? hfound)).step (hok found hfound) hcallStep
      · cases hstep
  | others db =>
      cases hstep
      exact h call hcall
  | pass ms =>
      cases hstep
      exact (h call hcall).pass (Int.le_add_of_nonneg_right (Int.natCast_nonneg ms)) (hok call hcall)

/-- **A rejected check-in leaves the tables as they were**, in every state of every run in
which a locked transaction commits and is seen to before its timer, and its lock is then
released without an error. -/
theorem rejected_untouched (outside : Geofence) {w : RaceWorld}
    (h : (race outside).ReachableBy InTime w) :
    ∀ call ∈ w.calls, ∀ e, call.answer = some (.error e) → call.wrote = false := by
  have hsound : ∀ call ∈ w.calls, call.Sound w.now :=
    h.invariant (I := fun w => ∀ call ∈ w.calls, call.Sound w.now)
      (fun w hinit call hcall => by
        have hempty : w.calls = [] := hinit
        simp [hempty] at hcall)
      fun w a w' hw hok hstep => race_step hw hok hstep
  exact fun call hcall e hrejected => (hsound call hcall).untouched hrejected

/-- `n` steps of call `t`. -/
def callSteps (t n : Nat) : List RaceAction := List.replicate n (.call t (.run {}))

/-- A manual check-in, up to the lock. -/
def toLock (t : Nat) : List RaceAction :=
  .checkIn administrator { studentId := "st1", scheduleId := "s1", method := .manual } :: callSteps t 5

/-- One check-in finds the lock taken, the other one commits one millisecond before its
timer. -/
def inTimeRace : List RaceAction :=
  toLock 0 ++ [.call 0 (.acquireLock (.token "token"))] ++
  toLock 1 ++ [.call 1 (.acquireLock .null), .pass 4000] ++
  callSteps 0 7 ++ [.pass 9999] ++ callSteps 0 1 ++ [.call 0 (.settle false)]

theorem rejected_untouched_busy :
    ∃ w, (race nowhere).exec { db := oneCardDb } inTimeRace = some w ∧
      w.calls.map CheckInCall.wrote = [true, false] ∧
      ∀ call ∈ w.calls, ∀ e, call.answer = some (.error e) → call.wrote = false := by
  refine ⟨_, (Option.some_get (by decide +kernel)).symm, by decide +kernel, ?_⟩
  exact rejected_untouched nowhere
    (Machine.reachableBy_exec_get rfl (by decide +kernel) (by decide +kernel))

/-- Answered 408 after 14 seconds, committed afterwards; and committed, but its lock released
with an error. -/
def lateCommit : List RaceAction :=
  toLock 0 ++ [.call 0 (.acquireLock (.token "token"))] ++ callSteps 0 7 ++
  [.pass 14000, .call 0 (.timer false)] ++ callSteps 0 1

def lostRelease : List RaceAction :=
  toLock 0 ++ [.call 0 (.acquireLock (.token "token"))] ++ callSteps 0 8 ++ [.call 0 (.settle true)]

/-- The error a call has been rejected with, if it has changed the tables. -/
def CheckInCall.wronglyRejected (call : CheckInCall) : Option HttpException :=
  match call.answer with
  | some (.error e) => if call.wrote then some e else none
  | _ => none

theorem wronglyRejected_some {call : CheckInCall} {e : HttpException}
    (h : call.wronglyRejected = some e) : call.answer = some (.error e) ∧ call.wrote = true := by
  unfold CheckInCall.wronglyRejected at h
  split at h
  · rename_i hanswer
    split at h
    · rename_i hwrote
      cases h
      exact ⟨hanswer, hwrote⟩
    · cases h
  · cases h

/-- In some run a check-in is answered with `e` and its write stands. -/
def RejectsThoughWritten (e : HttpException) : Prop :=
  ∃ w, (race nowhere).Reachable w ∧ ∃ call ∈ w.calls, call.answer = some (.error e) ∧ call.wrote = true

theorem rejectsThoughWritten_of_exec (as : List RaceAction) {e : HttpException}
    (h : ((race nowhere).exec { db := oneCardDb } as).isSome)
    (hcalls : (Option.get _ h).calls.map CheckInCall.wronglyRejected = [some e]) :
    RejectsThoughWritten e := by
  refine ⟨_, Machine.reachableBy_exec_get rfl (Machine.admits_true _ _) h, ?_⟩
  have hmem : some e ∈ (Option.get _ h).calls.map CheckInCall.wronglyRejected := by simp [hcalls]
  obtain ⟨call, hcall, heq⟩ := List.mem_map.mp hmem
  exact ⟨call, hcall, wronglyRejected_some heq⟩

theorem rejected_though_written :
    RejectsThoughWritten (.requestTimeout "签到处理超时，请稍后重试") ∧ RejectsThoughWritten .internal := by
  constructor
  · exact rejectsThoughWritten_of_exec lateCommit (by decide +kernel) (by decide +kernel)
  · exact rejectsThoughWritten_of_exec lostRelease (by decide +kernel) (by decide +kernel)

end MibServer.Lessons
