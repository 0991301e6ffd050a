import MibServer.Courses.ResourceLock
import MibServer.Courses.Rows
import MibServer.Lib.Machine

/-!
`CoursesService.createSchedule`, `updateSchedule` and `deleteSchedule`, and the
machine of any number of such calls.

A `$transaction` body is one state-passing function on `ScheduleDb`: it runs as
one atomic step, and an `Except.error` rolls it back. What a call does before its
transaction is a step of its own, so the row `getSchedule` returned may be stale
when the transaction runs. The Redis locks around the transactions only reduce
contention and are not modelled; `giveUp` covers a call that ends without its
transaction committing, for whatever reason.
-/

namespace MibServer.Courses

open MibServer.Lib

structure ScheduleDb where
  schedules : ScheduleTable
  locks : LockTable

/-- The rows a schedule refers to, which these calls never change: the tenant of
each class, and which venues and coaches exist. -/
structure Catalogue where
  classTenant : String → Option (Option String)
  hasVenue : String → Bool
  hasCoach : String → Bool

structure CreateScheduleDto where
  classId : String
  venueId : String
  coachId : String
  startsAt : JsDate
  endsAt : JsDate
  lateGraceMinutes : Option Int
  status : Option ScheduleStatus

/-- `PartialType(CreateScheduleDto)` -/
structure UpdateScheduleDto where
  classId : Option String := none
  venueId : Option String := none
  coachId : Option String := none
  startsAt : Option JsDate := none
  endsAt : Option JsDate := none
  lateGraceMinutes : Option Int := none
  status : Option ScheduleStatus := none

/-- `if (!(startsAt < endsAt)) throw` -/
def checkWindow (startsAt endsAt : JsDate) : Except HttpException (Int × Int) :=
  match startsAt, endsAt with
  | some s, some e => if s < e then .ok (s, e) else .error (.badRequest "??????")
  | _, _ => .error (.badRequest "??????")

/-- The lock insert with its errors turned into HTTP exceptions. -/
def applyResourceLocks (locks : LockTable) (scheduleId coachId venueId : String)
    (startsAt endsAt : Int) : Except HttpException LockTable :=
  match insertScheduleResourceLocks locks scheduleId coachId venueId startsAt endsAt with
  | .ok locks' => .ok locks'
  | .error .scheduleResourceConflict =>
      .error (.badRequest "coach or venue is already booked for this time slot")
  | .error .scheduleEmptyTimeRange => .error (.badRequest "invalid time range")

/-- The foreign keys of a schedule row. -/
def Catalogue.admits (cat : Catalogue) (s : Schedule) : Bool :=
  (cat.classTenant s.classId).isSome && cat.hasVenue s.venueId && cat.hasCoach s.coachId

/-- `createSchedule`; `id` is the `uuid()` default of the row. -/
def createSchedule (cat : Catalogue) (db : ScheduleDb) (id : String) (dto : CreateScheduleDto) :
    Except HttpException (ScheduleDb × Schedule) := do
  let (startsAt, endsAt) ← checkWindow dto.startsAt dto.endsAt
  let tenantId ← orThrow (cat.classTenant dto.classId)
  let schedule : Schedule :=
    { id, tenantId, classId := dto.classId, venueId := dto.venueId, coachId := dto.coachId,
      startsAt, endsAt, lateGraceMinutes := dto.lateGraceMinutes.getD 15,
      status := dto.status.getD .scheduled }
  require (cat.admits schedule) .internal
  let schedules ← orThrow (db.schedules.insert? schedule)
  let locks ← applyResourceLocks db.locks id dto.coachId dto.venueId startsAt endsAt
  return ({ schedules, locks }, schedule)

/-- The row visible under `id`; a caller to whom it is not visible gives up. -/
def getSchedule (db : ScheduleDb) (id : String) : Except HttpException Schedule :=
  match db.schedules.rows.find? fun s => s.id == id with
  | some s => .ok s
  | none => .error (.notFound "?????")

/-- What `updateSchedule` holds when its transaction starts: its arguments, the
row it read, and the window it checked. -/
structure UpdateCall where
  id : String
  dto : UpdateScheduleDto
  current : Schedule
  startsAt : Int
  endsAt : Int

/-- `updateSchedule` up to its transaction. -/
def updateScheduleBegin (db : ScheduleDb) (id : String) (dto : UpdateScheduleDto) :
    Except HttpException UpdateCall := do
  let current ← getSchedule db id
  let (startsAt, endsAt) ← checkWindow (dto.startsAt.getD (some current.startsAt))
    (dto.endsAt.getD (some current.endsAt))
  return { id, dto, current, startsAt, endsAt }

def UpdateCall.coachId (call : UpdateCall) : String :=
  call.dto.coachId.getD call.current.coachId

def UpdateCall.venueId (call : UpdateCall) : String :=
  call.dto.venueId.getD call.current.venueId

/-- The `data` of `schedule.update`: a column the DTO leaves out keeps its value.
An Invalid Date never gets here, `checkWindow` has rejected it. -/
def UpdateScheduleDto.apply (dto : UpdateScheduleDto) (row : Schedule) : Schedule :=
  { row with
    classId := dto.classId.getD row.classId
    venueId := dto.venueId.getD row.venueId
    coachId := dto.coachId.getD row.coachId
    startsAt := dto.startsAt.join.getD row.startsAt
    endsAt := dto.endsAt.join.getD row.endsAt
    lateGraceMinutes := dto.lateGraceMinutes.getD row.lateGraceMinutes
    status := dto.status.getD row.status }

/-- The transaction of `updateSchedule`. -/
def updateScheduleTx (cat : Catalogue) (db : ScheduleDb) (call : UpdateCall) :
    Except HttpException (ScheduleDb × Schedule) := do
  let released := releaseScheduleResourceLocks db.locks call.id
  let row ← orThrow (db.schedules.rows.find? fun s => s.id == call.id)
  let schedule := call.dto.apply row
  require (cat.admits schedule) .internal
  let schedules ← orThrow
    (db.schedules.updateWhere? (fun s => s.id == call.id) call.dto.apply)
  let locks ← (if schedule.status ≠ .cancelled then
      applyResourceLocks released call.id call.coachId call.venueId call.startsAt call.endsAt
    else .ok released)
  return ({ schedules, locks }, schedule)

/-- The transaction of `deleteSchedule`. -/
def deleteScheduleTx (db : ScheduleDb) (id : String) : Except HttpException ScheduleDb := do
  let locks := releaseScheduleResourceLocks db.locks id
  let schedules ← orThrow
    (db.schedules.updateWhere? (fun s => s.id == id) fun s => { s with status := .cancelled })
  return { schedules, locks }

/-! ### What each operation leaves in the tables -/

theorem getSchedule_ok {db : ScheduleDb} {id : String} {s : Schedule}
    (h : getSchedule db id = .ok s) : s ∈ db.schedules.rows ∧ s.id = id := by
  unfold getSchedule at h
  split at h
  · rename_i hfind
    cases h
    exact ⟨List.mem_of_find?_eq_some hfind, by simpa using List.find?_some hfind⟩
  · cases h

theorem checkWindow_ok {startsAt endsAt : JsDate} {window : Int × Int}
    (h : checkWindow startsAt endsAt = .ok window) :
    startsAt = some window.1 ∧ endsAt = some window.2 ∧ window.1 < window.2 := by
  unfold checkWindow at h
  split at h
  · split at h
    · cases h
      exact ⟨rfl, rfl, ‹_›⟩
    · cases h
  · cases h

theorem mem_applyResourceLocks {locks locks' : LockTable} {scheduleId coachId venueId : String}
    {startsAt endsAt : Int}
    (h : applyResourceLocks locks scheduleId coachId venueId startsAt endsAt = .ok locks')
    {row : ScheduleResourceLock} :
    row ∈ locks'.rows ↔ row ∈ locks.rows ∨
      row ∈ buildScheduleResourceLockRows scheduleId coachId venueId startsAt endsAt := by
  unfold applyResourceLocks at h
  split at h
  · rename_i hinsert
    cases h
    exact mem_insertScheduleResourceLocks hinsert
  · cases h
  · cases h

/-- The lock rows a schedule row calls for. -/
def Schedule.lockRows (s : Schedule) : List ScheduleResourceLock :=
  buildScheduleResourceLockRows s.id s.coachId s.venueId s.startsAt s.endsAt

/-- A created schedule joins the table together with its lock rows. -/
theorem createSchedule_ok {cat : Catalogue} {db db' : ScheduleDb} {id : String}
    {dto : CreateScheduleDto} {schedule : Schedule}
    (h : createSchedule cat db id dto = .ok (db', schedule)) :
    (∀ s, s ∈ db'.schedules.rows ↔ s ∈ db.schedules.rows ∨ s = schedule) ∧
      ∀ lock, lock ∈ db'.locks.rows ↔ lock ∈ db.locks.rows ∨ lock ∈ schedule.lockRows := by
  obtain ⟨⟨startsAt, endsAt⟩, -, h⟩ := bind_ok h
  obtain ⟨tenantId, -, h⟩ := bind_ok h
  obtain ⟨-, -, h⟩ := bind_ok h
  obtain ⟨schedules, hinsert, h⟩ := bind_ok h
  obtain ⟨locks, hlocks, h⟩ := bind_ok h
  cases h
  exact ⟨fun s => Indexed.mem_insert? (orThrow_ok hinsert), fun lock => mem_applyResourceLocks hlocks⟩

/-- An update rewrites the row as it is stored when the transaction runs, but
takes the locks of the window, coach and venue computed from the row read
before. -/
theorem updateScheduleTx_ok {cat : Catalogue} {db db' : ScheduleDb} {call : UpdateCall}
    {schedule : Schedule} (h : updateScheduleTx cat db call = .ok (db', schedule)) :
    (∃ row ∈ db.schedules.rows, row.id = call.id ∧ schedule = call.dto.apply row) ∧
      (∀ s ∈ db'.schedules.rows, s ∈ db.schedules.rows ∧ s.id ≠ call.id ∨
        ∃ row ∈ db.schedules.rows, row.id = call.id ∧ s = call.dto.apply row) ∧
      ∀ lock, lock ∈ db'.locks.rows ↔ lock ∈ db.locks.rows ∧ lock.scheduleId ≠ call.id ∨
        schedule.status ≠ .cancelled ∧ lock ∈ buildScheduleResourceLockRows call.id
          call.coachId call.venueId call.startsAt call.endsAt := by
  obtain ⟨row, hfind, h⟩ := bind_ok h
  obtain ⟨-, -, h⟩ := bind_ok h
  obtain ⟨schedules, hupdate, h⟩ := bind_ok h
  obtain ⟨locks, hlocks, h⟩ := bind_ok h
  cases h
  have hrow := orThrow_ok hfind
  refine ⟨⟨row, List.mem_of_find?_eq_some hrow, by simpa using List.find?_some hrow, rfl⟩, ?_, ?_⟩
  · intro s hs
    obtain ⟨row', hmem, rfl⟩ := (Indexed.mem_updateWhere? (orThrow_ok hupdate)).mp hs
    by_cases hid : row'.id = call.id
    · exact Or.inr ⟨row', hmem, hid, by simp [hid]⟩
    · exact Or.inl (by simpa [hid] using hmem)
  · intro lock
    split at hlocks
    · rename_i hactive
      rw [mem_applyResourceLocks hlocks, mem_releaseScheduleResourceLocks]
      simp [hactive]
    · rename_i hcancelled
      cases hlocks
      rw [mem_releaseScheduleResourceLocks]
      simp [hcancelled]

/-- A deletion cancels the row and releases its locks. -/
theorem deleteScheduleTx_ok {db db' : ScheduleDb} {id : String}
    (h : deleteScheduleTx db id = .ok db') :
    (∀ s ∈ db'.schedules.rows, s ∈ db.schedules.rows ∧ s.id ≠ id ∨ s.status = .cancelled) ∧
      ∀ lock, lock ∈ db'.locks.rows ↔ lock ∈ db.locks.rows ∧ lock.scheduleId ≠ id := by
  obtain ⟨schedules, hupdate, h⟩ := bind_ok h
  cases h
  refine ⟨fun s hs => ?_, fun lock => mem_releaseScheduleResourceLocks⟩
  obtain ⟨row, hmem, rfl⟩ := (Indexed.mem_updateWhere? (orThrow_ok hupdate)).mp hs
  by_cases hid : row.id = id
  · exact Or.inr (by simp [hid])
  · exact Or.inl (by simpa [hid] using hmem)

/-! ### Any number of calls -/

/-- A call whose transaction has not run yet. -/
inductive Call where
  | updating (call : UpdateCall)
  | deleting (id : String)

structure State where
  db : ScheduleDb
  pending : Nat → Option Call

inductive Action where
  | createSchedule (id : String) (dto : CreateScheduleDto)
  | updateBegin (c : Nat) (id : String) (dto : UpdateScheduleDto)
  | updateCommit (c : Nat)
  | deleteBegin (c : Nat) (id : String)
  | deleteCommit (c : Nat)
  | giveUp (c : Nat)

/-- The database after an operation: unchanged if it threw. -/
def committed (db : ScheduleDb) : Except HttpException ScheduleDb → ScheduleDb
  | .ok db' => db'
  | .error _ => db

/-- Set what call `c` is doing. -/
def State.setCall (s : State) (c : Nat) (call : Option Call) : State :=
  { s with pending := Function.update s.pending c call }

/-- Leave the tables as an operation left them. -/
def State.store (s : State) (outcome : Except HttpException ScheduleDb) : State :=
  { s with db := committed s.db outcome }

def step (cat : Catalogue) (s : State) : Action → Option State
  | .createSchedule id dto => some (s.store ((createSchedule cat s.db id dto).map Prod.fst))
  | .updateBegin c id dto =>
      some (s.setCall c ((updateScheduleBegin s.db id dto).toOption.map Call.updating))
  | .updateCommit c =>
      match s.pending c with
      | some (.updating call) =>
          some ((s.setCall c none).store ((updateScheduleTx cat s.db call).map Prod.fst))
      | _ => none
  | .deleteBegin c id =>
      some (s.setCall c ((getSchedule s.db id).toOption.map fun _ => Call.deleting id))
  | .deleteCommit c =>
      match s.pending c with
      | some (.deleting id) => some ((s.setCall c none).store (deleteScheduleTx s.db id))
      | _ => none
  | .giveUp c => some (s.setCall c none)

def start : State := { db := { schedules := ∅, locks := ∅ }, pending := fun _ => none }

/-- Any number of schedule calls, their steps interleaved in any order, from
empty tables. -/
def scheduling (cat : Catalogue) : Machine State Action where
  init s := s = start
  step := step cat

end MibServer.Courses
