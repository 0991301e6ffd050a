import Mathlib.Algebra.Order.Field.Rat
import MibServer.Billing.Revenue
import MibServer.Lessons.Store
import MibServer.Lib.References

/-!
The rows without a `tenantId` of their own, and the calls that go to them directly.

`AttendanceRecord`, `LessonTransaction`, `LeaveRequest`, `ClassStudent`, `StudentTag` and
`StudentGroup` are not among `TENANT_SCOPED_MODELS`, so the extension passes a call on them on
as it is (`sent_of_unscoped`): what these services see and write does not depend on the user.
All tables are one indexed table of rows of every model; of students, tags and groups a row has
the columns that say which and whose it is. The tables of course types, venues and coaches are
left out, and with them the references to their rows. A child row refers to its parents
(`StoredRow.parents`).
-/

namespace MibServer.Tenancy

open MibServer.Lib MibServer.Billing

/-! ### Rows -/

/-- A row of `AttendanceRecord` with the time of its check-out. -/
structure AttendanceRow extends Lessons.AttendanceRecord where
  checkOutAt : Option Int
deriving DecidableEq, Repr

/-- A row of `LessonTransaction` with the time it was written. -/
structure LedgerRow extends Lessons.LessonTransaction where
  createdAt : Int
deriving DecidableEq, Repr

structure LeaveRequest where
  id : String
  studentId : String
  scheduleId : String
  status : Lessons.LeaveStatus
deriving DecidableEq, Repr

inductive StoredRow where
  | student (id : String) (tenantId : Option String)
  | klass (row : Courses.Class)
  | schedule (row : Courses.Schedule)
  | card (row : Lessons.MembershipCard)
  | tag (id : String)
  | group (id : String)
  | attendance (record : AttendanceRow)
  | ledger (entry : LedgerRow)
  | leave (request : LeaveRequest)
  | classStudent (classId studentId : String)
  | studentTag (studentId tagId : String)
  | studentGroup (studentId groupId : String)
deriving DecidableEq, Repr

/-- The entries of the unique indexes; of two rows with one `uuid()` there is none. -/
inductive Entry where
  | student (id : String)
  | klass (id : String)
  | schedule (id : String)
  | card (id : String)
  | tag (id : String)
  | group (id : String)
  | attendance (studentId scheduleId : String)
  | ledger (key : Lessons.LedgerKey)
  | leave (studentId scheduleId : String)
  | classStudent (classId studentId : String)
  | studentTag (studentId tagId : String)
  | studentGroup (studentId groupId : String)
deriving DecidableEq, Repr

namespace StoredRow

def entries : StoredRow → List Entry
  | .student id _ => [.student id]
  | .klass row => [.klass row.id]
  | .schedule row => [.schedule row.id]
  | .card row => [.card row.id]
  | .tag id => [.tag id]
  | .group id => [.group id]
  | .attendance record => [.attendance record.studentId record.scheduleId]
  | .ledger entry => entry.keys.map Entry.ledger
  | .leave request => [.leave request.studentId request.scheduleId]
  | .classStudent classId studentId => [.classStudent classId studentId]
  | .studentTag studentId tagId => [.studentTag studentId tagId]
  | .studentGroup studentId groupId => [.studentGroup studentId groupId]

/-- The foreign keys of a row. -/
def parents : StoredRow → List Entry
  | .student _ _ | .klass _ | .tag _ | .group _ => []
  | .schedule row => [.klass row.classId]
  | .card row => [.student row.studentId]
  | .attendance record => [.student record.studentId, .schedule record.scheduleId]
  | .ledger entry => [.card entry.membershipId, .student entry.studentId] ++
      (entry.scheduleId.map Entry.schedule).toList
  | .leave request => [.student request.studentId, .schedule request.scheduleId]
  | .classStudent classId studentId => [.klass classId, .student studentId]
  | .studentTag studentId tagId => [.student studentId, .tag tagId]
  | .studentGroup studentId groupId => [.student studentId, .group groupId]

/-- The `tenantId` of a student, class, schedule or card. -/
def tenantId : StoredRow → Option String
  | .student _ tenantId => tenantId
  | .klass row => row.tenantId
  | .schedule row => row.tenantId
  | .card row => row.tenantId
  | _ => none

def attendance? : StoredRow → Option AttendanceRow
  | .attendance record => some record
  | _ => none

def ledger? : StoredRow → Option LedgerRow
  | .ledger entry => some entry
  | _ => none

end StoredRow

abbrev Database := Indexed StoredRow Entry StoredRow.entries

/-! ### The client -/

/-- The arguments of a call with this `where`. No call of these services takes a page, and
what it creates is no matter here: the extension reads `create` of an upsert only, and only on
a model it scopes. -/
def argsOf (where_ : StoredRow → Bool) (created : StoredRow) : Args StoredRow where
  where? := some (.caller fun r => where_ r.fields)
  page := id
  page_subset := List.Subset.refl
  related _ := []
  data? := none
  change := ⟨none, id⟩
  create := ⟨none, created⟩

/-- The `where` of a call as the extension sends it. -/
def sent (ambient : Ambient) (model : Model) (operation : Operation) (where_ : StoredRow → Bool) :
    StoredRow → Bool :=
  fun r =>
    ((prismaTenantExtension ambient model operation (argsOf where_ r)).args.where?.getD .empty).holds
      ⟨r.tenantId, r⟩

theorem sent_of_unscoped {model : Model} (hmodel : model ∉ TENANT_SCOPED_MODELS) (ambient : Ambient)
    (operation : Operation) (where_ : StoredRow → Bool) :
    sent ambient model operation where_ = where_ := by
  funext r
  unfold sent prismaTenantExtension
  rw [if_pos hmodel]
  rfl

/-! ### Replies -/

structure ByStatus where
  PRESENT : Nat := 0
  LATE : Nat := 0
  ABSENT : Nat := 0
  LEAVE : Nat := 0
deriving DecidableEq, Repr

/-- The rate is the quotient before it is rounded to a double. -/
structure AttendanceSummary where
  totalRecords : Nat
  byStatus : ByStatus
  attendanceRate : ℚ
deriving DecidableEq

inductive Reply where
  | summary (summary : AttendanceSummary)
  | consumption (totalDeductedLessons : Int)
  | attendance (record : AttendanceRow)
  | leave (request : LeaveRequest)
  | ok
deriving DecidableEq

/-! ### The statistics -/

structure AttendanceStatisticsQueryDto extends StatisticsDateRangeQueryDto where
  studentId : Option String := none
  classId : Option String := none

structure LessonStatisticsQueryDto extends StatisticsDateRangeQueryDto where
  studentId : Option String := none

/-- The bounds of a query; Prisma rejects an Invalid Date. -/
def bounds (newDate : String → JsDate) (params : StatisticsDateRangeQueryDto) :
    Except HttpException (Option Int × Option Int) := do
  let gte ← validBound ((truthy params.from?).map newDate)
  let lte ← validBound ((truthy params.to?).map newDate)
  return (gte, lte)

/-- A `where` on schedules. -/
structure ScheduleWhere where
  gte : Option Int
  lte : Option Int
  classId : Option String

/-- `Object.keys(scheduleWhere).length` is zero. -/
def ScheduleWhere.isEmpty (w : ScheduleWhere) : Bool :=
  w.gte.isNone && w.lte.isNone && w.classId.isNone

def ScheduleWhere.admits (w : ScheduleWhere) (classId : String) (startsAt : Int) : Bool :=
  between w.gte w.lte (some startsAt) && w.classId.all (· == classId)

/-- The relation filter `{ schedule: w }` on a row of this schedule. -/
def ScheduleWhere.holds (w : ScheduleWhere) (db : Database) (scheduleId : String) : Bool :=
  match db.row? (.schedule scheduleId) with
  | some (.schedule row) => w.admits row.classId row.startsAt
  | _ => false

/-- `byStatus[r.status] = (byStatus[r.status] || 0) + 1` -/
def ByStatus.count (byStatus : ByStatus) : Lessons.AttendanceStatus → ByStatus
  | .present => { byStatus with PRESENT := byStatus.PRESENT + 1 }
  | .late => { byStatus with LATE := byStatus.LATE + 1 }
  | .absent => { byStatus with ABSENT := byStatus.ABSENT + 1 }
  | .leave => { byStatus with LEAVE := byStatus.LEAVE + 1 }

def summarize (records : List AttendanceRow) : AttendanceSummary :=
  let byStatus := records.foldl (fun byStatus r => byStatus.count r.status) {}
  let total := records.length
  let attended : Nat := byStatus.PRESENT + byStatus.LATE
  { totalRecords := total
    byStatus
    attendanceRate := if total ≠ 0 then (attended : ℚ) / total else 0 }

/-- `card` is one of the student. -/
def ofStudent (studentId : String) : Option StoredRow → Bool
  | some (.card row) => studentId == row.studentId
  | _ => false

/-- `new Date(text)`, the time, and the `uuid()` of a row that is created. -/
structure CallEnv where
  newDate : String → JsDate
  now : Int
  id : String

namespace Database

variable (db : Database) (ambient : Ambient) (env : CallEnv)

/-- The `where` of `attendanceSummary`: `studentId` and `schedule` where they are given. -/
def attendanceWhere (studentId : Option String) (w : ScheduleWhere) (r : AttendanceRow) : Bool :=
  studentId.all (· == r.studentId) && (w.isEmpty || w.holds db r.scheduleId)

/-- `attendanceRecord.findMany` -/
def attendanceRecords (studentId : Option String) (w : ScheduleWhere) : List AttendanceRow :=
  (db.rows.filter (sent ambient .AttendanceRecord .findMany fun r =>
    r.attendance?.any (db.attendanceWhere studentId w))).filterMap StoredRow.attendance?

def attendanceSummary (params : AttendanceStatisticsQueryDto) : Except HttpException Reply := do
  let (gte, lte) ← bounds env.newDate params.toStatisticsDateRangeQueryDto
  return .summary (summarize
    (db.attendanceRecords ambient (truthy params.studentId) ⟨gte, lte, truthy params.classId⟩))

/-- The `where` of `lessonConsumption`: a negative `delta`, the student of the card and the
bounds where they are given. -/
def ledgerWhere (studentId : Option String) (gte lte : Option Int) (t : LedgerRow) : Bool :=
  decide (t.delta < 0) && studentId.all (fun s => ofStudent s (db.row? (.card t.membershipId))) &&
    between gte lte (some t.createdAt)

/-- The rows `lessonTransaction.aggregate` adds up. -/
def ledgerEntries (studentId : Option String) (gte lte : Option Int) : List LedgerRow :=
  (db.rows.filter (sent ambient .LessonTransaction .aggregate fun r =>
    r.ledger?.any (db.ledgerWhere studentId gte lte))).filterMap StoredRow.ledger?

/-- The sum over no rows is null, and taken for zero. -/
def lessonConsumption (params : LessonStatisticsQueryDto) : Except HttpException Reply := do
  let (gte, lte) ← bounds env.newDate params.toStatisticsDateRangeQueryDto
  return .consumption
    (-((db.ledgerEntries ambient (truthy params.studentId) gte lte).map fun t => t.delta).sum)

/-! ### The writes -/

/-- The row a unique `where` selects. -/
def find? (model : Model) (operation : Operation) (e : Entry) : Option StoredRow :=
  db.rows.find? (sent ambient model operation fun r => decide (e ∈ r.entries))

/-- `delete({ where })` on a unique key: an error where there is no row. -/
def deleteUnique (model : Model) (e : Entry) : Except HttpException Reply × Database :=
  match db.find? ambient model .delete e with
  | some _ => (.ok .ok, db.deleteWhere (sent ambient model .delete fun r => decide (e ∈ r.entries)))
  | none => (.error .internal, db)

def unenrollStudent (classId studentId : String) : Except HttpException Reply × Database :=
  db.deleteUnique ambient .ClassStudent (.classStudent classId studentId)

def removeTag (studentId tagId : String) : Except HttpException Reply × Database :=
  db.deleteUnique ambient .StudentTag (.studentTag studentId tagId)

def removeGroup (studentId groupId : String) : Except HttpException Reply × Database :=
  db.deleteUnique ambient .StudentGroup (.studentGroup studentId groupId)

end Database

/-- `{ checkOutAt: new Date() }` -/
def StoredRow.checkOut (now : Int) : StoredRow → StoredRow
  | .attendance record => .attendance { record with checkOutAt := some now }
  | r => r

theorem StoredRow.entries_checkOut (now : Int) (r : StoredRow) :
    (r.checkOut now).entries = r.entries := by
  cases r <;> rfl

/-- `{ status: LeaveStatus.APPROVED }` -/
def StoredRow.approve : StoredRow → StoredRow
  | .leave request => .leave { request with status := .approved }
  | r => r

theorem StoredRow.entries_approve (r : StoredRow) : r.approve.entries = r.entries := by
  cases r <;> rfl

namespace Database

variable (db : Database) (ambient : Ambient) (env : CallEnv)

def checkOut (studentId scheduleId : String) : Except HttpException Reply × Database :=
  let e := Entry.attendance studentId scheduleId
  match db.find? ambient .AttendanceRecord .findUnique e with
  | some (.attendance record) =>
      (.ok (.attendance { record with checkOutAt := some env.now }),
        db.modify (sent ambient .AttendanceRecord .update fun r => decide (e ∈ r.entries))
          (StoredRow.checkOut env.now) (StoredRow.entries_checkOut env.now))
  | _ => (.error (.notFound "无签到记录"), db)

/-- The upsert of `createLeaveRequest`. A request for a student or a schedule that is not
there violates a foreign key. -/
def createLeaveRequest (studentId scheduleId : String) : Except HttpException Reply × Database :=
  let e := Entry.leave studentId scheduleId
  match db.find? ambient .LeaveRequest .upsert e with
  | some (.leave request) =>
      (.ok (.leave { request with status := .approved }),
        db.modify (sent ambient .LeaveRequest .upsert fun r => decide (e ∈ r.entries)) StoredRow.approve
          StoredRow.entries_approve)
  | _ =>
      let request : LeaveRequest := { id := env.id, studentId, scheduleId, status := .approved }
      match db.row? (.student studentId), db.row? (.schedule scheduleId),
        db.insert? (.leave request) with
      | some _, some _, some db' => (.ok (.leave request), db')
      | _, _, _ => (.error .internal, db)

end Database

/-! ### Calls -/

inductive ChildCall where
  | attendanceSummary (params : AttendanceStatisticsQueryDto)
  | lessonConsumption (params : LessonStatisticsQueryDto)
  | checkOut (studentId scheduleId : String)
  | createLeaveRequest (studentId scheduleId : String)
  | unenrollStudent (classId studentId : String)
  | removeTag (studentId tagId : String)
  | removeGroup (studentId groupId : String)

/-- The reply of a call, and the tables it leaves. -/
def ChildCall.run (ambient : Ambient) (env : CallEnv) (db : Database) :
    ChildCall → Except HttpException Reply × Database
  | .attendanceSummary params => (db.attendanceSummary ambient env params, db)
  | .lessonConsumption params => (db.lessonConsumption ambient env params, db)
  | .checkOut studentId scheduleId => db.checkOut ambient env studentId scheduleId
  | .createLeaveRequest studentId scheduleId => db.createLeaveRequest ambient env studentId scheduleId
  | .unenrollStudent classId studentId => db.unenrollStudent ambient classId studentId
  | .removeTag studentId tagId => db.removeTag ambient studentId tagId
  | .removeGroup studentId groupId => db.removeGroup ambient studentId groupId

end MibServer.Tenancy
