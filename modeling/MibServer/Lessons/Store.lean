import MibServer.Courses.Rows
import MibServer.Prisma
import MibServer.Tenancy.Extension

/-!
The tables behind lesson balances and the Prisma calls the services make on them.

The cards, the ledger and the attendance records are indexed tables; what the calls
read and never write is a `School`. Students, schedules and cards have a `tenantId`, and a
statement on them carries the clause that the tenant extension adds to its `where`.
-/

namespace MibServer.Lessons

open MibServer.Lib MibServer.Prisma MibServer.Courses MibServer.Tenancy

/-! ### Rows -/

inductive MembershipStatus where
  | active | expired | frozen
deriving DecidableEq, Repr

inductive LeaveStatus where
  | pending | approved | rejected
deriving DecidableEq, Repr

inductive AttendanceMethod where
  | qr | manual | gps
deriving DecidableEq, Repr

inductive AttendanceStatus where
  | present | late | absent | leave
deriving DecidableEq, Repr

/-- A row of `MembershipCard`; the audit columns are left out. -/
structure MembershipCard where
  id : String
  tenantId : Option String
  studentId : String
  title : String
  totalLessons : Int
  remainingLessons : Int
  validFrom : Int
  validTo : Int
  status : MembershipStatus
  version : Int
deriving DecidableEq, Repr

/-- The primary key. -/
def MembershipCard.keys (c : MembershipCard) : List String := [c.id]

/-- A row of `LessonTransaction`; the audit columns and `metadata` are left out. -/
structure LessonTransaction where
  membershipId : String
  studentId : String
  delta : Int
  reason : String
  scheduleId : Option String
  businessKey : String
  beforeRemaining : Int
  afterRemaining : Int
deriving DecidableEq, Repr

inductive LedgerKey where
  | businessKey (key : String)
  | membershipSchedule (membershipId scheduleId : String)
deriving DecidableEq, Repr

/-- `businessKey` and `@@unique([membershipId, scheduleId])`, the latter only where
`scheduleId` is not null. -/
def LessonTransaction.keys (t : LessonTransaction) : List LedgerKey :=
  .businessKey t.businessKey ::
    (t.scheduleId.map (LedgerKey.membershipSchedule t.membershipId)).toList

structure AttendanceRecord where
  studentId : String
  scheduleId : String
  status : AttendanceStatus
  method : AttendanceMethod
  checkInAt : Option Int
  checkInLat : Option Coordinate
  checkInLng : Option Coordinate
deriving DecidableEq, Repr

/-- `@@unique([studentId, scheduleId])` -/
def AttendanceRecord.keys (r : AttendanceRecord) : List (String × String) :=
  [(r.studentId, r.scheduleId)]

/-- The `include` of a check-in: a schedule with its venue and the course type of its
class. -/
structure ScheduleDetails extends Schedule where
  venue : Venue
  courseType : CourseType
deriving DecidableEq, Repr

structure ScheduleQrToken where
  scheduleId : String
  token : String
  expiresAt : Int
deriving DecidableEq, Repr

/-- The rows these calls read and never write; a student is present with its
`tenantId`. -/
structure School where
  student : String → Option (Option String)
  schedule : String → Option ScheduleDetails
  enrolled : String → String → Bool
  leave : String → String → Option LeaveStatus
  qrTokens : List ScheduleQrToken

/-- The schedule of this id, if the caller sees it. -/
def School.findSchedule (school : School) (id : String) (scope : Option TenantWhereClause) :
    Option ScheduleDetails :=
  (school.schedule id).filter fun s => inScope scope s.tenantId

/-- The database. `opening` is a history variable: the balance a card had when its
ledger was empty, set where a card is created. -/
structure LessonDb where
  school : School
  cards : Indexed MembershipCard String MembershipCard.keys
  transactions : Indexed LessonTransaction LedgerKey LessonTransaction.keys
  attendance : Indexed AttendanceRecord (String × String) AttendanceRecord.keys
  opening : String → Int

/-! ### Statements -/

/-- `scope` is the clause the tenant extension adds to the `where`. -/
inductive LessonRead where
  | findStudent (id : String) (scope : Option TenantWhereClause)
  | findSchedule (id : String) (scope : Option TenantWhereClause)
  | findClassStudent (classId studentId : String)
  | findLeaveRequest (studentId scheduleId : String)
  | findQrToken (scheduleId token : String) (now : Int)
  | findCard (id : String) (scope : Option TenantWhereClause)
  | findActiveCards (studentId : String) (now : Int) (scope : Option TenantWhereClause)
  | findCheckInTransaction (studentId scheduleId businessKey reason : String)

/-- The columns `membershipCard.update` sets. -/
structure MembershipCardData where
  studentId : Option String
  title : Option String
  totalLessons : Option Int
  remainingLessons : Option Int
  validFrom : Option Int
  validTo : Option Int
  status : Option MembershipStatus

/-- The `where` and `data` of a `membershipCard.updateMany`: by id, and by version and
minimal balance where given; the balance and the version are incremented. -/
structure CardIncrement where
  id : String
  scope : Option TenantWhereClause
  version : Option Int := none
  minimum : Option Int := none
  remainingLessons : Int
  versionIncrement : Int := 0

inductive LessonWrite where
  | createCard (card : MembershipCard)
  | updateCard (id : String) (scope : Option TenantWhereClause) (data : MembershipCardData)
  | updateManyCards (update : CardIncrement)
  | createTransaction (row : LessonTransaction)
  | upsertAttendance (row : AttendanceRecord)

@[reducible] def LessonRead.Row : LessonRead → Type
  | .findStudent _ _ => Option (Option String)
  | .findSchedule _ _ => Option ScheduleDetails
  | .findClassStudent _ _ => Bool
  | .findLeaveRequest _ _ => Option LeaveStatus
  | .findQrToken _ _ _ => Option ScheduleQrToken
  | .findCard _ _ => Option MembershipCard
  | .findActiveCards _ _ _ => List (String × Int)
  | .findCheckInTransaction _ _ _ _ => Option LessonTransaction

@[reducible] def LessonWrite.Row : LessonWrite → Type
  | .createCard _ => MembershipCard
  | .updateCard _ _ _ => MembershipCard
  | .updateManyCards _ => Nat
  | .createTransaction _ => LessonTransaction
  | .upsertAttendance _ => AttendanceRecord

instance (r : LessonRead) : DecidableEq r.Row := by
  cases r <;> exact inferInstance

instance (w : LessonWrite) : DecidableEq w.Row := by
  cases w <;> exact inferInstance

abbrev LessonStmt := Stmt LessonRead LessonWrite

abbrev LessonStmt.Reply : LessonStmt → Type := Stmt.Reply LessonRead.Row LessonWrite.Row

/-! ### Reads -/

/-- The tables as lists of rows. -/
structure LessonRows where
  school : School
  cards : List MembershipCard
  transactions : List LessonTransaction

def LessonDb.rows (db : LessonDb) : LessonRows where
  school := db.school
  cards := db.cards.rows
  transactions := db.transactions.rows

/-- A card the caller sees. -/
def MembershipCard.visible (c : MembershipCard) (scope : Option TenantWhereClause) : Bool :=
  inScope scope c.tenantId

/-- `ACTIVE` and valid at `now`. -/
def MembershipCard.usable (c : MembershipCard) (studentId : String) (now : Int) : Bool :=
  c.studentId == studentId && c.status == .active && decide (c.validFrom ≤ now) &&
    decide (now ≤ c.validTo)

/-- `{ OR: [{ businessKey }, { scheduleId, reason, studentId }] }` -/
def LessonTransaction.isCheckIn (t : LessonTransaction)
    (studentId scheduleId businessKey reason : String) : Bool :=
  t.businessKey == businessKey ||
    t.scheduleId == some scheduleId && t.reason == reason && t.studentId == studentId

def LessonRows.find (rows : LessonRows) : (r : LessonRead) → r.Row
  | .findStudent id scope => (rows.school.student id).filter (inScope scope)
  | .findSchedule id scope => rows.school.findSchedule id scope
  | .findClassStudent classId studentId => rows.school.enrolled classId studentId
  | .findLeaveRequest studentId scheduleId => rows.school.leave studentId scheduleId
  | .findQrToken scheduleId token now =>
      rows.school.qrTokens.find? fun t =>
        t.scheduleId == scheduleId && t.token == token && decide (now < t.expiresAt)
  | .findCard id scope => rows.cards.find? fun c => c.id == id && c.visible scope
  | .findActiveCards studentId now scope =>
      ((rows.cards.filter fun c => c.usable studentId now && c.visible scope).mergeSort
        fun a b => decide (a.validTo ≤ b.validTo)).map fun c => (c.id, c.remainingLessons)
  | .findCheckInTransaction studentId scheduleId businessKey reason =>
      rows.transactions.find? fun t => t.isCheckIn studentId scheduleId businessKey reason

theorem findCard_id {cards : List MembershipCard} {id : String} {scope : Option TenantWhereClause}
    {card : MembershipCard}
    (h : cards.find? (fun c => c.id == id && c.visible scope) = some card) : card.id = id := by
  have hcard := List.find?_some h
  rw [Bool.and_eq_true, beq_iff_eq] at hcard
  exact hcard.1

/-- The rows a consistent read sees. -/
def LessonRows.visible (snapshot base work : LessonRows) : LessonRows where
  school := snapshot.school
  cards := overlay MembershipCard.id snapshot.cards base.cards work.cards
  transactions :=
    overlay LessonTransaction.businessKey snapshot.transactions base.transactions work.transactions

/-! ### Writes -/

/-- Selected by the `where` of an `updateMany`. -/
def CardIncrement.selects (u : CardIncrement) (c : MembershipCard) : Bool :=
  c.id == u.id && u.version.all (· == c.version) && u.minimum.all (· ≤ c.remainingLessons) &&
    c.visible u.scope

def CardIncrement.apply (u : CardIncrement) (c : MembershipCard) : MembershipCard :=
  { c with
    remainingLessons := c.remainingLessons + u.remainingLessons
    version := c.version + u.versionIncrement }

def MembershipCardData.apply (data : MembershipCardData) (c : MembershipCard) : MembershipCard :=
  { c with
    studentId := data.studentId.getD c.studentId
    title := data.title.getD c.title
    totalLessons := data.totalLessons.getD c.totalLessons
    remainingLessons := data.remainingLessons.getD c.remainingLessons
    validFrom := data.validFrom.getD c.validFrom
    validTo := data.validTo.getD c.validTo
    status := data.status.getD c.status }

/-- The `update` of the attendance upsert: a coordinate left out keeps its value. -/
def AttendanceRecord.overwrite (new old : AttendanceRecord) : AttendanceRecord :=
  { old with
    status := new.status
    method := new.method
    checkInAt := new.checkInAt
    checkInLat := new.checkInLat <|> old.checkInLat
    checkInLng := new.checkInLng <|> old.checkInLng }

def AttendanceRecord.isFor (r : AttendanceRecord) (studentId scheduleId : String) : Bool :=
  r.studentId == studentId && r.scheduleId == scheduleId

namespace LessonDb

/-- The foreign keys of a ledger row. -/
def admitsTransaction (db : LessonDb) (row : LessonTransaction) : Bool :=
  (db.cards.rows.any fun c => c.id == row.membershipId) &&
    row.scheduleId.all fun id => (db.school.schedule id).isSome

def createCard (db : LessonDb) (card : MembershipCard) : Except DbError MembershipCard × LessonDb :=
  if (db.school.student card.studentId).isSome then
    match db.cards.insert? card with
    | some cards =>
        (.ok card, { db with
          cards, opening := Function.update db.opening card.id card.remainingLessons })
    | none => (.error .uniqueViolation, db)
  else (.error .other, db)

/-- Prisma refuses the `where` of a scoped update, whose unique field the extension has nested
under `AND`. -/
def updateCard (db : LessonDb) (id : String) (scope : Option TenantWhereClause)
    (data : MembershipCardData) : Except DbError MembershipCard × LessonDb :=
  match scope, db.cards.rows.find? fun c => c.id == id with
  | none, some card =>
      if (db.school.student (data.apply card).studentId).isSome then
        (.ok (data.apply card), { db with
          cards := db.cards.modify (fun c => c.id == id) data.apply fun _ => rfl })
      else (.error .other, db)
  | _, _ => (.error .other, db)

def updateManyCards (db : LessonDb) (u : CardIncrement) : Nat × LessonDb :=
  (db.cards.rows.countP u.selects,
    { db with cards := db.cards.modify u.selects u.apply fun _ => rfl })

def createTransaction (db : LessonDb) (row : LessonTransaction) :
    Except DbError LessonTransaction × LessonDb :=
  if db.admitsTransaction row then
    match db.transactions.insert? row with
    | some transactions => (.ok row, { db with transactions })
    | none => (.error .uniqueViolation, db)
  else (.error .other, db)

def upsertAttendance (db : LessonDb) (row : AttendanceRecord) :
    Except DbError AttendanceRecord × LessonDb :=
  match db.attendance.rows.find? fun r => r.isFor row.studentId row.scheduleId with
  | some old =>
      (.ok (row.overwrite old), { db with
        attendance := db.attendance.modify (fun r => r.isFor row.studentId row.scheduleId)
          row.overwrite fun _ => rfl })
  | none =>
      match db.attendance.insert? row with
      | some attendance => (.ok row, { db with attendance })
      | none => (.error .uniqueViolation, db)

def write (db : LessonDb) : (w : LessonWrite) → Except DbError w.Row × LessonDb
  | .createCard card => db.createCard card
  | .updateCard id scope data => db.updateCard id scope data
  | .updateManyCards u => (.ok (db.updateManyCards u).1, (db.updateManyCards u).2)
  | .createTransaction row => db.createTransaction row
  | .upsertAttendance row => db.upsertAttendance row

end LessonDb

def lessonClient : Client LessonDb LessonRows LessonRead LessonWrite LessonRead.Row LessonWrite.Row where
  rows := LessonDb.rows
  find := LessonRows.find
  visible := LessonRows.visible
  visible_self _ _ := by simp [LessonRows.visible]
  write := LessonDb.write

theorem lessonClient_write (db : LessonDb) (w : LessonWrite) : lessonClient.write db w = db.write w :=
  rfl

abbrev LessonProg := Prog LessonStmt LessonStmt.Reply HttpException

/-! ### What the statements do -/

/-- The card with the id of `u` incremented. -/
def LessonDb.increment (db : LessonDb) (u : CardIncrement) : LessonDb :=
  { db with cards := db.cards.modify (fun c => c.id == u.id) u.apply fun _ => rfl }

namespace LessonDb

theorem mem_increment {db : LessonDb} {u : CardIncrement} {c : MembershipCard} :
    c ∈ (db.increment u).cards.rows ↔
      ∃ c₀ ∈ db.cards.rows, (if c₀.id == u.id then u.apply c₀ else c₀) = c :=
  List.mem_map

/-- Two cards with one id are one card. -/
theorem card_eq {db : LessonDb} {c c' : MembershipCard} (h : c ∈ db.cards.rows)
    (h' : c' ∈ db.cards.rows) (hid : c.id = c'.id) : c = c' :=
  db.cards.unique.eq_of_mem (k := c.id) h h' (by simp [MembershipCard.keys])
    (by simp [MembershipCard.keys, hid])

theorem selects_id {u : CardIncrement} {c : MembershipCard} (h : u.selects c = true) :
    c.id = u.id := by
  simp only [CardIncrement.selects, Bool.and_eq_true, beq_iff_eq] at h
  exact h.1.1.1

/-- An `updateMany` by id increments no card, or the one card it selects. -/
theorem updateManyCards_cases (db : LessonDb) (u : CardIncrement) :
    (∀ card ∈ db.cards.rows, u.selects card = false) ∧ db.updateManyCards u = (0, db) ∨
      ∃ card ∈ db.cards.rows, u.selects card = true ∧ db.updateManyCards u = (1, db.increment u) := by
  rcases db.cards.unique.select_cases (k := u.id) (p := u.selects)
    fun c _ hsel => by simp [MembershipCard.keys, selects_id hsel] with
    ⟨hnone, hcount⟩ | ⟨card, hmem, hcard, hcount, hselects⟩
  · have hcards : db.cards.modify u.selects u.apply (fun _ => rfl) = db.cards :=
      Indexed.ext ((List.map_congr_left (g := id) fun c hc => by simp [hnone c hc]).trans
        (List.map_id _))
    exact Or.inl ⟨hnone, by rw [updateManyCards, hcount, hcards]⟩
  · have hcards : db.cards.modify u.selects u.apply (fun _ => rfl) =
        db.cards.modify (fun c => c.id == u.id) u.apply (fun _ => rfl) := by
      refine Indexed.ext (List.map_congr_left fun c hc => if_congr ?_ rfl rfl)
      rw [hselects c hc]
      simp [MembershipCard.keys, @eq_comm _ u.id]
    exact Or.inr ⟨card, hmem, hcard, by rw [updateManyCards, hcount, hcards]; rfl⟩

end LessonDb

end MibServer.Lessons
