import MibServer.Courses.ScheduleService
import MibServer.Lessons.Store
import MibServer.Lib.Label
import MibServer.Tenancy.Stamping

/-!
The calls that write a row with foreign keys, run by users of any tenants.

`CoursesService` and `MembershipsService` take the ids of other rows from their DTOs. Here
every call runs in the ambience of its user: what it creates is stored under `storedTenant`,
what it looks up through the extension is `Admitted`. A call has two steps, the checks it
makes first and its one write or transaction; any number of calls interleave.

Prisma's own refusals end a call without a write (`giveUp`). Whether it takes an update
whose `where` the extension has nested under `AND` is left open that way too.
-/

namespace MibServer.Courses

open MibServer.Lib MibServer.Tenancy

/-! ### The tables -/

structure CourseDb where
  courseTypes : CourseTypeTable
  venues : VenueTable
  classes : ClassTable
  classStudents : ClassStudentTable
  scheduling : ScheduleDb
  cards : Indexed Lessons.MembershipCard String Lessons.MembershipCard.keys

/-- The `tenantId` of each coach and each student; these calls write neither. -/
structure Roster where
  coach : String → Option (Option String)
  student : String → Option (Option String)

namespace CourseDb

/-- The `tenantId` of a row, `none` where there is no row of this id. -/
def courseType (db : CourseDb) : String → Option (Option String) :=
  db.courseTypes.labelOf CourseType.tenantId

def venue (db : CourseDb) : String → Option (Option String) := db.venues.labelOf Venue.tenantId

def klass (db : CourseDb) : String → Option (Option String) := db.classes.labelOf Class.tenantId

def schedule (db : CourseDb) : String → Option (Option String) :=
  db.scheduling.schedules.labelOf Schedule.tenantId

def card (db : CourseDb) : String → Option (Option String) :=
  db.cards.labelOf Lessons.MembershipCard.tenantId

end CourseDb

/-! ### Calls of the extended client -/

/-- `findUnique({ where: { id } })` of a scoped model: the row, if it is admitted. -/
def findVisible {R : Type} {keys : R → List String} (ambient : Ambient) (table : Indexed R String keys)
    (tenantId : R → Option String) (id : String) : Option R :=
  table.rows.find? fun r => decide (id ∈ keys r) && decide (Admitted ambient (tenantId r))

/-! ### The services -/

structure CreateCourseTypeDto where
  kind : CourseKind
  name : String
  defaultLessonDeduct : Option Int

structure CreateVenueDto where
  name : String
  address : Option String
  latitude : Option Coordinate
  longitude : Option Coordinate
  geofenceRadiusM : Option Int

structure CreateClassDto where
  courseTypeId : String
  name : String
  coachId : Option String
  maxStudents : Option Int

/-- `PartialType(CreateClassDto)`: a column left out, or set; a nullable one also to null.
Null for another column is refused by Prisma. -/
structure UpdateClassDto where
  courseTypeId : Option String := none
  name : Option String := none
  coachId : Option (Option String) := none
  maxStudents : Option (Option Int) := none

structure CreateMembershipDto where
  studentId : String
  title : String
  totalLessons : Int
  remainingLessons : Int
  validFrom : JsDate
  validTo : JsDate
  status : Option Lessons.MembershipStatus

/-- `PartialType(CreateMembershipDto)` -/
structure UpdateMembershipDto where
  studentId : Option String := none
  title : Option String := none
  totalLessons : Option Int := none
  remainingLessons : Option Int := none
  validFrom : Option JsDate := none
  validTo : Option JsDate := none
  status : Option Lessons.MembershipStatus := none

section Services

variable (ambient : Ambient) (roster : Roster) (db : CourseDb)

def createCourseType (id : String) (dto : CreateCourseTypeDto) : Except HttpException CourseDb := do
  let courseTypes ← orThrow (db.courseTypes.insert?
    { id, tenantId := storedTenant ambient none, kind := dto.kind, name := dto.name,
      defaultLessonDeduct := dto.defaultLessonDeduct.getD 1 })
  return { db with courseTypes }

/-- `venue.create({ data: dto })` -/
def createVenue (id : String) (dto : CreateVenueDto) : Except HttpException CourseDb := do
  let venues ← orThrow (db.venues.insert?
    { id, tenantId := storedTenant ambient none, name := dto.name, address := dto.address,
      latitude := dto.latitude, longitude := dto.longitude, geofenceRadiusM := dto.geofenceRadiusM })
  return { db with venues }

/-- The foreign keys of a class row. -/
def Class.references (k : Class) : Bool :=
  (db.courseType k.courseTypeId).isSome && k.coachId.all fun coachId => (roster.coach coachId).isSome

def createClass (id : String) (dto : CreateClassDto) : Except HttpException CourseDb := do
  let row : Class :=
    { id, tenantId := storedTenant ambient none, courseTypeId := dto.courseTypeId, name := dto.name,
      coachId := dto.coachId, maxStudents := dto.maxStudents }
  require (row.references roster db) .internal
  let classes ← orThrow (db.classes.insert? row)
  return { db with classes }

def getClass (id : String) : Except HttpException Class :=
  match findVisible ambient db.classes Class.tenantId id with
  | some k => .ok k
  | none => .error (.notFound "?????")

/-- The `data` of `class.update`. -/
def UpdateClassDto.apply (dto : UpdateClassDto) (k : Class) : Class :=
  { k with
    courseTypeId := dto.courseTypeId.getD k.courseTypeId
    name := dto.name.getD k.name
    coachId := dto.coachId.getD k.coachId
    maxStudents := dto.maxStudents.getD k.maxStudents }

/-- `updateClass` after its `getClass`. -/
def updateClass (id : String) (dto : UpdateClassDto) : Except HttpException CourseDb := do
  let k ← orThrow (findVisible ambient db.classes Class.tenantId id)
  require ((dto.apply k).references roster db) .internal
  let classes ← orThrow (db.classes.updateWhere? (fun k => k.id == id) dto.apply)
  return { db with classes }

/-- `enrollStudent` after its `getClass`. -/
def enrollStudent (classId studentId : String) : Except HttpException CourseDb := do
  require ((db.klass classId).isSome && (roster.student studentId).isSome) .internal
  match db.classStudents.insert? { classId, studentId } with
  | some classStudents => return { db with classStudents }
  | none => .error (.conflict "????????")

/-- What the schedule calls find of the other tables: a new schedule is stored under its
class's tenant, which the `findFirstOrThrow` has read past the filter. -/
def catalogue : Catalogue where
  classTenant classId := (db.klass classId).map (storedTenant ambient)
  hasVenue venueId := (db.venue venueId).isSome
  hasCoach coachId := (roster.coach coachId).isSome

def createScheduleCall (id : String) (dto : CreateScheduleDto) : Except HttpException CourseDb := do
  let (scheduling, _) ← createSchedule (catalogue ambient roster db) db.scheduling id dto
  return { db with scheduling }

/-- `updateSchedule` after its `getSchedule`. -/
def updateScheduleCall (call : UpdateCall) : Except HttpException CourseDb := do
  let (scheduling, _) ← updateScheduleTx (catalogue ambient roster db) db.scheduling call
  return { db with scheduling }

/-- `MembershipsService.create` after it has found the student, of tenant `tenantId`. -/
def createMembership (id : String) (dto : CreateMembershipDto) (tenantId : Option String) :
    Except HttpException CourseDb := do
  let validFrom ← orThrow dto.validFrom
  let validTo ← orThrow dto.validTo
  require (roster.student dto.studentId).isSome .internal
  let cards ← orThrow (db.cards.insert?
    { id, tenantId := storedTenant ambient tenantId, studentId := dto.studentId, title := dto.title,
      totalLessons := dto.totalLessons, remainingLessons := dto.remainingLessons, validFrom, validTo,
      status := dto.status.getD .active, version := 0 })
  return { db with cards }

/-- The `data` of `membershipCard.update`. -/
def UpdateMembershipDto.apply (dto : UpdateMembershipDto) (m : Lessons.MembershipCard) :
    Lessons.MembershipCard :=
  { m with
    studentId := dto.studentId.getD m.studentId
    title := dto.title.getD m.title
    totalLessons := dto.totalLessons.getD m.totalLessons
    remainingLessons := dto.remainingLessons.getD m.remainingLessons
    validFrom := dto.validFrom.join.getD m.validFrom
    validTo := dto.validTo.join.getD m.validTo
    status := dto.status.getD m.status }

/-- `MembershipsService.update` after its `findOne`; an Invalid Date is refused by Prisma. -/
def updateMembership (id : String) (dto : UpdateMembershipDto) : Except HttpException CourseDb := do
  let m ← orThrow (findVisible ambient db.cards Lessons.MembershipCard.tenantId id)
  require (dto.validFrom ≠ some none && dto.validTo ≠ some none &&
    (roster.student (dto.apply m).studentId).isSome) .internal
  let cards ← orThrow (db.cards.updateWhere? (fun m => m.id == id) dto.apply)
  return { db with cards }

end Services

/-! ### Any number of calls -/

/-- A request of one of the services; `id` is the `uuid()` default of the row it creates. -/
inductive Request where
  | createCourseType (id : String) (dto : CreateCourseTypeDto)
  | createVenue (id : String) (dto : CreateVenueDto)
  | createClass (id : String) (dto : CreateClassDto)
  | updateClass (id : String) (dto : UpdateClassDto)
  | enrollStudent (classId studentId : String)
  | createSchedule (id : String) (dto : CreateScheduleDto)
  | updateSchedule (id : String) (dto : UpdateScheduleDto)
  | createMembership (id : String) (dto : CreateMembershipDto)
  | updateMembership (id : String) (dto : UpdateMembershipDto)

/-- A request past its checks: with the schedule an update has read, or the tenant of the
student a card is for. -/
inductive Checked where
  | createCourseType (id : String) (dto : CreateCourseTypeDto)
  | createVenue (id : String) (dto : CreateVenueDto)
  | createClass (id : String) (dto : CreateClassDto)
  | updateClass (id : String) (dto : UpdateClassDto)
  | enrollStudent (classId studentId : String)
  | createSchedule (id : String) (dto : CreateScheduleDto)
  | updateSchedule (call : UpdateCall)
  | createMembership (id : String) (dto : CreateMembershipDto) (tenantId : Option String)
  | updateMembership (id : String) (dto : UpdateMembershipDto)

/-- What a request does before its write. -/
def Request.check (ambient : Ambient) (roster : Roster) (db : CourseDb) :
    Request → Except HttpException Checked
  | .createCourseType id dto => .ok (.createCourseType id dto)
  | .createVenue id dto => .ok (.createVenue id dto)
  | .createClass id dto => .ok (.createClass id dto)
  | .updateClass id dto => do
      let _ ← getClass ambient db id
      return .updateClass id dto
  | .enrollStudent classId studentId => do
      let _ ← getClass ambient db classId
      return .enrollStudent classId studentId
  | .createSchedule id dto => .ok (.createSchedule id dto)
  | .updateSchedule id dto => do
      let call ← updateScheduleBegin db.scheduling id dto
      return .updateSchedule call
  | .createMembership id dto =>
      match (roster.student dto.studentId).filter fun t => decide (Admitted ambient t) with
      | some tenantId => .ok (.createMembership id dto tenantId)
      | none => .error (.notFound "学员不存在")
  | .updateMembership id dto =>
      match findVisible ambient db.cards Lessons.MembershipCard.tenantId id with
      | some _ => .ok (.updateMembership id dto)
      | none => .error (.notFound "会员卡不存在")

/-- The write of a request that has passed its checks. -/
def Checked.write (ambient : Ambient) (roster : Roster) (db : CourseDb) :
    Checked → Except HttpException CourseDb
  | .createCourseType id dto => Courses.createCourseType ambient db id dto
  | .createVenue id dto => Courses.createVenue ambient db id dto
  | .createClass id dto => Courses.createClass ambient roster db id dto
  | .updateClass id dto => Courses.updateClass ambient roster db id dto
  | .enrollStudent classId studentId => Courses.enrollStudent roster db classId studentId
  | .createSchedule id dto => createScheduleCall ambient roster db id dto
  | .updateSchedule call => updateScheduleCall ambient roster db call
  | .createMembership id dto tenantId => Courses.createMembership ambient roster db id dto tenantId
  | .updateMembership id dto => Courses.updateMembership ambient roster db id dto

/-- The tables, and the requests that are past their checks, each under the context of its
user. -/
structure School where
  db : CourseDb
  pending : Nat → Option (AccessContext × Checked)

inductive SchoolAction where
  | check (c : Nat) (access : AccessContext) (request : Request)
  | write (c : Nat)
  | giveUp (c : Nat)

/-- The ambience of an authenticated request. -/
def authenticated (access : AccessContext) : Ambient :=
  { isTenantBypass := false, getAccessContext := some access }

def School.setCall (s : School) (c : Nat) (call : Option (AccessContext × Checked)) : School :=
  { s with pending := Function.update s.pending c call }

def School.step (roster : Roster) (s : School) : SchoolAction → Option School
  | .check c access request =>
      some (s.setCall c ((request.check (authenticated access) roster s.db).toOption.map (access, ·)))
  | .write c =>
      match s.pending c with
      | some (access, checked) =>
          match checked.write (authenticated access) roster s.db with
          | .ok db => some { s.setCall c none with db }
          | .error _ => some (s.setCall c none)
      | none => none
  | .giveUp c => some (s.setCall c none)

end MibServer.Courses
