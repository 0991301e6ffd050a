import MibServer.Lessons.Deduct
import MibServer.Tenancy.Stamping
import Mathlib.Algebra.Order.Group.Unbundled.Int

/-!
`AttendanceService.checkIn` and the `MembershipsService` operations, as programs of
database statements, and the system of any number of such calls.

The Redis lock around the check-in transaction only reduces contention and is left to
`MibServer.Lessons.CheckInRace`; a call that ends with a lock error, or is given up while
its transaction goes on, is one whose result nobody reads.

Each call runs in the ambience of its caller. A `findUnique` of a caller with a tenant
clause, which the extension sends to the client outside the transaction, is one of the
transaction here.
-/

namespace MibServer.Lessons

open MibServer.Lib MibServer.Prisma MibServer.Courses MibServer.Tenancy

/-! ### Check-in -/

structure CheckInDto where
  studentId : String
  scheduleId : String
  method : AttendanceMethod
  qrToken : Option String := none
  latitude : Option Coordinate := none
  longitude : Option Coordinate := none
deriving DecidableEq

/-- What the calls return. -/
inductive LessonResult where
  | attendance (record : AttendanceRecord) (deducted : Bool)
  | card (card : MembershipCard)

/-- The `params` of `upsertAttendance`; `deductAmount` is `none` where it is left out. -/
structure AttendanceParams where
  status : AttendanceStatus
  method : AttendanceMethod
  checkInAt : Option Int
  checkInLat : Option Coordinate
  checkInLng : Option Coordinate
  skipDeduct : Bool
  deductAmount : Option Int := none

/-- `!skipDeduct && !!deductAmount && deductAmount > 0`, with the amount. -/
def AttendanceParams.amountToDeduct (params : AttendanceParams) : Option Int :=
  if params.skipDeduct then none else params.deductAmount.filter (0 < ·)

/-- The transaction body of `upsertAttendance`. -/
def upsertAttendanceTx (scope : Option TenantWhereClause) (studentId scheduleId : String)
    (params : AttendanceParams) : LessonProg LessonResult := do
  let attendance ← orRethrow (← query (.write (.upsertAttendance
    { studentId, scheduleId, status := params.status, method := params.method,
      checkInAt := params.checkInAt, checkInLat := params.checkInLat,
      checkInLng := params.checkInLng })))
  match params.amountToDeduct with
  | some deductAmount =>
      let outcome ← deductLessonsForCheckIn scope studentId scheduleId deductAmount
      return .attendance attendance (outcome == .deducted)
  | none => return .attendance attendance false

def upsertAttendance (ambient : Ambient) (studentId scheduleId : String)
    (params : AttendanceParams) : LessonProg LessonResult :=
  .transaction .serializable
    (upsertAttendanceTx (resolveTenantWhere ambient) studentId scheduleId params)

/-- `d > v.geofenceRadiusM` for the distance of two points; the geometry is computed
in floating point and left open. -/
abbrev Geofence := Coordinate → Coordinate → Coordinate → Coordinate → Int → Bool

/-- The checks of the `QR` and `GPS` methods. -/
def checkMethod (outside : Geofence) (dto : CheckInDto) (venue : Venue) (now : Int) :
    LessonProg Unit :=
  match dto.method with
  | .manual => .ret ()
  | .qr =>
      match truthy dto.qrToken with
      | none => .throw (.badRequest "缺少二维码令牌")
      | some token => do
          let record ← find (LessonRead.findQrToken dto.scheduleId token now)
          if record.isSome then .ret () else .throw (.badRequest "二维码无效或已过期")
  | .gps =>
      match venue.latitude, venue.longitude, venue.geofenceRadiusM.filter (· ≠ 0) with
      | some lat, some lng, some radius =>
          match dto.latitude, dto.longitude with
          | some latitude, some longitude =>
              if outside latitude longitude lat lng radius then
                .throw (.badRequest "不在允许签到范围内")
              else .ret ()
          | _, _ => .throw (.badRequest "缺少定位坐标")
      | _, _, _ => .throw (.badRequest "该场地未配置定位签到")

def checkIn (outside : Geofence) (ambient : Ambient) (dto : CheckInDto) :
    LessonProg LessonResult := do
  match ← find (LessonRead.findSchedule dto.scheduleId (resolveTenantWhere ambient)) with
  | none => .throw (.notFound "课次不存在")
  | some schedule =>
    if schedule.status = .cancelled then .throw (.badRequest "课次已取消")
    else
      let enrolled ← find (LessonRead.findClassStudent schedule.classId dto.studentId)
      if !enrolled then .throw (.forbidden "学员未加入该班级")
      else
        let leave ← find (LessonRead.findLeaveRequest dto.studentId dto.scheduleId)
        let now ← query .now
        let params : AttendanceParams :=
          { status := .leave, method := dto.method, checkInAt := some now,
            checkInLat := dto.latitude, checkInLng := dto.longitude, skipDeduct := true }
        if leave = some .approved then upsertAttendance ambient dto.studentId dto.scheduleId params
        else if schedule.endsAt < now then
          upsertAttendance ambient dto.studentId dto.scheduleId
            { params with status := .absent, checkInAt := none }
        else
          checkMethod outside dto schedule.venue now
          let graceEnd := schedule.startsAt + schedule.lateGraceMinutes * 60 * 1000
          upsertAttendance ambient dto.studentId dto.scheduleId
            { params with
              status := if graceEnd < now then .late else .present
              skipDeduct := false
              deductAmount := some schedule.courseType.defaultLessonDeduct }

/-! ### Membership cards -/

/-- Validated: `totalLessons` and `remainingLessons` are integers of at least 0. -/
structure CreateMembershipDto where
  studentId : String
  title : String
  totalLessons : Nat
  remainingLessons : Nat
  validFrom : JsDate
  validTo : JsDate
  status : Option MembershipStatus := none
deriving DecidableEq

/-- `PartialType(CreateMembershipDto)`; a field sent as `null` makes Prisma reject the
update, as a failing statement does. -/
structure UpdateMembershipDto where
  studentId : Option String := none
  title : Option String := none
  totalLessons : Option Nat := none
  remainingLessons : Option Nat := none
  validFrom : Option JsDate := none
  validTo : Option JsDate := none
  status : Option MembershipStatus := none
deriving DecidableEq

structure AdjustLessonsDto where
  delta : Int
  reason : String
  scheduleId : Option String := none
deriving DecidableEq

/-- `MembershipsService.create`; the id is the `uuid()` default of the row. -/
def create (ambient : Ambient) (dto : CreateMembershipDto) : LessonProg LessonResult := do
  match ← find (LessonRead.findStudent dto.studentId (resolveTenantWhere ambient)) with
  | none => .throw (.notFound "学员不存在")
  | some tenantId =>
    let validFrom ← dateOrReject dto.validFrom
    let validTo ← dateOrReject dto.validTo
    let id ← query .random
    let card ← orRethrow (← query (.write (.createCard
      { id, tenantId := storedTenant ambient tenantId, studentId := dto.studentId,
        title := dto.title, totalLessons := dto.totalLessons,
        remainingLessons := dto.remainingLessons, validFrom, validTo,
        status := dto.status.getD .active, version := 0 })))
    return .card card

/-- A date the DTO may leave out. -/
def optionalDate (date : Option JsDate) : LessonProg (Option Int) :=
  match date with
  | none => .ret none
  | some date => do return some (← dateOrReject date)

/-- The `data` of the update: the DTO spread into the row. -/
def UpdateMembershipDto.data (dto : UpdateMembershipDto) (validFrom validTo : Option Int) :
    MembershipCardData where
  studentId := dto.studentId
  title := dto.title
  totalLessons := dto.totalLessons.map Int.ofNat
  remainingLessons := dto.remainingLessons.map Int.ofNat
  validFrom := validFrom
  validTo := validTo
  status := dto.status

/-- `MembershipsService.update` -/
def update (ambient : Ambient) (id : String) (dto : UpdateMembershipDto) :
    LessonProg LessonResult := do
  match ← find (LessonRead.findCard id (resolveTenantWhere ambient)) with
  | none => .throw (.notFound "会员卡不存在")
  | some _ =>
    let validFrom ← optionalDate dto.validFrom
    let validTo ← optionalDate dto.validTo
    let card ← orRethrow (← query (.write
      (.updateCard id (resolveTenantWhere ambient) (dto.data validFrom validTo))))
    return .card card

inductive LessonAdjustFailureReason where
  | insufficient | versionConflict
deriving DecidableEq

abbrev LessonAdjustResult := Except LessonAdjustFailureReason Unit

/-- `memberships-lesson-adjust.ts` -/
def applyMembershipLessonDelta (scope : Option TenantWhereClause) (membershipId : String)
    (expectedVersion delta : Int) : LessonProg LessonAdjustResult := do
  if 0 < delta then
    let count ← orRethrow (← query (.write (.updateManyCards
      { id := membershipId, scope, version := some expectedVersion, remainingLessons := delta,
        versionIncrement := 1 })))
    return if count == 1 then .ok () else .error .versionConflict
  else
    let amount := |delta|
    let decremented ←
      tryDecrementMembershipLessons scope membershipId amount (some expectedVersion) 1
    if decremented then return .ok ()
    else
      match ← find (LessonRead.findCard membershipId scope) with
      | none => return .error .versionConflict
      | some card =>
        if card.version ≠ expectedVersion then return .error .versionConflict
        else if card.remainingLessons < amount then return .error .insufficient
        else return .error .versionConflict

/-- The ledger row of a manual adjustment. -/
def adjustTransaction (id : String) (dto : AdjustLessonsDto) (studentId uuid : String)
    (beforeRemaining : Int) : LessonTransaction where
  membershipId := id
  studentId := studentId
  delta := dto.delta
  reason := dto.reason
  scheduleId := dto.scheduleId
  businessKey := buildAdjustBusinessKey id uuid
  beforeRemaining := beforeRemaining
  afterRemaining := beforeRemaining + dto.delta

/-- The transaction body of `adjustLessons`. The extension leaves its last read, a
`findUniqueOrThrow`, as it is. -/
def adjustLessonsTx (scope : Option TenantWhereClause) (id : String) (dto : AdjustLessonsDto) :
    LessonProg LessonResult := do
  match ← find (LessonRead.findCard id scope) with
  | none => .throw (.notFound "会员卡不存在")
  | some card =>
    match ← applyMembershipLessonDelta scope id card.version dto.delta with
    | .error .insufficient => .throw (.badRequest "剩余课时不足")
    | .error .versionConflict => .throw (.conflict "会员卡已被其他人更新，请刷新后重试")
    | .ok () =>
      let uuid ← query .random
      let _ ← orRethrow (← query (.write (.createTransaction
        (adjustTransaction id dto card.studentId uuid card.remainingLessons))))
      match ← find (LessonRead.findCard id none) with
      | some updated => return .card updated
      | none => .throw .internal

/-- `MembershipsService.adjustLessons`, at MySQL's default isolation level. -/
def adjustLessons (ambient : Ambient) (id : String) (dto : AdjustLessonsDto) :
    LessonProg LessonResult :=
  if dto.delta = 0 then .throw (.badRequest "调整量不能为 0")
  else .transaction .repeatableRead (adjustLessonsTx (resolveTenantWhere ambient) id dto)

/-! ### The system -/

/-- A call with the ambience of its caller. -/
inductive LessonCall where
  | checkIn (ambient : Ambient) (dto : CheckInDto)
  | adjustLessons (ambient : Ambient) (id : String) (dto : AdjustLessonsDto)
  | create (ambient : Ambient) (dto : CreateMembershipDto)
  | update (ambient : Ambient) (id : String) (dto : UpdateMembershipDto)

def LessonCall.program (outside : Geofence) : LessonCall → LessonProg LessonResult
  | .checkIn ambient dto => Lessons.checkIn outside ambient dto
  | .adjustLessons ambient id dto => Lessons.adjustLessons ambient id dto
  | .create ambient dto => Lessons.create ambient dto
  | .update ambient id dto => Lessons.update ambient id dto

abbrev LessonSystem :=
  System LessonDb LessonStmt LessonStmt.Reply Env HttpException LessonResult LessonCall

abbrev LessonWorld :=
  World LessonDb LessonStmt LessonStmt.Reply Env HttpException LessonResult LessonCall

abbrev LessonThread :=
  Thread LessonDb LessonStmt LessonStmt.Reply Env HttpException LessonResult LessonCall

abbrev LessonAction := Action LessonCall Env

/-- Any number of calls, the statements of all of them interleaved in any order. -/
def lessonSystem (outside : Geofence) : LessonSystem where
  engine := lessonClient.engine
  program := LessonCall.program outside
  aborted := .internal

/-! ### A small school -/

/-- One student, enrolled in the class of one scheduled hour that costs one lesson. -/
def smallSchool : School where
  student id := if id = "st1" then some none else none
  schedule id :=
    if id = "s1" then
      some { id, tenantId := none, classId := "k1", venueId := "v1", coachId := "c1",
             startsAt := 0, endsAt := 3600000, lateGraceMinutes := 15, status := .scheduled,
             venue := ⟨"v1", none, "", none, none, none, none⟩,
             courseType := ⟨"t1", none, .GROUP, "", 1⟩ }
    else none
  enrolled classId studentId := classId == "k1" && studentId == "st1"
  leave _ _ := none
  qrTokens := []

def emptyDb : LessonDb where
  school := smallSchool
  cards := ∅
  transactions := ∅
  attendance := ∅
  opening _ := 0

/-- The student's card, with ten lessons. -/
def tenLessons : MembershipCard where
  id := "m1"
  tenantId := none
  studentId := "st1"
  title := ""
  totalLessons := 10
  remainingLessons := 10
  validFrom := 0
  validTo := 3600000
  status := .active
  version := 0

def oneCardDb : LessonDb :=
  { emptyDb with cards := ⟨[tenLessons], by decide⟩, opening := fun _ => 10 }

/-- A caller of every tenant. -/
def administrator : Ambient := ⟨false, some ⟨[], none, .all⟩⟩

def nowhere : Geofence := fun _ _ _ _ _ => true

/-- Let a thread take `n` steps. -/
def steps (t n : Nat) : List LessonAction := List.replicate n (.run t {})

end MibServer.Lessons
