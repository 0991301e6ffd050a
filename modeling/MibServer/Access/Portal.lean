import MibServer.Tenancy.ChildRows
import MibServer.Tenancy.RequestContext
import MibServer.Tenancy.Transparency
import MibServer.Courses.ScheduleService

/-!
Students, coaches and schedules, as the requests of a user reach them.

A request is the user whose token it carries, its tenant headers and a call. `JwtStrategy` looks
up the user and builds the access context from the tables as they are, `RolesGuard` decides
whether the call goes on, and what its Prisma calls see is filtered twice, by the tenant extension
and by the `DataScope` filters. A coach or a student row that is linked to a user is also one of
the rows the context of that user is built from.
-/

namespace MibServer.Access

open MibServer.Lib MibServer.Tenancy

/-! ### Rows -/

/-- A `uuid()` default: never empty, and never the value that stands for no access. -/
structure Uuid where
  text : String
  generated : text ≠ "" ∧ text ≠ "__no_access__"
deriving DecidableEq

instance : Inhabited Uuid := ⟨"0", by decide⟩

/-- A row of `Student` or `Coach` without its `tenantId`; `profile` are the columns that access
does not depend on. -/
structure Linked (P : Type) where
  id : Uuid
  userId : Option String
  createdAt : Int
  profile : P
deriving DecidableEq, Inhabited

inductive LinkKey where
  | id (id : String)
  | userId (userId : String)
deriving DecidableEq, Repr

def linkKeys {P : Type} (r : Row (Linked P)) : List LinkKey :=
  .id r.fields.id.text :: (r.fields.userId.map LinkKey.userId).toList

abbrev LinkedTable (P : Type) := Indexed (Row (Linked P)) LinkKey linkKeys

structure UserFields where
  id : Uuid
  username : String
  role : UserRole
deriving DecidableEq

instance : Inhabited UserFields := ⟨⟨default, "", .STAFF⟩⟩

inductive UserKey where
  | id (id : String)
  | name (tenantId username : String)
deriving DecidableEq, Repr

/-- `@@unique([tenantId, username])`, for the rows with a tenant. -/
def userKeys (r : Row UserFields) : List UserKey :=
  .id r.fields.id.text :: (r.tenantId.map fun t => UserKey.name t r.fields.username).toList

/-- The columns of a schedule whose id is the default. -/
structure ScheduleFields extends Courses.ScheduleFields where
  generated : id ≠ "__no_access__"
deriving DecidableEq

instance : Inhabited ScheduleFields := ⟨⟨⟨"", "", "", "", 0, 0, 0, .scheduled⟩, by decide⟩⟩

/-- The rows that say who teaches whom; of an attendance record there are the ids it joins. -/
structure Teaching where
  venues : Courses.VenueTable
  courseTypes : Courses.CourseTypeTable
  classes : Courses.ClassTable
  classStudents : Courses.ClassStudentTable
  schedules : List (Row ScheduleFields)
  attendance : List (String × String)

/-- The database. The tenants, the roles and `UserTenant` are seeded and not written. -/
structure Portal (P : Type) where
  tenants : TenantTable
  roles : UserRole → Option (List String)
  userTenants : List (String × String)
  users : Indexed (Row UserFields) UserKey userKeys
  coaches : LinkedTable P
  students : LinkedTable P
  teaching : Teaching

/-! ### The access context -/

/-- What the `DataScope` filters and the guard read of an `AccessContext`. -/
structure ScopedContext extends AccessContext where
  permissions : List String
  coachId : Option String
  studentId : Option String

/-- The access context is the ambient one; nothing here bypasses the filter. -/
def ScopedContext.ambient (ctx : ScopedContext) : Ambient := ⟨false, some ctx.toAccessContext⟩

section Context

variable {P : Type}

def LinkedTable.link (table : LinkedTable P) (userId : String) : Option Link :=
  (table.row? (.userId userId)).map fun r => ⟨r.fields.id.text, r.tenantId⟩

/-- What `buildInternal` selects of a user. -/
def Portal.user (p : Portal P) (u : Row UserFields) : User where
  tenantId := u.tenantId
  coach := p.coaches.link u.fields.id.text
  student := p.students.link u.fields.id.text
  tenants := (p.userTenants.filter fun m => m.1 == u.fields.id.text).map Prod.snd

def Portal.permissions (p : Portal P) (u : Row UserFields) : List String :=
  Permission.loadPermissions (p.roles u.fields.role) u.fields.role

def Portal.context (p : Portal P) (u : Row UserFields) (headers : TenantHeaders) : ScopedContext where
  toAccessContext := requestContext (p.user u) u.fields.role (p.roles u.fields.role) headers
  permissions := p.permissions u
  coachId := (p.user u).coach.map Link.id
  studentId := (p.user u).student.map Link.id

end Context

/-! ### `data-scope.filters.ts` -/

section Filters

variable {P : Type}

def noAccess : Where (Linked P) := .caller fun r => r.fields.id.text == "__no_access__"

def byId (id : String) : Where (Linked P) := .caller fun r => r.fields.id.text == id

/-- `{ tenantId: { in: tenantIds } }`, for the `organization` scope. -/
def organizationWhere (ctx : ScopedContext) : Where (Linked P) :=
  match effectiveTenantIds ctx.toAccessContext with
  | [] => noAccess
  | tenantIds => .tenant (.in tenantIds)

namespace Teaching

variable (teaching : Teaching)

/-- `classStudents: { some: { class: { coachId } } }` -/
def inClassOf (coachId studentId : String) : Bool :=
  teaching.classStudents.rows.any fun m => m.studentId == studentId &&
    teaching.classes.rows.any fun k => k.id == m.classId && k.coachId == some coachId

/-- `attendanceRecords: { some: { schedule: { coachId } } }` -/
def attendedWith (coachId studentId : String) : Bool :=
  teaching.attendance.any fun a => a.1 == studentId &&
    teaching.schedules.any fun s => s.fields.id == a.2 && s.fields.coachId == coachId

end Teaching

def studentDataScopeWhere (teaching : Teaching) (ctx : ScopedContext) : Option (Where (Linked P)) :=
  match ctx.dataScope with
  | .all => none
  | .organization => some (organizationWhere ctx)
  | .coachOwned =>
      match truthy ctx.coachId with
      | none => some noAccess
      | some coachId => some (.caller fun r => teaching.inClassOf coachId r.fields.id.text ||
          teaching.attendedWith coachId r.fields.id.text)
  | .self =>
      match truthy ctx.studentId with
      | none => some noAccess
      | some studentId => some (byId studentId)

def coachDataScopeWhere (ctx : ScopedContext) : Option (Where (Linked P)) :=
  match ctx.dataScope with
  | .all => none
  | .organization => some (organizationWhere ctx)
  | .coachOwned =>
      match truthy ctx.coachId with
      | none => some noAccess
      | some coachId => some (byId coachId)
  | .self => some noAccess

def scheduleDataScopeWhere (teaching : Teaching) (ctx : ScopedContext) :
    Option (Where ScheduleFields) :=
  let none_ := Where.caller fun r : Row ScheduleFields => r.fields.id == "__no_access__"
  match ctx.dataScope with
  | .all => none
  | .organization =>
      match effectiveTenantIds ctx.toAccessContext with
      | [] => some none_
      | tenantIds =>
          let admits := (TenantWhereClause.in tenantIds).admits
          some (.caller fun r => admits r.tenantId ||
            (teaching.venues.rows.any fun v => v.id == r.fields.venueId && admits v.tenantId) ||
            teaching.classes.rows.any fun k => k.id == r.fields.classId && admits k.tenantId)
  | .coachOwned =>
      match truthy ctx.coachId with
      | none => some none_
      | some coachId => some (.caller fun r => r.fields.coachId == coachId)
  | .self =>
      match truthy ctx.studentId with
      | none => some none_
      | some studentId => some (.caller fun r => teaching.classes.rows.any fun k =>
          k.id == r.fields.classId && teaching.classStudents.rows.contains ⟨k.id, studentId⟩)

/-- `mergeWhere` of `data-scope.filters.ts`. -/
def mergeScope {F : Type} (base scope : Option (Where F)) : Where F :=
  match base, scope with
  | base, none => base.getD .empty
  | none, some scope | some .empty, some scope => scope
  | some base, some scope => .and base scope

end Filters

/-! ### Prisma -/

/-- The arguments of a call with this `where`: no page, and nothing to write. -/
def argsOf {F : Type} [Inhabited F] (where_ : Where F) : Args F where
  where? := some where_
  page := id
  page_subset := List.Subset.refl
  related _ := []
  data? := none
  change := ⟨none, id⟩
  create := ⟨none, default⟩

/-- The rows a `findMany` or a `findFirst` selects. -/
def selectRows {F : Type} [Inhabited F] (ambient : Ambient) (model : Model) (operation : Operation)
    (where_ : Where F) (rows : List (Row F)) : List (Row F) :=
  (prismaTenantExtension ambient model operation (argsOf where_)).selected rows

/-- The rows that the `where` sent to the database selects. -/
def sentWhere {F : Type} [Inhabited F] (ambient : Ambient) (model : Model) (operation : Operation)
    (where_ : Where F) : Row F → Bool :=
  ((prismaTenantExtension ambient model operation (argsOf where_)).args.where?.getD .empty).holds

/-- The row that `update` or `delete` with `where: { id }` is sent for; `none` where Prisma rejects
the call. -/
def sentById {P : Type} [Inhabited P] (ambient : Ambient) (model : Model) (operation : Operation)
    (id : String) : Option (Row (Linked P) → Bool) :=
  let query := prismaTenantExtension ambient model operation (argsOf (byId id : Where (Linked P)))
  if query.valid model [.field "id"] then some (sentWhere ambient model operation (byId id)) else none

/-- `orderBy: { column: 'asc' }` -/
def orderByAsc {F : Type} (column : F → Int) (rows : List (Row F)) : List (Row F) :=
  rows.mergeSort fun a b => column a.fields ≤ column b.fields

/-- `orderBy: { column: 'desc' }` -/
def orderByDesc {F : Type} (column : F → Int) (rows : List (Row F)) : List (Row F) :=
  rows.mergeSort fun a b => column b.fields ≤ column a.fields

/-- The id of a new row, the clock, what `new Date` makes of a text, which usernames the database
takes for one, and whether the writing statement fails: a lost connection, a column Prisma rejects,
a reference from a table left out. -/
structure Env where
  uuid : Uuid := default
  now : Int := 0
  newDate : String → JsDate := fun _ => none
  sameName : String → String → Bool := fun name name' => name == name'
  fault : Bool := false

/-! ### `StudentsService` and `CoachesService` -/

structure CreateDto (P : Type) where
  tenantId : Option String := none
  userId : Option String := none
  profile : P

/-- `none` where a column is left out, `some none` where it is `null`. -/
structure UpdateDto (P : Type) where
  tenantId : Option (Option String) := none
  userId : Option (Option String) := none
  change : P → P

inductive LinkedCall (P : Type) where
  | create (dto : CreateDto P)
  | findAll
  | findOne (id : String)
  | update (id : String) (dto : UpdateDto P)
  | remove (id : String)

structure ScheduleListQuery where
  from? : Option String := none
  to? : Option String := none
  classId : Option String := none
  coachId : Option String := none

structure RegisterDto where
  username : String
  role : Option UserRole := none

inductive Call (P : Type) where
  | students (call : LinkedCall P)
  | coaches (call : LinkedCall P)
  | listSchedules (query : ScheduleListQuery)
  | getSchedule (id : String)
  | register (dto : RegisterDto)

/-- A schedule with what its `include` adds. -/
structure ScheduleReply (P : Type) where
  schedule : Row ScheduleFields
  class_ : Option Courses.Class
  courseType : Option Courses.CourseType
  venue : Option Courses.Venue
  coach : Option (Row (Linked P))

inductive Reply (P : Type) where
  | rows (rows : List (Row (Linked P)))
  | row (row : Row (Linked P))
  | schedules (rows : List (ScheduleReply P))
  | schedule (row : ScheduleReply P)
  | user (row : Row UserFields)
  | ok

section Services

variable {P : Type} [Inhabited P]

/-- One of the two services: its model, its message and its filter. -/
structure LinkedService (P : Type) where
  model : Model
  missing : String
  scopeWhere : ScopedContext → Option (Where (Linked P))

def studentsService (teaching : Teaching) : LinkedService P where
  model := .Student
  missing := "学员不存在"
  scopeWhere := studentDataScopeWhere teaching

def coachesService : LinkedService P where
  model := .Coach
  missing := "教练不存在"
  scopeWhere := coachDataScopeWhere

namespace LinkedService

variable (service : LinkedService P) (ctx : ScopedContext)

def findAll (table : LinkedTable P) : List (Row (Linked P)) :=
  orderByDesc Linked.createdAt <| selectRows ctx.ambient service.model .findMany
    (mergeScope none (service.scopeWhere ctx)) table.rows

def findOne (table : LinkedTable P) (id : String) : Except HttpException (Row (Linked P)) :=
  match selectRows ctx.ambient service.model .findFirst
      (mergeScope (some (byId id)) (service.scopeWhere ctx)) table.rows with
  | r :: _ => .ok r
  | [] => .error (.notFound service.missing)

/-- The record a create sends, after the extension. -/
def record (dto : CreateDto P) (env : Env) : Row (Linked P) :=
  let tenantId := dto.tenantId <|> ctx.activeTenantId <|> ctx.tenantIds.head?
  let data : CreateData (Linked P) := ⟨tenantId, ⟨env.uuid, dto.userId, env.now, dto.profile⟩⟩
  match (prismaTenantExtension ctx.ambient service.model .create
      { argsOf .empty with data? := some (.record data) }).args.data? with
  | some (.record data) => data.row
  | _ => data.row

end LinkedService

def UpdateDto.apply (dto : UpdateDto P) (r : Row (Linked P)) : Row (Linked P) where
  tenantId := dto.tenantId.getD r.tenantId
  fields := { r.fields with
    userId := dto.userId.getD r.fields.userId
    profile := dto.change r.fields.profile }

namespace Portal

variable (p : Portal P)

/-- The foreign keys of a student or a coach. -/
def admits (r : Row (Linked P)) : Bool :=
  r.tenantId.all (fun t => p.tenants.ids.contains t) &&
    r.fields.userId.all fun u => (p.users.row? (.id u)).isSome

def createLinked (service : LinkedService P) (ctx : ScopedContext) (table : LinkedTable P)
    (dto : CreateDto P) (env : Env) : Except HttpException (Row (Linked P) × LinkedTable P) := do
  let r := service.record ctx dto env
  let table ← orThrow (if !env.fault && p.admits r then table.insert? r else none)
  return (r, table)

/-- `findOne`, then the `update` of the row with the id. -/
def updateLinked (service : LinkedService P) (ctx : ScopedContext) (table : LinkedTable P)
    (id : String) (dto : UpdateDto P) (env : Env) :
    Except HttpException (Row (Linked P) × LinkedTable P) := do
  let _ ← service.findOne ctx table id
  let sent ← orThrow (sentById ctx.ambient service.model .update id)
  let r ← orThrow (table.rows.find? sent)
  let table ← orThrow (if !env.fault && p.admits (dto.apply r) then
    table.updateWhere? sent dto.apply else none)
  return (dto.apply r, table)

/-- `findOne`, then the `delete` of the row with the id; `restricts` are the references that
forbid it. -/
def removeLinked (service : LinkedService P) (ctx : ScopedContext) (table : LinkedTable P)
    (id : String) (restricts : Bool) (env : Env) : Except HttpException (LinkedTable P) := do
  let _ ← service.findOne ctx table id
  let sent ← orThrow (sentById ctx.ambient service.model .delete id)
  let _ ← orThrow (if !env.fault && !restricts then table.rows.find? sent else none)
  return table.deleteWhere sent

/-- The rows that go with a student. -/
def withoutStudent (teaching : Teaching) (id : String) : Teaching :=
  { teaching with
    classStudents := teaching.classStudents.deleteWhere fun m => m.studentId == id
    attendance := teaching.attendance.filter fun a => a.1 != id }

/-- A class without its coach. -/
def withoutCoach (teaching : Teaching) (id : String) : Teaching :=
  { teaching with
    classes := teaching.classes.modify (fun k => k.coachId == some id)
      (fun k => { k with coachId := none }) fun _ => rfl }

/-- The controller and the service of one table: `put` writes the table, `removed` the table of a
delete and what goes with the row. -/
def serveLinked (service : LinkedService P) (table : LinkedTable P) (put : LinkedTable P → Portal P)
    (restricts : String → Bool) (removed : String → LinkedTable P → Portal P) (ctx : ScopedContext)
    (env : Env) : LinkedCall P → Except HttpException (Reply P × Portal P)
  | .create dto => do
      let (r, table') ← p.createLinked service ctx table dto env
      return (.row r, put table')
  | .findAll => return (.rows (service.findAll ctx table), p)
  | .findOne id => return (.row (← service.findOne ctx table id), p)
  | .update id dto => do
      let (r, table') ← p.updateLinked service ctx table id dto env
      return (.row r, put table')
  | .remove id => do
      let table' ← removeLinked service ctx table id (restricts id) env
      return (.ok, removed id table')

def serveStudents : ScopedContext → Env → LinkedCall P → Except HttpException (Reply P × Portal P) :=
  p.serveLinked (studentsService p.teaching) p.students (fun students => { p with students })
    (fun _ => false)
    (fun id students => { p with students, teaching := withoutStudent p.teaching id })

/-- A schedule keeps its coach from being deleted. -/
def coachRestricts (id : String) : Bool := p.teaching.schedules.any fun s => s.fields.coachId == id

def serveCoaches : ScopedContext → Env → LinkedCall P → Except HttpException (Reply P × Portal P) :=
  p.serveLinked coachesService p.coaches (fun coaches => { p with coaches })
    p.coachRestricts
    (fun id coaches => { p with coaches, teaching := withoutCoach p.teaching id })

/-! ### `CoursesService` and `AuthService.register` -/

/-- The `base` of `listSchedules`. -/
def listBase (ctx : ScopedContext) (query : ScheduleListQuery) (gte lte : Option Int) :
    Where ScheduleFields :=
  let coachId := match truthy query.coachId with
    | some coachId => some coachId
    | none => if ctx.dataScope = DataScopeKind.coachOwned then truthy ctx.coachId else none
  .caller fun r => r.fields.status != .cancelled &&
    (truthy query.classId).all (· == r.fields.classId) && coachId.all (· == r.fields.coachId) &&
      Billing.between gte lte (some r.fields.startsAt)

/-- `include: { class: { include: { courseType: true } }, venue: true, coach: true }`, which the
extension does not see. -/
def included (r : Row ScheduleFields) : ScheduleReply P :=
  let class_ := p.teaching.classes.row? r.fields.classId
  { schedule := r
    class_
    courseType := class_.bind fun k => p.teaching.courseTypes.row? k.courseTypeId
    venue := p.teaching.venues.row? r.fields.venueId
    coach := p.coaches.row? (.id r.fields.coachId) }

def listSchedules (ctx : ScopedContext) (query : ScheduleListQuery) (env : Env) :
    Except HttpException (List (ScheduleReply P)) := do
  let (gte, lte) ← bounds env.newDate { from? := query.from?, to? := query.to? }
  let rows := orderByAsc (fun s => s.startsAt) <| selectRows ctx.ambient .Schedule .findMany
    (mergeScope (some (listBase ctx query gte lte)) (scheduleDataScopeWhere p.teaching ctx))
    p.teaching.schedules
  return rows.map p.included

def getSchedule (ctx : ScopedContext) (id : String) : Except HttpException (ScheduleReply P) :=
  match selectRows ctx.ambient .Schedule .findFirst
      (mergeScope (some (.caller fun r => r.fields.id == id))
        (scheduleDataScopeWhere p.teaching ctx)) p.teaching.schedules with
  | r :: _ => .ok (p.included r)
  | [] => .error (.notFound "?????")

/-- The password and the token are those of the authentication. -/
def register (ctx : ScopedContext) (dto : RegisterDto) (env : Env) :
    Except HttpException (Row UserFields × Portal P) := do
  match truthy (ctx.activeTenantId <|> ctx.tenantIds.head?) with
  | none => .error (.conflict "无法确定租户，请设置 X-Tenant-Id")
  | some tenantId =>
      let exists_ := selectRows ctx.ambient .User .findFirst
        (.caller fun u => u.tenantId == some tenantId && env.sameName u.fields.username dto.username)
        p.users.rows
      require exists_.isEmpty (.conflict "用户名已存在")
      let r : Row UserFields := ⟨some tenantId, ⟨env.uuid, dto.username, dto.role.getD .STAFF⟩⟩
      let users ← orThrow (if env.fault then none else p.users.insert? r)
      return (r, { p with users })

end Portal

/-! ### Requests -/

/-- The `@Roles` of the handler, or those of its controller. -/
def Call.roles : Call P → List UserRole
  | .coaches (.remove _) => [.ADMIN, .STAFF]
  | .register _ => [.ADMIN]
  | _ => [.ADMIN, .STAFF, .COACH]

/-- The `@RequirePermissions` of the handler. -/
def Call.permissions : Call P → List String
  | .listSchedules _ => ["schedules:read"]
  | _ => []

/-- `RolesGuard.canActivate`, for an authenticated user; Nest answers `false` with the last
exception. -/
def canActivate (role : UserRole) (permissions : List String) (requiredRoles : List UserRole)
    (requiredPermissions : List String) : Except HttpException Unit :=
  if requiredPermissions = [] ∧ requiredRoles = [] then .ok ()
  else if requiredRoles.contains role then .ok ()
  else if requiredPermissions ≠ [] then
    if requiredPermissions.any (Permission.hasPermission permissions) then .ok ()
    else .error (.forbidden "权限不足")
  else .error (.forbidden "Forbidden resource")

/-- `userId` is the subject of a valid token. -/
structure Request (P : Type) where
  userId : String
  headers : TenantHeaders := {}
  call : Call P

namespace Portal

variable (p : Portal P)

/-- The handler of a call. -/
def handle (ctx : ScopedContext) (env : Env) : Call P → Except HttpException (Reply P × Portal P)
  | .students call => p.serveStudents ctx env call
  | .coaches call => p.serveCoaches ctx env call
  | .listSchedules query => return (.schedules (← p.listSchedules ctx query env), p)
  | .getSchedule id => return (.schedule (← p.getSchedule ctx id), p)
  | .register dto => do
      let (r, p) ← p.register ctx dto env
      return (.user r, p)

def respond (req : Request P) (env : Env) : Except HttpException (Reply P × Portal P) := do
  match p.users.row? (.id req.userId) with
  | none => .error (.unauthorized "令牌已失效，请重新登录")
  | some u =>
      canActivate u.fields.role (p.permissions u) req.call.roles req.call.permissions
      p.handle (p.context u req.headers) env req.call

end Portal

end Services

/-! ### The system -/

/-- The tenants of the schedules are stored ones. -/
def Teaching.keeps (teaching : Teaching) (tenants : TenantTable) : Bool :=
  teaching.schedules.all fun r => r.tenantId.all fun t => tenants.ids.contains t

/-- A request is served, or the other services change who teaches whom. -/
inductive PortalAction (P : Type) where
  | request (req : Request P) (env : Env)
  | other (teaching : Teaching)

/-- A request that fails leaves the tables as they are. -/
def portal {P : Type} [Inhabited P] (init : Portal P → Prop) : Machine (Portal P) (PortalAction P) where
  init := init
  step p
    | .request req env =>
        match p.respond req env with
        | .ok (_, p') => some p'
        | .error _ => some p
    | .other teaching => if teaching.keeps p.tenants then some { p with teaching } else none

end MibServer.Access
