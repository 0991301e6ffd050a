import MibServer.Tenancy.Isolation

/-!
How a request gets its tenants.

`JwtStrategy.validate` and `AccessContextInterceptor` each read the tenant headers in their
own way, and the context they leave is read by the Prisma extension (`resolveTenantWhere`)
and by the `DataScope` filters (`effectiveTenantIds`). `tenants_admitted` says that all four
come to one set of tenants, and which.
-/

namespace MibServer.Tenancy

/-! ### Permissions -/

namespace Permission

def ORG_CROSS : String := "org:cross"

def STAFF_COACH_READ : List String :=
  ["students:read", "coaches:read", "memberships:read", "course_types:read", "classes:read",
    "schedules:read", "venues:read", "attendance:read", "statistics:read"]

def ALL_PERMISSION_CODES : List String :=
  [ORG_CROSS, "auth:users:read", "auth:users:write", "students:read", "students:write",
    "students:tags:write", "coaches:read", "coaches:write", "memberships:read",
    "memberships:write", "course_types:read", "course_types:write", "classes:read",
    "classes:write", "schedules:read", "schedules:write", "venues:read", "venues:write",
    "attendance:read", "attendance:write", "attendance:check_in", "statistics:read",
    "billing:read", "billing:write"]

/-- The permissions of a role that has none in the database. -/
def ROLE_PERMISSION_MAP : UserRole → List String
  | .ADMIN => ALL_PERMISSION_CODES
  | .STAFF => STAFF_COACH_READ ++
      ["students:write", "students:tags:write", "coaches:write", "memberships:write",
        "course_types:write", "classes:write", "schedules:write", "venues:write",
        "attendance:write", "billing:read", "billing:write"]
  | .COACH => STAFF_COACH_READ ++ ["attendance:check_in"]
  | .STUDENT => ["schedules:read", "attendance:read", "attendance:check_in"]

def hasPermission (userPermissions : List String) (required : String) : Bool :=
  userPermissions.contains required || userPermissions.contains "*"

/-- `dbRole` are the permissions of the role row, `none` where there is no such row. -/
def loadPermissions (dbRole : Option (List String)) (role : UserRole) : List String :=
  match dbRole with
  | some (code :: codes) => code :: codes
  | _ => ROLE_PERMISSION_MAP role

end Permission

def resolveDataScope (role : UserRole) (permissions : List String)
    (coachId studentId : Option String) : DataScopeKind :=
  if Permission.hasPermission permissions Permission.ORG_CROSS then .all
  else if (truthy studentId).isSome || role == .STUDENT then .self
  else if (truthy coachId).isSome || role == .COACH then .coachOwned
  else .organization

/-! ### Stored users -/

/-- The tenant table: its ids are `uuid()` defaults, never empty and never the value that
stands for no access. -/
structure TenantTable where
  ids : List String
  generated : ∀ id ∈ ids, id ≠ "" ∧ id ≠ "__no_tenant_access__"

/-- The coach or the student a user is linked to. -/
structure Link where
  id : String
  tenantId : Option String
deriving DecidableEq, Repr

/-- What `build` selects of a user. -/
structure User where
  tenantId : Option String
  coach : Option Link
  student : Option Link
  tenants : List String
deriving DecidableEq, Repr

/-- One of the user's tenants: the primary one, a membership, or that of the coach or
student the user is. -/
def User.Member (user : User) (t : String) : Prop :=
  user.tenantId = some t ∨ t ∈ user.tenants ∨ user.coach.bind Link.tenantId = some t ∨
    user.student.bind Link.tenantId = some t

instance (user : User) (t : String) : Decidable (user.Member t) := inferInstanceAs (Decidable (_ ∨ _))

/-- A user with the foreign keys of its tenants. -/
structure StoredUser (table : TenantTable) extends User where
  known : ∀ t, toUser.Member t → t ∈ table.ids

/-! ### The context of a request -/

/-- A header as Node hands it over. -/
inductive HeaderValue where
  | one (value : String)
  | many (values : List String)
deriving DecidableEq, Repr

/-- `X-Tenant-Id` and `X-Organization-Id`. -/
structure TenantHeaders where
  tenant : Option HeaderValue := none
  legacyOrg : Option HeaderValue := none
deriving DecidableEq, Repr

/-- `headers[TENANT_HEADER] ?? headers[LEGACY_ORG_HEADER]` -/
def TenantHeaders.raw (headers : TenantHeaders) : Option HeaderValue :=
  headers.tenant <|> headers.legacyOrg

/-- `activeTenant` of `JwtStrategy.validate`. -/
def activeTenant (headers : TenantHeaders) : Option String :=
  match headers.raw with
  | some (.one value) => some value
  | some (.many values) => values.head?
  | none => none

/-- The insertion order of a `Set`. -/
def collectTenantIds (user : Option User) : List String :=
  match user with
  | none => []
  | some user => ((truthy user.tenantId).toList ++ user.tenants ++
      (truthy (user.coach.bind Link.tenantId)).toList ++
      (truthy (user.student.bind Link.tenantId)).toList).eraseDups

/-- `AccessContextService.build` on the user row it reads. -/
def build (user : Option User) (role : UserRole) (dbRole : Option (List String))
    (activeTenantId : Option String) : AccessContext :=
  let tenantIds := collectTenantIds user
  { tenantIds
    activeTenantId := (truthy activeTenantId).filter fun t => tenantIds.contains t
    dataScope := resolveDataScope role (Permission.loadPermissions dbRole role)
      ((user.bind User.coach).map Link.id) ((user.bind User.student).map Link.id) }

/-- `AccessContextInterceptor.intercept`: a list is never one of the tenants. -/
def intercept (headers : TenantHeaders) (access : AccessContext) : AccessContext :=
  match headers.raw with
  | some (.one headerTenant) =>
      if headerTenant ≠ "" ∧ headerTenant ∈ access.tenantIds then
        { access with activeTenantId := some headerTenant }
      else access
  | some (.many _) | none => access

/-- The context the handler of a request runs under. -/
def requestContext (user : User) (role : UserRole) (dbRole : Option (List String))
    (headers : TenantHeaders) : AccessContext :=
  intercept headers (build (some user) role dbRole (activeTenant headers))

/-- The tenants the `DataScope` filters go by. -/
def effectiveTenantIds (ctx : AccessContext) : List String :=
  match (truthy ctx.activeTenantId).filter fun t => ctx.tenantIds.contains t with
  | some active => [active]
  | none => ctx.tenantIds

/-! ### The tenants of a request -/

/-- The tenant the client asks for. -/
def TenantHeaders.requested (headers : TenantHeaders) : Option String :=
  match headers.tenant, headers.legacyOrg with
  | some (.one value), _ | none, some (.one value) => some value
  | some (.many values), _ | none, some (.many values) => values.head?
  | none, none => none

/-- The requested tenant where it is one of the user's, else any of them. -/
def Accessible (user : User) (headers : TenantHeaders) (t : String) : Prop :=
  match headers.requested with
  | some r => if user.Member r then t = r else user.Member t
  | none => user.Member t

theorem activeTenant_eq_requested (headers : TenantHeaders) :
    activeTenant headers = headers.requested := by
  obtain ⟨_ | _ | _, _ | _ | _⟩ := headers <;> rfl

theorem truthy_eq_some_iff {x : Option String} {s : String} :
    truthy x = some s ↔ x = some s ∧ s ≠ "" := by
  unfold truthy
  grind

/-- The tenants a stored user's context collects are the user's. -/
theorem mem_collectTenantIds {table : TenantTable} (user : StoredUser table) {t : String} :
    t ∈ collectTenantIds (some user.toUser) ↔ user.Member t := by
  have hne : user.Member t → t ≠ "" := fun h => (table.generated t (user.known t h)).1
  simp only [collectTenantIds, List.mem_eraseDups, List.mem_append, Option.mem_toList,
    truthy_eq_some_iff, User.Member] at hne ⊢
  grind

/-- The second reading of the headers comes to what the first has found. -/
theorem intercept_build {table : TenantTable} (user : StoredUser table) (role : UserRole)
    (dbRole : Option (List String)) (headers : TenantHeaders) :
    requestContext user.toUser role dbRole headers =
      build (some user.toUser) role dbRole headers.requested := by
  rw [← activeTenant_eq_requested]
  unfold requestContext intercept
  split
  · rename_i headerTenant hraw
    split
    · rename_i h
      have hactive : activeTenant headers = some headerTenant := by simp [activeTenant, hraw]
      have hmem : headerTenant ∈ collectTenantIds (some user.toUser) := h.2
      simp [build, hactive, truthy, h.1, hmem, Option.filter]
    · rfl
  · rfl
  · rfl

/-- The active tenant of the context is the requested one, where it is the user's. -/
theorem activeTenantId_eq_some {table : TenantTable} (user : StoredUser table) (role : UserRole)
    (dbRole : Option (List String)) (headers : TenantHeaders) {t : String} :
    (requestContext user.toUser role dbRole headers).activeTenantId = some t ↔
      headers.requested = some t ∧ user.Member t := by
  have hne : user.Member t → t ≠ "" := fun h => (table.generated t (user.known t h)).1
  rw [intercept_build]
  simp only [build, Option.filter_eq_some_iff, truthy_eq_some_iff, List.contains_iff_mem,
    mem_collectTenantIds]
  grind

theorem mem_tenantIds {table : TenantTable} (user : StoredUser table) (role : UserRole)
    (dbRole : Option (List String)) (headers : TenantHeaders) {t : String} :
    t ∈ (requestContext user.toUser role dbRole headers).tenantIds ↔ user.Member t := by
  rw [intercept_build]
  exact mem_collectTenantIds user

theorem mem_effectiveTenantIds {table : TenantTable} (user : StoredUser table) (role : UserRole)
    (dbRole : Option (List String)) (headers : TenantHeaders) {t : String} :
    t ∈ effectiveTenantIds (requestContext user.toUser role dbRole headers) ↔
      Accessible user.toUser headers t := by
  have hactive := @activeTenantId_eq_some table user role dbRole headers
  have hmem := @mem_tenantIds table user role dbRole headers
  generalize requestContext user.toUser role dbRole headers = ctx at hactive hmem ⊢
  have hne : ∀ r, user.Member r → r ≠ "" := fun r h => (table.generated r (user.known r h)).1
  unfold effectiveTenantIds Accessible
  cases hctx : ctx.activeTenantId with
  | none =>
      have hnone : ∀ r, headers.requested = some r → ¬ user.Member r := by
        intro r hr hmember
        have hsome := hactive.mpr ⟨hr, hmember⟩
        rw [hctx] at hsome
        cases hsome
      cases hrequested : headers.requested with
      | none => simp [truthy, hmem]
      | some r => simp [truthy, hmem, hnone r hrequested]
  | some active =>
      obtain ⟨hrequested, hmember⟩ := hactive.mp hctx
      simp [truthy, hne active hmember, hmem, hmember, hrequested, Option.filter]

/-- **One set of tenants**: under a context whose scope is not `all`, the tenants the Prisma
extension admits are the requested one where it is the user's, else all of the user's, and
the `DataScope` filters go by the same set. -/
theorem tenants_admitted {table : TenantTable} (user : StoredUser table) (role : UserRole)
    (dbRole : Option (List String)) (headers : TenantHeaders)
    (hscope : (requestContext user.toUser role dbRole headers).dataScope ≠ .all) :
    (∀ t ∈ table.ids,
      (Admitted ⟨false, some (requestContext user.toUser role dbRole headers)⟩ (some t) ↔
        Accessible user.toUser headers t)) ∧
      ∀ t, t ∈ effectiveTenantIds (requestContext user.toUser role dbRole headers) ↔
        Accessible user.toUser headers t := by
  refine ⟨fun t ht => ?_, fun t => mem_effectiveTenantIds user role dbRole headers⟩
  rw [← mem_effectiveTenantIds user role dbRole headers]
  have hactive := @activeTenantId_eq_some table user role dbRole headers
  have hmem := @mem_tenantIds table user role dbRole headers
  generalize requestContext user.toUser role dbRole headers = ctx at hactive hmem hscope ⊢
  have hgenerated := table.generated t ht
  simp only [Admitted, resolveTenantWhere, Bool.false_eq_true, if_false, Option.bind_some,
    AccessContext.tenantWhere, if_neg hscope, effectiveTenantIds]
  cases hctx : ctx.activeTenantId with
  | none =>
      by_cases hempty : ctx.tenantIds = []
      · simp [truthy, hempty, TenantWhereClause.admits, hgenerated.2]
      · simp [truthy, hempty, TenantWhereClause.admits]
  | some active =>
      obtain ⟨-, hmember⟩ := hactive.mp hctx
      have hne : active ≠ "" := (table.generated active (user.known active hmember)).1
      simp [truthy, hne, hmem, hmember, TenantWhereClause.admits, Option.filter]

/-! ### A user of two tenants -/

def twoTenants : TenantTable where
  ids := ["t1", "t2", "t3"]
  generated := by decide

/-- Primary tenant `t1`, member of `t2`. -/
def memberOfTwo : StoredUser twoTenants where
  tenantId := some "t1"
  coach := none
  student := none
  tenants := ["t2"]
  known t h := by
    simp only [User.Member, Option.bind_none, reduceCtorEq, or_false, Option.some.injEq,
      List.mem_singleton] at h
    rcases h with rfl | rfl <;> decide

/-- A list header of which the first element counts. -/
theorem tenants_admitted_listHeader :
    (∀ t ∈ twoTenants.ids,
      (Admitted ⟨false, some (requestContext memberOfTwo.toUser .STAFF none
        { tenant := some (.many ["t2", "t1"]), legacyOrg := some (.one "t1") })⟩ (some t) ↔
        Accessible memberOfTwo.toUser
          { tenant := some (.many ["t2", "t1"]), legacyOrg := some (.one "t1") } t)) ∧
      effectiveTenantIds (requestContext memberOfTwo.toUser .STAFF none
        { tenant := some (.many ["t2", "t1"]), legacyOrg := some (.one "t1") }) = ["t2"] :=
  ⟨(tenants_admitted memberOfTwo .STAFF none _ (by decide +kernel)).1, by decide +kernel⟩

end MibServer.Tenancy
