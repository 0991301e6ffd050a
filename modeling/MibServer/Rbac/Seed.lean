import MibServer.Access.Portal
import MibServer.Prisma
import MibServer.Lib.RelyGuarantee

/-!
`seedRbac`, and `AccessContextService.loadPermissions`.

The seed of a deployment runs while the application serves requests, and it is no transaction: the
permissions of a role are deleted by one statement and created by a later one. Every statement may
fail, and a process may stop after any of them.
-/

namespace MibServer.Rbac

open MibServer.Lib MibServer.Tenancy
open MibServer.Access (Uuid)
open MibServer.Prisma (DbError)

/-! ### Tables -/

/-- A row with a `uuid()` id and a unique code: a tenant, a permission, or a role; `label` is its
name or its description. -/
structure Coded where
  id : Uuid
  code : String
  label : String
deriving DecidableEq

inductive CodedKey where
  | id (id : String)
  | code (code : String)
deriving DecidableEq, Repr

def codedKeys (r : Coded) : List CodedKey := [.id r.id.text, .code r.code]

abbrev CodedTable := Indexed Coded CodedKey codedKeys

structure RolePermission where
  roleId : String
  permissionId : String
deriving DecidableEq, Repr

/-- The rows the links of roles and permissions refer to. -/
def References (permissions roles : List Coded) (links : List RolePermission) : Prop :=
  ∀ l ∈ links, (∃ r ∈ roles, r.id.text = l.roleId) ∧ ∃ q ∈ permissions, q.id.text = l.permissionId

instance (permissions roles : List Coded) (links : List RolePermission) :
    Decidable (References permissions roles links) :=
  inferInstanceAs (Decidable (∀ l ∈ links, _))

structure RbacDb where
  tenants : CodedTable
  permissions : CodedTable
  roles : CodedTable
  rolePermissions : Indexed RolePermission (String × String) fun l => [(l.roleId, l.permissionId)]
  references : References permissions.rows roles.rows rolePermissions.rows

/-! ### Statements -/

/-- `upsert` by the unique code. -/
def upsert? (table : CodedTable) (id : Uuid) (code label : String) : Option (Coded × CodedTable) :=
  match table.row? (.code code) with
  | some r =>
      (table.updateWhere? (fun r => r.code == code) fun r => { r with label }).map
        fun table => ({ r with label }, table)
  | none => (table.insert? ⟨id, code, label⟩).map fun table => (⟨id, code, label⟩, table)

inductive RbacStmt where
  | upsertTenant (code name : String)
  | upsertPermission (code description : String)
  | findPermissions
  | upsertRole (code name : String)
  | deleteRolePermissions (roleId : String)
  | createRolePermissions (roleId : String) (permissionIds : List String)
  | findRole (code : String)

/-- The row of an upsert, all permissions, or the codes of the permissions of a role. -/
@[reducible] def RbacStmt.Reply : RbacStmt → Type
  | .upsertTenant _ _ | .upsertPermission _ _ | .upsertRole _ _ => Except DbError Coded
  | .findPermissions => Except DbError (List Coded)
  | .deleteRolePermissions _ | .createRolePermissions _ _ => Except DbError Unit
  | .findRole _ => Except DbError (Option (List String))

instance : (q : RbacStmt) → DecidableEq q.Reply
  | .upsertTenant _ _ | .upsertPermission _ _ | .upsertRole _ _ =>
      inferInstanceAs (DecidableEq (Except DbError Coded))
  | .findPermissions => inferInstanceAs (DecidableEq (Except DbError (List Coded)))
  | .deleteRolePermissions _ | .createRolePermissions _ _ =>
      inferInstanceAs (DecidableEq (Except DbError Unit))
  | .findRole _ => inferInstanceAs (DecidableEq (Except DbError (Option (List String))))

/-- The id of a new row, and whether the database fails the statement for a reason of its own. -/
structure Env where
  uuid : Uuid := default
  fault : Bool := false

namespace RbacDb

variable (db : RbacDb)

/-- The codes of the permissions that are linked to the role. -/
def codesOf (code : String) : List String :=
  match db.roles.row? (.code code) with
  | none => []
  | some role => (db.rolePermissions.rows.filter fun l => l.roleId == role.id.text).filterMap fun l =>
      (db.permissions.row? (.id l.permissionId)).map Coded.code

/-- The tables a statement leaves, unless it fails or breaks a reference. -/
def accept {α : Type} (env : Env) (permissions roles : CodedTable)
    (links : Indexed RolePermission (String × String) fun l => [(l.roleId, l.permissionId)])
    (tenants : CodedTable) (reply : α) : Except DbError α × RbacDb :=
  if env.fault then (.error .other, db)
  else if references : References permissions.rows roles.rows links.rows then
    (.ok reply, { tenants, permissions, roles, rolePermissions := links, references })
  else (.error .other, db)

def exec (env : Env) : (q : RbacStmt) → q.Reply × RbacDb
  | .upsertTenant code name =>
      match upsert? db.tenants env.uuid code name with
      | some (r, tenants) => db.accept env db.permissions db.roles db.rolePermissions tenants r
      | none => (.error .uniqueViolation, db)
  | .upsertPermission code description =>
      match upsert? db.permissions env.uuid code description with
      | some (r, permissions) => db.accept env permissions db.roles db.rolePermissions db.tenants r
      | none => (.error .uniqueViolation, db)
  | .findPermissions => (if env.fault then .error .other else .ok db.permissions.rows, db)
  | .upsertRole code name =>
      match upsert? db.roles env.uuid code name with
      | some (r, roles) => db.accept env db.permissions roles db.rolePermissions db.tenants r
      | none => (.error .uniqueViolation, db)
  | .deleteRolePermissions roleId =>
      db.accept env db.permissions db.roles (db.rolePermissions.deleteWhere fun l => l.roleId == roleId)
        db.tenants ()
  | .createRolePermissions roleId permissionIds =>
      match db.rolePermissions.insertMany? (permissionIds.map fun id => ⟨roleId, id⟩) with
      | some links => db.accept env db.permissions db.roles links db.tenants ()
      | none => (.error .uniqueViolation, db)
  | .findRole code =>
      (if env.fault then .error .other
        else .ok ((db.roles.row? (.code code)).map fun _ => db.codesOf code), db)

end RbacDb

/-- No statement is part of a transaction. -/
def rbacEngine : Engine RbacDb RbacStmt RbacStmt.Reply Env where
  exec q env db := db.exec env q
  plainRead _ := false
  read q env _ _ db := (db.exec env q).1

abbrev RbacProg (α : Type) := Prog RbacStmt RbacStmt.Reply HttpException α

/-- Nothing catches an error of the database. -/
def orRethrow {α : Type} : Except DbError α → RbacProg α
  | .ok a => .ret a
  | .error _ => .throw .internal

/-! ### `rbac-seed.data.ts` -/

def DEFAULT_TENANT_CODE : String := "default"
def DEFAULT_TENANT_NAME : String := "默认租户"

/-- `Object.values(UserRole)` -/
def roleValues : List UserRole := [.ADMIN, .COACH, .STAFF, .STUDENT]

/-- The value of the enumeration. -/
def roleText : UserRole → String
  | .ADMIN => "ADMIN"
  | .STAFF => "STAFF"
  | .COACH => "COACH"
  | .STUDENT => "STUDENT"

def roleDisplayName : UserRole → String
  | .ADMIN => "管理员"
  | .STAFF => "教务"
  | .COACH => "教练"
  | .STUDENT => "学员"

def permissionDescriptions : List (String × String) :=
  [("org:cross", "跨租户访问（数据范围=all，不自动过滤 tenantId）"),
    ("auth:users:read", "查看后台用户"), ("auth:users:write", "创建/管理后台用户"),
    ("students:read", "查看学员"), ("students:write", "创建/编辑学员"),
    ("students:tags:write", "管理学员标签/分组"), ("coaches:read", "查看教练"),
    ("coaches:write", "管理教练"), ("memberships:read", "查看会员卡"),
    ("memberships:write", "发卡/调课"), ("course_types:read", "查看课程类型"),
    ("course_types:write", "管理课程类型"), ("classes:read", "查看班级"),
    ("classes:write", "管理班级"), ("schedules:read", "查看排课"), ("schedules:write", "管理排课"),
    ("venues:read", "查看场地"), ("venues:write", "管理场地"), ("attendance:read", "查看考勤"),
    ("attendance:write", "管理考勤/请假审批"), ("attendance:check_in", "签到"),
    ("statistics:read", "查看统计"), ("billing:read", "查看订单"), ("billing:write", "创建订单/支付回调")]

/-! ### Calls -/

/-- `permByCode.get(code)`: of two entries of a `Map` the later one counts. -/
def permByCode (allPerms : List Coded) (code : String) : Option String :=
  (allPerms.reverse.find? fun p => p.code == code).map fun p => p.id.text

/-- One round of the loop over the roles. -/
def seedRole (allPerms : List Coded) (roleCode : UserRole) : RbacProg Unit :=
  .stmt (.upsertRole (roleText roleCode) (roleDisplayName roleCode)) fun role => do
    let role ← orRethrow role
    .stmt (.deleteRolePermissions role.id.text) fun deleted => do
      orRethrow deleted
      let codes := Permission.ROLE_PERMISSION_MAP roleCode
      match codes.filterMap fun c => truthy (permByCode allPerms c) with
      | [] => return ()
      | permissionIds => .stmt (.createRolePermissions role.id.text permissionIds) orRethrow

def seedPermission (d : String × String) : RbacProg Unit :=
  .stmt (.upsertPermission d.1 d.2) fun permission => do
    let _ ← orRethrow permission
    return ()

def seedRbac : RbacProg String :=
  .stmt (.upsertTenant DEFAULT_TENANT_CODE DEFAULT_TENANT_NAME) fun tenant => do
    let tenant ← orRethrow tenant
    .forEach seedPermission permissionDescriptions
    .stmt .findPermissions fun allPerms => do
      let allPerms ← orRethrow allPerms
      .forEach (seedRole allPerms) roleValues
      return tenant.id.text

/-- `AccessContextService.loadPermissions` -/
def loadPermissions (role : UserRole) : RbacProg (List String) :=
  .stmt (.findRole (roleText role)) fun dbRole => do
    let dbRole ← orRethrow dbRole
    return Permission.loadPermissions dbRole role

/-! ### The system -/

inductive RbacCall where
  | seed
  | load (role : UserRole)
deriving DecidableEq

inductive RbacResult where
  | tenantId (id : String)
  | permissions (codes : List String)
deriving DecidableEq

def RbacCall.program : RbacCall → RbacProg RbacResult
  | .seed => seedRbac.bind fun id => .ret (.tenantId id)
  | .load role => (loadPermissions role).bind fun codes => .ret (.permissions codes)

abbrev RbacSystem := System RbacDb RbacStmt RbacStmt.Reply Env HttpException RbacResult RbacCall

abbrev RbacWorld := World RbacDb RbacStmt RbacStmt.Reply Env HttpException RbacResult RbacCall

/-- Any number of seeds and of requests. -/
def rbacSystem : RbacSystem where
  engine := rbacEngine
  program := RbacCall.program
  aborted := .internal

end MibServer.Rbac
