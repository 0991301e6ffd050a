import MibServer.Http

/-!
The tenant filter: `resolveTenantWhere`, `resolveTenantIdForWrite` and the query
extension that rewrites every call of a Prisma model.

The extension maps one call to another and never looks at the database, so it is
a function on calls. The two `AsyncLocalStorage` cells it reads are `Ambient`.
-/

namespace MibServer.Tenancy

/-! ### The access context -/

inductive UserRole where
  | ADMIN | COACH | STAFF | STUDENT
deriving DecidableEq, Repr

inductive DataScopeKind where
  | all | organization | coachOwned | self
deriving DecidableEq, Repr

/-- What the filter reads of an `AccessContext`. -/
structure AccessContext where
  tenantIds : List String
  activeTenantId : Option String
  dataScope : DataScopeKind

/-- The stores of `tenantBypassStorage` and `accessContextStorage`. -/
structure Ambient where
  isTenantBypass : Bool
  getAccessContext : Option AccessContext

inductive TenantWhereClause where
  | eq (tenantId : String)
  | in (tenantIds : List String)
deriving DecidableEq, Repr

/-- The `tenantId` column satisfies the clause; `NULL` never does. -/
def TenantWhereClause.admits : TenantWhereClause → Option String → Bool
  | _, none => false
  | .eq tenantId, some t => t == tenantId
  | .in tenantIds, some t => tenantIds.contains t

/-- The clause of one access context; `none` for a cross-tenant administrator. -/
def AccessContext.tenantWhere (access : AccessContext) : Option TenantWhereClause :=
  if access.dataScope = .all then none
  else match truthy access.activeTenantId with
    | some tenantId => some (.eq tenantId)
    | none =>
        if access.tenantIds ≠ [] then some (.in access.tenantIds)
        else some (.eq "__no_tenant_access__")

def resolveTenantWhere (ambient : Ambient) : Option TenantWhereClause :=
  if ambient.isTenantBypass then none
  else ambient.getAccessContext.bind AccessContext.tenantWhere

/-- `access.activeTenantId ?? access.tenantIds[0]` -/
def resolveTenantIdForWrite (ambient : Ambient) : Option String :=
  ambient.getAccessContext.bind fun access => access.activeTenantId <|> access.tenantIds.head?

/-- The `tenantId` of a row is one the clause of the caller lets through. -/
def inScope (scope : Option TenantWhereClause) (tenantId : Option String) : Bool :=
  scope.all fun clause => clause.admits tenantId

@[simp] theorem inScope_none (tenantId : Option String) : inScope none tenantId = true := rfl

/-! ### Calls -/

/-- The models of `schema.prisma`. -/
inductive Model where
  | Tenant | Permission | Role | RolePermission | UserTenant | User | LoginEvent | Student | Tag
  | StudentTag | Group | StudentGroup | CourseType | Coach | Venue | Class | ClassStudent | Schedule
  | ScheduleResourceLock | MembershipCard | LessonTransaction | LeaveRequest | AttendanceRecord
  | ScheduleQrToken | Order
deriving DecidableEq, Repr

def TENANT_SCOPED_MODELS : List Model :=
  [.User, .Student, .Coach, .CourseType, .Class, .Schedule, .MembershipCard, .Order, .Venue]

/-- The operations of a Prisma model on MySQL. -/
inductive Operation where
  | findMany | findFirst | findFirstOrThrow | findUnique | findUniqueOrThrow
  | count | aggregate | groupBy
  | create | createMany
  | update | updateMany | delete | deleteMany | upsert
deriving DecidableEq, Repr

def READ_OPS : List Operation := [.findMany, .findFirst, .findUnique, .count, .aggregate, .groupBy]

def WRITE_FILTER_OPS : List Operation := [.update, .delete, .updateMany, .deleteMany]

def CREATE_OPS : List Operation := [.create, .createMany, .upsert]

/-- A row of a tenant-scoped model: the column the filter is about, and the rest. -/
structure Row (F : Type) where
  tenantId : Option String
  fields : F
deriving DecidableEq, Repr

/-- A `where` object: `{}`, a tenant clause, any other condition of the caller, or
`{ AND: [a, b] }`. -/
inductive Where (F : Type) where
  | empty
  | tenant (clause : TenantWhereClause)
  | caller (holds : Row F → Bool)
  | and (a b : Where F)

def Where.holds {F : Type} : Where F → Row F → Bool
  | .empty, _ => true
  | .tenant clause, r => clause.admits r.tenantId
  | .caller holds, r => holds r
  | .and a b, r => a.holds r && b.holds r

/-- A record to create; `none` where `tenantId` is left out or null. -/
structure CreateData (F : Type) where
  tenantId : Option String
  fields : F

/-- The `data` of a create: a record, or an array of records. -/
inductive Data (F : Type) where
  | record (row : CreateData F)
  | array (rows : List (CreateData F))

/-- The columns an update sets; `none` where `tenantId` is left out. -/
structure UpdateData (F : Type) where
  tenantId : Option (Option String)
  change : F → F

/-- The argument object of a call. `page` is what `orderBy`, `distinct`, `cursor`,
`skip`, `take` and `limit` make of the matching rows; `related` lists the tenants
of the rows of tenant-scoped models that `select`, `include` and nested writes
reach from a row's foreign keys, under conditions of their own. `change` is the
`data` of an update and the `update` of an upsert. -/
structure Args (F : Type) where
  where? : Option (Where F)
  page : List (Row F) → List (Row F)
  page_subset : ∀ rows, page rows ⊆ rows
  related : F → List (Option String)
  data? : Option (Data F)
  change : UpdateData F
  create : CreateData F

/-- A call as Prisma executes it. -/
structure Query (F : Type) where
  operation : Operation
  args : Args F

/-! ### The extension -/

section

variable {F : Type}

def mergeWhere (where? : Option (Where F)) (tenant : TenantWhereClause) : Where F :=
  match where? with
  | none | some .empty => .tenant tenant
  | some w => .and w (.tenant tenant)

def injectTenantIntoRecord (row : CreateData F) (tenantId : String) : CreateData F :=
  { row with tenantId := row.tenantId <|> some tenantId }

def injectTenantIntoData (data : Data F) (tenantId : String) : Data F :=
  match data with
  | .array rows => .array (rows.map fun row => injectTenantIntoRecord row tenantId)
  | .record row => .record (injectTenantIntoRecord row tenantId)

/-- `a.where = mergeWhere(a.where, tenantWhere)` -/
def Args.scoped (a : Args F) (tenant : TenantWhereClause) : Args F :=
  { a with where? := some (mergeWhere a.where? tenant) }

/-- The branch of the operations that create. -/
def createQuery (ambient : Ambient) (tenant : TenantWhereClause) (operation : Operation)
    (a : Args F) : Query F :=
  match truthy (resolveTenantIdForWrite ambient), ambient.isTenantBypass with
  | some tenantId, false =>
      match operation, a.data? with
      | .create, some (.record row) =>
          ⟨operation, { a with data? := some (injectTenantIntoData (.record row) tenantId) }⟩
      | .createMany, some data =>
          ⟨operation, { a with data? := some (injectTenantIntoData data tenantId) }⟩
      | .upsert, _ =>
          ⟨operation, { a.scoped tenant with create := injectTenantIntoRecord a.create tenantId }⟩
      | _, _ => ⟨operation, a⟩
  | _, _ => ⟨operation, a⟩

/-- `$allOperations`. A `findUnique` becomes a `findFirst` that passes on `where`,
`select` and `include` only. -/
def prismaTenantExtension (ambient : Ambient) (model : Model) (operation : Operation)
    (args : Args F) : Query F :=
  if model ∉ TENANT_SCOPED_MODELS then ⟨operation, args⟩
  else match resolveTenantWhere ambient with
    | none => ⟨operation, args⟩
    | some tenant =>
        if operation ∈ READ_OPS then
          if operation = .findUnique then
            ⟨.findFirst, { args.scoped tenant with page := id, page_subset := fun _ => List.Subset.refl _ }⟩
          else ⟨operation, args.scoped tenant⟩
        else if operation ∈ WRITE_FILTER_OPS then ⟨operation, args.scoped tenant⟩
        else if operation ∈ CREATE_OPS then createQuery ambient tenant operation args
        else ⟨operation, args⟩

/-! ### Executing a call -/

/-- What a call does with the rows of its model, each changed row before and
after, and the tenants of the related rows it reaches. -/
structure Effect (F : Type) where
  returned : List (Row F) := []
  aggregated : List (Row F) := []
  changed : List (Row F × Row F) := []
  deleted : List (Row F) := []
  related : List (Option String) := []

/-- The tenants of every row a call returns, aggregates, changes or deletes. -/
def Effect.tenants (e : Effect F) : List (Option String) :=
  e.returned.map Row.tenantId ++ e.aggregated.map Row.tenantId ++
    e.changed.flatMap (fun c => [c.1.tenantId, c.2.tenantId]) ++ e.deleted.map Row.tenantId ++ e.related

def CreateData.row (c : CreateData F) : Row F := ⟨c.tenantId, c.fields⟩

def UpdateData.apply (u : UpdateData F) (r : Row F) : Row F :=
  ⟨u.tenantId.getD r.tenantId, u.change r.fields⟩

/-- The rows a call selects from its table: the operations on a unique row take no
paging arguments. -/
def Query.selected (q : Query F) (rows : List (Row F)) : List (Row F) :=
  let matching := rows.filter (q.args.where?.getD .empty).holds
  match q.operation with
  | .findUnique | .findUniqueOrThrow | .update | .delete | .upsert => matching.take 1
  | .findFirst | .findFirstOrThrow => (q.args.page matching).take 1
  | _ => q.args.page matching

/-- The effect of updating the rows a call selects. -/
def Args.updateEffect (args : Args F) (hits : List (Row F)) : Effect F :=
  let written := hits.map fun r => (r, args.change.apply r)
  { returned := written.map Prod.snd, changed := written,
    related := written.flatMap fun c => args.related c.2.fields }

/-- The effect of creating a record. -/
def Args.createEffect (args : Args F) (record : CreateData F) : Effect F :=
  { returned := [record.row], related := args.related record.fields }

/-- Execute a call on the rows of its model. -/
def Query.execute (q : Query F) (rows : List (Row F)) : Effect F :=
  let hits := q.selected rows
  let related := hits.flatMap fun r => q.args.related r.fields
  match q.operation with
  | .findMany | .findFirst | .findFirstOrThrow | .findUnique | .findUniqueOrThrow =>
      { returned := hits, related }
  | .count | .aggregate | .groupBy => { aggregated := hits }
  | .create =>
      match q.args.data? with
      | some (.record record) => q.args.createEffect record
      | _ => {}
  | .createMany => {}
  | .update => q.args.updateEffect hits
  | .updateMany => { changed := (q.args.updateEffect hits).changed }
  | .delete => { returned := hits, deleted := hits, related }
  | .deleteMany => { deleted := hits }
  | .upsert => if hits = [] then q.args.createEffect q.args.create else q.args.updateEffect hits

end

end MibServer.Tenancy
