import MibServer.Tenancy.Isolation

/-!
The tenant of the rows a call creates.

The extension fills in a `tenantId` that a record leaves out, when it filters at all and
has a tenant to write. It never looks at one the record names, and a cross-tenant
administrator is not filtered: what is stored then is the record as the caller wrote it.

Whether Prisma takes a `where` for a unique selector is left open (`accepts`). A call the
database refuses stores nothing, and is not what this module is about.
-/

namespace MibServer.Tenancy

variable {F : Type}

/-- The records a call asks to store: an upsert does where its `where` selects nothing. -/
def Query.records (q : Query F) (accepts : Where F → Bool) (rows : List (Row F)) :
    List (CreateData F) :=
  match q.operation, q.args.data? with
  | .create, some (.record record) => [record]
  | .createMany, some (.record record) => [record]
  | .createMany, some (.array records) => records
  | .upsert, _ =>
      if accepts (q.args.where?.getD .empty) && (q.selected rows).isEmpty then [q.args.create] else []
  | _, _ => []

/-- The rows a call stores anew. -/
def Query.created (q : Query F) (accepts : Where F → Bool) (rows : List (Row F)) : List (Row F) :=
  (q.records accepts rows).map CreateData.row

/-- The clause and the tenant the extension applies to a call that creates. -/
def stamp (ambient : Ambient) : Option (TenantWhereClause × String) :=
  (resolveTenantWhere ambient).bind fun tenant =>
    (truthy (resolveTenantIdForWrite ambient)).map fun tenantId => (tenant, tenantId)

/-- The arguments with the `where` that reaches Prisma. -/
def Args.issued (args : Args F) (ambient : Ambient) : Args F :=
  match stamp ambient with
  | some (tenant, _) => args.scoped tenant
  | none => args

theorem bypass_eq_false {ambient : Ambient} {tenant : TenantWhereClause}
    (h : resolveTenantWhere ambient = some tenant) : ambient.isTenantBypass = false := by
  cases hbypass : ambient.isTenantBypass with
  | false => rfl
  | true => simp [resolveTenantWhere, hbypass] at h

/-- Without a stamp a call that creates goes through as it is. -/
theorem extension_of_unstamped {ambient : Ambient} {model : Model} {operation : Operation}
    (args : Args F) (hop : operation ∈ CREATE_OPS) (h : stamp ambient = none) :
    prismaTenantExtension ambient model operation args = ⟨operation, args⟩ := by
  have hread : operation ∉ READ_OPS ∧ operation ∉ WRITE_FILTER_OPS := by
    revert hop
    cases operation <;> decide
  unfold prismaTenantExtension
  split
  · rfl
  · split
    · rfl
    · rename_i tenant htenant
      have hwrite : truthy (resolveTenantIdForWrite ambient) = none := by
        simpa [stamp, htenant] using h
      simp [hread.1, hread.2, createQuery, hwrite]

/-- With one, every record the call stores is filled in. -/
theorem records_of_stamped {ambient : Ambient} {model : Model} {operation : Operation}
    {tenant : TenantWhereClause} {tenantId : String} (args : Args F) (accepts : Where F → Bool)
    (rows : List (Row F)) (hmodel : model ∈ TENANT_SCOPED_MODELS) (hop : operation ∈ CREATE_OPS)
    (h : stamp ambient = some (tenant, tenantId)) :
    (prismaTenantExtension ambient model operation args).records accepts rows =
      ((Query.mk operation (args.scoped tenant)).records accepts rows).map
        fun record => injectTenantIntoRecord record tenantId := by
  obtain ⟨tenant', htenant, h⟩ := Option.bind_eq_some_iff.mp h
  obtain ⟨tenantId', hwrite, heq⟩ := Option.map_eq_some_iff.mp h
  cases heq
  have hbypass := bypass_eq_false htenant
  have hread : operation ∉ READ_OPS ∧ operation ∉ WRITE_FILTER_OPS := by
    revert hop
    cases operation <;> decide
  unfold prismaTenantExtension
  simp only [hmodel, not_true_eq_false, if_false, htenant, hread.1, hread.2, hop, if_true,
    createQuery, hwrite, hbypass]
  cases operation with
  | create | createMany =>
      rcases hdata : args.data? with _ | record | records <;>
        simp [Query.records, Args.scoped, hdata, injectTenantIntoData]
  | upsert =>
      have hselected : (Query.mk .upsert { args.scoped tenant with
          create := injectTenantIntoRecord args.create tenantId }).selected rows =
            (Query.mk .upsert (args.scoped tenant)).selected rows := rfl
      simp only [Query.records, hselected]
      split <;> rfl
  | _ => exact absurd hop (by decide)

/-- The `tenantId` a created row is stored with. -/
def storedTenant (ambient : Ambient) (tenantId : Option String) : Option String :=
  tenantId <|> (stamp ambient).map Prod.snd

theorem create_stores (ambient : Ambient) {model : Model} (args : Args F)
    (record : CreateData F) (accepts : Where F → Bool) (rows : List (Row F))
    (hmodel : model ∈ TENANT_SCOPED_MODELS) :
    (prismaTenantExtension ambient model .create { args with data? := some (.record record) }).created
      accepts rows = [⟨storedTenant ambient record.tenantId, record.fields⟩] := by
  cases hstamp : stamp ambient with
  | none =>
      rw [extension_of_unstamped _ (by decide) hstamp]
      simp [Query.created, Query.records, CreateData.row, storedTenant, hstamp]
  | some pair =>
      obtain ⟨tenant, tenantId⟩ := pair
      rw [Query.created, records_of_stamped _ accepts rows hmodel (by decide) hstamp]
      simp [Query.records, Args.scoped, CreateData.row, injectTenantIntoRecord, storedTenant, hstamp]

/-! ### Whose rows are stored -/

/-- What the record is to be stored with: a tenant of the context that it names, or none
where the extension fills in one of the context. -/
def CreateData.Owned (record : CreateData F) (ambient : Ambient) (access : AccessContext) : Prop :=
  match record.tenantId with
  | some tenantId => tenantId ∈ access.tenantIds
  | none => ∃ tenantId ∈ access.tenantIds, (stamp ambient).map Prod.snd = some tenantId

instance (record : CreateData F) (ambient : Ambient) (access : AccessContext) :
    Decidable (record.Owned ambient access) := by
  unfold CreateData.Owned
  split <;> infer_instance

/-- **Rows are stored under a tenant of the context** exactly when the call's records are
to be: under a tenant of it that they name, or under the one the extension fills in. -/
theorem stores_own_iff_owned {bypass : Bool} {access : AccessContext} {model : Model}
    {operation : Operation} (args : Args F) (accepts : Where F → Bool) (rows : List (Row F))
    (hmodel : model ∈ TENANT_SCOPED_MODELS) (hop : operation ∈ CREATE_OPS) :
    (∀ row ∈ (prismaTenantExtension ⟨bypass, some access⟩ model operation args).created accepts rows,
        ∃ tenantId ∈ access.tenantIds, row.tenantId = some tenantId) ↔
      ∀ record ∈ (Query.mk operation (args.issued ⟨bypass, some access⟩)).records accepts rows,
        record.Owned ⟨bypass, some access⟩ access := by
  simp only [Query.created, List.forall_mem_map]
  cases hstamp : stamp ⟨bypass, some access⟩ with
  | none =>
      rw [extension_of_unstamped args hop hstamp, Args.issued, hstamp]
      refine forall₂_congr fun record _ => ?_
      cases hrecord : record.tenantId <;> simp [CreateData.Owned, CreateData.row, hrecord, hstamp]
  | some pair =>
      obtain ⟨tenant, tenantId⟩ := pair
      rw [records_of_stamped args accepts rows hmodel hop hstamp, Args.issued, hstamp]
      simp only [List.forall_mem_map]
      refine forall₂_congr fun record _ => ?_
      cases hrecord : record.tenantId <;>
        simp [CreateData.Owned, CreateData.row, injectTenantIntoRecord, hrecord, hstamp]

/-- `{ data: { tenantId, ... } }` -/
def createWith (tenantId : Option String) : Args String :=
  { whereIdIn [] with data? := some (.record ⟨tenantId, "st1"⟩) }

/-- A member of `t1` creates a student without naming a tenant. -/
theorem create_stores_own :
    ((prismaTenantExtension ⟨false, some member⟩ .Student .create (createWith none)).created
        (fun _ => true) []) = [⟨some "t1", "st1"⟩] ∧
      ∀ row ∈ (prismaTenantExtension ⟨false, some member⟩ .Student .create (createWith none)).created
        (fun _ => true) [], ∃ tenantId ∈ member.tenantIds, row.tenantId = some tenantId :=
  ⟨by decide +kernel,
    (stores_own_iff_owned _ _ _ (by decide) (by decide)).mpr (by decide +kernel)⟩

/-- A member of `t1` creates a student of `t2`. -/
theorem create_stores_foreign :
    ¬ ∀ (F : Type) (access : AccessContext) (model : Model) (operation : Operation)
      (args : Args F) (accepts : Where F → Bool) (rows : List (Row F)), access.tenantIds ≠ [] →
      model ∈ TENANT_SCOPED_MODELS → operation ∈ CREATE_OPS →
      ∀ row ∈ (prismaTenantExtension ⟨false, some access⟩ model operation args).created accepts rows,
        ∃ tenantId ∈ access.tenantIds, row.tenantId = some tenantId := by
  intro h
  have hforeign := h String member .Student .create (createWith (some "t2")) (fun _ => true) []
    (by decide) (by decide) (by decide)
  exact absurd hforeign (by decide +kernel)

end MibServer.Tenancy
