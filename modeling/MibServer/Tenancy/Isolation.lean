import MibServer.Tenancy.Extension

/-!
Tenant isolation: what a call of a tenant-scoped model touches, and exactly which
calls touch only admitted rows.

A call the extension filters selects admitted rows only. The two `OrThrow` reads
are in none of its operation sets and an upsert without a tenant to write falls
out of the create branch, so they run with the caller's own `where`; and the
filter is on the rows a call selects, so it does not reach the `tenantId` an
update sets, the record an upsert creates, or related rows.
-/

namespace MibServer.Tenancy

variable {F : Type}

/-- `resolveTenantWhere` admits a row of this tenant. -/
def Admitted (ambient : Ambient) (tenantId : Option String) : Prop :=
  ∀ clause ∈ resolveTenantWhere ambient, clause.admits tenantId = true

instance (ambient : Ambient) (tenantId : Option String) : Decidable (Admitted ambient tenantId) :=
  inferInstanceAs (Decidable (∀ clause ∈ resolveTenantWhere ambient, _))

/-- The extended client touches admitted rows only. -/
def Isolated (ambient : Ambient) (model : Model) (operation : Operation) (args : Args F)
    (rows : List (Row F)) : Prop :=
  ∀ t ∈ ((prismaTenantExtension ambient model operation args).execute rows).tenants,
    Admitted ambient t

instance (ambient : Ambient) (model : Model) (operation : Operation) (args : Args F)
    (rows : List (Row F)) : Decidable (Isolated ambient model operation args rows) :=
  inferInstanceAs (Decidable (∀ t ∈ Effect.tenants _, _))

/-- The operations that read, update or delete rows. -/
def Operation.touchesRows (operation : Operation) : Bool :=
  operation ≠ .create && operation ≠ .createMany

/-- The extension adds the tenant clause to the `where` of the operation. -/
def Filtered (ambient : Ambient) (operation : Operation) : Bool :=
  operation ∈ READ_OPS || operation ∈ WRITE_FILTER_OPS ||
    (operation = .upsert && (truthy (resolveTenantIdForWrite ambient)).isSome)

/-- The part of a table an operation works on. -/
def Scope (ambient : Ambient) (operation : Operation) (rows : List (Row F)) : List (Row F) :=
  if Filtered ambient operation then rows.filter fun r => decide (Admitted ambient r.tenantId)
  else rows

/-! ### The extended client is the plain client on the admitted rows -/

theorem mergeWhere_holds (where? : Option (Where F)) (tenant : TenantWhereClause) (r : Row F) :
    (mergeWhere where? tenant).holds r =
      (tenant.admits r.tenantId && (where?.getD .empty).holds r) := by
  unfold mergeWhere
  split <;> simp [Where.holds, Bool.and_comm]

theorem filter_scoped (args : Args F) (tenant : TenantWhereClause) (rows : List (Row F)) :
    rows.filter ((args.scoped tenant).where?.getD .empty).holds =
      (rows.filter fun r => tenant.admits r.tenantId).filter (args.where?.getD .empty).holds := by
  rw [List.filter_filter]
  refine List.filter_congr fun r _ => ?_
  rw [Bool.and_comm]
  exact mergeWhere_holds args.where? tenant r

theorem selected_scoped (operation : Operation) (args : Args F) (tenant : TenantWhereClause)
    (rows : List (Row F)) :
    (Query.mk operation (args.scoped tenant)).selected rows =
      (Query.mk operation args).selected (rows.filter fun r => tenant.admits r.tenantId) := by
  unfold Query.selected
  rw [filter_scoped]
  rfl

/-- A scoped call is the plain call on the admitted rows. -/
theorem execute_scoped (operation : Operation) (args : Args F) (tenant : TenantWhereClause)
    (rows : List (Row F)) :
    (Query.mk operation (args.scoped tenant)).execute rows =
      (Query.mk operation args).execute (rows.filter fun r => tenant.admits r.tenantId) := by
  unfold Query.execute
  rw [selected_scoped]
  rfl

/-- The record an upsert creates carries the tenant of the context, unless it names
one. -/
def Args.stamped (args : Args F) (ambient : Ambient) : Args F :=
  match truthy (resolveTenantIdForWrite ambient) with
  | some tenantId => { args with create := injectTenantIntoRecord args.create tenantId }
  | none => args

/-- Only an upsert reads the record to create. -/
theorem execute_stamped {operation : Operation} (h : operation ≠ .upsert) (args : Args F)
    (ambient : Ambient) (rows : List (Row F)) :
    (Query.mk operation (args.stamped ambient)).execute rows =
      (Query.mk operation args).execute rows := by
  unfold Args.stamped
  split
  · cases operation with
    | upsert => exact absurd rfl h
    | _ => rfl
  · rfl

theorem scope_of_filtered {ambient : Ambient} {tenant : TenantWhereClause} {operation : Operation}
    (htenant : resolveTenantWhere ambient = some tenant) (h : Filtered ambient operation = true)
    (rows : List (Row F)) :
    Scope ambient operation rows = rows.filter fun r => tenant.admits r.tenantId := by
  simp [Scope, h, Admitted, htenant]

/-- **What the extension does**: the call sees the admitted rows of its table when
its operation is filtered, and every row when it is not. -/
theorem execute_extension {ambient : Ambient} {tenant : TenantWhereClause} {model : Model}
    {operation : Operation} (args : Args F) (rows : List (Row F))
    (hmodel : model ∈ TENANT_SCOPED_MODELS) (htenant : resolveTenantWhere ambient = some tenant)
    (htouches : operation.touchesRows = true) :
    (prismaTenantExtension ambient model operation args).execute rows =
      (Query.mk operation (args.stamped ambient)).execute (Scope ambient operation rows) := by
  have hbypass : ambient.isTenantBypass = false := by
    cases h : ambient.isTenantBypass with
    | false => rfl
    | true => simp [resolveTenantWhere, h] at htenant
  cases operation with
  | create | createMany => cases htouches
  | findFirstOrThrow | findUniqueOrThrow =>
      rw [execute_stamped (by decide)]
      simp [prismaTenantExtension, hmodel, htenant, READ_OPS, WRITE_FILTER_OPS, CREATE_OPS, Scope,
        Filtered]
  | findUnique =>
      rw [execute_stamped (by decide), scope_of_filtered htenant rfl, ← execute_scoped]
      simp [prismaTenantExtension, hmodel, htenant, READ_OPS, Query.execute, Query.selected,
        Args.scoped]
  | upsert =>
      cases hwrite : truthy (resolveTenantIdForWrite ambient) with
      | none =>
          simp [prismaTenantExtension, hmodel, htenant, READ_OPS, WRITE_FILTER_OPS, CREATE_OPS,
            createQuery, hwrite, Scope, Filtered, Args.stamped]
      | some tenantId =>
          rw [scope_of_filtered htenant (by simp [Filtered, hwrite]), ← execute_scoped]
          simp [prismaTenantExtension, hmodel, htenant, READ_OPS, WRITE_FILTER_OPS, CREATE_OPS,
            createQuery, hwrite, hbypass, Args.stamped, Args.scoped]
  | _ =>
      rw [execute_stamped (by decide), scope_of_filtered htenant rfl, ← execute_scoped]
      simp [prismaTenantExtension, hmodel, htenant, READ_OPS, WRITE_FILTER_OPS]

/-! ### What a call touches -/

/-- The tenants a call reaches through a row it selects, beyond the row's own: the
tenant an update leaves on it, and its related rows. -/
def Query.reached (q : Query F) (r : Row F) : List (Option String) :=
  let image := q.args.change.apply r
  match q.operation with
  | .findMany | .findFirst | .findFirstOrThrow | .findUnique | .findUniqueOrThrow | .delete =>
      q.args.related r.fields
  | .update | .upsert => image.tenantId :: q.args.related image.fields
  | .updateMany => [image.tenantId]
  | .count | .aggregate | .groupBy | .deleteMany | .create | .createMany => []

/-- An upsert that selects nothing creates its record. -/
def Query.Creates (q : Query F) (rows : List (Row F)) : Prop :=
  q.operation = .upsert ∧ q.selected rows = []

instance (q : Query F) [DecidableEq F] (rows : List (Row F)) : Decidable (q.Creates rows) :=
  inferInstanceAs (Decidable (_ ∧ _))

theorem Effect.mem_tenants {e : Effect F} {t : Option String} :
    t ∈ e.tenants ↔ (∃ r ∈ e.returned, t = r.tenantId) ∨ (∃ r ∈ e.aggregated, t = r.tenantId) ∨
      (∃ c ∈ e.changed, t = c.1.tenantId ∨ t = c.2.tenantId) ∨ (∃ r ∈ e.deleted, t = r.tenantId) ∨
      t ∈ e.related := by
  simp [Effect.tenants, eq_comm]

theorem Args.mem_updateEffect {args : Args F} {hits : List (Row F)} {t : Option String} :
    t ∈ (args.updateEffect hits).tenants ↔
      ∃ r ∈ hits, t = r.tenantId ∨ t = (args.change.apply r).tenantId ∨
        t ∈ args.related (args.change.apply r).fields := by
  rw [Effect.mem_tenants]
  simp only [Args.updateEffect, List.map_map, List.mem_map, List.mem_flatMap]
  grind

/-- A call touches the rows it selects, what it reaches through them, and the
record it creates. -/
theorem Query.mem_tenants {q : Query F} {rows : List (Row F)} {t : Option String}
    (h : q.operation.touchesRows = true) :
    t ∈ (q.execute rows).tenants ↔
      (∃ r ∈ q.selected rows, t = r.tenantId ∨ t ∈ q.reached r) ∨
      q.Creates rows ∧ (t = q.args.create.tenantId ∨ t ∈ q.args.related q.args.create.fields) := by
  obtain ⟨operation, args⟩ := q
  cases operation with
  | create | createMany => cases h
  | findMany | findFirst | findFirstOrThrow | findUnique | findUniqueOrThrow | delete
  | count | aggregate | groupBy | deleteMany =>
      simp [Effect.mem_tenants, Query.execute, Query.reached, Query.Creates, and_or_left, exists_or]
  | update =>
      simp [Query.execute, Query.reached, Query.Creates, Args.mem_updateEffect]
  | updateMany =>
      simp only [Effect.mem_tenants, Query.execute, Query.reached, Query.Creates, Args.updateEffect,
        List.mem_map, List.mem_cons, List.not_mem_nil, or_false]
      grind
  | upsert =>
      by_cases hnone : (Query.mk .upsert args).selected rows = []
      · simp [Effect.mem_tenants, Query.execute, Query.Creates, hnone, Args.createEffect,
          CreateData.row]
      · simp [Query.execute, Query.reached, Query.Creates, hnone, Args.mem_updateEffect]

@[simp] theorem selected_stamped (operation : Operation) (args : Args F) (ambient : Ambient)
    (rows : List (Row F)) :
    (Query.mk operation (args.stamped ambient)).selected rows =
      (Query.mk operation args).selected rows := by
  unfold Args.stamped
  split <;> rfl

@[simp] theorem reached_stamped (operation : Operation) (args : Args F) (ambient : Ambient)
    (r : Row F) :
    (Query.mk operation (args.stamped ambient)).reached r = (Query.mk operation args).reached r := by
  unfold Args.stamped
  split <;> rfl

@[simp] theorem related_stamped (args : Args F) (ambient : Ambient) :
    (args.stamped ambient).related (args.stamped ambient).create.fields =
      args.related args.create.fields := by
  unfold Args.stamped
  split <;> rfl

/-! ### Isolation -/

/-- A context whose data scope is not `all` has a tenant clause. -/
theorem tenantWhere_isSome {access : AccessContext} (h : access.dataScope ≠ .all) :
    ∃ tenant, access.tenantWhere = some tenant := by
  unfold AccessContext.tenantWhere
  rw [if_neg h]
  split
  · exact ⟨_, rfl⟩
  · split <;> exact ⟨_, rfl⟩

theorem truthy_eq_some {x : Option String} {s : String} (h : truthy x = some s) : x = some s := by
  unfold truthy at h
  grind

/-- The tenant the extension writes is one it admits. -/
theorem admits_tenantIdForWrite {access : AccessContext} {tenant : TenantWhereClause}
    {tenantId : String} (htenant : access.tenantWhere = some tenant)
    (hwrite : truthy (resolveTenantIdForWrite ⟨false, some access⟩) = some tenantId) :
    tenant.admits (some tenantId) = true := by
  have hid := truthy_eq_some hwrite
  rw [hid] at hwrite
  obtain ⟨tenantIds, activeTenantId, dataScope⟩ := access
  simp only [AccessContext.tenantWhere, resolveTenantIdForWrite, Option.bind_some] at htenant hid
  cases activeTenantId with
  | some active =>
      obtain rfl : active = tenantId := by simpa using hid
      grind [TenantWhereClause.admits]
  | none =>
      cases tenantIds with
      | nil => simp at hid
      | cons first rest =>
          obtain rfl : first = tenantId := by simpa using hid
          grind [TenantWhereClause.admits, truthy]

/-- What a call must ask for to be isolated, given the rows of its table. -/
structure Confined (ambient : Ambient) (operation : Operation) (args : Args F)
    (rows : List (Row F)) : Prop where
  /-- Where the extension does not filter, the caller's own `where` selects admitted
  rows. -/
  selected : Filtered ambient operation = false →
    ∀ r ∈ (Query.mk operation args).selected rows, Admitted ambient r.tenantId
  /-- An update leaves an admitted tenant on the row, and the related rows reached are
  admitted. -/
  reached : ∀ r ∈ (Query.mk operation args).selected (Scope ambient operation rows),
    ∀ t ∈ (Query.mk operation args).reached r, Admitted ambient t
  /-- The record an upsert creates names an admitted tenant, or none where the
  extension fills it in. -/
  created : (Query.mk operation args).Creates (Scope ambient operation rows) →
    (Filtered ambient operation = true ∧ args.create.tenantId = none ∨
      Admitted ambient args.create.tenantId) ∧
    ∀ t ∈ args.related args.create.fields, Admitted ambient t

/-- What a call selects is in its table. -/
theorem Query.selected_subset (q : Query F) (rows : List (Row F)) : q.selected rows ⊆ rows := by
  intro r hr
  unfold Query.selected at hr
  split at hr
  case h_1 | h_2 | h_3 | h_4 | h_5 => exact (List.mem_filter.mp (List.mem_of_mem_take hr)).1
  case h_6 | h_7 =>
    exact (List.mem_filter.mp (q.args.page_subset _ (List.mem_of_mem_take hr))).1
  case h_8 => exact (List.mem_filter.mp (q.args.page_subset _ hr)).1

/-- A filtered operation selects admitted rows. -/
theorem admitted_of_mem_scope {ambient : Ambient} {operation : Operation} {rows : List (Row F)}
    {r : Row F} (hfiltered : Filtered ambient operation = true)
    (h : r ∈ Scope ambient operation rows) : Admitted ambient r.tenantId := by
  rw [Scope, if_pos hfiltered] at h
  simpa using (List.mem_filter.mp h).2

/-- The tenant of the record an upsert creates is admitted when the extension fills
it in, and otherwise when the record names an admitted one. -/
theorem admitted_stamped_create {access : AccessContext} (hscope : access.dataScope ≠ .all)
    (args : Args F) :
    Admitted ⟨false, some access⟩ (args.stamped ⟨false, some access⟩).create.tenantId ↔
      Filtered ⟨false, some access⟩ .upsert = true ∧ args.create.tenantId = none ∨
        Admitted ⟨false, some access⟩ args.create.tenantId := by
  obtain ⟨tenant, htenant⟩ := tenantWhere_isSome hscope
  have hall : ∀ t, Admitted ⟨false, some access⟩ t ↔ tenant.admits t = true := by
    simp [Admitted, resolveTenantWhere, htenant]
  cases hwrite : truthy (resolveTenantIdForWrite ⟨false, some access⟩) with
  | none => simp [Args.stamped, hwrite, Filtered, READ_OPS, WRITE_FILTER_OPS]
  | some tenantId =>
      have hwritten := admits_tenantIdForWrite htenant hwrite
      cases hcreate : args.create.tenantId with
      | none =>
          simp [Args.stamped, hwrite, Filtered, injectTenantIntoRecord, hcreate, hall, hwritten]
      | some _ => simp [Args.stamped, hwrite, injectTenantIntoRecord, hcreate]

/-- **Tenant isolation**: under a context whose scope is not `all`, a call of a
tenant-scoped model touches admitted rows only, exactly when it is confined. -/
theorem isolated_iff_confined {access : AccessContext} {model : Model} {operation : Operation}
    (args : Args F) (rows : List (Row F)) (hscope : access.dataScope ≠ .all)
    (hmodel : model ∈ TENANT_SCOPED_MODELS) (htouches : operation.touchesRows = true) :
    Isolated ⟨false, some access⟩ model operation args rows ↔
      Confined ⟨false, some access⟩ operation args rows := by
  obtain ⟨tenant, htenant⟩ := tenantWhere_isSome hscope
  have hstamp := admitted_stamped_create hscope args
  have hresolved : resolveTenantWhere ⟨false, some access⟩ = some tenant := htenant
  unfold Isolated
  rw [execute_extension args rows hmodel hresolved htouches]
  have hstampedTouches :
      (Query.mk operation (args.stamped ⟨false, some access⟩)).operation.touchesRows = true := htouches
  simp only [Query.mem_tenants hstampedTouches, Query.Creates, selected_stamped, reached_stamped,
    related_stamped]
  constructor
  · intro h
    refine ⟨fun hplain r hr => ?_, fun r hr t ht => ?_, fun hcreates => ⟨?_, fun t ht => ?_⟩⟩
    · rw [Scope, hplain] at h
      exact h _ (Or.inl ⟨r, hr, Or.inl rfl⟩)
    · exact h t (Or.inl ⟨r, hr, Or.inr ht⟩)
    · have hupsert : operation = .upsert := hcreates.1
      rw [hupsert, ← hstamp]
      exact h _ (Or.inr ⟨hcreates, Or.inl rfl⟩)
    · exact h t (Or.inr ⟨hcreates, Or.inr ht⟩)
  · rintro h t (⟨r, hr, rfl | ht⟩ | ⟨hcreates, rfl | ht⟩)
    · cases hfiltered : Filtered ⟨false, some access⟩ operation with
      | true => exact admitted_of_mem_scope hfiltered (Query.selected_subset _ _ hr)
      | false =>
          rw [Scope, hfiltered] at hr
          exact h.selected hfiltered r hr
    · exact h.reached r hr t ht
    · have hcreated := (h.created hcreates).1
      rw [hcreates.1] at hcreated
      exact hstamp.mpr hcreated
    · exact (h.created hcreates).2 t ht

/-! ### A covered and an uncovered read -/

/-- A member of `t1`, and the classes of two tenants. -/
def member : AccessContext := { tenantIds := ["t1"], activeTenantId := none, dataScope := .organization }

def classes : List (Row String) := [⟨some "t1", "k1"⟩, ⟨some "t2", "k2"⟩]

/-- `{ where: { id: { in: ids } } }` -/
def whereIdIn (ids : List String) : Args String where
  where? := some (.caller fun r => ids.contains r.fields)
  page := id
  page_subset := fun _ => List.Subset.refl _
  related := fun _ => []
  data? := none
  change := { tenantId := none, change := id }
  create := { tenantId := none, fields := "" }

theorem findMany_isolated :
    ((prismaTenantExtension ⟨false, some member⟩ .Class .findMany (whereIdIn ["k1", "k2"])).execute
        classes).returned = [⟨some "t1", "k1"⟩] ∧
      Isolated ⟨false, some member⟩ .Class .findMany (whereIdIn ["k1", "k2"]) classes := by
  refine ⟨by decide +kernel, (isolated_iff_confined _ _ (by decide) (by decide) (by decide)).mpr ?_⟩
  exact ⟨by decide +kernel, by decide +kernel, by decide +kernel⟩

/-- `findFirstOrThrow` returns the class of another tenant. -/
theorem findFirstOrThrow_not_isolated :
    ¬ ∀ (F : Type) (access : AccessContext) (model : Model) (operation : Operation)
      (args : Args F) (rows : List (Row F)), access.dataScope ≠ .all →
      model ∈ TENANT_SCOPED_MODELS → operation.touchesRows = true →
      Isolated ⟨false, some access⟩ model operation args rows := by
  intro h
  exact absurd (h String member .Class .findFirstOrThrow (whereIdIn ["k2"]) classes (by decide)
    (by decide) (by decide)) (by decide +kernel)

end MibServer.Tenancy
