import MibServer.Access.Portal

/-!
What a user sees, and reaches.

`Portal.viewer` says what a user is to the application, and `SeesStudent`, `SeesCoach` and
`SeesSchedule` what such a user sees. The list, the detail, the update and the removal of a row all
come to that, although the list goes through one filter of the services, the others through
another, and all of them through the filter of the extension.
-/

namespace MibServer.Access

open MibServer.Lib MibServer.Tenancy

/-! ### What is sent -/

section Sent

variable {F : Type} {ambient : Ambient} {model : Model}

theorem mergeScope_holds (base scope : Option (Where F)) (r : Row F) :
    (mergeScope base scope).holds r =
      ((base.getD .empty).holds r && (scope.getD .empty).holds r) := by
  cases scope with
  | none => simp [mergeScope, Where.holds]
  | some scope =>
      cases base with
      | none => simp [mergeScope, Where.holds]
      | some base => cases base <;> simp [mergeScope, Where.holds]

variable [Inhabited F]

/-- A read, an update or a delete is sent with the tenant clause. -/
theorem sentWhere_eq (hmodel : model ∈ TENANT_SCOPED_MODELS) {operation : Operation}
    (hoperation : operation ∈ [.findMany, .findFirst, .update, .delete]) (w : Where F) (r : Row F) :
    sentWhere ambient model operation w r =
      (w.holds r && decide (Admitted ambient r.tenantId)) := by
  have hkept : operation ∈ READ_OPS ∧ operation ≠ .findUnique ∨
      operation ∉ READ_OPS ∧ operation ∈ WRITE_FILTER_OPS := by
    revert operation
    decide
  rw [Bool.eq_iff_iff, Bool.and_eq_true, decide_eq_true_iff]
  unfold sentWhere prismaTenantExtension Admitted
  rw [if_neg (not_not.mpr hmodel)]
  cases htenant : resolveTenantWhere ambient with
  | none => simp [argsOf]
  | some tenant =>
      rcases hkept with ⟨hread, hne⟩ | ⟨hread, hwrite⟩
      · simp [hread, hne, Args.scoped, mergeWhere_holds, argsOf, and_comm]
      · simp [hread, hwrite, Args.scoped, mergeWhere_holds, argsOf, and_comm]

theorem selectRows_findMany (hmodel : model ∈ TENANT_SCOPED_MODELS) (w : Where F)
    (rows : List (Row F)) : selectRows ambient model .findMany w rows =
      rows.filter fun r => w.holds r && decide (Admitted ambient r.tenantId) := by
  have hsent : selectRows ambient model .findMany w rows =
      rows.filter (sentWhere ambient model .findMany w) := by
    unfold selectRows sentWhere prismaTenantExtension
    rw [if_neg (not_not.mpr hmodel)]
    split <;> rfl
  rw [hsent]
  exact List.filter_congr fun r _ => sentWhere_eq hmodel (by decide) w r

theorem selectRows_findFirst (hmodel : model ∈ TENANT_SCOPED_MODELS) (w : Where F)
    (rows : List (Row F)) : selectRows ambient model .findFirst w rows =
      (rows.filter fun r => w.holds r && decide (Admitted ambient r.tenantId)).take 1 := by
  have hsent : selectRows ambient model .findFirst w rows =
      (rows.filter (sentWhere ambient model .findFirst w)).take 1 := by
    unfold selectRows sentWhere prismaTenantExtension
    rw [if_neg (not_not.mpr hmodel)]
    split <;> rfl
  rw [hsent]
  exact congrArg (List.take 1) (List.filter_congr fun r _ => sentWhere_eq hmodel (by decide) w r)

end Sent

section Order

variable {F : Type} {column : F → Int} {rows : List (Row F)}

theorem orderByAsc_perm : (orderByAsc column rows).Perm rows := List.mergeSort_perm _ _

theorem orderByDesc_perm : (orderByDesc column rows).Perm rows := List.mergeSort_perm _ _

theorem orderByAsc_pairwise :
    (orderByAsc column rows).Pairwise fun a b => column a.fields ≤ column b.fields := by
  have hsorted : (orderByAsc column rows).Pairwise fun a b =>
      decide (column a.fields ≤ column b.fields) = true :=
    List.pairwise_mergeSort (fun a b c => by simpa using Int.le_trans)
      (fun a b => by simpa using Int.le_total _ _) rows
  simpa using hsorted

theorem orderByDesc_pairwise :
    (orderByDesc column rows).Pairwise fun a b => column b.fields ≤ column a.fields := by
  have hsorted : (orderByDesc column rows).Pairwise fun a b =>
      decide (column b.fields ≤ column a.fields) = true :=
    List.pairwise_mergeSort (fun a b c => by simpa using fun h h' => Int.le_trans h' h)
      (fun a b => by simpa using Int.le_total _ _) rows
  simpa using hsorted

end Order

/-! ### One service -/

section Service

variable {P : Type} {service : LinkedService P} {ctx : ScopedContext} {table : LinkedTable P}

/-- Let through by the extension and by the filter of the service. -/
def LinkedService.InScope (service : LinkedService P) (ctx : ScopedContext) (r : Row (Linked P)) :
    Prop :=
  Admitted ctx.ambient r.tenantId ∧ ((service.scopeWhere ctx).getD .empty).holds r = true

theorem eq_of_id {r r' : Row (Linked P)} (hr : r ∈ table.rows) (hr' : r' ∈ table.rows)
    (hid : r.fields.id.text = r'.fields.id.text) : r = r' :=
  table.unique.eq_of_mem (k := .id r.fields.id.text) hr hr' (by simp [linkKeys])
    (by simp [linkKeys, hid])

variable [Inhabited P]

theorem mem_findAll (hmodel : service.model ∈ TENANT_SCOPED_MODELS) {r : Row (Linked P)} :
    r ∈ service.findAll ctx table ↔ r ∈ table.rows ∧ service.InScope ctx r := by
  unfold LinkedService.findAll LinkedService.InScope
  rw [orderByDesc_perm.mem_iff, selectRows_findMany hmodel, List.mem_filter, mergeScope_holds]
  simp [Where.holds, and_comm]

theorem findAll_nodup (hmodel : service.model ∈ TENANT_SCOPED_MODELS) :
    (service.findAll ctx table).Nodup := by
  unfold LinkedService.findAll
  rw [orderByDesc_perm.nodup_iff, selectRows_findMany hmodel]
  exact (table.unique.nodup fun r => List.cons_ne_nil _ _).filter _

/-- `findOne` finds the row with the id, if it is in scope. -/
theorem findOne_cases (hmodel : service.model ∈ TENANT_SCOPED_MODELS) (id : String) :
    (∃ r ∈ table.rows, r.fields.id.text = id ∧ service.InScope ctx r ∧
      service.findOne ctx table id = .ok r) ∨
    (∀ r ∈ table.rows, r.fields.id.text = id → ¬ service.InScope ctx r) ∧
      service.findOne ctx table id = .error (.notFound service.missing) := by
  have hmem : ∀ r : Row (Linked P), ((mergeScope (some (byId id)) (service.scopeWhere ctx)).holds r &&
      decide (Admitted ctx.ambient r.tenantId)) = true ↔
        r.fields.id.text = id ∧ service.InScope ctx r := by
    intro r
    rw [mergeScope_holds]
    simp [Where.holds, byId, LinkedService.InScope, and_left_comm, and_comm]
  unfold LinkedService.findOne
  rw [selectRows_findFirst hmodel]
  cases hrows : table.rows.filter fun r =>
      (mergeScope (some (byId id)) (service.scopeWhere ctx)).holds r &&
        decide (Admitted ctx.ambient r.tenantId) with
  | nil =>
      refine Or.inr ⟨fun r hr hid hscope => ?_, rfl⟩
      exact List.filter_eq_nil_iff.mp hrows r hr ((hmem r).mpr ⟨hid, hscope⟩)
  | cons r rows =>
      have hr : r ∈ r :: rows := List.mem_cons_self
      rw [← hrows, List.mem_filter, hmem] at hr
      exact Or.inl ⟨r, hr.1, hr.2.1, hr.2.2, rfl⟩

/-- The `id` that is sent below an `AND` is no unique selector: Prisma takes the call only where
there are no tenants to filter by. -/
theorem sentById_eq {model : Model} {ambient : Ambient} (hmodel : model ∈ TENANT_SCOPED_MODELS)
    (hselector : .field "id" ∈ uniqueSelectors model) {operation : Operation}
    (hoperation : operation ∈ [.update, .delete]) (id : String) :
    sentById (P := P) ambient model operation id =
      if resolveTenantWhere ambient = none then some fun r => r.fields.id.text == id else none := by
  obtain ⟨hread, hwrite, hunique⟩ :
      operation ∉ READ_OPS ∧ operation ∈ WRITE_FILTER_OPS ∧ operation.unique = true := by
    revert operation
    decide
  unfold sentById sentWhere prismaTenantExtension
  rw [if_neg (not_not.mpr hmodel)]
  cases htenant : resolveTenantWhere ambient with
  | none =>
      simp [Query.valid, hselector, hunique, argsOf, byId, Where.isUnique, Where.topLevel]
      rfl
  | some tenant =>
      simp [hread, hwrite, Query.valid, hunique, Args.scoped, Where.isUnique, mergeWhere_topLevel]

/-- The database takes the new row in the place of `r`: nothing fails, the foreign keys hold, and
no other row is linked to its user. -/
def Portal.Fits (p : Portal P) (table : LinkedTable P) (env : Env) (r new : Row (Linked P)) : Prop :=
  env.fault = false ∧ p.admits new = true ∧
    ∀ r' ∈ table.rows, r' ≠ r → ∀ v ∈ new.fields.userId, r'.fields.userId ≠ some v

omit [Inhabited P] in
/-- An update of the row breaks an index exactly where another row has the user. -/
theorem uniqueOn_update_iff {r : Row (Linked P)} (hr : r ∈ table.rows) (dto : UpdateDto P) :
    UniqueOn linkKeys (table.rows.map fun r' =>
        if r'.fields.id.text == r.fields.id.text then dto.apply r' else r') ↔
      ∀ r' ∈ table.rows, r' ≠ r → ∀ v ∈ (dto.apply r).fields.userId,
        r'.fields.userId ≠ some v := by
  have hid : ∀ r' ∈ table.rows, (r'.fields.id.text == r.fields.id.text) = true →
      LinkKey.id r.fields.id.text ∈ linkKeys r' :=
    fun r' _ heq => by simp [linkKeys, eq_of_beq heq]
  have hself : (r.fields.id.text == r.fields.id.text) = true := beq_self_eq_true _
  rw [table.unique.map_iff hr hself hid]
  have hnodup : (linkKeys (dto.apply r)).Nodup := by
    cases huser : (dto.apply r).fields.userId <;> simp [linkKeys, huser]
  rw [and_iff_right hnodup]
  refine forall₃_congr fun r' hr' hne => ?_
  have hother : r'.fields.id.text ≠ r.fields.id.text := fun heq => hne (eq_of_id hr' hr heq)
  have hsame : (dto.apply r).fields.id.text = r.fields.id.text := rfl
  constructor
  · intro hdisjoint v hv hv'
    exact hdisjoint (a := .userId v) (by simp [linkKeys, Option.mem_def.mp hv])
      (by simp [linkKeys, hv'])
  · intro hfree k hk hk'
    simp only [linkKeys, List.mem_cons, Option.mem_toList, Option.map_eq_some_iff, hsame] at hk hk'
    rcases hk with rfl | ⟨v, hv, rfl⟩
    · rcases hk' with heq | ⟨_, _, heq⟩ <;> simp_all
    · rcases hk' with heq | ⟨v', hv', heq⟩
      · cases heq
      · cases heq
        exact hfree v hv hv'

omit [Inhabited P] in
/-- The row with the id, found among the rows. -/
theorem find?_byId {r : Row (Linked P)} (hr : r ∈ table.rows) :
    table.rows.find? (fun r' => r'.fields.id.text == r.fields.id.text) = some r := by
  have hsome : (table.rows.find? fun r' => r'.fields.id.text == r.fields.id.text).isSome := by
    rw [List.find?_isSome]
    exact ⟨r, hr, beq_self_eq_true _⟩
  obtain ⟨r', hfind⟩ := Option.isSome_iff_exists.mp hsome
  have hid := List.find?_some hfind
  rw [hfind, eq_of_id (List.mem_of_find?_eq_some hfind) hr (by simpa using hid)]

/-- The service of a table with an `id` that the extension filters. -/
def LinkedService.Scoped (service : LinkedService P) : Prop :=
  service.model ∈ TENANT_SCOPED_MODELS ∧ .field "id" ∈ uniqueSelectors service.model

/-- An update of a row in scope goes through exactly where no tenants are filtered by and the
database takes the new row. -/
theorem updateLinked_cases (hmodel : service.Scoped) (p : Portal P) (table : LinkedTable P)
    (id : String) (dto : UpdateDto P) (env : Env) :
    (∃ r ∈ table.rows, r.fields.id.text = id ∧ service.InScope ctx r ∧
      (resolveTenantWhere ctx.ambient = none ∧ p.Fits table env r (dto.apply r) → ∃ table',
        p.updateLinked service ctx table id dto env = .ok (dto.apply r, table') ∧
          table'.rows = table.rows.map fun r' =>
            if r'.fields.id.text = id then dto.apply r' else r') ∧
      (¬ (resolveTenantWhere ctx.ambient = none ∧ p.Fits table env r (dto.apply r)) →
        p.updateLinked service ctx table id dto env = .error .internal)) ∨
    (∀ r ∈ table.rows, r.fields.id.text = id → ¬ service.InScope ctx r) ∧
      p.updateLinked service ctx table id dto env = .error (.notFound service.missing) := by
  rcases findOne_cases hmodel.1 id with ⟨r, hr, rfl, hscope, hfound⟩ | ⟨hnone, hfound⟩
  · refine Or.inl ⟨r, hr, rfl, hscope, ?_⟩
    have hsent := @sentById_eq P _ _ ctx.ambient hmodel.1 hmodel.2 _
      (show Operation.update ∈ [.update, .delete] by decide) r.fields.id.text
    simp only [Portal.updateLinked, hfound, hsent, bind, Except.bind, pure, Except.pure]
    by_cases htenant : resolveTenantWhere ctx.ambient = none
    · have hupdate := uniqueOn_update_iff hr dto
      simp only [htenant, if_true, orThrow, find?_byId hr, Portal.Fits, true_and]
      cases hadmits : !env.fault && p.admits (dto.apply r) with
      | false =>
          rw [Bool.and_eq_false_iff, Bool.not_eq_false'] at hadmits
          refine ⟨fun hfits => ?_, fun _ => rfl⟩
          rcases hadmits with hfault | hadmits <;> simp_all
      | true =>
          rw [Bool.and_eq_true, Bool.not_eq_true'] at hadmits
          simp only [hadmits, true_and, if_true, Indexed.updateWhere?]
          refine ⟨fun hfree => ?_, fun hfree => ?_⟩
          · rw [Indexed.replace?_of_unique table (hupdate.mpr hfree)]
            exact ⟨_, rfl, by simp⟩
          · rw [Indexed.replace?_of_not_unique table fun hunique => hfree (hupdate.mp hunique)]
    · simp [htenant, orThrow]
  · refine Or.inr ⟨hnone, ?_⟩
    simp only [Portal.updateLinked, hfound, bind, Except.bind]

/-- A removal of a row in scope goes through exactly where no tenants are filtered by, nothing
refers to the row, and nothing fails. -/
theorem removeLinked_cases (hmodel : service.Scoped) (table : LinkedTable P) (id : String)
    (restricts : Bool) (env : Env) :
    (∃ r ∈ table.rows, r.fields.id.text = id ∧ service.InScope ctx r ∧
      (resolveTenantWhere ctx.ambient = none ∧ restricts = false ∧ env.fault = false → ∃ table',
        Portal.removeLinked service ctx table id restricts env = .ok table' ∧
          table'.rows = table.rows.filter fun r' => r'.fields.id.text ≠ id) ∧
      (¬ (resolveTenantWhere ctx.ambient = none ∧ restricts = false ∧ env.fault = false) →
        Portal.removeLinked service ctx table id restricts env = .error .internal)) ∨
    (∀ r ∈ table.rows, r.fields.id.text = id → ¬ service.InScope ctx r) ∧
      Portal.removeLinked service ctx table id restricts env =
        .error (.notFound service.missing) := by
  rcases findOne_cases hmodel.1 id with ⟨r, hr, rfl, hscope, hfound⟩ | ⟨hnone, hfound⟩
  · refine Or.inl ⟨r, hr, rfl, hscope, ?_⟩
    have hsent := @sentById_eq P _ _ ctx.ambient hmodel.1 hmodel.2 _
      (show Operation.delete ∈ [.update, .delete] by decide) r.fields.id.text
    simp only [Portal.removeLinked, hfound, hsent, bind, Except.bind, pure, Except.pure]
    by_cases htenant : resolveTenantWhere ctx.ambient = none
    · simp only [htenant, if_true, orThrow, find?_byId hr, true_and]
      refine ⟨fun hfree => ?_, fun hfails => ?_⟩
      · rw [hfree.1, hfree.2]
        exact ⟨_, rfl, List.filter_congr fun r' _ => by simp [beq_eq_decide]⟩
      · cases hrestricts : restricts <;> cases hfault : env.fault <;> simp_all
    · simp [htenant, orThrow]
  · refine Or.inr ⟨hnone, ?_⟩
    simp only [Portal.removeLinked, hfound, bind, Except.bind]

end Service

/-! ### What a user is -/

/-- What a user is to the application: one for whom there are no tenants, a student or a coach (with
the row the user is linked to, if any), or one at the desk. -/
inductive Viewer where
  | everywhere
  | student (id : Option String)
  | coach (id : Option String)
  | desk
deriving DecidableEq, Repr

namespace Portal

variable {P : Type} (p : Portal P) (u : Row UserFields) (headers : TenantHeaders)

def viewer : Viewer :=
  if Permission.hasPermission (p.permissions u) Permission.ORG_CROSS then .everywhere
  else match (p.user u).student, (p.user u).coach, u.fields.role with
    | some s, _, _ => .student (some s.id)
    | none, _, .STUDENT => .student none
    | none, some c, _ => .coach (some c.id)
    | none, none, .COACH => .coach none
    | none, none, _ => .desk

/-- Of a tenant the request may go to. -/
def Within (tenantId : Option String) : Prop := ∃ t, tenantId = some t ∧ Accessible (p.user u) headers t

/-- A student sees the row the student is, a coach those taught. -/
def SeesStudent (r : Row (Linked P)) : Prop :=
  match p.viewer u with
  | .everywhere => True
  | .student id => p.Within u headers r.tenantId ∧ id = some r.fields.id.text
  | .coach id => p.Within u headers r.tenantId ∧ ∃ coachId ∈ id,
      p.teaching.inClassOf coachId r.fields.id.text = true ∨
        p.teaching.attendedWith coachId r.fields.id.text = true
  | .desk => p.Within u headers r.tenantId

/-- A coach sees the row the coach is, a student none. -/
def SeesCoach (r : Row (Linked P)) : Prop :=
  match p.viewer u with
  | .everywhere => True
  | .student _ => False
  | .coach id => p.Within u headers r.tenantId ∧ id = some r.fields.id.text
  | .desk => p.Within u headers r.tenantId

/-- A student sees the schedules of the classes the student is in, a coach those the coach
teaches. -/
def SeesSchedule (r : Row ScheduleFields) : Prop :=
  match p.viewer u with
  | .everywhere => True
  | .student id => p.Within u headers r.tenantId ∧ ∃ studentId ∈ id,
      ∃ k ∈ p.teaching.classes.rows, k.id = r.fields.classId ∧
        ⟨k.id, studentId⟩ ∈ p.teaching.classStudents.rows
  | .coach id => p.Within u headers r.tenantId ∧ id = some r.fields.coachId
  | .desk => p.Within u headers r.tenantId

/-- The foreign keys of the tenants. -/
structure WellFormed : Prop where
  users : ∀ u ∈ p.users.rows, ∀ t ∈ u.tenantId, t ∈ p.tenants.ids
  userTenants : ∀ m ∈ p.userTenants, m.2 ∈ p.tenants.ids
  coaches : ∀ r ∈ p.coaches.rows, ∀ t ∈ r.tenantId, t ∈ p.tenants.ids
  students : ∀ r ∈ p.students.rows, ∀ t ∈ r.tenantId, t ∈ p.tenants.ids
  schedules : ∀ r ∈ p.teaching.schedules, ∀ t ∈ r.tenantId, t ∈ p.tenants.ids

end Portal

section Context

variable {P : Type} {p : Portal P} {u : Row UserFields} {headers : TenantHeaders}

/-- A link is a row with this user. -/
theorem mem_link {table : LinkedTable P} {userId : String} {l : Link} :
    table.link userId = some l ↔ ∃ r ∈ table.rows, r.fields.userId = some userId ∧
      l = ⟨r.fields.id.text, r.tenantId⟩ := by
  unfold LinkedTable.link
  simp only [Option.map_eq_some_iff, Indexed.row?_eq_some_iff]
  constructor
  · rintro ⟨r, ⟨hr, hkey⟩, rfl⟩
    exact ⟨r, hr, by simpa [linkKeys] using hkey, rfl⟩
  · rintro ⟨r, hr, huser, rfl⟩
    exact ⟨r, ⟨hr, by simp [linkKeys, huser]⟩, rfl⟩

theorem truthy_link {table : LinkedTable P} {userId : String} :
    truthy ((table.link userId).map Link.id) = (table.link userId).map Link.id := by
  cases hlink : table.link userId with
  | none => rfl
  | some l =>
      obtain ⟨r, -, -, rfl⟩ := mem_link.mp hlink
      exact truthy_eq_some_iff.mpr ⟨rfl, r.fields.id.generated.1⟩

/-- The tenants of a user are stored ones. -/
def Portal.WellFormed.stored (hp : p.WellFormed) (hu : u ∈ p.users.rows) : StoredUser p.tenants where
  toUser := p.user u
  known t h := by
    have hlink : ∀ table : LinkedTable P, (∀ r ∈ table.rows, ∀ t ∈ r.tenantId, t ∈ p.tenants.ids) →
        (table.link u.fields.id.text).bind Link.tenantId = some t → t ∈ p.tenants.ids := by
      intro table htable hbind
      obtain ⟨l, hl, ht⟩ := Option.bind_eq_some_iff.mp hbind
      obtain ⟨r, hr, -, rfl⟩ := mem_link.mp hl
      exact htable r hr t ht
    rcases h with htenant | hmember | hcoach | hstudent
    · exact hp.users u hu t htenant
    · obtain ⟨m, hm, rfl⟩ := List.mem_map.mp hmember
      exact hp.userTenants m (List.mem_filter.mp hm).1
    · exact hlink p.coaches hp.coaches hcoach
    · exact hlink p.students hp.students hstudent

/-- The scope that `resolveDataScope` comes to. -/
def Viewer.scope : Viewer → DataScopeKind
  | .everywhere => .all
  | .student _ => .self
  | .coach _ => .coachOwned
  | .desk => .organization

theorem dataScope_context : (p.context u headers).dataScope = (p.viewer u).scope := by
  have hscope : (p.context u headers).dataScope =
      resolveDataScope u.fields.role (p.permissions u) ((p.user u).coach.map Link.id)
        ((p.user u).student.map Link.id) := by
    show (intercept _ _).dataScope = _
    unfold intercept
    split
    · split <;> rfl
    · rfl
    · rfl
  have hcoach : truthy ((p.user u).coach.map Link.id) = (p.user u).coach.map Link.id := truthy_link
  have hstudent : truthy ((p.user u).student.map Link.id) = (p.user u).student.map Link.id :=
    truthy_link
  rw [hscope, resolveDataScope, hcoach, hstudent, Portal.viewer]
  split
  · rfl
  · cases (p.user u).student <;> cases (p.user u).coach <;> cases u.fields.role <;> rfl

/-- There is no tenant clause exactly for those for whom there are no tenants. -/
theorem resolveTenantWhere_context :
    resolveTenantWhere (p.context u headers).ambient = none ↔ p.viewer u = .everywhere := by
  have hall : (p.viewer u).scope = .all ↔ p.viewer u = .everywhere := by
    cases p.viewer u <;> simp [Viewer.scope]
  rw [← hall, ← @dataScope_context _ p u headers]
  constructor
  · intro hnone
    by_contra hscope
    obtain ⟨clause, hclause⟩ := tenantWhere_isSome hscope
    rw [show resolveTenantWhere (p.context u headers).ambient =
      (p.context u headers).toAccessContext.tenantWhere from rfl, hclause] at hnone
    cases hnone
  · intro hscope
    simp [ScopedContext.ambient, resolveTenantWhere, AccessContext.tenantWhere, hscope]

/-- The extension goes by the tenants of the `organization` scope. -/
theorem admitted_iff {access : AccessContext} (hscope : access.dataScope ≠ .all)
    (hactive : ∀ a, access.activeTenantId = some a → a ≠ "" ∧ a ∈ access.tenantIds) {t : String}
    (ht : t ≠ "__no_tenant_access__") :
    Admitted ⟨false, some access⟩ (some t) ↔ t ∈ effectiveTenantIds access := by
  simp only [Admitted, resolveTenantWhere, Bool.false_eq_true, if_false, Option.bind_some,
    AccessContext.tenantWhere, if_neg hscope, effectiveTenantIds]
  cases hctx : access.activeTenantId with
  | none =>
      by_cases hempty : access.tenantIds = []
      · simp [truthy, hempty, TenantWhereClause.admits, ht]
      · simp [truthy, hempty, TenantWhereClause.admits]
  | some active =>
      obtain ⟨hne, hmem⟩ := hactive active hctx
      simp [truthy, hne, hmem, TenantWhereClause.admits, Option.filter]

theorem not_admitted_none {access : AccessContext} (hscope : access.dataScope ≠ .all) :
    ¬ Admitted ⟨false, some access⟩ none := by
  obtain ⟨clause, hclause⟩ := tenantWhere_isSome hscope
  intro h
  have hnone := h clause (by simpa [resolveTenantWhere] using hclause)
  cases clause <;> cases hnone

theorem inScope_everywhere {service : LinkedService P} (hviewer : p.viewer u = .everywhere)
    (hall : service.scopeWhere (p.context u headers) = none) (r : Row (Linked P)) :
    service.InScope (p.context u headers) r := by
  have hscope : (p.context u headers).dataScope = .all := by
    rw [dataScope_context, hviewer]
    rfl
  refine ⟨?_, by simp [hall, Where.holds]⟩
  simp [Admitted, ScopedContext.ambient, resolveTenantWhere, AccessContext.tenantWhere, hscope]

theorem truthy_coachId : truthy (p.context u headers).coachId = (p.user u).coach.map Link.id :=
  truthy_link

theorem truthy_studentId : truthy (p.context u headers).studentId = (p.user u).student.map Link.id :=
  truthy_link

/-- What the viewer says of the two links. -/
theorem viewer_links : (∀ id, p.viewer u = .student id → (p.user u).student.map Link.id = id) ∧
    ∀ id, p.viewer u = .coach id → (p.user u).coach.map Link.id = id := by
  unfold Portal.viewer
  split
  · simp
  · cases (p.user u).student <;> cases (p.user u).coach <;> cases u.fields.role <;> simp

section WellFormed

variable (hp : p.WellFormed) (hu : u ∈ p.users.rows)

include hp hu

theorem mem_effective {t : String} :
    t ∈ effectiveTenantIds (p.context u headers).toAccessContext ↔ Accessible (p.user u) headers t :=
  mem_effectiveTenantIds (hp.stored hu) _ _ headers

/-- The extension lets through what is within the tenants of the request. -/
theorem admitted_context (hscope : p.viewer u ≠ .everywhere) {tenantId : Option String}
    (hknown : ∀ t ∈ tenantId, t ∈ p.tenants.ids) :
    Admitted (p.context u headers).ambient tenantId ↔ p.Within u headers tenantId := by
  have hall : (p.context u headers).dataScope ≠ .all := by
    rw [dataScope_context]
    cases hviewer : p.viewer u with
    | everywhere => exact absurd hviewer hscope
    | student id | coach id | desk => simp [Viewer.scope]
  unfold Portal.Within
  cases tenantId with
  | none => simp [ScopedContext.ambient, not_admitted_none hall]
  | some t =>
      have hgenerated := p.tenants.generated t (hknown t rfl)
      have hactive : ∀ a, (p.context u headers).activeTenantId = some a →
          a ≠ "" ∧ a ∈ (p.context u headers).tenantIds := by
        intro a ha
        obtain ⟨-, hmember⟩ := (activeTenantId_eq_some (hp.stored hu) _ _ headers).mp ha
        exact ⟨(p.tenants.generated a ((hp.stored hu).known a hmember)).1,
          (mem_tenantIds (hp.stored hu) _ _ headers).mpr hmember⟩
      rw [ScopedContext.ambient, admitted_iff hall hactive hgenerated.2, mem_effective hp hu]
      simp

/-- The `organization` filter adds nothing to the extension. -/
theorem organizationWhere_holds {r : Row (Linked P)} :
    (organizationWhere (p.context u headers)).holds r = true ↔
      p.Within u headers r.tenantId := by
  have hmem : ∀ t, t ∈ effectiveTenantIds (p.context u headers).toAccessContext ↔
      Accessible (p.user u) headers t := fun t => mem_effective hp hu
  unfold organizationWhere Portal.Within
  cases hids : effectiveTenantIds (p.context u headers).toAccessContext with
  | nil =>
      have hid := r.fields.id.generated.2
      simp only [hids, List.not_mem_nil, false_iff] at hmem
      simp [noAccess, Where.holds, hid, hmem]
  | cons t ts =>
      simp only [hids] at hmem
      cases htenant : r.tenantId with
      | none => simp [Where.holds, htenant, TenantWhereClause.admits]
      | some t' => simp [Where.holds, htenant, TenantWhereClause.admits, ← hmem]

/-- **Students**: what passes both filters is what the user sees. -/
theorem inScope_student {r : Row (Linked P)} (hr : r ∈ p.students.rows) :
    (studentsService p.teaching).InScope (p.context u headers) r ↔ p.SeesStudent u headers r := by
  have hscope : (p.context u headers).dataScope = (p.viewer u).scope := dataScope_context
  have hgenerated := r.fields.id.generated.2
  unfold Portal.SeesStudent
  cases hviewer : p.viewer u with
  | everywhere =>
      refine iff_of_true (inScope_everywhere hviewer ?_ r) trivial
      simp [studentsService, studentDataScopeWhere, hscope, hviewer, Viewer.scope]
  | student id =>
      have hid := viewer_links.1 id hviewer
      rw [LinkedService.InScope, admitted_context hp hu (by simp [hviewer]) (hp.students r hr)]
      refine and_congr_right fun _ => ?_
      simp only [studentsService, studentDataScopeWhere, hscope, hviewer, Viewer.scope,
        truthy_studentId, hid]
      cases id with
      | none => simp [noAccess, Where.holds, hgenerated]
      | some id =>
          simp only [byId, Where.holds, Option.getD_some, beq_iff_eq, Option.some.injEq]
          exact eq_comm
  | coach id =>
      have hid := viewer_links.2 id hviewer
      rw [LinkedService.InScope, admitted_context hp hu (by simp [hviewer]) (hp.students r hr)]
      refine and_congr_right fun _ => ?_
      simp only [studentsService, studentDataScopeWhere, hscope, hviewer, Viewer.scope,
        truthy_coachId, hid]
      cases id with
      | none => simp [noAccess, Where.holds, hgenerated]
      | some id => simp [Where.holds]
  | desk =>
      rw [LinkedService.InScope, admitted_context hp hu (by simp [hviewer]) (hp.students r hr)]
      refine and_iff_left_of_imp fun hwithin => ?_
      simp only [studentsService, studentDataScopeWhere, hscope, hviewer, Viewer.scope,
        Option.getD_some]
      exact (organizationWhere_holds hp hu).mpr hwithin

theorem inScope_coach {r : Row (Linked P)} (hr : r ∈ p.coaches.rows) :
    coachesService.InScope (p.context u headers) r ↔ p.SeesCoach u headers r := by
  have hscope : (p.context u headers).dataScope = (p.viewer u).scope := dataScope_context
  have hgenerated := r.fields.id.generated.2
  unfold Portal.SeesCoach
  cases hviewer : p.viewer u with
  | everywhere =>
      refine iff_of_true (inScope_everywhere hviewer ?_ r) trivial
      simp [coachesService, coachDataScopeWhere, hscope, hviewer, Viewer.scope]
  | student id =>
      simp [LinkedService.InScope, coachesService, coachDataScopeWhere, hscope, hviewer,
        Viewer.scope, noAccess, Where.holds, hgenerated]
  | coach id =>
      have hid := viewer_links.2 id hviewer
      rw [LinkedService.InScope, admitted_context hp hu (by simp [hviewer]) (hp.coaches r hr)]
      refine and_congr_right fun _ => ?_
      simp only [coachesService, coachDataScopeWhere, hscope, hviewer, Viewer.scope,
        truthy_coachId, hid]
      cases id with
      | none => simp [noAccess, Where.holds, hgenerated]
      | some id =>
          simp only [byId, Where.holds, Option.getD_some, beq_iff_eq, Option.some.injEq]
          exact eq_comm
  | desk =>
      rw [LinkedService.InScope, admitted_context hp hu (by simp [hviewer]) (hp.coaches r hr)]
      refine and_iff_left_of_imp fun hwithin => ?_
      simp only [coachesService, coachDataScopeWhere, hscope, hviewer, Viewer.scope,
        Option.getD_some]
      exact (organizationWhere_holds hp hu).mpr hwithin

/-- **Schedules**: the three tenants of the `organization` filter come to the schedule's own. -/
theorem inScope_schedule {r : Row ScheduleFields} (hr : r ∈ p.teaching.schedules) :
    (Admitted (p.context u headers).ambient r.tenantId ∧
      ((scheduleDataScopeWhere p.teaching (p.context u headers)).getD .empty).holds r = true) ↔
        p.SeesSchedule u headers r := by
  have hscope : (p.context u headers).dataScope = (p.viewer u).scope := dataScope_context
  have hgenerated := r.fields.generated
  unfold Portal.SeesSchedule
  cases hviewer : p.viewer u with
  | everywhere =>
      simp [scheduleDataScopeWhere, hscope, hviewer, Viewer.scope, Where.holds, Admitted,
        ScopedContext.ambient, resolveTenantWhere, AccessContext.tenantWhere]
  | student id =>
      have hid := viewer_links.1 id hviewer
      rw [admitted_context hp hu (by simp [hviewer]) (hp.schedules r hr)]
      refine and_congr_right fun _ => ?_
      simp only [scheduleDataScopeWhere, hscope, hviewer, Viewer.scope, truthy_studentId, hid]
      cases id with
      | none => simp [Where.holds, hgenerated]
      | some id => simp [Where.holds, List.any_eq_true]
  | coach id =>
      have hid := viewer_links.2 id hviewer
      rw [admitted_context hp hu (by simp [hviewer]) (hp.schedules r hr)]
      refine and_congr_right fun _ => ?_
      simp only [scheduleDataScopeWhere, hscope, hviewer, Viewer.scope, truthy_coachId, hid]
      cases id with
      | none => simp [Where.holds, hgenerated]
      | some id =>
          simp only [Where.holds, Option.getD_some, beq_iff_eq, Option.some.injEq]
          exact eq_comm
  | desk =>
      rw [admitted_context hp hu (by simp [hviewer]) (hp.schedules r hr)]
      refine and_iff_left_of_imp fun hwithin => ?_
      obtain ⟨t, ht, haccessible⟩ := hwithin
      have hmem := (mem_effective hp hu).mpr haccessible
      simp only [scheduleDataScopeWhere, hscope, hviewer, Viewer.scope]
      cases hids : effectiveTenantIds (p.context u headers).toAccessContext with
      | nil => simp [hids] at hmem
      | cons t' ts =>
          rw [hids] at hmem
          simp [Where.holds, ht, TenantWhereClause.admits, List.mem_cons.mp hmem]

end WellFormed

end Context

/-! ### What a user reaches -/

section Reaches

variable {P : Type} [Inhabited P]

/-- A request of the user. -/
def Portal.ask (p : Portal P) (u : Row UserFields) (headers : TenantHeaders) (env : Env)
    (call : Call P) : Except HttpException (Reply P × Portal P) :=
  p.respond ⟨u.fields.id.text, headers, call⟩ env

/-- What the calls on one table come to, for the roles that may issue them: the list is what the
user sees, the detail is of a row the user sees, and any other row is answered like one that is not
there. An update or a removal of a row the user sees is for those for whom there are no tenants, and
fails for everybody else. -/
structure Reaches (p : Portal P) (u : Row UserFields) (headers : TenantHeaders)
    (table : Portal P → LinkedTable P) (call : LinkedCall P → Call P) (missing : String)
    (sees : Row (Linked P) → Prop) (restricts : String → Bool) : Prop where
  list : ∀ env, u.fields.role ∈ (call .findAll).roles →
    ∃ rows, p.ask u headers env (call .findAll) = .ok (.rows rows, p) ∧
      rows.Pairwise (fun a b => b.fields.createdAt ≤ a.fields.createdAt) ∧ rows.Nodup ∧
        ∀ r, r ∈ rows ↔ r ∈ (table p).rows ∧ sees r
  detail : ∀ env id, u.fields.role ∈ (call (.findOne id)).roles →
    (∃ r ∈ (table p).rows, r.fields.id.text = id ∧ sees r ∧
      p.ask u headers env (call (.findOne id)) = .ok (.row r, p)) ∨
    (∀ r ∈ (table p).rows, r.fields.id.text = id → ¬ sees r) ∧
      p.ask u headers env (call (.findOne id)) = .error (.notFound missing)
  update : ∀ env id dto, u.fields.role ∈ (call (.update id dto)).roles →
    (∃ r ∈ (table p).rows, r.fields.id.text = id ∧ sees r ∧
      (p.viewer u = .everywhere ∧ p.Fits (table p) env r (dto.apply r) → ∃ p',
        p.ask u headers env (call (.update id dto)) = .ok (.row (dto.apply r), p') ∧
          (table p').rows = (table p).rows.map fun r' =>
            if r'.fields.id.text = id then dto.apply r' else r') ∧
      (¬ (p.viewer u = .everywhere ∧ p.Fits (table p) env r (dto.apply r)) →
        p.ask u headers env (call (.update id dto)) = .error .internal)) ∨
    (∀ r ∈ (table p).rows, r.fields.id.text = id → ¬ sees r) ∧
      p.ask u headers env (call (.update id dto)) = .error (.notFound missing)
  remove : ∀ env id, u.fields.role ∈ (call (.remove id)).roles →
    (∃ r ∈ (table p).rows, r.fields.id.text = id ∧ sees r ∧
      (p.viewer u = .everywhere ∧ restricts id = false ∧ env.fault = false → ∃ p',
        p.ask u headers env (call (.remove id)) = .ok (.ok, p') ∧
          (table p').rows = (table p).rows.filter fun r' => r'.fields.id.text ≠ id) ∧
      (¬ (p.viewer u = .everywhere ∧ restricts id = false ∧ env.fault = false) →
        p.ask u headers env (call (.remove id)) = .error .internal)) ∨
    (∀ r ∈ (table p).rows, r.fields.id.text = id → ¬ sees r) ∧
      p.ask u headers env (call (.remove id)) = .error (.notFound missing)

variable {p : Portal P} {u : Row UserFields} {headers : TenantHeaders}

omit [Inhabited P] in
theorem row?_user (hu : u ∈ p.users.rows) : p.users.row? (.id u.fields.id.text) = some u :=
  Indexed.row?_eq_some_iff.mpr ⟨hu, by simp [userKeys]⟩

/-- A role the handler asks for is let through. -/
theorem ask_of_role (hu : u ∈ p.users.rows) {call : Call P} (hrole : u.fields.role ∈ call.roles)
    (env : Env) :
    p.ask u headers env call = p.handle (p.context u headers) env call := by
  have hguard : canActivate u.fields.role (p.permissions u) call.roles call.permissions = .ok () := by
    unfold canActivate
    split
    · rfl
    · rw [if_pos (by simpa using hrole)]
  unfold Portal.ask Portal.respond
  simp only [row?_user hu, hguard]
  rfl

/-- One service reaches what is in its scope. -/
theorem reaches_of_service {service : LinkedService P} (hmodel : service.Scoped)
    {table : Portal P → LinkedTable P} {put : LinkedTable P → Portal P} {restricts : String → Bool}
    {removed : String → LinkedTable P → Portal P} {call : LinkedCall P → Call P}
    {sees : Row (Linked P) → Prop} (hu : u ∈ p.users.rows)
    (hhandle : ∀ env c, p.handle (p.context u headers) env (call c) =
      p.serveLinked service (table p) put restricts removed (p.context u headers) env c)
    (hput : ∀ t, table (put t) = t) (hremoved : ∀ id t, table (removed id t) = t)
    (hsees : ∀ r ∈ (table p).rows, service.InScope (p.context u headers) r ↔ sees r) :
    Reaches p u headers table call service.missing sees restricts where
  list env hrole := by
    refine ⟨_, (ask_of_role hu hrole env).trans (hhandle env .findAll), orderByDesc_pairwise,
      findAll_nodup hmodel.1, fun r => ?_⟩
    rw [mem_findAll hmodel.1]
    exact and_congr_right (hsees r)
  detail env id hrole := by
    rw [ask_of_role hu hrole env, hhandle]
    simp only [Portal.serveLinked]
    rcases findOne_cases hmodel.1 id with ⟨r, hr, hid, hscope, hfound⟩ | ⟨hnone, hfound⟩
    · exact Or.inl ⟨r, hr, hid, (hsees r hr).mp hscope, by rw [hfound]; rfl⟩
    · exact Or.inr ⟨fun r hr hid h => hnone r hr hid ((hsees r hr).mpr h), by rw [hfound]; rfl⟩
  update env id dto hrole := by
    rw [ask_of_role hu hrole env, hhandle, ← @resolveTenantWhere_context _ p u headers]
    simp only [Portal.serveLinked]
    rcases updateLinked_cases hmodel p (table p) id dto env with
      ⟨r, hr, hid, hscope, hwrites, hfails⟩ | ⟨hnone, hfound⟩
    · refine Or.inl ⟨r, hr, hid, (hsees r hr).mp hscope, fun h => ?_, fun h => ?_⟩
      · obtain ⟨table', hwritten, hrows⟩ := hwrites h
        exact ⟨put table', by rw [hwritten]; rfl, by rw [hput, hrows]⟩
      · rw [hfails h]
        rfl
    · exact Or.inr ⟨fun r hr hid h => hnone r hr hid ((hsees r hr).mpr h), by rw [hfound]; rfl⟩
  remove env id hrole := by
    rw [ask_of_role hu hrole env, hhandle, ← @resolveTenantWhere_context _ p u headers]
    simp only [Portal.serveLinked]
    rcases removeLinked_cases hmodel (table p) id (restricts id) env with
      ⟨r, hr, hid, hscope, hwrites, hfails⟩ | ⟨hnone, hfound⟩
    · refine Or.inl ⟨r, hr, hid, (hsees r hr).mp hscope, fun h => ?_, fun h => ?_⟩
      · obtain ⟨table', hwritten, hrows⟩ := hwrites h
        exact ⟨removed id table', by rw [hwritten]; rfl, by rw [hremoved, hrows]⟩
      · rw [hfails h]
        rfl
    · exact Or.inr ⟨fun r hr hid h => hnone r hr hid ((hsees r hr).mpr h), by rw [hfound]; rfl⟩

omit [Inhabited P] in
theorem studentsService_scoped : (studentsService p.teaching : LinkedService P).Scoped :=
  show Model.Student ∈ TENANT_SCOPED_MODELS ∧ .field "id" ∈ uniqueSelectors .Student by decide

omit [Inhabited P] in
theorem coachesService_scoped : (coachesService : LinkedService P).Scoped :=
  show Model.Coach ∈ TENANT_SCOPED_MODELS ∧ .field "id" ∈ uniqueSelectors .Coach by decide

/-- **What is listed is what is reached**: of the students and of the coaches, each user lists and
reads the rows the user sees, and no other; those for whom there are no tenants update and remove
what the database lets them, and everybody else nothing. -/
theorem students_and_coaches_reached (hp : p.WellFormed) (hu : u ∈ p.users.rows)
    (headers : TenantHeaders) :
    Reaches p u headers Portal.students Call.students "学员不存在" (p.SeesStudent u headers)
        (fun _ => false) ∧
      Reaches p u headers Portal.coaches Call.coaches "教练不存在" (p.SeesCoach u headers)
        p.coachRestricts := by
  constructor
  · have hservice : (studentsService p.teaching : LinkedService P).missing = "学员不存在" := rfl
    rw [← hservice]
    have hhandle : ∀ env c, p.handle (p.context u headers) env (.students c) =
        p.serveStudents (p.context u headers) env c := fun _ _ => rfl
    exact reaches_of_service studentsService_scoped hu hhandle (fun t => rfl) (fun id t => rfl)
      fun r hr => inScope_student hp hu hr
  · have hservice : (coachesService : LinkedService P).missing = "教练不存在" := rfl
    rw [← hservice]
    have hhandle : ∀ env c, p.handle (p.context u headers) env (.coaches c) =
        p.serveCoaches (p.context u headers) env c := fun _ _ => rfl
    exact reaches_of_service coachesService_scoped hu hhandle (fun t => rfl) (fun id t => rfl)
      fun r hr => inScope_coach hp hu hr

/-! ### A club of two tenants -/

def clubUser (id : Uuid) (username : String) (role : UserRole) : Row UserFields :=
  ⟨some "t1", ⟨id, username, role⟩⟩

def deskOfClub : Row UserFields := clubUser ⟨"u1", by decide⟩ "desk" .STAFF

def coachOfClub : Row UserFields := clubUser ⟨"u2", by decide⟩ "coach" .COACH

/-- There are no tenants for an administrator. -/
def adminOfClub : Row UserFields := clubUser ⟨"u3", by decide⟩ "admin" .ADMIN

/-- The coach teaches the first of the two students of `t1`; the third is of `t2`. -/
def club : Portal Unit where
  tenants := twoTenants
  roles _ := none
  userTenants := []
  users := ⟨[deskOfClub, coachOfClub, adminOfClub], by decide⟩
  coaches := ⟨[⟨some "t1", ⟨⟨"c1", by decide⟩, some "u2", 0, ()⟩⟩], by decide⟩
  students :=
    ⟨[⟨some "t1", ⟨⟨"s1", by decide⟩, none, 1, ()⟩⟩, ⟨some "t1", ⟨⟨"s2", by decide⟩, none, 2, ()⟩⟩,
      ⟨some "t2", ⟨⟨"s3", by decide⟩, none, 3, ()⟩⟩], by decide⟩
  teaching :=
    { venues := ∅
      courseTypes := ∅
      classes := ⟨[⟨"k1", some "t1", "y1", "", some "c1", none⟩], by decide⟩
      classStudents := ⟨[⟨"k1", "s1"⟩], by decide⟩
      schedules := [⟨some "t1", ⟨⟨"x1", "k1", "v1", "c1", 0, 0, 0, .scheduled⟩, by decide⟩⟩]
      attendance := [] }

theorem club_wellFormed : club.WellFormed where
  users := by decide
  userTenants := by decide
  coaches := by decide
  students := by decide
  schedules := by decide

/-- The desk sees the first student and cannot change the row; the administrator removes it. -/
theorem club_reached :
    club.ask deskOfClub {} {} (.students (.update "s1" ⟨none, none, id⟩)) = .error .internal ∧
      ∃ p', club.ask adminOfClub {} {} (.students (.remove "s1")) = .ok (.ok, p') := by
  constructor
  · have hdesk := (students_and_coaches_reached club_wellFormed List.mem_cons_self {}).1
    rcases hdesk.update {} "s1" ⟨none, none, id⟩ (by decide) with ⟨r, -, -, -, -, hfails⟩ | ⟨hnone, -⟩
    · exact hfails fun h => absurd h.1 (by decide +kernel)
    · exact absurd ⟨"t1", rfl, Or.inl rfl⟩ (hnone _ List.mem_cons_self rfl)
  · have hadmin := (students_and_coaches_reached club_wellFormed (show adminOfClub ∈ _ by simp [club]) {}).1
    rcases hadmin.remove {} "s1" (by decide) with ⟨r, -, -, -, hremoves, -⟩ | ⟨hnone, -⟩
    · obtain ⟨p', hask, -⟩ := hremoves ⟨by decide +kernel, rfl, rfl⟩
      exact ⟨p', hask⟩
    · exact absurd trivial (hnone _ List.mem_cons_self rfl)

/-! ### Schedules -/

/-- What `listSchedules` is asked for. -/
structure ScheduleListQuery.Matches (query : ScheduleListQuery) (gte lte : Option Int)
    (r : Row ScheduleFields) : Prop where
  status : r.fields.status ≠ .cancelled
  classId : ∀ classId ∈ truthy query.classId, r.fields.classId = classId
  coachId : ∀ coachId ∈ truthy query.coachId, r.fields.coachId = coachId
  startsAt : Billing.between gte lte (some r.fields.startsAt) = true

theorem all_beq_iff {α : Type} [DecidableEq α] {o : Option α} {a : α} :
    o.all (· == a) = true ↔ ∀ b ∈ o, a = b := by
  cases o with
  | none => simp
  | some b =>
      simp only [Option.all_some, beq_iff_eq, Option.mem_some, forall_eq']
      exact eq_comm

omit [Inhabited P] in
/-- The coach that `listSchedules` fills in is the one the filter asks for anyway. -/
theorem listBase_holds {query : ScheduleListQuery} {gte lte : Option Int} {r : Row ScheduleFields}
    (hsees : p.SeesSchedule u headers r) :
    (Portal.listBase (p.context u headers) query gte lte).holds r = true ↔
      query.Matches gte lte r := by
  have hfilled : ∀ coachId ∈ (if (p.context u headers).dataScope = DataScopeKind.coachOwned then
      truthy (p.context u headers).coachId else none), r.fields.coachId = coachId := by
    rw [dataScope_context, truthy_coachId]
    unfold Portal.SeesSchedule at hsees
    cases hviewer : p.viewer u with
    | everywhere | student id | desk => simp [Viewer.scope]
    | coach id =>
        simp only [hviewer] at hsees
        rw [viewer_links.2 id hviewer, hsees.2]
        simp [Viewer.scope]
  unfold Portal.listBase
  simp only [Where.holds, Bool.and_eq_true, bne_iff_ne, all_beq_iff]
  cases hcoach : truthy query.coachId with
  | none =>
      exact ⟨fun h => ⟨h.1.1.1, h.1.1.2, by simp [hcoach], h.2⟩,
        fun h => ⟨⟨⟨h.status, h.classId⟩, hfilled⟩, h.startsAt⟩⟩
  | some coachId =>
      have hasked : (∀ c ∈ some coachId, r.fields.coachId = c) ↔
          ∀ c ∈ truthy query.coachId, r.fields.coachId = c := by rw [hcoach]
      exact ⟨fun h => ⟨h.1.1.1, h.1.1.2, hasked.mp h.1.2, h.2⟩,
        fun h => ⟨⟨⟨h.status, h.classId⟩, hasked.mpr h.coachId⟩, h.startsAt⟩⟩

omit [Inhabited P] in
/-- The guard of `listSchedules`: every role but a student's, and a student's with the
permission. -/
theorem canActivate_listSchedules {query : ScheduleListQuery}
    (hguard : u.fields.role ≠ .STUDENT ∨
      Permission.hasPermission (p.permissions u) "schedules:read" = true) :
    canActivate u.fields.role (p.permissions u) (Call.listSchedules query : Call P).roles
      (Call.listSchedules query : Call P).permissions = .ok () := by
  rcases hguard with hrole | hpermission
  · cases hrole' : u.fields.role with
    | STUDENT => exact absurd hrole' hrole
    | ADMIN | STAFF | COACH => rfl
  · simp [canActivate, Call.permissions, hpermission]

omit [Inhabited P] in
/-- The guard of `getSchedule` lets every role but a student's through. -/
theorem mem_roles_getSchedule {id : String} (hrole : u.fields.role ≠ .STUDENT) :
    u.fields.role ∈ (Call.getSchedule id : Call P).roles := by
  cases hrole' : u.fields.role with
  | STUDENT => exact absurd hrole' hrole
  | ADMIN | STAFF | COACH => simp [Call.roles]

/-- The stored schedules that both filters let through, of those asked for. -/
def Portal.selectedSchedules (p : Portal P) (u : Row UserFields) (headers : TenantHeaders)
    (base : Where ScheduleFields) : List (Row ScheduleFields) :=
  p.teaching.schedules.filter fun r =>
    (mergeScope (some base) (scheduleDataScopeWhere p.teaching (p.context u headers))).holds r &&
      decide (Admitted (p.context u headers).ambient r.tenantId)

omit [Inhabited P] in
theorem mem_selectedSchedules (hp : p.WellFormed) (hu : u ∈ p.users.rows)
    {base : Where ScheduleFields} {r : Row ScheduleFields} :
    r ∈ p.selectedSchedules u headers base ↔
      r ∈ p.teaching.schedules ∧ p.SeesSchedule u headers r ∧ base.holds r = true := by
  unfold Portal.selectedSchedules
  rw [List.mem_filter]
  refine and_congr_right fun hr => ?_
  rw [mergeScope_holds, Bool.and_eq_true, Bool.and_eq_true, decide_eq_true_iff,
    ← inScope_schedule hp hu hr, Option.getD_some]
  exact ⟨fun h => ⟨⟨h.2, h.1.2⟩, h.1.1⟩, fun h => ⟨⟨h.2, h.1.2⟩, h.1.1⟩⟩

theorem ask_listSchedules (hu : u ∈ p.users.rows) {query : ScheduleListQuery}
    {gte lte : Option Int} {env : Env}
    (hbounds : bounds env.newDate { from? := query.from?, to? := query.to? } = .ok (gte, lte))
    (hguard : u.fields.role ≠ .STUDENT ∨
      Permission.hasPermission (p.permissions u) "schedules:read" = true) :
    p.ask u headers env (.listSchedules query) =
      .ok (.schedules ((orderByAsc (fun s => s.startsAt) (p.selectedSchedules u headers
        (Portal.listBase (p.context u headers) query gte lte))).map p.included), p) := by
  have hmodel : Model.Schedule ∈ TENANT_SCOPED_MODELS := by decide
  unfold Portal.ask Portal.respond
  simp only [row?_user hu, canActivate_listSchedules hguard, Portal.handle, Portal.listSchedules, hbounds,
    Portal.selectedSchedules, ← selectRows_findMany hmodel]
  rfl

theorem ask_getSchedule_student (hu : u ∈ p.users.rows) (hrole : u.fields.role = .STUDENT)
    {env : Env} {id : String} : p.ask u headers env (.getSchedule id) =
      .error (.forbidden "Forbidden resource") := by
  unfold Portal.ask Portal.respond
  simp only [row?_user hu, hrole]
  rfl

theorem ask_getSchedule (hu : u ∈ p.users.rows) (hrole : u.fields.role ≠ .STUDENT) {env : Env}
    {id : String} :
    p.ask u headers env (.getSchedule id) =
      (p.selectedSchedules u headers (.caller fun r => r.fields.id == id)).head?.elim
        (.error (.notFound "?????")) fun r => .ok (.schedule (p.included r), p) := by
  have hmodel : Model.Schedule ∈ TENANT_SCOPED_MODELS := by decide
  rw [ask_of_role hu (mem_roles_getSchedule hrole) env]
  simp only [Portal.handle, Portal.getSchedule, Portal.selectedSchedules,
    selectRows_findFirst hmodel]
  cases List.filter _ p.teaching.schedules <;> rfl

/-- **Schedules**: the list is what the user sees of what is asked for, each as often as it is
stored; the detail is of a row the user sees, cancelled or not; a student whose role may read
schedules gets the list, and never a detail. -/
theorem schedules_reached (hp : p.WellFormed) (hu : u ∈ p.users.rows) (headers : TenantHeaders) :
    (∀ env (query : ScheduleListQuery) gte lte,
      bounds env.newDate { from? := query.from?, to? := query.to? } = .ok (gte, lte) →
      u.fields.role ≠ .STUDENT ∨
        Permission.hasPermission (p.permissions u) "schedules:read" = true →
      ∃ rows : List (Row ScheduleFields), p.ask u headers env (.listSchedules query) =
          .ok (.schedules (rows.map p.included), p) ∧
        rows.Pairwise (fun a b => a.fields.startsAt ≤ b.fields.startsAt) ∧
        (∀ r ∈ rows, p.SeesSchedule u headers r ∧ query.Matches gte lte r) ∧
        ∀ r, p.SeesSchedule u headers r → query.Matches gte lte r →
          rows.count r = p.teaching.schedules.count r) ∧
    (∀ env id, u.fields.role = .STUDENT →
      p.ask u headers env (.getSchedule id) = .error (.forbidden "Forbidden resource")) ∧
    ∀ env id, u.fields.role ≠ .STUDENT →
      (∃ r ∈ p.teaching.schedules, r.fields.id = id ∧ p.SeesSchedule u headers r ∧
        p.ask u headers env (.getSchedule id) = .ok (.schedule (p.included r), p)) ∨
      (∀ r ∈ p.teaching.schedules, r.fields.id = id → ¬ p.SeesSchedule u headers r) ∧
        p.ask u headers env (.getSchedule id) = .error (.notFound "?????") := by
  refine ⟨fun env query gte lte hbounds hguard => ?_,
    fun env id hrole => ask_getSchedule_student hu hrole, fun env id hrole => ?_⟩
  · have hsorted : (orderByAsc (fun s => s.startsAt) (p.selectedSchedules u headers
        (Portal.listBase (p.context u headers) query gte lte))).Pairwise _ := orderByAsc_pairwise
    refine ⟨_, ask_listSchedules hu hbounds hguard, hsorted, fun r hr => ?_,
      fun r hsees hmatches => ?_⟩
    · obtain ⟨-, hsees, hbase⟩ := (mem_selectedSchedules hp hu).mp (orderByAsc_perm.mem_iff.mp hr)
      exact ⟨hsees, (listBase_holds hsees).mp hbase⟩
    · rw [orderByAsc_perm.count_eq]
      by_cases hr : r ∈ p.teaching.schedules
      · have hmem := (mem_selectedSchedules hp hu).mpr
          ⟨hr, hsees, (listBase_holds hsees).mpr hmatches⟩
        exact List.count_filter (List.mem_filter.mp hmem).2
      · rw [List.count_eq_zero.mpr hr, List.count_eq_zero]
        exact fun hmem => hr ((mem_selectedSchedules hp hu).mp hmem).1
  · rw [ask_getSchedule hu hrole]
    cases hrows : p.selectedSchedules u headers (.caller fun r => r.fields.id == id) with
    | nil =>
        refine Or.inr ⟨fun r hr hid hsees => ?_, rfl⟩
        have hmem := (mem_selectedSchedules hp hu).mpr
          ⟨hr, hsees, show Where.holds (.caller fun r => r.fields.id == id) r = true by
            simp [Where.holds, hid]⟩
        rw [hrows] at hmem
        cases hmem
    | cons r rows =>
        have hmem : r ∈ p.selectedSchedules u headers (.caller fun r => r.fields.id == id) :=
          hrows ▸ List.mem_cons_self
        obtain ⟨hstored, hsees, hid⟩ := (mem_selectedSchedules hp hu).mp hmem
        exact Or.inl ⟨r, hstored, by simpa [Where.holds] using hid, hsees, rfl⟩

/-- The desk of the club lists what it sees of the schedules. -/
theorem deskOfClub_schedules :
    ∃ rows : List (Row ScheduleFields), club.ask deskOfClub {} {} (.listSchedules {}) =
        .ok (.schedules (rows.map club.included), club) ∧
      (∀ r ∈ rows, club.SeesSchedule deskOfClub {} r) := by
  obtain ⟨rows, hlist, -, hsees, -⟩ :=
    (schedules_reached club_wellFormed List.mem_cons_self {}).1 {} {} none none rfl
      (Or.inl (by decide))
  exact ⟨rows, hlist, fun r hr => (hsees r hr).1⟩

end Reaches

end MibServer.Access
