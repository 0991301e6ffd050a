import MibServer.Access.Visibility
import MibServer.Lib.Machine

/-!
How a tenant spreads.

A user has a tenant by the own row, by a membership, or by the coach or the student the user is.
The last two are rows the application writes, so the requests of one user decide which tenants
another one gets. A tenant spreads from a user who has it, from one for whom there are no tenants,
and by being named in a body; `tenant_confined` says that it spreads in no other way, and
`tenant_named` that naming it is enough.
-/

namespace MibServer.Access

open MibServer.Lib MibServer.Tenancy

variable {P : Type}

/-! ### The tenants of a user -/

namespace Portal

/-- `t` is one of the user's tenants. -/
def Holds (p : Portal P) (userId t : String) : Prop :=
  ∃ u ∈ p.users.rows, u.fields.id.text = userId ∧ (p.user u).Member t

def HasUser (p : Portal P) (userId : String) : Prop := ∃ u ∈ p.users.rows, u.fields.id.text = userId

/-- The foreign keys of the tenants and of the users. -/
structure Closed (p : Portal P) : Prop extends p.WellFormed where
  memberUsers : ∀ m ∈ p.userTenants, p.HasUser m.1
  coachUsers : ∀ r ∈ p.coaches.rows, ∀ v ∈ r.fields.userId, p.HasUser v
  studentUsers : ∀ r ∈ p.students.rows, ∀ v ∈ r.fields.userId, p.HasUser v

end Portal

/-- `r` links the user to the tenant. -/
def Links (r : Row (Linked P)) (userId t : String) : Prop :=
  r.fields.userId = some userId ∧ r.tenantId = some t

variable {p p' : Portal P} {u : Row UserFields} {userId t : String}

theorem link_tenant_iff {table : LinkedTable P} :
    (table.link userId).bind Link.tenantId = some t ↔ ∃ r ∈ table.rows, Links r userId t := by
  rw [Option.bind_eq_some_iff]
  constructor
  · rintro ⟨l, hl, ht⟩
    obtain ⟨r, hr, huser, rfl⟩ := mem_link.mp hl
    exact ⟨r, hr, huser, ht⟩
  · rintro ⟨r, hr, huser, ht⟩
    exact ⟨_, mem_link.mpr ⟨r, hr, huser, rfl⟩, ht⟩

theorem member_user : (p.user u).Member t ↔ u.tenantId = some t ∨
    (u.fields.id.text, t) ∈ p.userTenants ∨ (∃ r ∈ p.coaches.rows, Links r u.fields.id.text t) ∨
      ∃ r ∈ p.students.rows, Links r u.fields.id.text t := by
  unfold User.Member Portal.user
  rw [link_tenant_iff, link_tenant_iff]
  simp [List.mem_map, List.mem_filter]

/-! ### What a request writes -/

section Writes

/-- The tenants of the rows a reply is about. -/
def Reply.tenants : Reply P → List (Option String)
  | .rows found => found.map Row.tenantId
  | .row found => [found.tenantId]
  | .schedules found => found.map fun s => s.schedule.tenantId
  | .schedule found => [found.schedule.tenantId]
  | .user found => [found.tenantId]
  | .ok => []

def Reply.scheduleReplies : Reply P → List (ScheduleReply P)
  | .schedules found => found
  | .schedule found => [found]
  | _ => []

/-- The tenants of the rows that come with a schedule. -/
def ScheduleReply.included (s : ScheduleReply P) : List (Option String) :=
  (s.class_.map Courses.Class.tenantId).toList ++
    (s.courseType.map Courses.CourseType.tenantId).toList ++
    (s.venue.map Courses.Venue.tenantId).toList ++ (s.coach.map Row.tenantId).toList

/-- The tenants of the rows that come with the schedules of a reply. -/
def Reply.included (reply : Reply P) : List (Option String) :=
  reply.scheduleReplies.flatMap ScheduleReply.included

/-- A row of the tenant comes with a stored schedule of the tenant only. -/
def Portal.RefersWithin (p : Portal P) (t : String) : Prop :=
  ∀ r ∈ p.teaching.schedules, some t ∈ (p.included r).included → r.tenantId = some t

variable [Inhabited P] {service : LinkedService P} {ctx : ScopedContext} {table : LinkedTable P}
  {env : Env} {reply : Reply P} {headers : TenantHeaders}

/-- The body of the call names the tenant. -/
def LinkedCall.Names (t : String) : LinkedCall P → Prop
  | .create dto => dto.tenantId = some t
  | .update _ dto => dto.tenantId = some (some t)
  | _ => False

def Call.Names (t : String) : Call P → Prop
  | .students call | .coaches call => call.Names t
  | _ => False

instance (t : String) : ∀ call : LinkedCall P, Decidable (call.Names t)
  | .create dto => inferInstanceAs (Decidable (dto.tenantId = some t))
  | .update _ dto => inferInstanceAs (Decidable (dto.tenantId = some (some t)))
  | .findAll | .findOne _ | .remove _ => .isFalse id

instance (t : String) : ∀ call : Call P, Decidable (call.Names t)
  | .students call | .coaches call => inferInstanceAs (Decidable (call.Names t))
  | .listSchedules _ | .getSchedule _ | .register _ => .isFalse id

/-- `x` is what the call writes. -/
def LinkedCall.Writes (service : LinkedService P) (ctx : ScopedContext) (table : LinkedTable P)
    (env : Env) (x : Row (Linked P)) : LinkedCall P → Prop
  | .create dto => x = service.record ctx dto env
  | .update _ dto => ∃ r ∈ table.rows, service.InScope ctx r ∧ x = dto.apply r
  | _ => False

/-- Each row of the new table is an old one, or written by the call with its foreign keys. -/
def Grows (p : Portal P) (service : LinkedService P) (ctx : ScopedContext) (env : Env)
    (call : LinkedCall P) (table table' : LinkedTable P) : Prop :=
  ∀ x ∈ table'.rows, x ∈ table.rows ∨ p.admits x = true ∧ call.Writes service ctx table env x

/-- The reply is about no schedule, and each row of it is one in scope, or what the call has
written. -/
def Shows (service : LinkedService P) (ctx : ScopedContext) (table : LinkedTable P) (env : Env)
    (call : LinkedCall P) (reply : Reply P) : Prop :=
  reply.scheduleReplies = [] ∧ ∀ tenantId ∈ reply.tenants, ∃ x, x.tenantId = tenantId ∧
    (x ∈ table.rows ∧ service.InScope ctx x ∨ call.Writes service ctx table env x)

theorem grows_refl {call : LinkedCall P} : Grows p service ctx env call table table :=
  fun _ hx => Or.inl hx

theorem createLinked_ok {dto : CreateDto P} {r : Row (Linked P)} {table' : LinkedTable P}
    (h : p.createLinked service ctx table dto env = .ok (r, table')) :
    Grows p service ctx env (.create dto) table table' ∧
      (LinkedCall.create dto).Writes service ctx table env r := by
  unfold Portal.createLinked orThrow at h
  simp only [bind, Except.bind, pure, Except.pure] at h
  cases hadmits : !env.fault && p.admits (service.record ctx dto env) with
  | false => simp [hadmits] at h
  | true =>
      cases hinsert : table.insert? (service.record ctx dto env) with
      | none => simp [hadmits, hinsert] at h
      | some inserted =>
          simp only [hadmits, if_true, hinsert, Except.ok.injEq, Prod.mk.injEq] at h
          obtain ⟨rfl, rfl⟩ := h
          rw [Bool.and_eq_true] at hadmits
          refine ⟨fun x hx => ?_, rfl⟩
          refine ((Indexed.mem_insert? hinsert).mp hx).imp id fun hnew => ?_
          exact ⟨hnew ▸ hadmits.2, hnew⟩

theorem updateLinked_ok (hmodel : service.Scoped) {id : String}
    {dto : UpdateDto P} {r : Row (Linked P)} {table' : LinkedTable P}
    (h : p.updateLinked service ctx table id dto env = .ok (r, table')) :
    Grows p service ctx env (.update id dto) table table' ∧
      (LinkedCall.update id dto).Writes service ctx table env r := by
  rcases updateLinked_cases hmodel p table id dto env with
    ⟨found, hfound, rfl, hscope, hwrites, hfails⟩ | ⟨-, herror⟩
  · by_cases htakes : resolveTenantWhere ctx.ambient = none ∧ p.Fits table env found (dto.apply found)
    · obtain ⟨written, hok, hrows⟩ := hwrites htakes
      rw [hok] at h
      cases h
      refine ⟨fun x hx => ?_, found, hfound, hscope, rfl⟩
      rw [hrows] at hx
      obtain ⟨y, hy, rfl⟩ := List.mem_map.mp hx
      by_cases hid : y.fields.id.text = found.fields.id.text
      · rw [if_pos hid, eq_of_id hy hfound hid]
        exact Or.inr ⟨htakes.2.2.1, found, hfound, hscope, rfl⟩
      · rw [if_neg hid]
        exact Or.inl hy
    · rw [hfails htakes] at h
      cases h
  · rw [herror] at h
    cases h

theorem removeLinked_grows (hmodel : service.Scoped) {id : String}
    {restricts : Bool} {table' : LinkedTable P} {call : LinkedCall P}
    (h : Portal.removeLinked service ctx table id restricts env = .ok table') :
    Grows p service ctx env call table table' := by
  rcases removeLinked_cases hmodel table id restricts env with
    ⟨found, -, -, -, hremoves, hfails⟩ | ⟨-, herror⟩
  · by_cases hfree : resolveTenantWhere ctx.ambient = none ∧ restricts = false ∧ env.fault = false
    · obtain ⟨left, hok, hrows⟩ := hremoves hfree
      rw [hok] at h
      cases h
      intro x hx
      rw [hrows] at hx
      exact Or.inl (List.mem_filter.mp hx).1
    · rw [hfails hfree] at h
      cases h
  · rw [herror] at h
    cases h

theorem shows_row {call : LinkedCall P} {r : Row (Linked P)}
    (h : r ∈ table.rows ∧ service.InScope ctx r ∨ call.Writes service ctx table env r) :
    Shows service ctx table env call (.row r) := by
  refine ⟨rfl, fun tenantId ht => ?_⟩
  rw [List.mem_singleton.mp ht]
  exact ⟨r, rfl, h⟩

theorem findOne_ok (hmodel : service.Scoped) {id : String}
    {r : Row (Linked P)} (h : service.findOne ctx table id = .ok r) :
    r ∈ table.rows ∧ service.InScope ctx r := by
  rcases findOne_cases hmodel.1 id with ⟨found, hr, -, hscope, hok⟩ | ⟨-, herror⟩
  · rw [hok] at h
    cases h
    exact ⟨hr, hscope⟩
  · rw [herror] at h
    cases h

/-- A call on one table writes that table; a row that is removed may take others with it. -/
theorem serveLinked_ok (hmodel : service.Scoped)
    {put : LinkedTable P → Portal P} {restricts : String → Bool}
    {removed : String → LinkedTable P → Portal P} {call : LinkedCall P}
    (hself : put table = p)
    (h : p.serveLinked service table put restricts removed ctx env call = .ok (reply, p')) :
    Shows service ctx table env call reply ∧ ∃ table', Grows p service ctx env call table table' ∧
      (p' = put table' ∨ ∃ id, p' = removed id table') := by
  cases call with
  | create dto =>
      obtain ⟨⟨r, table'⟩, hcreate, hrest⟩ := bind_ok h
      cases hrest
      obtain ⟨hgrows, hwrites⟩ := createLinked_ok hcreate
      exact ⟨shows_row (Or.inr hwrites), table', hgrows, Or.inl rfl⟩
  | findAll =>
      cases h
      refine ⟨⟨rfl, fun tenantId ht => ?_⟩, table, grows_refl, Or.inl hself.symm⟩
      obtain ⟨r, hr, rfl⟩ := List.mem_map.mp ht
      exact ⟨r, rfl, Or.inl ((mem_findAll hmodel.1).mp hr)⟩
  | findOne id =>
      obtain ⟨r, hfound, hrest⟩ := bind_ok h
      cases hrest
      exact ⟨shows_row (Or.inl (findOne_ok hmodel hfound)), table, grows_refl, Or.inl hself.symm⟩
  | update id dto =>
      obtain ⟨⟨r, table'⟩, hupdate, hrest⟩ := bind_ok h
      cases hrest
      obtain ⟨hgrows, hwrites⟩ := updateLinked_ok hmodel hupdate
      exact ⟨shows_row (Or.inr hwrites), table', hgrows, Or.inl rfl⟩
  | remove id =>
      obtain ⟨table', hremove, hrest⟩ := bind_ok h
      cases hrest
      refine ⟨⟨rfl, by simp [Reply.tenants]⟩, table', removeLinked_grows hmodel hremove, ?_⟩
      exact Or.inr ⟨id, rfl⟩

theorem serveStudents_ok {call : LinkedCall P} (h : p.serveStudents ctx env call = .ok (reply, p')) :
    (∃ students teaching, teaching.schedules = p.teaching.schedules ∧
      p' = { p with students, teaching }) ∧
      Grows p (studentsService p.teaching) ctx env call p.students p'.students ∧
      Shows (studentsService p.teaching) ctx p.students env call reply := by
  have hself : { p with students := p.students } = p := rfl
  unfold Portal.serveStudents at h
  obtain ⟨hshows, students, hgrows, hput | ⟨id, hremoved⟩⟩ := serveLinked_ok studentsService_scoped hself h
  · subst hput
    exact ⟨⟨students, p.teaching, rfl, rfl⟩, hgrows, hshows⟩
  · subst hremoved
    exact ⟨⟨students, Portal.withoutStudent p.teaching id, rfl, rfl⟩, hgrows, hshows⟩

theorem serveCoaches_ok {call : LinkedCall P} (h : p.serveCoaches ctx env call = .ok (reply, p')) :
    (∃ coaches teaching, teaching.schedules = p.teaching.schedules ∧
      p' = { p with coaches, teaching }) ∧
      Grows p coachesService ctx env call p.coaches p'.coaches ∧
      Shows coachesService ctx p.coaches env call reply := by
  have hself : { p with coaches := p.coaches } = p := rfl
  unfold Portal.serveCoaches at h
  obtain ⟨hshows, coaches, hgrows, hput | ⟨id, hremoved⟩⟩ := serveLinked_ok coachesService_scoped hself h
  · subst hput
    exact ⟨⟨coaches, p.teaching, rfl, rfl⟩, hgrows, hshows⟩
  · subst hremoved
    exact ⟨⟨coaches, Portal.withoutCoach p.teaching id, rfl, rfl⟩, hgrows, hshows⟩

/-- The extension leaves a record alone that has a tenant where there is one to add. -/
theorem data?_of_create {F : Type} {ambient : Ambient} {model : Model} {args : Args F}
    {data : CreateData F} (hdata : args.data? = some (.record data))
    (htenant : ∀ tenantId, resolveTenantIdForWrite ambient = some tenantId → data.tenantId.isSome) :
    (prismaTenantExtension ambient model .create args).args.data? = some (.record data) := by
  unfold prismaTenantExtension
  split
  · exact hdata
  · split
    · exact hdata
    · rw [if_neg (by decide), if_neg (by decide), if_pos (by decide)]
      unfold createQuery
      split
      · rename_i tenantId hwrite hbypass
        obtain ⟨own, fields⟩ := data
        obtain ⟨own, rfl⟩ :=
          Option.isSome_iff_exists.mp (htenant _ (truthy_eq_some_iff.mp hwrite).1)
        rw [hdata]
        rfl
      · exact hdata

/-- The service has already put there the tenant the extension would add. -/
theorem record_eq (dto : CreateDto P) : service.record ctx dto env =
    ⟨dto.tenantId <|> ctx.activeTenantId <|> ctx.tenantIds.head?,
      ⟨env.uuid, dto.userId, env.now, dto.profile⟩⟩ := by
  unfold LinkedService.record
  simp only
  rw [data?_of_create rfl]
  · rfl
  · intro tenantId hwrite
    have hdefault : (ctx.activeTenantId <|> ctx.tenantIds.head?) = some tenantId := hwrite
    rw [hdefault]
    cases dto.tenantId <;> rfl

/-! ### Who gives a tenant -/

/-- The user has the tenant, or there are no tenants for the user. -/
def Gives (p : Portal P) (u : Row UserFields) (t : String) : Prop :=
  (p.user u).Member t ∨ p.viewer u = .everywhere

instance : Decidable (Gives p u t) := inferInstanceAs (Decidable (_ ∨ _))

/-- The caller of the request gives the tenant. -/
def Request.Gives (p : Portal P) (req : Request P) (t : String) : Prop :=
  ∃ u ∈ p.users.rows, u.fields.id.text = req.userId ∧ Access.Gives p u t

instance {req : Request P} : Decidable (req.Gives p t) :=
  inferInstanceAs (Decidable (∃ u ∈ p.users.rows, _))

theorem member_of_accessible {user : User} (h : Accessible user headers t) : user.Member t := by
  unfold Accessible at h
  split at h
  · split at h
    · rename_i hmember
      exact h ▸ hmember
    · exact h
  · exact h

omit [Inhabited P] in
/-- The tenant a new row gets by default is one of the caller's. -/
theorem member_of_default (hp : p.WellFormed) (hu : u ∈ p.users.rows)
    (h : ((p.context u headers).activeTenantId <|> (p.context u headers).tenantIds.head?) = some t) :
    (p.user u).Member t := by
  have hactive := @activeTenantId_eq_some _ (hp.stored hu) u.fields.role (p.roles u.fields.role) headers
  have hmem := @mem_tenantIds _ (hp.stored hu) u.fields.role (p.roles u.fields.role) headers
  cases hctx : (p.context u headers).activeTenantId with
  | some active =>
      rw [hctx] at h
      cases h
      exact (hactive.mp hctx).2
  | none =>
      rw [hctx] at h
      exact hmem.mp (List.mem_of_head? h)

omit [Inhabited P] in
/-- The extension admits the tenants the caller gives. -/
theorem gives_of_admitted (hp : p.WellFormed) (hu : u ∈ p.users.rows)
    (hadmitted : Admitted (p.context u headers).ambient (some t)) (hknown : t ∈ p.tenants.ids) :
    Gives p u t := by
  by_cases hviewer : p.viewer u = .everywhere
  · exact Or.inr hviewer
  · have hids : ∀ t' ∈ some t, t' ∈ p.tenants.ids := fun t' ht' => by
      cases ht'
      exact hknown
    obtain ⟨t', ht', haccessible⟩ := (admitted_context hp hu hviewer hids).mp hadmitted
    cases ht'
    exact Or.inl (member_of_accessible haccessible)

omit [Inhabited P] in
theorem gives_of_inScope (hp : p.WellFormed) (hu : u ∈ p.users.rows) {r : Row (Linked P)}
    (hscope : service.InScope (p.context u headers) r) (hknown : ∀ t ∈ r.tenantId, t ∈ p.tenants.ids)
    (ht : r.tenantId = some t) : Gives p u t :=
  gives_of_admitted hp hu (ht ▸ hscope.1) (hknown t ht)

/-- The tenant of a written row is named in the body, or given by the caller. -/
theorem tenant_of_writes (hp : p.WellFormed) (hu : u ∈ p.users.rows)
    (hknown : ∀ r ∈ table.rows, ∀ t ∈ r.tenantId, t ∈ p.tenants.ids) {call : LinkedCall P}
    {x : Row (Linked P)} (hx : call.Writes service (p.context u headers) table env x)
    (ht : x.tenantId = some t) : call.Names t ∨ Gives p u t := by
  cases call with
  | create dto =>
      rw [show x = _ from hx, record_eq] at ht
      cases hnamed : dto.tenantId with
      | some named =>
          rw [hnamed] at ht
          exact Or.inl (hnamed.trans ht)
      | none =>
          rw [hnamed] at ht
          exact Or.inr (Or.inl (member_of_default hp hu ht))
  | update id dto =>
      obtain ⟨r, hr, hscope, rfl⟩ := hx
      cases hnamed : dto.tenantId with
      | some named =>
          refine Or.inl (hnamed.trans ?_)
          rw [← ht, UpdateDto.apply, hnamed]
          rfl
      | none =>
          rw [UpdateDto.apply, hnamed] at ht
          exact Or.inr (gives_of_inScope hp hu hscope (hknown r hr) ht)
  | findAll | findOne id | remove id => exact hx.elim

/-- The tenants a reply shows are named in the body, or given by the caller. -/
theorem tenant_of_shows (hp : p.WellFormed) (hu : u ∈ p.users.rows)
    (hknown : ∀ r ∈ table.rows, ∀ t ∈ r.tenantId, t ∈ p.tenants.ids) {call : LinkedCall P}
    (hshows : Shows service (p.context u headers) table env call reply)
    (ht : some t ∈ reply.tenants) : call.Names t ∨ Gives p u t := by
  obtain ⟨x, hx, ⟨hmem, hscope⟩ | hwrites⟩ := hshows.2 _ ht
  · exact Or.inr (gives_of_inScope hp hu hscope (hknown x hmem) hx)
  · exact tenant_of_writes hp hu hknown hwrites hx

/-- A schedule of a reply is a stored one the extension admits, with the rows that come with it. -/
theorem schedule_shown {call : Call P} (h : p.handle ctx env call = .ok (reply, p'))
    {s : ScheduleReply P} (hs : s ∈ reply.scheduleReplies) :
    ∃ r ∈ p.teaching.schedules, Admitted ctx.ambient r.tenantId ∧ s = p.included r := by
  have hmodel : Model.Schedule ∈ TENANT_SCOPED_MODELS := by decide
  have hkept : ∀ {w : Where ScheduleFields} {r : Row ScheduleFields},
      r ∈ p.teaching.schedules.filter (fun r => w.holds r && decide (Admitted ctx.ambient r.tenantId)) →
        r ∈ p.teaching.schedules ∧ Admitted ctx.ambient r.tenantId := by
    intro w r hr
    obtain ⟨hmem, hkeep⟩ := List.mem_filter.mp hr
    rw [Bool.and_eq_true, decide_eq_true_iff] at hkeep
    exact ⟨hmem, hkeep.2⟩
  cases call with
  | students call =>
      obtain ⟨-, -, hshows⟩ := serveStudents_ok h
      rw [hshows.1] at hs
      cases hs
  | coaches call =>
      obtain ⟨-, -, hshows⟩ := serveCoaches_ok h
      rw [hshows.1] at hs
      cases hs
  | listSchedules query =>
      obtain ⟨rows, hlist, hrest⟩ := bind_ok h
      cases hrest
      obtain ⟨⟨gte, lte⟩, -, hrows⟩ := bind_ok hlist
      cases hrows
      obtain ⟨r, hr, rfl⟩ := List.mem_map.mp hs
      rw [orderByAsc_perm.mem_iff, selectRows_findMany hmodel] at hr
      exact ⟨r, (hkept hr).1, (hkept hr).2, rfl⟩
  | getSchedule id =>
      obtain ⟨found, hfound, hrest⟩ := bind_ok h
      cases hrest
      obtain rfl := List.mem_singleton.mp hs
      unfold Portal.getSchedule at hfound
      rw [selectRows_findFirst hmodel] at hfound
      split at hfound
      · rename_i r rows hrows
        cases hfound
        have hr := hkept (List.mem_of_mem_take (hrows ▸ List.mem_cons_self))
        exact ⟨r, hr.1, hr.2, rfl⟩
      · cases hfound
  | register dto =>
      obtain ⟨⟨r, p''⟩, -, hrest⟩ := bind_ok h
      cases hrest
      cases hs

end Writes

/-! ### One request -/

section Step

variable {req : Request P} {env : Env} {reply : Reply P}

/-- What `register` writes. -/
theorem register_ok {ctx : ScopedContext} {dto : RegisterDto} {r : Row UserFields}
    (h : p.register ctx dto env = .ok (r, p')) :
    (ctx.activeTenantId <|> ctx.tenantIds.head?) = r.tenantId ∧ r.fields.id = env.uuid ∧
      ∃ users, p.users.insert? r = some users ∧ p' = { p with users } := by
  unfold Portal.register at h
  cases htenant : truthy (ctx.activeTenantId <|> ctx.tenantIds.head?) with
  | none =>
      rw [htenant] at h
      cases h
  | some tenantId =>
      simp only [htenant] at h
      obtain ⟨-, -, h⟩ := bind_ok h
      obtain ⟨users, hinsert, h⟩ := bind_ok h
      cases h
      refine ⟨(truthy_eq_some_iff.mp htenant).1, rfl, users, ?_, rfl⟩
      cases hfault : env.fault with
      | true => simp [orThrow, hfault] at hinsert
      | false =>
          simp only [hfault, Bool.false_eq_true, if_false, orThrow] at hinsert
          split at hinsert
          · rename_i heq
            cases hinsert
            exact heq
          · cases hinsert

/-- A new user has an id of its own. -/
theorem not_hasUser_of_insert {r : Row UserFields} {users}
    (h : p.users.insert? r = some users) : ¬ p.HasUser r.fields.id.text := by
  rintro ⟨u, hu, hid⟩
  have hunique : UniqueOn userKeys (p.users.rows ++ [r]) := Indexed.rows_insert? h ▸ users.unique
  refine (uniqueOn_append_singleton.mp hunique).2.2 (.id r.fields.id.text) (by simp [userKeys]) ?_
  exact List.mem_flatMap.mpr ⟨u, hu, by simp [userKeys, hid]⟩

/-- The foreign keys of a written row. -/
theorem admits_iff {r : Row (Linked P)} : p.admits r = true ↔
    (∀ t ∈ r.tenantId, t ∈ p.tenants.ids) ∧ ∀ v ∈ r.fields.userId, p.HasUser v := by
  have huser : ∀ v, (p.users.row? (.id v)).isSome = true ↔ p.HasUser v := by
    intro v
    rw [Option.isSome_iff_exists]
    unfold Portal.HasUser
    simp only [Indexed.row?_eq_some_iff, userKeys, List.mem_cons, UserKey.id.injEq,
      Option.mem_toList, Option.map_eq_some_iff, reduceCtorEq, and_false, exists_false, or_false]
    exact exists_congr fun u => and_congr_right fun _ => eq_comm
  unfold Portal.admits
  rw [Bool.and_eq_true]
  cases r.tenantId <;> cases r.fields.userId <;> simp [huser]

theorem closed_of_students (hp : p.Closed) {students : LinkedTable P} {teaching : Teaching}
    (hschedules : teaching.schedules = p.teaching.schedules)
    (h : ∀ x ∈ students.rows, x ∈ p.students.rows ∨ p.admits x = true) :
    { p with students, teaching }.Closed where
  users := hp.users
  userTenants := hp.userTenants
  coaches := hp.coaches
  students x hx := (h x hx).elim (hp.students x) fun hadmits => (admits_iff.mp hadmits).1
  schedules r hr := hp.schedules r (hschedules ▸ hr)
  memberUsers := hp.memberUsers
  coachUsers := hp.coachUsers
  studentUsers x hx := (h x hx).elim (hp.studentUsers x) fun hadmits => (admits_iff.mp hadmits).2

theorem closed_of_coaches (hp : p.Closed) {coaches : LinkedTable P} {teaching : Teaching}
    (hschedules : teaching.schedules = p.teaching.schedules)
    (h : ∀ x ∈ coaches.rows, x ∈ p.coaches.rows ∨ p.admits x = true) :
    { p with coaches, teaching }.Closed where
  users := hp.users
  userTenants := hp.userTenants
  coaches x hx := (h x hx).elim (hp.coaches x) fun hadmits => (admits_iff.mp hadmits).1
  students := hp.students
  schedules r hr := hp.schedules r (hschedules ▸ hr)
  memberUsers := hp.memberUsers
  coachUsers x hx := (h x hx).elim (hp.coachUsers x) fun hadmits => (admits_iff.mp hadmits).2
  studentUsers := hp.studentUsers

theorem closed_of_users (hp : p.Closed) {r : Row UserFields} {users}
    (hinsert : p.users.insert? r = some users) (hknown : ∀ t ∈ r.tenantId, t ∈ p.tenants.ids) :
    { p with users }.Closed := by
  have hmore : ∀ v, p.HasUser v → { p with users }.HasUser v := by
    rintro v ⟨u, hu, hid⟩
    exact ⟨u, (Indexed.mem_insert? hinsert).mpr (Or.inl hu), hid⟩
  constructor
  · constructor
    · intro u hu
      rcases (Indexed.mem_insert? hinsert).mp hu with hold | rfl
      · exact hp.users u hold
      · exact hknown
    · exact hp.userTenants
    · exact hp.coaches
    · exact hp.students
    · exact hp.schedules
  · exact fun m hm => hmore _ (hp.memberUsers m hm)
  · exact fun r hr v hv => hmore _ (hp.coachUsers r hr v hv)
  · exact fun r hr v hv => hmore _ (hp.studentUsers r hr v hv)

variable [Inhabited P]

/-- A request that succeeds is the handler's, for the user of the token. -/
theorem respond_ok (h : p.respond req env = .ok (reply, p')) :
    ∃ u ∈ p.users.rows, u.fields.id.text = req.userId ∧
      p.handle (p.context u req.headers) env req.call = .ok (reply, p') := by
  unfold Portal.respond at h
  cases hrow : p.users.row? (.id req.userId) with
  | none =>
      rw [hrow] at h
      cases h
  | some u =>
      simp only [hrow] at h
      obtain ⟨-, -, h⟩ := bind_ok h
      obtain ⟨hu, hkey⟩ := Indexed.row?_eq_some_iff.mp hrow
      refine ⟨u, hu, ?_, h⟩
      simp only [userKeys, List.mem_cons, UserKey.id.injEq, Option.mem_toList,
        Option.map_eq_some_iff, reduceCtorEq, and_false, exists_false, or_false] at hkey
      exact hkey.symm

/-- **One request** keeps the foreign keys, and a user gets a tenant from it only where the body
names it or the caller gives it. -/
theorem respond_spreads (hp : p.Closed) (h : p.respond req env = .ok (reply, p')) :
    p'.Closed ∧ ∀ v t, p'.Holds v t → p.Holds v t ∨ req.call.Names t ∨ req.Gives p t := by
  obtain ⟨u, hu, hid, hhandle⟩ := respond_ok h
  cases hcall : req.call with
  | students call =>
      rw [hcall] at hhandle
      obtain ⟨⟨students, teaching, hschedules, rfl⟩, hgrows, -⟩ := serveStudents_ok hhandle
      refine ⟨closed_of_students hp hschedules fun x hx => (hgrows x hx).imp_right And.left, ?_⟩
      rintro v t ⟨w, hw, hwid, hmember⟩
      rcases member_user.mp hmember with hown | hmembership | hcoach | ⟨x, hx, huser, ht⟩
      · exact Or.inl ⟨w, hw, hwid, member_user.mpr (Or.inl hown)⟩
      · exact Or.inl ⟨w, hw, hwid, member_user.mpr (Or.inr (Or.inl hmembership))⟩
      · exact Or.inl ⟨w, hw, hwid, member_user.mpr (Or.inr (Or.inr (Or.inl hcoach)))⟩
      · rcases hgrows x hx with hold | ⟨-, hwrites⟩
        · exact Or.inl ⟨w, hw, hwid, member_user.mpr (Or.inr (Or.inr (Or.inr ⟨x, hold, huser, ht⟩)))⟩
        · refine Or.inr ((tenant_of_writes hp.toWellFormed hu hp.students hwrites ht).imp id ?_)
          exact fun hgives => ⟨u, hu, hid, hgives⟩
  | coaches call =>
      rw [hcall] at hhandle
      obtain ⟨⟨coaches, teaching, hschedules, rfl⟩, hgrows, -⟩ := serveCoaches_ok hhandle
      refine ⟨closed_of_coaches hp hschedules fun x hx => (hgrows x hx).imp_right And.left, ?_⟩
      rintro v t ⟨w, hw, hwid, hmember⟩
      rcases member_user.mp hmember with hown | hmembership | ⟨x, hx, huser, ht⟩ | hstudent
      · exact Or.inl ⟨w, hw, hwid, member_user.mpr (Or.inl hown)⟩
      · exact Or.inl ⟨w, hw, hwid, member_user.mpr (Or.inr (Or.inl hmembership))⟩
      · rcases hgrows x hx with hold | ⟨-, hwrites⟩
        · exact Or.inl ⟨w, hw, hwid, member_user.mpr (Or.inr (Or.inr (Or.inl ⟨x, hold, huser, ht⟩)))⟩
        · refine Or.inr ((tenant_of_writes hp.toWellFormed hu hp.coaches hwrites ht).imp id ?_)
          exact fun hgives => ⟨u, hu, hid, hgives⟩
      · exact Or.inl ⟨w, hw, hwid, member_user.mpr (Or.inr (Or.inr (Or.inr hstudent)))⟩
  | listSchedules query =>
      rw [hcall] at hhandle
      obtain ⟨rows, -, hrest⟩ := bind_ok hhandle
      cases hrest
      exact ⟨hp, fun v t hholds => Or.inl hholds⟩
  | getSchedule id =>
      rw [hcall] at hhandle
      obtain ⟨r, -, hrest⟩ := bind_ok hhandle
      cases hrest
      exact ⟨hp, fun v t hholds => Or.inl hholds⟩
  | register dto =>
      rw [hcall] at hhandle
      obtain ⟨⟨r, p''⟩, hregister, hrest⟩ := bind_ok hhandle
      cases hrest
      obtain ⟨hdefault, -, users, hinsert, rfl⟩ := register_ok hregister
      have hmine : ∀ t ∈ r.tenantId, (p.user u).Member t := fun t ht =>
        member_of_default hp.toWellFormed hu (hdefault.trans ht)
      refine ⟨closed_of_users hp hinsert fun t ht => ?_, ?_⟩
      · exact (hp.toWellFormed.stored hu).known t (hmine t ht)
      · rintro v t ⟨w, hw, hwid, hmember⟩
        rcases (Indexed.mem_insert? hinsert).mp hw with hold | rfl
        · exact Or.inl ⟨w, hold, hwid, member_user.mpr (member_user.mp hmember)⟩
        · -- Nothing refers to the new user yet.
          have hnew := not_hasUser_of_insert hinsert
          rcases member_user.mp hmember with hown | hmembership | ⟨x, hx, huser, -⟩ | ⟨x, hx, huser, -⟩
          · exact Or.inr (Or.inr ⟨u, hu, hid, Or.inl (hmine t hown)⟩)
          · exact absurd (hp.memberUsers _ hmembership) hnew
          · exact absurd (hp.coachUsers x hx _ huser) hnew
          · exact absurd (hp.studentUsers x hx _ huser) hnew

/-- The reply shows a tenant only where the body names it or the caller gives it. -/
theorem respond_shows (hp : p.Closed) (h : p.respond req env = .ok (reply, p'))
    (ht : some t ∈ reply.tenants) : req.call.Names t ∨ req.Gives p t := by
  obtain ⟨u, hu, hid, hhandle⟩ := respond_ok h
  have hcaller : Gives p u t → req.Gives p t := fun hgives => ⟨u, hu, hid, hgives⟩
  have hschedule : ∀ s ∈ reply.scheduleReplies, s.schedule.tenantId = some t → Gives p u t := by
    intro s hs htenant
    obtain ⟨r, hr, hadmitted, rfl⟩ := schedule_shown hhandle hs
    exact gives_of_admitted hp.toWellFormed hu (htenant ▸ hadmitted) (hp.schedules r hr t htenant)
  cases hcall : req.call with
  | students call =>
      rw [hcall] at hhandle
      obtain ⟨-, -, hshows⟩ := serveStudents_ok hhandle
      exact (tenant_of_shows hp.toWellFormed hu hp.students hshows ht).imp id hcaller
  | coaches call =>
      rw [hcall] at hhandle
      obtain ⟨-, -, hshows⟩ := serveCoaches_ok hhandle
      exact (tenant_of_shows hp.toWellFormed hu hp.coaches hshows ht).imp id hcaller
  | listSchedules query =>
      rw [hcall] at hhandle
      obtain ⟨found, -, hrest⟩ := bind_ok hhandle
      cases hrest
      obtain ⟨s, hs, htenant⟩ := List.mem_map.mp ht
      exact Or.inr (hcaller (hschedule s hs htenant))
  | getSchedule id =>
      rw [hcall] at hhandle
      obtain ⟨found, -, hrest⟩ := bind_ok hhandle
      cases hrest
      exact Or.inr (hcaller (hschedule found List.mem_cons_self (List.mem_singleton.mp ht).symm))
  | register dto =>
      rw [hcall] at hhandle
      obtain ⟨⟨r, p''⟩, hregister, hrest⟩ := bind_ok hhandle
      cases hrest
      have htenant : r.tenantId = some t := (List.mem_singleton.mp ht).symm
      have hmine := member_of_default hp.toWellFormed hu ((register_ok hregister).1.trans htenant)
      exact Or.inr (hcaller (Or.inl hmine))

/-- So does what comes with the schedules, if no schedule of another tenant refers to its rows. -/
theorem respond_includes (hp : p.Closed) (hwithin : p.RefersWithin t)
    (h : p.respond req env = .ok (reply, p')) (ht : some t ∈ reply.included) : req.Gives p t := by
  obtain ⟨u, hu, hid, hhandle⟩ := respond_ok h
  obtain ⟨s, hs, hincluded⟩ := List.mem_flatMap.mp ht
  obtain ⟨r, hr, hadmitted, rfl⟩ := schedule_shown hhandle hs
  have htenant := hwithin r hr hincluded
  exact ⟨u, hu, hid,
    gives_of_admitted hp.toWellFormed hu (htenant ▸ hadmitted) (hp.schedules r hr t htenant)⟩

end Step

/-! ### Runs -/

section Runs

variable [Inhabited P] {init : Portal P → Prop}

/-- The action is no request that names the tenant, or whose caller gives it. -/
def Outside (t : String) (p : Portal P) : PortalAction P → Prop
  | .request req _ => ¬ req.call.Names t ∧ ¬ req.Gives p t
  | .other _ => True

instance (t : String) (p : Portal P) : ∀ a : PortalAction P, Decidable (Outside t p a)
  | .request _ _ => inferInstanceAs (Decidable (_ ∧ _))
  | .other _ => .isTrue trivial

theorem step_spreads {a : PortalAction P} (hp : p.Closed) (houtside : Outside t p a)
    (hstep : (portal init).step p a = some p') : p'.Closed ∧ ∀ v, p'.Holds v t → p.Holds v t := by
  cases a with
  | request req env =>
      simp only [portal] at hstep
      split at hstep
      · rename_i reply p'' hrespond
        cases hstep
        obtain ⟨hclosed, hspread⟩ := respond_spreads hp hrespond
        refine ⟨hclosed, fun v hholds => ?_⟩
        rcases hspread v t hholds with hold | hnames | hgives
        · exact hold
        · exact absurd hnames houtside.1
        · exact absurd hgives houtside.2
      · cases hstep
        exact ⟨hp, fun v => id⟩
  | other teaching =>
      simp only [portal] at hstep
      split at hstep
      · rename_i hkeeps
        cases hstep
        refine ⟨{ hp with schedules := fun r hr s hs => ?_ }, fun v => id⟩
        have hall := List.all_eq_true.mp hkeeps r hr
        rw [show r.tenantId = some s from hs] at hall
        simpa using hall
      · cases hstep

/-- **Confinement**: along a run none of whose requests names the tenant or comes from a caller who
gives it, nobody gets the tenant, and at its end nobody who had not got it, and for whom there are
tenants, is shown a row of it without naming it, nor one that comes with a schedule, unless a
schedule of another tenant refers to it. -/
theorem tenant_confined (hp : p.Closed)
    (hrun : Relation.ReflTransGen ((portal init).Next (Outside t)) p p') :
    (∀ v, p'.Holds v t → p.Holds v t) ∧ ∀ req env reply p'',
      p'.respond req env = .ok (reply, p'') → ¬ req.call.Names t → ¬ p.Holds req.userId t →
        (∀ u ∈ p'.users.rows, u.fields.id.text = req.userId → p'.viewer u ≠ .everywhere) →
          some t ∉ reply.tenants ∧ (p'.RefersWithin t → some t ∉ reply.included) := by
  obtain ⟨hclosed, hspread⟩ := Machine.run_related (I := Portal.Closed)
    (R := fun p p' => ∀ v, p'.Holds v t → p.Holds v t) hrun hp (fun p v => id)
    (fun h h' v hholds => h v (h' v hholds)) fun p a p' hp houtside hstep => step_spreads hp houtside hstep
  refine ⟨hspread, fun req env reply p'' h hnames hholds hviewer => ?_⟩
  have hgives : ¬ req.Gives p' t := by
    rintro ⟨u, hu, hid, hmember | heverywhere⟩
    · exact hholds (hspread _ ⟨u, hu, hid, hmember⟩)
    · exact hviewer u hu hid heverywhere
  exact ⟨fun ht => (respond_shows hclosed h ht).elim hnames hgives,
    fun hwithin ht => hgives (respond_includes hclosed hwithin h ht)⟩

theorem club_closed : club.Closed where
  toWellFormed := club_wellFormed
  memberUsers := by simp [club]
  coachUsers := by simp [club, Portal.HasUser, coachOfClub, deskOfClub, clubUser]
  studentUsers := by simp [club]

/-- The desk becomes a coach of the club and takes in a student. -/
def deskCoaches : List (PortalAction Unit) :=
  [.request ⟨"u1", {}, .coaches (.create ⟨none, some "u1", ()⟩)⟩ {},
    .request ⟨"u1", {}, .students (.create ⟨none, none, ()⟩)⟩ { now := 4 }]

/-- Neither of which is about the other tenant. -/
theorem deskCoaches_outside : (portal (· = club)).Admits (Outside "t2") club deskCoaches := by
  decide +kernel

theorem deskCoaches_runs : ((portal (· = club)).exec club deskCoaches).isSome := by decide +kernel

instance (p : Portal Unit) (userId t : String) : Decidable (p.Holds userId t) :=
  inferInstanceAs (Decidable (∃ u ∈ p.users.rows, _))

theorem deskCoaches_confined :
    ¬ (((portal (· = club)).exec club deskCoaches).get deskCoaches_runs).Holds "u1" "t2" :=
  fun h => absurd ((tenant_confined club_closed
    (Machine.run_exec deskCoaches_outside (Option.some_get deskCoaches_runs).symm)).1 "u1" h)
      (by decide +kernel)

/-! ### A tenant that is named -/

/-- **One request is enough**: staff without a coach of their own make themselves a coach of any
tenant, and right after it the extension admits that tenant's rows to them. -/
theorem tenant_named (hp : p.Closed) (hu : u ∈ p.users.rows) (hrole : u.fields.role ≠ .STUDENT)
    (hcoach : (p.user u).coach = none) (ht : t ∈ p.tenants.ids) {env : Env}
    (hfault : env.fault = false) (hnew : ∀ r ∈ p.coaches.rows, r.fields.id.text ≠ env.uuid.text)
    (headers : TenantHeaders) (profile : P) :
    ∃ r p', p.ask u headers env (.coaches (.create ⟨some t, some u.fields.id.text, profile⟩)) =
        .ok (.row r, p') ∧ p'.Closed ∧ p'.Holds u.fields.id.text t ∧
      ∀ headers' : TenantHeaders, headers'.requested = some t → p'.viewer u ≠ .everywhere →
        ∀ t' ∈ p'.tenants.ids, Admitted (p'.context u headers').ambient (some t') ↔ t' = t := by
  let r : Row (Linked P) := ⟨some t, ⟨env.uuid, some u.fields.id.text, env.now, profile⟩⟩
  have hadmits : p.admits r = true := by
    refine admits_iff.mpr ⟨fun t' ht' => ?_, fun v hv => ⟨u, hu, ?_⟩⟩
    · cases ht'
      exact ht
    · cases hv
      rfl
  have hfree : p.coaches.Free r := by
    have hunlinked : p.coaches.row? (.userId u.fields.id.text) = none := by
      simpa [Portal.user, LinkedTable.link] using hcoach
    refine ⟨by simp [r, linkKeys], fun k hk hoccupied => ?_⟩
    obtain ⟨r', hr', hk'⟩ := List.mem_flatMap.mp hoccupied
    rcases List.mem_cons.mp hk with rfl | huser
    · exact hnew r' hr' (by simpa [linkKeys, r, eq_comm] using hk')
    · rw [List.mem_singleton.mp (show k ∈ [_] from huser)] at hk'
      exact Indexed.row?_eq_none_iff.mp hunlinked r' hr' hk'
  obtain ⟨coaches, hinsert, hrows⟩ := Indexed.insert?_of_free hfree
  have hrecord : (coachesService : LinkedService P).record (p.context u headers)
      ⟨some t, some u.fields.id.text, profile⟩ env = r := record_eq _
  have hcreate : p.createLinked coachesService (p.context u headers) p.coaches
      ⟨some t, some u.fields.id.text, profile⟩ env = .ok (r, coaches) := by
    unfold Portal.createLinked
    simp [hrecord, hfault, hadmits, hinsert, orThrow, bind, Except.bind, pure, Except.pure]
  have hroles : u.fields.role ∈ (Call.coaches (.create ⟨some t, some u.fields.id.text, profile⟩) :
      Call P).roles := by
    cases hrole' : u.fields.role with
    | STUDENT => exact absurd hrole' hrole
    | ADMIN | STAFF | COACH => simp [Call.roles]
  have hgrows : ∀ x ∈ coaches.rows, x ∈ p.coaches.rows ∨ p.admits x = true := by
    intro x hx
    refine ((Indexed.mem_insert? hinsert).mp hx).imp id fun heq => ?_
    rw [heq]
    exact hadmits
  have hclosed : ({ p with coaches, teaching := p.teaching } : Portal P).Closed :=
    closed_of_coaches hp rfl hgrows
  have hmember : ({ p with coaches }.user u).Member t :=
    member_user.mpr (Or.inr (Or.inr (Or.inl ⟨r, by simp [hrows], rfl, rfl⟩)))
  refine ⟨r, { p with coaches }, ?_, hclosed, ⟨u, hu, rfl, hmember⟩, ?_⟩
  · rw [ask_of_role hu hroles env]
    show p.serveCoaches _ _ _ = _
    simp only [Portal.serveCoaches, Portal.serveLinked, hcreate]
    rfl
  · intro headers' hrequested hviewer t' ht'
    have hids : ∀ s ∈ some t', s ∈ p.tenants.ids := fun s hs => by
      cases hs
      exact ht'
    rw [admitted_context hclosed.toWellFormed hu hviewer hids]
    simp [Portal.Within, Accessible, hrequested, hmember]

/-- The desk of the club, and the other tenant. -/
theorem deskOfClub_named :
    ∃ r p', club.ask deskOfClub {} {} (.coaches (.create ⟨some "t2", some "u1", ()⟩)) =
      .ok (.row r, p') ∧ p'.Holds "u1" "t2" := by
  obtain ⟨r, p', hask, -, hholds, -⟩ := tenant_named club_closed List.mem_cons_self (by decide)
    (by decide +kernel) (show "t2" ∈ twoTenants.ids by decide) (show ({} : Env).fault = false from rfl)
    (by decide) {} ()
  exact ⟨r, p', hask, hholds⟩

end Runs

end MibServer.Access
