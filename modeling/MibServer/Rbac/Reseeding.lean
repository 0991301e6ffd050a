import MibServer.Rbac.Seed

/-!
Reseeding a running application.

A seed takes the permissions of a role away before it creates them again, so between its statements
a role has none. `loadPermissions` falls back to the map of the roles exactly then, and the map is
what the seed creates: no request is answered under a part of the permissions of a role.
-/

namespace MibServer.Rbac

open MibServer.Lib MibServer.Tenancy

/-! ### Tables -/

/-- The same codes, in any order. -/
def Same (codes codes' : List String) : Prop := ∀ c, c ∈ codes ↔ c ∈ codes'

theorem Same.refl (codes : List String) : Same codes codes := fun _ => Iff.rfl

theorem Same.trans {a b c : List String} (h : Same a b) (h' : Same b c) : Same a c :=
  fun code => (h code).trans (h' code)

theorem Same.eq_nil {codes : List String} (h : Same codes []) : codes = [] :=
  List.eq_nil_iff_forall_not_mem.mpr fun c hc => List.not_mem_nil ((h c).mp hc)

/-- Every row is still there, with its id and its code. -/
def Kept (table table' : CodedTable) : Prop :=
  ∀ r ∈ table.rows, ∃ r' ∈ table'.rows, r'.id = r.id ∧ r'.code = r.code

theorem Kept.refl (table : CodedTable) : Kept table table := fun r hr => ⟨r, hr, rfl, rfl⟩

theorem Kept.trans {a b c : CodedTable} (h : Kept a b) (h' : Kept b c) : Kept a c := by
  intro r hr
  obtain ⟨r', hr', hid, hcode⟩ := h r hr
  obtain ⟨r'', hr'', hid', hcode'⟩ := h' r' hr'
  exact ⟨r'', hr'', hid'.trans hid, hcode'.trans hcode⟩

theorem eq_of_id {table : CodedTable} {r r' : Coded} (hr : r ∈ table.rows) (hr' : r' ∈ table.rows)
    (hid : r.id.text = r'.id.text) : r = r' :=
  table.unique.eq_of_mem (k := .id r.id.text) hr hr' (by simp [codedKeys]) (by simp [codedKeys, hid])

theorem eq_of_code {table : CodedTable} {r r' : Coded} (hr : r ∈ table.rows) (hr' : r' ∈ table.rows)
    (hcode : r.code = r'.code) : r = r' :=
  table.unique.eq_of_mem (k := .code r.code) hr hr' (by simp [codedKeys]) (by simp [codedKeys, hcode])

/-- An upsert keeps the rows, and its row has the code. -/
theorem upsert?_some {table table' : CodedTable} {id : Access.Uuid} {code label : String} {r : Coded}
    (h : upsert? table id code label = some (r, table')) :
    Kept table table' ∧ r ∈ table'.rows ∧ r.code = code := by
  unfold upsert? at h
  split at h
  · rename_i old hold
    obtain ⟨updated, hupdate, heq⟩ := Option.map_eq_some_iff.mp h
    cases heq
    obtain ⟨hmem, hkey⟩ := Indexed.row?_eq_some_iff.mp hold
    have hcode : old.code = code := by simpa [codedKeys, eq_comm] using hkey
    refine ⟨fun x hx => ?_, ?_, hcode⟩
    · refine ⟨_, (Indexed.mem_updateWhere? hupdate).mpr ⟨x, hx, rfl⟩, ?_⟩
      split <;> exact ⟨rfl, rfl⟩
    · exact (Indexed.mem_updateWhere? hupdate).mpr ⟨old, hmem, by simp [hcode]⟩
  · obtain ⟨inserted, hinsert, heq⟩ := Option.map_eq_some_iff.mp h
    cases heq
    refine ⟨fun x hx => ?_, (Indexed.mem_insert? hinsert).mpr (Or.inr rfl), rfl⟩
    exact ⟨x, (Indexed.mem_insert? hinsert).mpr (Or.inl hx), rfl, rfl⟩

theorem mem_codesOf {db : RbacDb} {code c : String} : c ∈ db.codesOf code ↔
    ∃ role ∈ db.roles.rows, role.code = code ∧ ∃ l ∈ db.rolePermissions.rows,
      l.roleId = role.id.text ∧ ∃ q ∈ db.permissions.rows, q.id.text = l.permissionId ∧ q.code = c := by
  have hrole : ∀ r, db.roles.row? (.code code) = some r ↔ r ∈ db.roles.rows ∧ r.code = code := by
    intro r
    rw [Indexed.row?_eq_some_iff]
    simp [codedKeys, eq_comm]
  have hpermission : ∀ id q, db.permissions.row? (.id id) = some q ↔
      q ∈ db.permissions.rows ∧ q.id.text = id := by
    intro id q
    rw [Indexed.row?_eq_some_iff]
    simp [codedKeys, eq_comm]
  unfold RbacDb.codesOf
  cases hrow : db.roles.row? (.code code) with
  | none =>
      refine iff_of_false List.not_mem_nil ?_
      rintro ⟨role, hmem, hcode, -⟩
      rw [(hrole role).mpr ⟨hmem, hcode⟩] at hrow
      cases hrow
  | some role =>
      obtain ⟨hmem, hcode⟩ := (hrole role).mp hrow
      simp only [List.mem_filterMap, List.mem_filter, beq_iff_eq, Option.map_eq_some_iff, hpermission]
      constructor
      · rintro ⟨l, ⟨hl, hid⟩, q, ⟨hq, hqid⟩, hqcode⟩
        exact ⟨role, hmem, hcode, l, hl, hid, q, hq, hqid, hqcode⟩
      · rintro ⟨role', hmem', hcode', l, hl, hid, q, hq, hqid, hqcode⟩
        rw [eq_of_code hmem hmem' (hcode.trans hcode'.symm)]
        exact ⟨l, ⟨hl, hid⟩, q, ⟨hq, hqid⟩, hqcode⟩

/-- The codes of a role go by the ids and the codes of the rows. -/
theorem codesOf_of_kept {db db' : RbacDb} (hpermissions : Kept db.permissions db'.permissions)
    (hroles : Kept db.roles db'.roles) (hlinks : db'.rolePermissions = db.rolePermissions)
    (code : String) : Same (db'.codesOf code) (db.codesOf code) := by
  intro c
  rw [mem_codesOf, mem_codesOf, hlinks]
  constructor
  · rintro ⟨role, hrole, hcode, l, hl, hid, q, hq, hqid, hqcode⟩
    obtain ⟨⟨role₀, hrole₀, hid₀⟩, q₀, hq₀, hqid₀⟩ := db.references l hl
    obtain ⟨role', hrole', hrid, hrcode⟩ := hroles role₀ hrole₀
    obtain ⟨q', hq', hqid', hqcode'⟩ := hpermissions q₀ hq₀
    have hsame : role' = role := eq_of_id hrole' hrole (by rw [hrid, hid₀, hid])
    have hsame' : q' = q := eq_of_id hq' hq (by rw [hqid', hqid₀, hqid])
    subst hsame hsame'
    exact ⟨role₀, hrole₀, hrcode.symm.trans hcode, l, hl, hid₀.symm, q₀, hq₀, hqid₀,
      hqcode'.symm.trans hqcode⟩
  · rintro ⟨role, hrole, hcode, l, hl, hid, q, hq, hqid, hqcode⟩
    obtain ⟨role', hrole', hrid, hrcode⟩ := hroles role hrole
    obtain ⟨q', hq', hqid', hqcode'⟩ := hpermissions q hq
    exact ⟨role', hrole', hrcode.trans hcode, l, hl, by rw [hid, hrid], q', hq', by rw [hqid', hqid],
      hqcode'.trans hqcode⟩

/-! ### What seeds do to each other -/

/-- No permissions, or those of the map: what `loadPermissions` makes the map of. -/
def Default (role : UserRole) (codes : List String) : Prop :=
  codes = [] ∨ Same codes (Permission.ROLE_PERMISSION_MAP role)

theorem Default.of_same {role : UserRole} {codes codes' : List String} (h : Default role codes)
    (hsame : Same codes' codes) : Default role codes' :=
  h.imp (fun hnil => (hnil ▸ hsame).eq_nil) hsame.trans

/-- Permissions and roles stay, and each role has the permissions it had, or is reseeded. -/
structure Reseeds (db db' : RbacDb) : Prop where
  permissions : Kept db.permissions db'.permissions
  roles : Kept db.roles db'.roles
  codes : ∀ role, Same (db'.codesOf (roleText role)) (db.codesOf (roleText role)) ∨
    Default role (db'.codesOf (roleText role))

theorem Reseeds.refl (db : RbacDb) : Reseeds db db :=
  ⟨Kept.refl _, Kept.refl _, fun _ => Or.inl (Same.refl _)⟩

theorem Reseeds.trans {a b c : RbacDb} (h : Reseeds a b) (h' : Reseeds b c) : Reseeds a c where
  permissions := h.permissions.trans h'.permissions
  roles := h.roles.trans h'.roles
  codes role := by
    rcases h'.codes role with hsame | hdefault
    · exact (h.codes role).imp hsame.trans fun hdefault => hdefault.of_same hsame
    · exact Or.inr hdefault

def reseeding : Rely RbacDb := ⟨Reseeds, Reseeds.refl, Reseeds.trans⟩

/-- What a permission's round of a seed comes to. -/
def HasPermission (code : String) (db : RbacDb) : Prop := ∃ q ∈ db.permissions.rows, q.code = code

/-- What a role's round comes to. -/
def Seeded (role : UserRole) (db : RbacDb) : Prop := Default role (db.codesOf (roleText role))

theorem hasPermission_stable (code : String) : reseeding.Stable (HasPermission code) := by
  rintro db db' h ⟨q, hq, hcode⟩
  obtain ⟨q', hq', -, hcode'⟩ := h.permissions q hq
  exact ⟨q', hq', hcode'.trans hcode⟩

theorem seeded_stable (role : UserRole) : reseeding.Stable (Seeded role) := by
  intro db db' h hseeded
  exact (h.codes role).elim (Default.of_same hseeded) id

/-! ### Statements -/

section Statements

variable (db : RbacDb) (env : Env)

theorem roleText_injective {role role' : UserRole} (h : roleText role = roleText role') :
    role = role' := by
  cases role <;> cases role' <;> first | rfl | exact absurd h (by decide)

theorem accept_cases {α : Type} (permissions roles : CodedTable)
    (links : Indexed RolePermission (String × String) fun l => [(l.roleId, l.permissionId)])
    (tenants : CodedTable) (reply : α) :
    db.accept env permissions roles links tenants reply = (.error .other, db) ∨ ∃ h,
      db.accept env permissions roles links tenants reply =
        (.ok reply, ⟨tenants, permissions, roles, links, h⟩) := by
  unfold RbacDb.accept
  split
  · exact Or.inl rfl
  · split
    · rename_i h
      exact Or.inr ⟨h, rfl⟩
    · exact Or.inl rfl

theorem reseeds_of_kept {db db' : RbacDb} (hpermissions : Kept db.permissions db'.permissions)
    (hroles : Kept db.roles db'.roles) (hlinks : db'.rolePermissions = db.rolePermissions) :
    Reseeds db db' :=
  ⟨hpermissions, hroles, fun _ => Or.inl (codesOf_of_kept hpermissions hroles hlinks _)⟩

theorem upsertTenant_reseeds (code name : String) :
    Reseeds db (db.exec env (.upsertTenant code name)).2 := by
  simp only [RbacDb.exec]
  split
  · rename_i r tenants h
    rcases accept_cases db env db.permissions db.roles db.rolePermissions tenants r with
      heq | ⟨href, heq⟩
    · rw [heq]
      exact Reseeds.refl db
    · rw [heq]
      exact reseeds_of_kept (Kept.refl _) (Kept.refl _) rfl
  · exact Reseeds.refl db

/-- An upserted permission is there. -/
theorem upsertPermission_reseeds (code description : String) :
    Reseeds db (db.exec env (.upsertPermission code description)).2 ∧
      ∀ q, (db.exec env (.upsertPermission code description)).1 = .ok q →
        HasPermission code (db.exec env (.upsertPermission code description)).2 := by
  simp only [RbacDb.exec]
  split
  · rename_i r permissions h
    obtain ⟨hkept, hr, hcode⟩ := upsert?_some h
    rcases accept_cases db env permissions db.roles db.rolePermissions db.tenants r with
      heq | ⟨href, heq⟩
    · rw [heq]
      exact ⟨Reseeds.refl db, fun q hq => by cases hq⟩
    · rw [heq]
      exact ⟨reseeds_of_kept hkept (Kept.refl _) rfl, fun _ _ => ⟨r, hr, hcode⟩⟩
  · exact ⟨Reseeds.refl db, fun q hq => by cases hq⟩

/-- An upserted role is there. -/
theorem upsertRole_reseeds (code name : String) :
    Reseeds db (db.exec env (.upsertRole code name)).2 ∧
      ∀ r, (db.exec env (.upsertRole code name)).1 = .ok r →
        r ∈ (db.exec env (.upsertRole code name)).2.roles.rows ∧ r.code = code := by
  simp only [RbacDb.exec]
  split
  · rename_i r roles h
    obtain ⟨hkept, hr, hcode⟩ := upsert?_some h
    rcases accept_cases db env db.permissions roles db.rolePermissions db.tenants r with
      heq | ⟨href, heq⟩
    · rw [heq]
      exact ⟨Reseeds.refl db, fun q hq => by cases hq⟩
    · rw [heq]
      refine ⟨reseeds_of_kept (Kept.refl _) hkept rfl, fun r' hr' => ?_⟩
      cases hr'
      exact ⟨hr, hcode⟩
  · exact ⟨Reseeds.refl db, fun q hq => by cases hq⟩

/-- Without its links a role has no permissions, and another one has those it had. -/
theorem deleteRolePermissions_reseeds (roleId : String) :
    Reseeds db (db.exec env (.deleteRolePermissions roleId)).2 ∧
      ((db.exec env (.deleteRolePermissions roleId)).1 = .ok () → ∀ role,
        (∃ r ∈ db.roles.rows, r.id.text = roleId ∧ r.code = roleText role) →
          Seeded role (db.exec env (.deleteRolePermissions roleId)).2) := by
  simp only [RbacDb.exec]
  rcases accept_cases db env db.permissions db.roles
    (db.rolePermissions.deleteWhere fun l => l.roleId == roleId) db.tenants () with heq | ⟨href, heq⟩
  · rw [heq]
    exact ⟨Reseeds.refl db, fun h => by cases h⟩
  · rw [heq]
    have hown : ∀ role, (∃ r ∈ db.roles.rows, r.id.text = roleId ∧ r.code = roleText role) →
        RbacDb.codesOf ⟨db.tenants, db.permissions, db.roles,
          db.rolePermissions.deleteWhere fun l => l.roleId == roleId, href⟩ (roleText role) = [] := by
      rintro role ⟨r, hr, hid, hcode⟩
      refine List.eq_nil_iff_forall_not_mem.mpr fun c hc => ?_
      obtain ⟨r', hr', hcode', l, hl, hlid, -⟩ := mem_codesOf.mp hc
      rw [eq_of_code hr' hr (hcode'.trans hcode.symm), hid] at hlid
      have hkept := (Indexed.mem_deleteWhere.mp hl).2
      simp [hlid] at hkept
    refine ⟨⟨Kept.refl _, Kept.refl _, fun role => ?_⟩, fun _ role hrole => Or.inl (hown role hrole)⟩
    by_cases hrole : ∃ r ∈ db.roles.rows, r.id.text = roleId ∧ r.code = roleText role
    · exact Or.inr (Or.inl (hown role hrole))
    · refine Or.inl fun c => ?_
      rw [mem_codesOf, mem_codesOf]
      refine exists_congr fun r => and_congr_right fun hr => and_congr_right fun hcode =>
        exists_congr fun l => ?_
      have hother : l.roleId = r.id.text → l.roleId ≠ roleId := fun hlid heq =>
        hrole ⟨r, hr, hlid.symm.trans heq, hcode⟩
      constructor
      · rintro ⟨hl, hrest⟩
        exact ⟨(Indexed.mem_deleteWhere.mp hl).1, hrest⟩
      · rintro ⟨hl, hlid, hrest⟩
        exact ⟨Indexed.mem_deleteWhere.mpr ⟨hl, by simpa using hother hlid⟩, hlid, hrest⟩

/-- The ids are those of the permissions of the map. -/
def MapIds (role : UserRole) (permissionIds : List String) (db : RbacDb) : Prop :=
  ∀ c, (∃ id ∈ permissionIds, ∃ q ∈ db.permissions.rows, q.id.text = id ∧ q.code = c) ↔
    c ∈ Permission.ROLE_PERMISSION_MAP role

/-- The permissions of the map, for a role that has none but those. -/
theorem createRolePermissions_reseeds {role : UserRole} {roleId : String} {permissionIds : List String}
    (hrole : ∃ r ∈ db.roles.rows, r.id.text = roleId ∧ r.code = roleText role)
    (hids : MapIds role permissionIds db) (hseeded : Seeded role db) :
    Reseeds db (db.exec env (.createRolePermissions roleId permissionIds)).2 := by
  simp only [RbacDb.exec]
  split
  · rename_i links hinsert
    rcases accept_cases db env db.permissions db.roles links db.tenants () with
      heq | ⟨href, heq⟩
    · rw [heq]
      exact Reseeds.refl db
    · rw [heq]
      obtain ⟨r₀, hr₀, hid₀, hcode₀⟩ := hrole
      have hcodes : ∀ code c,
          c ∈ RbacDb.codesOf ⟨db.tenants, db.permissions, db.roles, links, href⟩ code ↔
            c ∈ db.codesOf code ∨
              code = roleText role ∧ c ∈ Permission.ROLE_PERMISSION_MAP role := by
        intro code c
        rw [mem_codesOf, mem_codesOf]
        constructor
        · rintro ⟨r, hr, hcode, l, hl, hid, q, hq, hqid, hqcode⟩
          rcases (Indexed.mem_insertMany? hinsert).mp hl with hold | hnew
          · exact Or.inl ⟨r, hr, hcode, l, hold, hid, q, hq, hqid, hqcode⟩
          · obtain ⟨id, hmem, rfl⟩ := List.mem_map.mp hnew
            rw [eq_of_id hr hr₀ (hid.symm.trans hid₀.symm)] at hcode
            exact Or.inr ⟨hcode.symm.trans hcode₀, (hids c).mp ⟨id, hmem, q, hq, hqid, hqcode⟩⟩
        · rintro (⟨r, hr, hcode, l, hl, hid, q, hq, hqid, hqcode⟩ | ⟨rfl, hc⟩)
          · exact ⟨r, hr, hcode, l, (Indexed.mem_insertMany? hinsert).mpr (Or.inl hl), hid, q, hq, hqid,
              hqcode⟩
          · obtain ⟨id, hmem, q, hq, hqid, hqcode⟩ := (hids c).mpr hc
            exact ⟨r₀, hr₀, hcode₀, ⟨roleId, id⟩, (Indexed.mem_insertMany? hinsert).mpr
              (Or.inr (List.mem_map.mpr ⟨id, hmem, rfl⟩)), hid₀.symm, q, hq, hqid, hqcode⟩
      refine ⟨Kept.refl _, Kept.refl _, fun role' => ?_⟩
      by_cases hrole' : role' = role
      · subst hrole'
        refine Or.inr (Or.inr fun c => (hcodes _ c).trans ?_)
        rcases hseeded with hnil | hsame
        · simp [hnil]
        · simp [hsame c]
      · refine Or.inl fun c => (hcodes _ c).trans (or_iff_left ?_)
        exact fun h => hrole' (roleText_injective h.1)
  · exact Reseeds.refl db

end Statements

/-! ### Calls -/

section Calls

variable {db db₀ : RbacDb}

/-- An error of the database ends the call. -/
theorem keeps_orRethrow {α β : Type} {post : β → RbacDb → Prop} {x : Except Prisma.DbError α}
    {f : α → RbacProg β} (h : ∀ a, x = .ok a → (f a).Keeps rbacEngine reseeding post db) :
    ((orRethrow x).bind f).Keeps rbacEngine reseeding post db := by
  cases x with
  | ok a => exact h a rfl
  | error e => trivial

theorem keeps_last {α : Type} {post : α → RbacDb → Prop} {x : Except Prisma.DbError α}
    (h : ∀ a, x = .ok a → post a db) : (orRethrow x).Keeps rbacEngine reseeding post db := by
  cases x with
  | ok a => exact h a rfl
  | error e => trivial

theorem seedPermission_keeps (d : String × String) :
    (seedPermission d).Keeps rbacEngine reseeding (fun _ => HasPermission d.1) db := by
  intro db₁ env _
  obtain ⟨hreseeds, hhas⟩ := upsertPermission_reseeds db₁ env d.1 d.2
  exact ⟨hreseeds, keeps_orRethrow hhas⟩

/-- The ids that were found are those of the permissions of the map. -/
def KnowsMap (allPerms : List Coded) (db : RbacDb) : Prop :=
  ∀ role, ∀ c ∈ Permission.ROLE_PERMISSION_MAP role, ∃ q ∈ db.permissions.rows,
    truthy (permByCode allPerms c) = some q.id.text ∧ q.code = c

theorem knowsMap_stable (allPerms : List Coded) : reseeding.Stable (KnowsMap allPerms) := by
  intro db db' h hknows role c hc
  obtain ⟨q, hq, hfound, hcode⟩ := hknows role c hc
  obtain ⟨q', hq', hid, hcode'⟩ := h.permissions q hq
  exact ⟨q', hq', by rw [hfound, hid], hcode'.trans hcode⟩

theorem KnowsMap.mapIds {allPerms : List Coded} (h : KnowsMap allPerms db) (role : UserRole) :
    MapIds role ((Permission.ROLE_PERMISSION_MAP role).filterMap fun c =>
      truthy (permByCode allPerms c)) db := by
  intro c
  simp only [List.mem_filterMap]
  constructor
  · rintro ⟨id, ⟨c', hc', hfound⟩, q, hq, hqid, rfl⟩
    obtain ⟨q', hq', hfound', rfl⟩ := h role c' hc'
    rw [hfound'] at hfound
    cases hfound
    rwa [eq_of_id hq hq' hqid]
  · intro hc
    obtain ⟨q, hq, hfound, rfl⟩ := h role c hc
    exact ⟨q.id.text, ⟨q.code, hc, hfound⟩, q, hq, rfl, rfl⟩

theorem seedRole_keeps {allPerms : List Coded} {role : UserRole} (hknows : KnowsMap allPerms db) :
    (seedRole allPerms role).Keeps rbacEngine reseeding (fun _ => Seeded role) db := by
  intro db₁ env₁ hrel₁
  obtain ⟨hreseeds₁, hrow⟩ := upsertRole_reseeds db₁ env₁ (roleText role)
    (roleDisplayName role)
  refine ⟨hreseeds₁, keeps_orRethrow fun r hr => ?_⟩
  obtain ⟨hmem, hcode⟩ := hrow r hr
  intro db₂ env₂ hrel₂
  obtain ⟨hreseeds₂, hdeleted⟩ := deleteRolePermissions_reseeds db₂ env₂ r.id.text
  refine ⟨hreseeds₂, keeps_orRethrow fun _ hok => ?_⟩
  obtain ⟨r₂, hmem₂, hid₂, hcode₂⟩ := hrel₂.roles r hmem
  have hseeded := hdeleted hok role ⟨r₂, hmem₂, congrArg Access.Uuid.text hid₂, hcode₂.trans hcode⟩
  dsimp only
  split
  · exact hseeded
  · rename_i permissionIds hne
    intro db₃ env₃ hrel₃
    obtain ⟨r₃, hmem₃, hid₃, hcode₃⟩ := (hreseeds₂.trans hrel₃).roles r₂ hmem₂
    have hrole₃ : ∃ r' ∈ db₃.roles.rows, r'.id.text = r.id.text ∧ r'.code = roleText role :=
      ⟨r₃, hmem₃, congrArg Access.Uuid.text (hid₃.trans hid₂), hcode₃.trans (hcode₂.trans hcode)⟩
    have hknows₃ : KnowsMap allPerms db₃ :=
      knowsMap_stable allPerms _ _ (((hrel₁.trans hreseeds₁).trans hrel₂).trans (hreseeds₂.trans hrel₃)) hknows
    have hseeded₃ : Seeded role db₃ := seeded_stable role _ _ hrel₃ hseeded
    have hreseeds₃ := createRolePermissions_reseeds db₃ env₃ hrole₃ (hknows₃.mapIds role) hseeded₃
    exact ⟨hreseeds₃, keeps_last fun _ _ => seeded_stable role _ _ hreseeds₃ hseeded₃⟩

/-- Every code of the map is described. -/
theorem map_described (role : UserRole) : ∀ c ∈ Permission.ROLE_PERMISSION_MAP role,
    c ∈ permissionDescriptions.map Prod.fst := by
  cases role <;> decide

theorem permByCode_eq {rows : CodedTable} {q : Coded} (hq : q ∈ rows.rows) :
    truthy (permByCode rows.rows q.code) = some q.id.text := by
  have hsome : (rows.rows.reverse.find? fun p => p.code == q.code).isSome :=
    List.find?_isSome.mpr ⟨q, List.mem_reverse.mpr hq, by simp⟩
  obtain ⟨q', hfind⟩ := Option.isSome_iff_exists.mp hsome
  have hmem := List.mem_reverse.mp (List.mem_of_find?_eq_some hfind)
  have hcode : q'.code = q.code := by simpa using List.find?_some hfind
  have hsame := eq_of_code hmem hq hcode
  unfold permByCode
  rw [hfind, Option.map_some, hsame]
  exact truthy_eq_some_iff.mpr ⟨rfl, q.id.generated.1⟩

theorem knowsMap_of_found (h : ∀ d ∈ permissionDescriptions, HasPermission d.1 db) :
    KnowsMap db.permissions.rows db := by
  intro role c hc
  obtain ⟨d, hd, rfl⟩ := List.mem_map.mp (map_described role c hc)
  obtain ⟨q, hq, hcode⟩ := h d hd
  exact ⟨q, hq, by rw [← hcode]; exact permByCode_eq hq, hcode⟩

/-- A seed that ends has seeded every role. -/
theorem seedRbac_keeps : seedRbac.Keeps rbacEngine reseeding (fun _ db => ∀ role, Seeded role db) db := by
  intro db₁ env₁ _
  refine ⟨upsertTenant_reseeds _ _ _ _, keeps_orRethrow fun tenant _ => ?_⟩
  have htrivial : reseeding.Stable fun _ => True := fun _ _ _ => id
  refine Prog.Keeps.bind ((Prog.Keeps.forEach htrivial (fun d => hasPermission_stable d.1)
    (fun d _ _ _ => seedPermission_keeps d) trivial).mono fun _ db₂ hpermissions => ?_)
  intro db₃ env₃ hrel₃
  refine ⟨Reseeds.refl _, keeps_orRethrow fun allPerms hfound => ?_⟩
  have hrows : allPerms = db₃.permissions.rows := by
    simp only [rbacEngine, RbacDb.exec] at hfound
    split at hfound <;> cases hfound
    rfl
  have hknows : KnowsMap allPerms db₃ := by
    rw [hrows]
    exact knowsMap_of_found fun d hd => hasPermission_stable d.1 _ _ hrel₃ (hpermissions d hd)
  refine Prog.Keeps.bind ((Prog.Keeps.forEach (knowsMap_stable allPerms) seeded_stable
    (fun role _ db hknows => seedRole_keeps hknows) hknows).mono fun _ db₄ hroles => ?_)
  exact fun role => hroles role (by cases role <;> decide)

/-! ### Loading -/

/-- What a request loads for the role. -/
def RbacDb.permissionsOf (db : RbacDb) (role : UserRole) : List String :=
  Permission.loadPermissions ((db.roles.row? (.code (roleText role))).map fun _ =>
    db.codesOf (roleText role)) role

theorem permissionsOf_eq (role : UserRole) : db.permissionsOf role =
    if db.codesOf (roleText role) = [] then Permission.ROLE_PERMISSION_MAP role
    else db.codesOf (roleText role) := by
  unfold RbacDb.permissionsOf Permission.loadPermissions
  cases hrow : db.roles.row? (.code (roleText role)) with
  | none =>
      have hnil : db.codesOf (roleText role) = [] := by
        unfold RbacDb.codesOf
        rw [hrow]
      simp [hnil]
  | some r => cases hcodes : db.codesOf (roleText role) <;> simp

theorem permissionsOf_seeded {role : UserRole} (h : Seeded role db) :
    Same (db.permissionsOf role) (Permission.ROLE_PERMISSION_MAP role) := by
  rw [permissionsOf_eq]
  split
  · exact Same.refl _
  · rename_i hne
    exact h.resolve_left hne

/-- Seeds leave a role what it had, or give it the map. -/
theorem permissionsOf_reseeds {db' : RbacDb} (h : Reseeds db db') (role : UserRole) :
    Same (db'.permissionsOf role) (db.permissionsOf role) ∨
      Same (db'.permissionsOf role) (Permission.ROLE_PERMISSION_MAP role) := by
  rcases h.codes role with hsame | hseeded
  · refine Or.inl ?_
    have hnil : db'.codesOf (roleText role) = [] ↔ db.codesOf (roleText role) = [] :=
      ⟨fun hnil => Same.eq_nil fun c => (hsame c).symm.trans (by rw [hnil]),
        fun hnil => (hnil ▸ hsame).eq_nil⟩
    rw [permissionsOf_eq, permissionsOf_eq]
    simp only [hnil]
    split
    · exact Same.refl _
    · exact hsame
  · exact Or.inr (permissionsOf_seeded hseeded)

/-- What a call's result says, from then on. -/
def Result (db₀ : RbacDb) : RbacCall → RbacResult → RbacDb → Prop
  | .seed, _, db => ∀ role, Seeded role db
  | .load role, .permissions codes, _ =>
      Same codes (db₀.permissionsOf role) ∨ Same codes (Permission.ROLE_PERMISSION_MAP role)
  | .load _, .tenantId _, _ => False

theorem result_stable (call : RbacCall) (result : RbacResult) :
    reseeding.Stable (Result db₀ call result) := by
  intro db db' h hresult
  cases call with
  | seed => exact fun role => seeded_stable role db db' h (hresult role)
  | load role =>
      cases result with
      | permissions codes => exact hresult
      | tenantId id => exact hresult

theorem program_keeps (h : Reseeds db₀ db) (call : RbacCall) :
    (RbacCall.program call).Keeps rbacEngine reseeding (Result db₀ call) db := by
  cases call with
  | seed => exact Prog.Keeps.bind (seedRbac_keeps.mono fun _ _ hseeded => hseeded)
  | load role =>
      intro db₁ env hrel
      refine ⟨Reseeds.refl _, ?_⟩
      show (Prog.bind (Prog.bind (orRethrow _) _) _).Keeps _ _ _ _
      rw [Prog.bind_assoc]
      refine keeps_orRethrow fun dbRole hfound => ?_
      have hrole : dbRole = (db₁.roles.row? (.code (roleText role))).map fun _ =>
          db₁.codesOf (roleText role) := by
        simp only [rbacEngine, RbacDb.exec] at hfound
        split at hfound <;> cases hfound
        rfl
      show Same (Permission.loadPermissions dbRole role) _ ∨ Same _ _
      rw [hrole]
      exact permissionsOf_reseeds (h.trans hrel) role

/-- The calls that are running keep to the rely. -/
theorem reachable_keeps {w : RbacWorld} (h : (rbacSystem.machine (· = db₀)).Reachable w) :
    w.Keeps rbacSystem reseeding (Result db₀) db₀ :=
  System.reachable_keeps result_stable (fun call _ hrel => program_keeps hrel call) h

/-- **No part of a role**: whatever seeds run meanwhile, and wherever they stop, a request loads the
permissions its role had before any of them, or those of the map, and never a part of either. -/
theorem loaded_before_or_seeded {w : RbacWorld} (h : (rbacSystem.machine (· = db₀)).Reachable w)
    {th : Thread RbacDb RbacStmt RbacStmt.Reply Env HttpException RbacResult RbacCall}
    (hth : th ∈ w.threads) {role : UserRole} {codes : List String} (hcall : th.call = .load role)
    (hresult : th.result? = some (.permissions codes)) :
    Same codes (db₀.permissionsOf role) ∨ Same codes (Permission.ROLE_PERMISSION_MAP role) := by
  have hpost := (reachable_keeps h).result hth hresult
  rw [hcall] at hpost
  exact hpost

/-- **Seeded for good**: once any one seed has ended, every role has the permissions of the map,
whatever other seeds are about and wherever they have stopped. -/
theorem seeded_for_good {w : RbacWorld} (h : (rbacSystem.machine (· = db₀)).Reachable w)
    {th : Thread RbacDb RbacStmt RbacStmt.Reply Env HttpException RbacResult RbacCall}
    (hth : th ∈ w.threads) (hcall : th.call = .seed) (hended : th.result?.isSome) (role : UserRole) :
    Same (w.committed.permissionsOf role) (Permission.ROLE_PERMISSION_MAP role) := by
  obtain ⟨result, hresult⟩ := Option.isSome_iff_exists.mp hended
  have hpost := (reachable_keeps h).result hth hresult
  rw [hcall] at hpost
  exact permissionsOf_seeded (hpost role)

end Calls

/-! ### A reseeded role -/

def uuidOf (n : Nat) : Access.Uuid :=
  if h : toString n ≠ "" ∧ toString n ≠ "__no_access__" then ⟨toString n, h⟩ else default

/-- Coaches may only read the schedules. -/
def tuned : RbacDb where
  tenants := ∅
  permissions := ⟨[⟨uuidOf 1, "schedules:read", ""⟩], by decide +kernel⟩
  roles := ⟨[⟨uuidOf 1, "COACH", "教练"⟩], by decide +kernel⟩
  rolePermissions := ⟨[⟨"1", "1"⟩], by decide +kernel⟩
  references := by decide +kernel

/-- A seed takes `n` steps, and a coach's request is served. -/
def seedSteps (n : Nat) : List (Action RbacCall Env) :=
  .spawn .seed :: (List.range n).map (fun i => .run 0 { uuid := uuidOf (i + 2) }) ++
    [.spawn (.load .COACH), .run 1 {}]

def reseeded (n : Nat) : Option RbacWorld :=
  (rbacSystem.machine (· = tuned)).exec ⟨tuned, []⟩ (seedSteps n)

theorem reachable_of_reseeded {n : Nat} {w : RbacWorld} (h : reseeded n = some w) :
    (rbacSystem.machine (· = tuned)).Reachable w :=
  Machine.reachableBy_exec (Machine.reachableBy_init ⟨rfl, rfl⟩) (Machine.admits_true _ _) h

/-- What the coach's request has loaded, and what the seed has returned. -/
def ends (n : Nat) : Option (Option RbacResult × Option RbacResult) :=
  (reseeded n).bind fun w => w.threads[1]?.bind fun request => w.threads[0]?.map fun seed =>
    if request.call = .load .COACH ∧ seed.call = .seed then (request.result?, seed.result?)
    else (none, none)

theorem ends_some {n : Nat} {loaded ended : Option RbacResult} (h : ends n = some (loaded, ended)) :
    ∃ w request seed, reseeded n = some w ∧ request ∈ w.threads ∧ seed ∈ w.threads ∧
      (loaded.isSome → request.call = .load .COACH ∧ request.result? = loaded) ∧
      (ended.isSome → seed.call = .seed ∧ seed.result? = ended) := by
  obtain ⟨w, hw, h⟩ := Option.bind_eq_some_iff.mp h
  obtain ⟨request, hrequest, h⟩ := Option.bind_eq_some_iff.mp h
  obtain ⟨seed, hseed, h⟩ := Option.map_eq_some_iff.mp h
  refine ⟨w, request, seed, hw, List.mem_of_getElem? hrequest, List.mem_of_getElem? hseed, ?_⟩
  split at h
  · rename_i hcalls
    cases h
    exact ⟨fun _ => ⟨hcalls.1, rfl⟩, fun _ => ⟨hcalls.2, rfl⟩⟩
  · cases h
    exact ⟨fun hsome => (by cases hsome), fun hsome => (by cases hsome)⟩

/-- Between the deletion of the permissions of the coaches and their creation. -/
theorem coach_loads : ∃ codes, ends 34 = some (some (.permissions codes), none) ∧
    (Same codes (tuned.permissionsOf .COACH) ∨
      Same codes (Permission.ROLE_PERMISSION_MAP .COACH)) := by
  have hends : ends 34 =
      some (some (.permissions (Permission.ROLE_PERMISSION_MAP .COACH)), none) := by decide +kernel
  obtain ⟨w, request, seed, hw, hrequest, -, hloaded, -⟩ := ends_some hends
  obtain ⟨hcall, hresult⟩ := hloaded rfl
  exact ⟨_, hends, loaded_before_or_seeded (reachable_of_reseeded hw) hrequest hcall hresult⟩

/-- The seed has ended. -/
theorem coach_reseeded : ∃ w, reseeded 38 = some w ∧
    Same (w.committed.permissionsOf .COACH) (Permission.ROLE_PERMISSION_MAP .COACH) := by
  have hended : (ends 38).any (fun e => e.2.isSome) = true := by decide +kernel
  cases hends : ends 38 with
  | none =>
      rw [hends] at hended
      cases hended
  | some e =>
      rw [hends] at hended
      obtain ⟨w, request, seed, hw, -, hseed, -, hresult⟩ := ends_some hends
      obtain ⟨hcall, hresult⟩ := hresult hended
      exact ⟨w, hw, seeded_for_good (reachable_of_reseeded hw) hseed hcall (hresult ▸ hended) .COACH⟩

end MibServer.Rbac
