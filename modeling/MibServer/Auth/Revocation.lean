import MibServer.Auth.Service

/-!
Revocation by `tokenVersion`.

A token carries the version of the row it was signed from. Versions never go down, and a
change of password raises the one of its user, so every row read before the change has a
smaller version than every row read after it: `validate` never again finds the version of
an old token. A token signed by a change of password carries the version that change has
written, and finds it until the next one.
-/

namespace MibServer.Auth

open MibServer.Lib MibServer.Redis

variable {platform : Platform} {db : Db} {env : Env}

/-! ### Versions -/

theorem Db.findUser_some {scope : Option Tenancy.TenantWhereClause} {p : User → Bool} {u : User}
    (h : db.findUser scope p = some u) : u ∈ db.users.rows ∧ p u = true := by
  have hp := List.find?_some h
  exact ⟨List.mem_of_find?_eq_some h, (Bool.and_eq_true_iff.mp hp).1⟩

/-- The primary key selects one row. -/
theorem Db.user_unique {u u' : User} (hu : u ∈ db.users.rows) (hu' : u' ∈ db.users.rows)
    (hid : u.id = u'.id) : u = u' :=
  db.users.unique.eq_of_mem (k := .id u.id) hu hu' (by simp [User.keys]) (by simp [User.keys, hid])

theorem Db.findUser_of_mem {u : User} (hu : u ∈ db.users.rows) :
    db.findUser none (fun v => v.id.1 = u.id.1) = some u := by
  cases hfind : db.findUser none (fun v => v.id.1 = u.id.1) with
  | none =>
      have hmiss := List.find?_eq_none.mp hfind u hu
      simp at hmiss
  | some v =>
      obtain ⟨hv, hid⟩ := Db.findUser_some hfind
      rw [Db.user_unique hv hu (Subtype.ext (by simpa using hid))]

/-- The statement commits a new password for the user. -/
def ChangesPassword (u : Uuid) (q : Stmt) (db : Db) : Prop :=
  ∃ scope passwordHash, q = .updatePassword scope u.1 passwordHash ∧
    (db.updatePassword scope u.1 passwordHash).1.isSome

/-- An update by the primary key fails and changes nothing, or it rewrites one row. -/
theorem Db.updatePassword_cases (db : Db) (scope : Option Tenancy.TenantWhereClause)
    (id passwordHash : String) :
    db.updatePassword scope id passwordHash = (none, db) ∨
      ∃ old ∈ db.users.rows, old.id.1 = id ∧ db.updatePassword scope id passwordHash =
        (some (old.withPassword passwordHash), db.setPassword old.id passwordHash) := by
  unfold Db.updatePassword
  split
  · rename_i old hfind
    obtain ⟨hmem, hid⟩ := Db.findUser_some hfind
    exact Or.inr ⟨old, hmem, by simpa using hid, rfl⟩
  · exact Or.inl rfl

theorem Db.mem_setPassword (u : Uuid) (passwordHash : String) {row : User} (h : row ∈ db.users.rows) :
    (if row.id = u then row.withPassword passwordHash else row) ∈
      (db.setPassword u passwordHash).users.rows := by
  have hmem := List.mem_map_of_mem (f := fun r : User => if r.id = u then r.withPassword passwordHash else r) h
  simpa [Db.setPassword, Indexed.modify] using hmem

/-- **What a statement does to a row**: nothing, or it commits a new password for its
user, which raises the version. -/
theorem exec_user {row : User} (h : row ∈ db.users.rows) (q : Stmt) :
    row ∈ (db.exec platform env q).2.users.rows ∨
      ChangesPassword row.id q db ∧
        ∃ passwordHash, row.withPassword passwordHash ∈ (db.exec platform env q).2.users.rows := by
  cases q with
  | createUser tenantId username passwordHash role =>
      refine Or.inl ?_
      simp only [Db.exec]
      rcases db.createUser_cases platform
        { id := env.uuid, tenantId := some tenantId, username, passwordHash, role } with
        hnone | ⟨users, hinsert, hsome⟩
      · rw [hnone]
        exact h
      · rw [hsome]
        exact Indexed.rows_insert? hinsert ▸ List.mem_append_left _ h
  | updatePassword scope id passwordHash =>
      simp only [Db.exec]
      rcases db.updatePassword_cases scope id passwordHash with hnone | ⟨old, hold, rfl, hsome⟩
      · rw [hnone]
        exact Or.inl h
      · rw [hsome]
        have hmem := Db.mem_setPassword old.id passwordHash h
        split at hmem
        · rename_i hrow
          refine Or.inr ⟨⟨scope, passwordHash, by rw [hrow], ?_⟩, passwordHash, hmem⟩
          rw [hrow, hsome]
          rfl
        · exact Or.inl hmem
  | _ => exact Or.inl h

/-- The version of a user has reached `n`. -/
def VersionReached (u : Uuid) (n : Nat) (db : Db) : Prop :=
  ∃ row ∈ db.users.rows, row.id = u ∧ n ≤ row.tokenVersion

theorem VersionReached.exec {u : Uuid} {n : Nat} (h : VersionReached u n db) (q : Stmt) :
    VersionReached u n (db.exec platform env q).2 := by
  obtain ⟨row, hrow, hid, hn⟩ := h
  rcases exec_user hrow q with hsame | ⟨-, passwordHash, hraised⟩
  · exact ⟨row, hsame, hid, hn⟩
  · exact ⟨_, hraised, hid, Nat.le_succ_of_le hn⟩

theorem VersionReached.linked {u : Uuid} {n : Nat} {db' : Db} {h : List (Issued Db Stmt Env)}
    (hn : VersionReached u n db) (hl : Linked platform.engine db h db') : VersionReached u n db' :=
  hl.keeps hn fun i _ hi => hi.exec i.q

/-! ### What a token is signed from -/

/-- The row of a user as a statement that a token is signed after has read it. -/
def signs : Entry Stmt Stmt.Reply Env → Option User
  | ⟨.findUserByAccount _ _ _, _, reply⟩ => reply
  | ⟨.createUser _ _ _ _, _, reply⟩ => reply
  | ⟨.updatePassword _ _ _, _, reply⟩ => reply
  | _ => none

/-- The row was in the table when it was read, or the statement has put it there. -/
theorem signs_mem {i : Issued Db Stmt Env} {row : User}
    (h : signs (i.entry platform.engine) = some row) :
    row ∈ (i.after platform.engine).users.rows := by
  obtain ⟨t, q, env, db⟩ := i
  cases q with
  | findUserByAccount scope tenantId username => exact (Db.findUser_some h).1
  | createUser tenantId username passwordHash role =>
      simp only [Issued.entry, Issued.reply, Issued.after, signs, Platform.engine, Db.exec] at h ⊢
      rcases db.createUser_cases platform
        { id := env.uuid, tenantId := some tenantId, username, passwordHash, role } with
        hnone | ⟨users, hinsert, hsome⟩
      · rw [hnone] at h
        cases h
      · rw [hsome] at h ⊢
        cases h
        exact Indexed.rows_insert? hinsert ▸ List.mem_append_right _ (List.mem_singleton_self _)
  | updatePassword scope id passwordHash =>
      have hreply : (db.updatePassword scope id passwordHash).1 = some row := h
      change row ∈ (db.updatePassword scope id passwordHash).2.users.rows
      rcases db.updatePassword_cases scope id passwordHash with hnone | ⟨old, hold, -, hsome⟩
      · rw [hnone] at hreply
        cases hreply
      · rw [hsome] at hreply ⊢
        cases hreply
        have hrow := Db.mem_setPassword old.id passwordHash hold
        rwa [if_pos rfl] at hrow
  | redis _ | findTenant _ | findUserById _ _ | compare _ _ | hash _ | randomUUID | now | pass _ =>
      cases h

/-- A response is signed from the one row its call has read to sign it. -/
def SignedFrom (past : List (Entry Stmt Stmt.Reply Env)) (response : AuthResponse) : Prop :=
  ∃ row jti, past.filterMap signs = [row] ∧ response.token.payload = row.payload jti

/-- A statement after which nothing is signed. -/
def Stmt.Unsigned : Stmt → Prop
  | .findUserByAccount _ _ _ | .createUser _ _ _ _ | .updatePassword _ _ _ => False
  | _ => True

theorem filterMap_signs_eq_nil {log : List (Entry Stmt Stmt.Reply Env)}
    (h : ∀ e ∈ log, e.q.Unsigned) : log.filterMap signs = [] := by
  refine List.filterMap_eq_nil_iff.mpr fun e he => ?_
  have hq := h e he
  obtain ⟨q, env, reply⟩ := e
  cases q <;> first | rfl | exact hq.elim

section Programs

variable {config : EnvConfig} {ms : String → Option ℚ}

/-- The specification of the calls that sign. -/
def Signing : TraceSpec Stmt Stmt.Reply Env AuthException AuthResponse where
  finish := SignedFrom

/-- A piece of a call that reads no row to sign. -/
theorem obeys_unsigned {α : Type} {p : AuthProg α} {f : α → AuthProg AuthResponse}
    {past : List (Entry Stmt Stmt.Reply Env)} (hp : p.Only Stmt.Unsigned)
    (hf : ∀ a (past' : List (Entry Stmt Stmt.Reply Env)),
      past'.filterMap signs = past.filterMap signs → (f a).Obeys Signing past') :
    (p.bind f).Obeys Signing past := by
  refine Prog.Obeys.bind (hp.obeys fun log hlog => ⟨fun _ _ => trivial, fun a => ?_, fun _ => trivial⟩)
  refine hf a (past ++ log) ?_
  rw [List.filterMap_append, filterMap_signs_eq_nil hlog, List.append_nil]

theorem buildAuthResponse_obeys {user : User} {past : List (Entry Stmt Stmt.Reply Env)}
    (h : past.filterMap signs = [user]) :
    (buildAuthResponse config ms user).Obeys Signing past := by
  refine obeys_query trivial fun env jti => Prog.Obeys.bind ?_
  refine obeys_query trivial fun env' now => ?_
  split
  · refine ⟨user, jti, ?_, rfl⟩
    rw [List.filterMap_append, List.filterMap_append, h]
    rfl
  · exact trivial

theorem login_obeys (dto : LoginDto) (ip : String) : (login config ms dto ip).Obeys Signing [] := by
  refine obeys_unsigned (assertCanAttemptLogin_only (fun _ _ => trivial) trivial fun _ _ => trivial)
    fun _ past hguard => ?_
  refine obeys_unsigned (resolveTenantByCode_only trivial) fun tenant past htenant => ?_
  have hpast : past.filterMap signs = [] := htenant.trans hguard
  refine obeys_query trivial fun env user => ?_
  cases user with
  | none =>
      exact obeys_unsigned (recordLoginFailure_only (fun _ _ => trivial) fun _ _ => trivial)
        fun _ _ _ => trivial
  | some user =>
      refine obeys_query trivial fun env' isPwdOk => ?_
      cases isPwdOk with
      | true =>
          refine obeys_unsigned (clearLoginFailures_only trivial) fun _ past' hclear => ?_
          refine buildAuthResponse_obeys (hclear.trans ?_)
          rw [List.filterMap_append, List.filterMap_append, hpast]
          rfl
      | false =>
          refine obeys_unsigned (recordLoginFailure_only (fun _ _ => trivial) fun _ _ => trivial)
            fun lock _ _ => ?_
          split
          · trivial
          · trivial

theorem register_obeys (ambient : Tenancy.Ambient) (dto : RegisterDto) :
    (register config ms ambient dto).Obeys Signing [] := by
  unfold register
  split
  · trivial
  · refine obeys_query trivial fun _ exists? => ?_
    cases exists? with
    | some _ => trivial
    | none =>
        refine obeys_query trivial fun _ passwordHash => ?_
        refine obeys_query trivial fun _ created => ?_
        cases created with
        | none => trivial
        | some user => exact buildAuthResponse_obeys rfl

theorem changePassword_obeys (ambient : Tenancy.Ambient) (userId : String) (dto : ChangePasswordDto) :
    (changePassword config ms ambient userId dto).Obeys Signing [] := by
  refine obeys_query trivial fun _ user => ?_
  cases user with
  | none => trivial
  | some user =>
      refine obeys_query trivial fun _ ok => ?_
      cases ok with
      | false => trivial
      | true =>
          refine obeys_query trivial fun _ passwordHash => ?_
          refine obeys_query trivial fun _ updated => ?_
          cases updated with
          | none => trivial
          | some updated => exact buildAuthResponse_obeys rfl

/-! ### `validate` -/

/-- The row of a user as `validate` has read it. -/
def found : Entry Stmt Stmt.Reply Env → Option (Option User)
  | ⟨.findUserById _ _, _, reply⟩ => some reply
  | _ => none

/-- Why a token signed from `row` is accepted: the one row read for it has its version. -/
def AcceptedBy (row : User) (jti : Uuid) (past : List (Entry Stmt Stmt.Reply Env))
    (user : AuthUser) : Prop :=
  ∃ env u, ⟨.findUserById none row.id.1, env, some u⟩ ∈ past ∧ past.filterMap found = [some u] ∧
    u.tokenVersion = row.tokenVersion ∧ user.userId = u.id ∧ user.jti = jti.1

/-- Why it is rejected: it is blacklisted, or no row with its version is read for it. -/
def RejectedBy (row : User) (jti : Uuid) (past : List (Entry Stmt Stmt.Reply Env)) : Prop :=
  (∃ env, ⟨.redis (.exists (tokenBlacklistKey jti.1)), env, true⟩ ∈ past) ∨
    ∃ env reply, ⟨.findUserById none row.id.1, env, reply⟩ ∈ past ∧
      ∀ u, reply = some u → u.tokenVersion ≠ row.tokenVersion

theorem truthy_uuid (id : Uuid) : truthy (some id.1) = some id.1 := if_neg id.2

theorem validate_obeys (row : User) (jti : Uuid) :
    (validate (row.payload jti)).Obeys
      ⟨fun _ _ => True, AcceptedBy row jti, fun past _ => RejectedBy row jti past⟩ [] := by
  unfold validate User.payload
  simp only [truthy_uuid]
  refine obeys_query trivial fun env blacklisted => ?_
  cases blacklisted with
  | true => exact Or.inl ⟨env, List.mem_singleton_self _⟩
  | false =>
      refine obeys_query trivial fun env' user => ?_
      have hread : ∀ reply : Option User,
        (⟨.findUserById none row.id.1, env', reply⟩ : Entry Stmt Stmt.Reply Env) ∈
          ([] ++ [⟨.redis (.exists (tokenBlacklistKey jti.1)), env, false⟩]) ++
            [⟨.findUserById none row.id.1, env', reply⟩] :=
        fun reply => List.mem_append_right _ (List.mem_singleton_self _)
      cases user with
      | none => exact Or.inr ⟨env', _, hread none, fun u hu => by cases hu⟩
      | some user =>
          dsimp only
          split
          · rename_i hversion
            exact ⟨env', user, hread _, rfl, hversion, rfl, rfl⟩
          · rename_i hversion
            refine Or.inr ⟨env', _, hread _, fun u hu => ?_⟩
            cases hu
            exact hversion

end Programs

section Runs

variable {deployment : Deployment}

/-- What the calls that sign leave in their logs, the system promises of its responses. -/
theorem program_responds {F : List (Entry Stmt Stmt.Reply Env) → AuthResponse → Prop}
    (hlogin : ∀ dto ip, (login deployment.config deployment.ms dto ip).Obeys { finish := F } [])
    (hregister : ∀ ambient dto,
      (register deployment.config deployment.ms ambient dto).Obeys { finish := F } [])
    (hchange : ∀ ambient userId dto,
      (changePassword deployment.config deployment.ms ambient userId dto).Obeys { finish := F } [])
    (call : Call) : (deployment.system.program call).Obeys
      { finish := fun past outcome => ∀ response, outcome = .response response → F past response } [] := by
  have hresponse : ∀ {p : AuthProg AuthResponse}, p.Obeys { finish := F } [] →
      (p.bind fun r => .ret (Outcome.response r)).Obeys
        { finish := fun past outcome => ∀ response, outcome = .response response → F past response } [] := by
    intro p hp
    refine Prog.Obeys.bind (hp.mono (fun _ _ _ => trivial) (fun past a ha => ?_) fun _ _ _ => trivial)
    rintro response hout
    cases hout
    exact ha
  have hother : ∀ {α : Type} {p : AuthProg α} {out : α → Outcome}, p.Only (fun _ => True) →
      (∀ a response, out a ≠ .response response) →
      (p.bind fun a => .ret (out a)).Obeys
        { finish := fun past outcome => ∀ response, outcome = .response response → F past response } [] := by
    intro α p out hp hout
    refine Prog.Obeys.bind (hp.obeys fun log _ => ⟨fun _ _ => trivial, fun a response hr => ?_,
      fun _ => trivial⟩)
    exact absurd hr (hout a response)
  cases call with
  | login dto ip => exact hresponse (hlogin dto ip)
  | register ambient dto => exact hresponse (hregister ambient dto)
  | changePassword ambient userId dto => exact hresponse (hchange ambient userId dto)
  | logout user => exact hother (logout_only fun _ => trivial) fun _ _ h => by cases h
  | validate payload => exact hother (validate_only fun _ _ => trivial) fun _ _ h => by cases h
  | pass milliseconds => exact hother ⟨trivial, fun _ => trivial⟩ fun _ _ h => by cases h

/-- What the system promises of its responses. -/
def Responses : TraceSpec Stmt Stmt.Reply Env AuthException Outcome where
  finish past outcome := ∀ response, outcome = .response response → SignedFrom past response

/-- Every response of the system is signed from a row its call has read. -/
theorem program_signs (call : Call) : (deployment.system.program call).Obeys Responses [] :=
  program_responds login_obeys register_obeys changePassword_obeys call

/-- What the system promises of the validation of a token signed from `row`. -/
def Validations (row : User) (jti : Uuid) : TraceSpec Stmt Stmt.Reply Env AuthException Outcome where
  finish past outcome := ∃ user, outcome = .user user ∧ AcceptedBy row jti past user
  fail past _ := RejectedBy row jti past

theorem program_validates (row : User) (jti : Uuid) :
    (deployment.system.program (.validate (row.payload jti))).Obeys (Validations row jti) [] :=
  Prog.Obeys.bind ((validate_obeys row jti).mono (fun _ _ _ => trivial)
    (fun _ user h => ⟨user, rfl, h⟩) fun _ _ h => h)

end Runs

/-! ### Rows read before and after a change -/

theorem VersionReached.changes {u : Uuid} {n : Nat} {q : Stmt} (h : VersionReached u n db)
    (hchange : ChangesPassword u q db) : VersionReached u (n + 1) (db.exec platform env q).2 := by
  obtain ⟨scope, passwordHash, rfl, hsome⟩ := hchange
  obtain ⟨row, hrow, hid, hn⟩ := h
  change VersionReached u (n + 1) (db.updatePassword scope u.1 passwordHash).2
  rcases db.updatePassword_cases scope u.1 passwordHash with hnone | ⟨old, -, hold, hupdate⟩
  · rw [hnone] at hsome
    cases hsome
  · have hmem := Db.mem_setPassword old.id passwordHash hrow
    rw [if_pos (hid.trans (Subtype.ext hold.symm))] at hmem
    rw [hupdate]
    exact ⟨_, hmem, hid, Nat.succ_le_succ hn⟩

/-- The row a change of password has written is what its token is signed from. -/
theorem ChangesPassword.signs {u : Uuid} {i : Issued Db Stmt Env}
    (h : ChangesPassword u i.q i.before) :
    ∃ updated, signs (i.entry platform.engine) = some updated ∧ updated.id = u := by
  obtain ⟨t, q, env, db⟩ := i
  obtain ⟨scope, passwordHash, rfl, hsome⟩ := h
  rcases db.updatePassword_cases scope u.1 passwordHash with hnone | ⟨old, -, hold, hupdate⟩
  · rw [hnone] at hsome
    cases hsome
  · exact ⟨_, congrArg Prod.fst hupdate, Subtype.ext hold⟩

/-- A row read after a change of password has a greater version than one read before. -/
theorem version_lt {s s' : Db} {h₁ h₂ : List (Issued Db Stmt Env)} {read commit : Issued Db Stmt Env}
    {row u : User} {t : Nat} {db : Db} (hl : Linked platform.engine s (h₁ ++ commit :: h₂) s')
    (hread : read ∈ h₁) (hsigns : signs (read.entry platform.engine) = some row)
    (hcommit : ChangesPassword row.id commit.q commit.before)
    (hcheck : ⟨t, .findUserById none row.id.1, env, db⟩ ∈ h₂)
    (hu : (db.exec platform env (.findUserById none row.id.1)).1 = some u) :
    row.tokenVersion < u.tokenVersion := by
  obtain ⟨hbefore, hafter⟩ := hl.around
  obtain ⟨a, b, rfl⟩ := List.append_of_mem hread
  obtain ⟨c, d, rfl⟩ := List.append_of_mem hcheck
  -- The version is reached when the row is read, raised by the commit, and there at the check.
  have hreached : VersionReached row.id row.tokenVersion (read.after platform.engine) :=
    ⟨row, signs_mem hsigns, rfl, Nat.le_refl _⟩
  have hraised : VersionReached row.id (row.tokenVersion + 1) (commit.after platform.engine) :=
    (hreached.linked hbefore.around.2).changes hcommit
  obtain ⟨row', hrow', hid, hversion⟩ := hraised.linked hafter.around.1
  obtain ⟨hmem, huid⟩ := Db.findUser_some hu
  rw [Db.user_unique hmem hrow' ((Subtype.ext (by simpa using huid)).trans hid.symm)]
  exact hversion

/-- Until the next change of the password, the row it has written is there. -/
theorem updated_stays {s s' : Db} {h₁ h₂ : List (Issued Db Stmt Env)} {commit : Issued Db Stmt Env}
    {updated : User} (hl : Linked platform.engine s (h₁ ++ commit :: h₂) s')
    (hsigns : signs (commit.entry platform.engine) = some updated)
    (hquiet : ∀ i ∈ h₂, ¬ ChangesPassword updated.id i.q i.before) {i : Issued Db Stmt Env}
    (hi : i ∈ h₂) : updated ∈ i.before.users.rows := by
  obtain ⟨-, hafter⟩ := hl.around
  obtain ⟨a, b, rfl⟩ := List.append_of_mem hi
  refine hafter.around.1.keeps (I := fun db => updated ∈ db.users.rows) (signs_mem hsigns)
    fun j hj hrow => ?_
  rcases exec_user hrow j.q with hsame | ⟨hchange, -⟩
  · exact hsame
  · exact absurd hchange (hquiet j (List.mem_append_left _ hj))

section Runs

variable {deployment : Deployment} {r : Run}

/-- The token a thread has returned, and the row its own statement has read for it. -/
theorem payload_of_read {init : Db → Prop} (hr : Traced deployment.system init r) {t : Nat}
    {signer : Thread Db Stmt Stmt.Reply Env AuthException Outcome Call}
    (ht : r.world.threads[t]? = some signer) {response : AuthResponse}
    (hresponse : signer.result? = some (.response response)) {read : Issued Db Stmt Env} {row : User}
    (hread : read ∈ r.history) (hthread : read.thread = t)
    (hsigns : signs (read.entry deployment.system.engine) = some row) :
    ∃ jti, response.token.payload = row.payload jti := by
  obtain ⟨row', jti, hrows, hpayload⟩ := hr.finished ht (program_signs signer.call) hresponse _ rfl
  have hmem : row ∈ ((own t r.history).map (Issued.entry deployment.system.engine)).filterMap signs :=
    List.mem_filterMap.mpr ⟨_, List.mem_map_of_mem (mem_own.mpr ⟨hread, hthread⟩), hsigns⟩
  rw [hrows, List.mem_singleton] at hmem
  exact ⟨jti, hmem ▸ hpayload⟩

/-- The call has accepted the token. -/
def Accepts (validator : Thread Db Stmt Stmt.Reply Env AuthException Outcome Call)
    (payload : JwtPayload) : Prop :=
  ∃ user, validator.result? = some (.user user) ∧ payload.sub = some user.userId.1 ∧
    payload.jti = some user.jti

/-- A token signed from a row read before the change is not accepted after it. -/
theorem stale_not_accepted {ok : Run → Action Call Env → Prop}
    (hreach : deployment.machine.ReachableBy ok r) {u : Uuid}
    {h₁ h₂ : List (Issued Db Stmt Env)} {commit : Issued Db Stmt Env}
    (hhistory : r.history = h₁ ++ commit :: h₂) (hcommit : ChangesPassword u commit.q commit.before)
    {t v : Nat} {signer validator : Thread Db Stmt Stmt.Reply Env AuthException Outcome Call}
    (ht : r.world.threads[t]? = some signer) {response : AuthResponse}
    (hresponse : signer.result? = some (.response response))
    (hsub : response.token.payload.sub = some u.1) (hv : r.world.threads[v]? = some validator)
    (hcall : validator.call = .validate response.token.payload)
    (hlater : ∀ i ∈ h₁, i.thread = v → ∀ id, i.q ≠ .findUserById none id)
    (hread : ∃ read ∈ h₁, read.thread = t ∧ (signs (read.entry deployment.system.engine)).isSome) :
    validator.result? = none := by
  have hr := System.traced_of_reachable (program_plain deployment) hreach
  obtain ⟨read, hread, hthread, hsome⟩ := hread
  obtain ⟨row, hsigns⟩ := Option.isSome_iff_exists.mp hsome
  have hmem : read ∈ r.history := hhistory ▸ List.mem_append_left _ hread
  obtain ⟨jti, hpayload⟩ := payload_of_read hr ht hresponse hmem hthread hsigns
  rw [hpayload] at hsub hcall
  obtain rfl : row.id = u := Subtype.ext (Option.some.inj hsub)
  cases hresult : validator.result? with
  | none => rfl
  | some outcome =>
      have hobeys : (deployment.system.program (.validate (row.payload jti))).Obeys _ [] :=
        program_validates row jti
      rw [← hcall] at hobeys
      obtain ⟨user, rfl, env, found, hcheck, -, hversion, -, -⟩ := hr.finished hv hobeys hresult
      obtain ⟨db, hissued, hreply⟩ := logged hcheck
      obtain ⟨s, -, hlinked⟩ := hr.linked
      rw [hhistory] at hissued hlinked
      -- The row was read after the change.
      rcases List.mem_append.mp hissued with hbefore | hafter
      · exact absurd rfl (hlater _ hbefore rfl _)
      · rcases List.mem_cons.mp hafter with rfl | hafter
        · obtain ⟨_, _, hq, -⟩ := hcommit
          cases hq
        · exact absurd hversion (Nat.ne_of_gt (version_lt hlinked hread hsigns hcommit hafter hreply))

/-- A validation that nothing aborts fails for the token only. -/
theorem program_validate_raises (payload : JwtPayload) :
    (deployment.system.program (.validate payload)).Raises (· ≠ deployment.system.aborted) := by
  refine Prog.Raises.bind (p := validate payload) ?_ fun _ => trivial
  unfold validate
  split
  · intro blacklisted
    cases blacklisted with
    | true => simp [Prog.Raises, unauthorized, Deployment.system]
    | false =>
        intro user
        cases user with
        | none => simp [Prog.Raises, unauthorized, Deployment.system]
        | some user =>
            simp only [Prog.ret_bind]
            split <;> simp [Prog.Raises, unauthorized, Deployment.system]
  · simp [Prog.Raises, unauthorized, Deployment.system]

/-- The token of a change is accepted until the next one. -/
theorem renewed_accepted {ok : Run → Action Call Env → Prop}
    (hreach : deployment.machine.ReachableBy ok r) {u : Uuid}
    {h₁ h₂ : List (Issued Db Stmt Env)} {commit : Issued Db Stmt Env}
    (hhistory : r.history = h₁ ++ commit :: h₂) (hcommit : ChangesPassword u commit.q commit.before)
    {v : Nat} {signer validator : Thread Db Stmt Stmt.Reply Env AuthException Outcome Call}
    (ht : r.world.threads[commit.thread]? = some signer) {response : AuthResponse}
    (hresponse : signer.result? = some (.response response)) (hv : r.world.threads[v]? = some validator)
    (hcall : validator.call = .validate response.token.payload)
    (hlater : ∀ i ∈ h₁, i.thread = v → ∀ id, i.q ≠ .findUserById none id)
    (hquiet : ∀ i ∈ h₂, ¬ ChangesPassword u i.q i.before)
    (hlisted : ∀ jti, response.token.payload.jti = some jti → ∀ i ∈ r.history, i.thread = v →
      ¬ i.before.redis.Live (tokenBlacklistKey jti))
    (hok : ∀ r, ¬ ok r (.abort v)) (hended : validator.Ended) :
    Accepts validator response.token.payload := by
  have hr := System.traced_of_reachable (program_plain deployment) hreach
  obtain ⟨updated, hsigns, rfl⟩ := hcommit.signs
  obtain ⟨jti, hpayload⟩ := payload_of_read hr ht hresponse
    (hhistory ▸ List.mem_append_right _ List.mem_cons_self) rfl hsigns
  rw [hpayload] at hcall hlisted ⊢
  have hobeys : (deployment.system.program (.validate (updated.payload jti))).Obeys _ [] :=
    program_validates updated jti
  rw [← hcall] at hobeys
  obtain ⟨s, -, hlinked⟩ := hr.linked
  rw [hhistory] at hlinked
  rcases hended with hreturned | ⟨e, hthrown⟩
  · obtain ⟨outcome, hresult⟩ := Option.isSome_iff_exists.mp hreturned
    obtain ⟨user, rfl, env, found, hcheck, -, -, huser, hjti⟩ := hr.finished hv hobeys hresult
    obtain ⟨db, -, hreply⟩ := logged hcheck
    obtain ⟨-, hid⟩ := Db.findUser_some hreply
    refine ⟨user, hresult, ?_, congrArg some hjti.symm⟩
    rw [huser]
    exact congrArg some (by simpa [eq_comm] using hid)
  · exfalso
    rcases hr.failed hv hobeys hthrown with rfl | ⟨env, hblacklisted⟩ | ⟨env, reply, hcheck, hversion⟩
    · have hraises := System.raises_of_reachable hreach hok validator hv
        (hcall ▸ program_validate_raises _)
      rw [hthrown] at hraises
      exact hraises rfl
    · obtain ⟨db, hissued, hreply⟩ := logged hblacklisted
      exact hlisted jti.1 rfl _ hissued rfl hreply
    · obtain ⟨db, hissued, hreply⟩ := logged hcheck
      rw [hhistory] at hissued
      rcases List.mem_append.mp hissued with hbefore | hafter
      · exact hlater _ hbefore rfl _ rfl
      · rcases List.mem_cons.mp hafter with rfl | hafter
        · cases hsigns
        · have hthere := updated_stays hlinked hsigns hquiet hafter
          exact hversion updated (hreply.symm.trans (Db.findUser_of_mem hthere)) rfl

/-- **Revocation**: after a change of password has committed, no token for the user signed
from a row read before it is accepted; the token the change returns is, until the next
one, unless its `jti` is blacklisted or the call that validates it is aborted. -/
theorem password_change_revokes_tokens {deployment : Deployment} {r : Run}
    {ok : Run → Action Call Env → Prop} (hreach : deployment.machine.ReachableBy ok r) {u : Uuid}
    {h₁ h₂ : List (Issued Db Stmt Env)} {commit : Issued Db Stmt Env}
    (hhistory : r.history = h₁ ++ commit :: h₂)
    (hcommit : ChangesPassword u commit.q commit.before) {t v : Nat}
    {signer validator : Thread Db Stmt Stmt.Reply Env AuthException Outcome Call}
    (ht : r.world.threads[t]? = some signer) {response : AuthResponse}
    (hresponse : signer.result? = some (.response response))
    (hsub : response.token.payload.sub = some u.1) (hv : r.world.threads[v]? = some validator)
    (hcall : validator.call = .validate response.token.payload)
    (hlater : ∀ i ∈ h₁, i.thread = v → ∀ id, i.q ≠ .findUserById none id) :
    ((∃ read ∈ h₁, read.thread = t ∧ (signs (read.entry deployment.system.engine)).isSome) →
        validator.result? = none) ∧
      (t = commit.thread → (∀ i ∈ h₂, ¬ ChangesPassword u i.q i.before) →
        (∀ jti, response.token.payload.jti = some jti → ∀ i ∈ r.history, i.thread = v →
          ¬ i.before.redis.Live (tokenBlacklistKey jti)) →
        (∀ r, ¬ ok r (.abort v)) → validator.Ended → Accepts validator response.token.payload) := by
  constructor
  · exact stale_not_accepted hreach hhistory hcommit ht hresponse hsub hv hcall hlater
  · rintro rfl hquiet hlisted hok hended
    exact renewed_accepted hreach hhistory hcommit ht hresponse hv hcall hlater hquiet hlisted hok
      hended

/-! ### A login, a change of password, and both tokens -/

/-- `bcrypt` that stores passwords as they are, and Redis that rounds to the nearest second. -/
def plainPlatform : Platform where
  compare password passwordHash := password == passwordHash
  hash _ password := password
  ttlSeconds milliseconds := (milliseconds + 500) / 1000
  collate := lowerCase

def sevenDays : Deployment := { platform := plainPlatform, ms := fun _ => some 604800000 }

def member : User :=
  { id := ⟨"m1", by decide⟩, tenantId := some "t1", username := "member", passwordHash := "old" }

def oneMember : Db where
  redis := { now := 0, entries := fun _ => none }
  tenants := [⟨"t1", "default"⟩]
  users := ⟨[member], by decide⟩

def oldToken : JwtPayload := member.payload ⟨"j1", by decide⟩

def newToken : JwtPayload := (member.withPassword "new").payload ⟨"j2", by decide⟩

def changeAndValidate : List (Action Call Env) :=
  (.spawn (.login { username := "member", password := "old" } "10.0.0.1") ::
      List.replicate 13 (.run 0 { uuid := ⟨"j1", by decide⟩ })) ++
    (.spawn (.changePassword ⟨true, none⟩ "m1" ⟨"old", "new"⟩) ::
      List.replicate 6 (.run 1 { uuid := ⟨"j2", by decide⟩ })) ++
    [.spawn (.validate oldToken), .run 2 {}, .run 2 {}, .spawn (.validate newToken), .run 3 {}, .run 3 {}]

theorem changeAndValidate_runs :
    (sevenDays.machine.exec { world := { committed := oneMember } } changeAndValidate).isSome := by
  decide +kernel

def changed : Run := (sevenDays.machine.exec _ changeAndValidate).get changeAndValidate_runs

/-- Nothing is aborted. -/
def Undisturbed (_ : Run) : Action Call Env → Prop
  | .abort _ => False
  | _ => True

theorem changed_reachable : sevenDays.machine.ReachableBy Undisturbed changed := by
  refine Machine.reachableBy_exec_get (by exact ⟨⟨trivial, rfl⟩, rfl⟩) ?_ _
  refine Machine.admits_of_forall fun a ha s => ?_
  cases a with
  | spawn _ | run _ _ => trivial
  | abort t => simp [changeAndValidate] at ha

theorem changed_threads : changed.world.threads.length = 4 := by decide +kernel

theorem changed_history : 16 < changed.history.length := by decide +kernel

def changedThread (t : Fin 4) : Thread Db Stmt Stmt.Reply Env AuthException Outcome Call :=
  changed.world.threads.get (t.cast changed_threads.symm)

theorem changedThread_get (t : Fin 4) : changed.world.threads[t.1]? = some (changedThread t) :=
  List.getElem?_eq_getElem _

def changedCommit : Issued Db Stmt Env := changed.history.get ⟨16, changed_history⟩

theorem old_rejected_new_accepted :
    (changedThread 2).result? = none ∧ Accepts (changedThread 3) newToken := by
  have hhistory : changed.history = changed.history.take 16 ++ changedCommit ::
      changed.history.drop 17 :=
    (List.take_append_drop 16 _).symm.trans (congrArg _ (List.drop_eq_getElem_cons changed_history))
  have hcommit : ChangesPassword member.id changedCommit.q changedCommit.before :=
    ⟨none, "new", by decide +kernel, by decide +kernel⟩
  have hlater : ∀ v : Fin 4, 2 ≤ v.1 → ∀ i ∈ changed.history.take 16, i.thread ≠ v.1 := by
    decide +kernel
  have hquiet : ∀ i ∈ changed.history.drop 17, i.q ∈ [.randomUUID, .now, .findUserById none "m1",
      .redis (.exists (tokenBlacklistKey "j1")), .redis (.exists (tokenBlacklistKey "j2"))] := by
    decide +kernel
  have hlisted : ∀ i ∈ changed.history, ¬ i.before.redis.Live (tokenBlacklistKey "j2") := by
    decide +kernel
  have hold : (changedThread 0).result? =
      some (Outcome.response ⟨⟨oldToken, 0, 604800⟩, ⟨member.id, "member", .STAFF⟩⟩) := by
    decide +kernel
  have hnew : (changedThread 1).result? =
      some (Outcome.response ⟨⟨newToken, 0, 604800⟩, ⟨member.id, "member", .STAFF⟩⟩) := by
    decide +kernel
  constructor
  · exact (password_change_revokes_tokens changed_reachable hhistory hcommit (changedThread_get 0)
      hold rfl
      (changedThread_get 2) (by decide +kernel)
      (fun i hi hv => absurd hv (hlater 2 (by decide) i hi))).1 (by decide +kernel)
  · refine (password_change_revokes_tokens changed_reachable hhistory hcommit (changedThread_get 1)
      hnew rfl
      (changedThread_get 3) (by decide +kernel)
      (fun i hi hv => absurd hv (hlater 3 (by decide) i hi))).2 (by decide +kernel) ?_ ?_
      (fun _ h => h) (Or.inl (by decide +kernel))
    · rintro i hi ⟨scope, passwordHash, hq, -⟩
      have hmem := hquiet i hi
      rw [hq] at hmem
      simp at hmem
    · rintro jti hjti i hi -
      cases hjti
      exact hlisted i hi

end Runs

end MibServer.Auth
