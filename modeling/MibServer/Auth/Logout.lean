import MibServer.Auth.LoginGuard
import MibServer.Auth.Revocation
import MibServer.Auth.TokenLifetime

/-!
Logout: how long a token is kept on the blacklist.

A token expires `getJwtExpiresIn` after it was signed, and its blacklist entry is gone
`getJwtExpiresInSeconds` after the logout. Only a logout of the same token writes that entry
again, and the clock does not go back, so the entry is there as long as the token where the
first of the two is not longer than the second; where it is, a token that was logged out is
accepted once the entry has expired.
-/

namespace MibServer.Auth

open MibServer.Lib MibServer.Redis

/-- `jsonwebtoken` rejects a token from the second of its `exp` on. -/
def Token.Expired (token : Token) (now : Nat) : Prop := token.exp ≤ (now / 1000 : Nat)

instance (token : Token) (now : Nat) : Decidable (token.Expired now) :=
  inferInstanceAs (Decidable (_ ≤ _))

/-- After the logout of a token that was signed before it, no call accepts the token that
reads the blacklist while it has not expired. -/
def Deployment.LogoutRevokes (deployment : Deployment) : Prop :=
  ∀ (r : Run), deployment.machine.Reachable r →
  ∀ (t v : Nat) (signer leaver validator : Thread Db Stmt Stmt.Reply Env AuthException Outcome Call)
    (h₁ h₂ : List (Issued Db Stmt Env)) (logout : Issued Db Stmt Env) (response : AuthResponse)
    (user : AuthUser),
    r.history = h₁ ++ logout :: h₂ →
    r.world.threads[logout.thread]? = some leaver → leaver.call = .logout user →
    response.token.payload.jti = some user.jti →
    r.world.threads[t]? = some signer → signer.result? = some (.response response) →
    (∀ i ∈ h₂, i.thread ≠ t) →
    r.world.threads[v]? = some validator → validator.call = .validate response.token.payload →
    (∀ i ∈ h₁, i.thread ≠ v) →
    (∀ i ∈ h₂, i.thread = v → i.q = .redis (.exists (tokenBlacklistKey user.jti)) →
      ¬ response.token.Expired i.before.redis.now) →
    validator.result? = none

/-! ### The entry of the blacklist -/

/-- The time to live a logout gives its entry; without one it stays. -/
def blacklistTtl (config : EnvConfig) : Option Nat :=
  if 0 < getJwtExpiresInSeconds config.JWT_EXPIRES_IN then
    some (getJwtExpiresInSeconds config.JWT_EXPIRES_IN)
  else none

/-- The entry was set at `since` or later. -/
structure Listed (config : EnvConfig) (jti : String) (since : Nat) (db : Db) : Prop where
  clock : since ≤ db.redis.now
  entry : ∃ v, db.redis.entries (tokenBlacklistKey jti) = some v ∧
    v.expiresAt.all (since + 1000 * getJwtExpiresInSeconds config.JWT_EXPIRES_IN ≤ ·)

section Programs

variable {config : EnvConfig} {ms : String → Option ℚ}

theorem tokenBlacklistKey_inj {jti jti' : String} (h : tokenBlacklistKey jti = tokenBlacklistKey jti') :
    jti = jti' :=
  (String.append_right_inj _).mp h

/-- What writes an entry of the blacklist is the `SET` of a logout. -/
def Lists (config : EnvConfig) (q : Stmt) : Prop :=
  ∀ jti, tokenBlacklistKey jti ∈ q.writes →
    q = .redis (.set (tokenBlacklistKey jti) 1 (blacklistTtl config))

theorem lists_of_keyWrite {call : Call} {q : Stmt} (hcall : ∀ user, call ≠ .logout user)
    (h : call.Writes config q ∨ q.Reads) : Lists config q := by
  intro jti hkey
  have hwrite := keyWrite_of_mem h hkey
  generalize heq : tokenBlacklistKey jti = key at hwrite
  cases hwrite with
  | count scope subject | countExpiry scope subject =>
      exact absurd heq.symm (rateLimitKey_ne_tokenBlacklistKey scope subject jti)
  | strike dto ip | strikeExpiry dto ip =>
      exact absurd heq.symm (strikesKey_ne_tokenBlacklistKey dto.username jti)
  | lock dto ip => exact absurd heq.symm (lockKey_ne_tokenBlacklistKey dto.username jti)
  | clear dto ip hclear =>
      rcases hclear with rfl | rfl
      · exact absurd heq.symm (strikesKey_ne_tokenBlacklistKey dto.username jti)
      · exact absurd heq.symm (lockKey_ne_tokenBlacklistKey dto.username jti)
  | blacklist user ttl => exact absurd rfl (hcall user)

theorem logout_lists (jti : String) :
    (logout config jti).Only (· = .redis (.set (tokenBlacklistKey jti) 1 (blacklistTtl config))) := by
  constructor
  · rfl
  · intro _
    trivial

/-- The call has read the clock, and the token of its response expires as `expiresIn` says
from then on. -/
def DatedBy (config : EnvConfig) (ms : String → Option ℚ) (past : List (Entry Stmt Stmt.Reply Env))
    (response : AuthResponse) : Prop :=
  ∃ env now lifetime, ⟨.now, env, now⟩ ∈ past ∧
    tokenLifetime ms (getJwtExpiresIn config.JWT_EXPIRES_IN) = some lifetime ∧
    response.token.exp = (now / 1000 : Nat) + lifetime

def Dating (config : EnvConfig) (ms : String → Option ℚ) :
    TraceSpec Stmt Stmt.Reply Env AuthException AuthResponse where
  finish := DatedBy config ms

/-- A piece of a call before its response is built. -/
theorem obeys_undated {α : Type} {p : AuthProg α} {f : α → AuthProg AuthResponse}
    {past : List (Entry Stmt Stmt.Reply Env)} (hp : p.Only fun _ => True)
    (hf : ∀ a past, (f a).Obeys (Dating config ms) past) : (p.bind f).Obeys (Dating config ms) past := by
  refine Prog.Obeys.bind (hp.obeys fun log _ => ⟨fun _ _ => trivial, fun a => ?_, fun _ => trivial⟩)
  exact hf a (past ++ log)

theorem buildAuthResponse_dated (user : User) (past : List (Entry Stmt Stmt.Reply Env)) :
    (buildAuthResponse config ms user).Obeys (Dating config ms) past := by
  refine obeys_undated (only_query trivial fun _ => trivial) fun jti past => Prog.Obeys.bind ?_
  refine obeys_query trivial fun env now => ?_
  split
  · rename_i lifetime hlifetime
    exact ⟨env, now, lifetime, List.mem_append_right _ (List.mem_singleton_self _), hlifetime, rfl⟩
  · trivial

theorem login_dated (dto : LoginDto) (ip : String) :
    (login config ms dto ip).Obeys (Dating config ms) [] := by
  refine obeys_undated (assertCanAttemptLogin_only (fun _ _ => trivial) trivial fun _ _ => trivial)
    fun _ past => ?_
  refine obeys_undated (resolveTenantByCode_only trivial) fun tenant past => ?_
  refine obeys_query trivial fun env user => ?_
  have hfailure : (recordLoginFailure config ip dto.username).Only fun _ => True :=
    recordLoginFailure_only (fun _ _ => trivial) fun _ _ => trivial
  cases user with
  | none => exact obeys_undated hfailure fun _ _ => trivial
  | some user =>
      refine obeys_query trivial fun env' isPwdOk => ?_
      cases isPwdOk with
      | true =>
          exact obeys_undated (clearLoginFailures_only trivial) fun _ past =>
            buildAuthResponse_dated user past
      | false =>
          refine obeys_undated hfailure fun lock past => ?_
          split
          · trivial
          · trivial

theorem register_dated (ambient : Tenancy.Ambient) (dto : RegisterDto) :
    (register config ms ambient dto).Obeys (Dating config ms) [] := by
  unfold register
  split
  · trivial
  · refine obeys_query trivial fun _ exists? => ?_
    cases exists? with
    | some _ => trivial
    | none =>
        refine obeys_query trivial fun _ passwordHash => ?_
        refine obeys_query trivial fun _ created => ?_
        cases created with
        | none => trivial
        | some user => exact buildAuthResponse_dated user _

theorem changePassword_dated (ambient : Tenancy.Ambient) (userId : String) (dto : ChangePasswordDto) :
    (changePassword config ms ambient userId dto).Obeys (Dating config ms) [] := by
  refine obeys_query trivial fun _ user => ?_
  cases user with
  | none => trivial
  | some user =>
      refine obeys_query trivial fun _ ok => ?_
      cases ok with
      | false => trivial
      | true =>
          refine obeys_query trivial fun _ passwordHash => ?_
          refine obeys_query trivial fun _ updated => ?_
          cases updated with
          | none => trivial
          | some updated => exact buildAuthResponse_dated updated _

/-- The call has not found the token on the blacklist. -/
def Unlisted (jti : String) (past : List (Entry Stmt Stmt.Reply Env)) : Prop :=
  ∃ env, ⟨.redis (.exists (tokenBlacklistKey jti)), env, false⟩ ∈ past

theorem validate_unlisted (row : User) (jti : Uuid) :
    (validate (row.payload jti)).Obeys { finish := fun past _ => Unlisted jti.1 past } [] := by
  unfold validate User.payload
  simp only [truthy_uuid]
  refine obeys_query trivial fun env blacklisted => ?_
  cases blacklisted with
  | true => trivial
  | false =>
      refine obeys_query trivial fun env' user => ?_
      cases user with
      | none => trivial
      | some user =>
          dsimp only
          split
          · exact ⟨env, List.mem_append_left _ (List.mem_singleton_self _)⟩
          · trivial

end Programs

section Runs

variable {deployment : Deployment}

/-- What the system promises of the tokens it returns. -/
def DatedResponses (deployment : Deployment) : TraceSpec Stmt Stmt.Reply Env AuthException Outcome where
  finish past outcome := ∀ response, outcome = .response response →
    DatedBy deployment.config deployment.ms past response

theorem program_dated (call : Call) :
    (deployment.system.program call).Obeys (DatedResponses deployment) [] :=
  program_responds login_dated register_dated changePassword_dated call

theorem program_unlisted (row : User) (jti : Uuid) :
    (deployment.system.program (.validate (row.payload jti))).Obeys
      { finish := fun past _ => Unlisted jti.1 past } [] :=
  Prog.Obeys.bind ((validate_unlisted row jti).mono (fun _ _ _ => trivial) (fun _ _ h => h) fun _ _ h => h)

theorem program_lists (call : Call) : (deployment.system.program call).Only (Lists deployment.config) := by
  by_cases hcall : ∀ user, call ≠ .logout user
  · exact (program_only deployment call).mono fun q hq => lists_of_keyWrite hcall hq
  · obtain ⟨user, hcall⟩ := not_forall.mp hcall
    obtain rfl := not_not.mp hcall
    refine Prog.Only.bind ((logout_lists user.jti).mono ?_) fun _ => trivial
    rintro q rfl jti hkey
    obtain rfl := tokenBlacklistKey_inj (List.mem_singleton.mp hkey)
    rfl

/-- The `SET` of a logout leaves its entry. -/
theorem listed_set {config : EnvConfig} {platform : Platform} {db : Db} {e : Env} {jti : String}
    {since : Nat} (h : since ≤ db.redis.now) :
    Listed config jti since
      (db.exec platform e (.redis (.set (tokenBlacklistKey jti) 1 (blacklistTtl config)))).2 := by
  constructor
  · exact h
  · refine ⟨_, Keyspace.entries_put_self .., ?_⟩
    unfold blacklistTtl
    split
    · simpa [Keyspace.lasting] using h
    · rfl

theorem Listed.exec {config : EnvConfig} {platform : Platform} {db : Db} {env : Env} {jti : String}
    {since : Nat} {q : Stmt} (h : Listed config jti since db) (hq : Lists config q) :
    Listed config jti since (db.exec platform env q).2 := by
  by_cases hkey : tokenBlacklistKey jti ∈ q.writes
  · rw [hq jti hkey]
    exact listed_set h.clock
  · constructor
    · exact h.clock.trans (exec_redis_now q)
    · rw [exec_redis_entries hkey]
      exact h.entry

/-- An entry that has gone was set a whole lifetime ago. -/
theorem Listed.of_not_live {config : EnvConfig} {db : Db} {jti : String} {since : Nat}
    (h : Listed config jti since db) (hgone : (db.redis.get? (tokenBlacklistKey jti)).isSome = false) :
    since + 1000 * getJwtExpiresInSeconds config.JWT_EXPIRES_IN ≤ db.redis.now := by
  obtain ⟨⟨value, expiresAt⟩, hentry, hall⟩ := h.entry
  rw [Keyspace.get?, hentry] at hgone
  cases expiresAt with
  | none => cases hgone
  | some e =>
      have hlater : since + 1000 * getJwtExpiresInSeconds config.JWT_EXPIRES_IN ≤ e := by simpa using hall
      have hpast : e ≤ db.redis.now := by
        simpa [Option.filter, Stored.live] using hgone
      exact hlater.trans hpast

theorem clock_linked {platform : Platform} {n : Nat} {db db' : Db} {h : List (Issued Db Stmt Env)}
    (hl : Linked platform.engine db h db') (hn : n ≤ db.redis.now) : n ≤ db'.redis.now :=
  hl.keeps (I := fun db => n ≤ db.redis.now) hn fun i _ hi => hi.trans (exec_redis_now i.q)

section History

variable {r : Run} {init : Db → Prop} {h₁ h₂ : List (Issued Db Stmt Env)} {commit : Issued Db Stmt Env}

/-- A logout issues the one `SET`. -/
theorem logout_issues (hr : Traced deployment.system init r) (hcommit : commit ∈ r.history)
    {leaver : Thread Db Stmt Stmt.Reply Env AuthException Outcome Call} {user : AuthUser}
    (hleaver : r.world.threads[commit.thread]? = some leaver) (hlogout : leaver.call = .logout user) :
    commit.q = .redis (.set (tokenBlacklistKey user.jti) 1 (blacklistTtl deployment.config)) := by
  refine hr.only hcommit hleaver
    (P := (· = .redis (.set (tokenBlacklistKey user.jti) 1 (blacklistTtl deployment.config)))) ?_
  rw [hlogout]
  exact (logout_lists user.jti).bind fun _ => trivial

/-- From the `SET` of a logout on the entry is there. -/
theorem listed_after_logout (hr : Traced deployment.system init r)
    (hhistory : r.history = h₁ ++ commit :: h₂)
    {leaver : Thread Db Stmt Stmt.Reply Env AuthException Outcome Call} {user : AuthUser}
    (hleaver : r.world.threads[commit.thread]? = some leaver) (hlogout : leaver.call = .logout user)
    {i : Issued Db Stmt Env} (hi : i ∈ h₂) :
    Listed deployment.config user.jti commit.before.redis.now i.before := by
  have hmem : ∀ j ∈ commit :: h₂, j ∈ r.history := by
    intro j hj
    rw [hhistory]
    exact List.mem_append_right _ hj
  have hset := logout_issues hr (hmem _ List.mem_cons_self) hleaver hlogout
  have hlists : ∀ j ∈ commit :: h₂, Lists deployment.config j.q := by
    intro j hj
    have hthread := List.getElem?_eq_getElem (hr.issuers j (hmem j hj))
    exact hr.only (hmem j hj) hthread (program_lists _)
  obtain ⟨s, -, hlinked⟩ := hr.linked
  rw [hhistory] at hlinked
  obtain ⟨a, b, rfl⟩ := List.append_of_mem hi
  refine hlinked.around.2.around.1.keeps
    (I := Listed deployment.config user.jti commit.before.redis.now) ?_ fun j hj hlisted => ?_
  · rw [Issued.after, hset]
    exact listed_set (e := commit.env) (Nat.le_refl _)
  · exact hlisted.exec (hlists j (List.mem_cons_of_mem _ (List.mem_append_left _ hj)))

/-- What a thread has read from the clock before a statement is not later than it. -/
theorem clock_read_before (hr : Traced deployment.system init r)
    (hhistory : r.history = h₁ ++ commit :: h₂) {t : Nat} (hbefore : ∀ i ∈ h₂, i.thread ≠ t)
    (hcommit : commit.q ≠ .now) {env : Env} {now : Nat}
    (hread : ⟨.now, env, now⟩ ∈ (own t r.history).map (Issued.entry deployment.system.engine)) :
    now ≤ commit.before.redis.now := by
  obtain ⟨db, hissued, hreply⟩ := logged hread
  obtain rfl : db.redis.now = now := hreply
  obtain ⟨s, -, hlinked⟩ := hr.linked
  rw [hhistory] at hissued hlinked
  rcases List.mem_append.mp hissued with hfirst | hrest
  · obtain ⟨a, b, rfl⟩ := List.append_of_mem hfirst
    exact clock_linked hlinked.around.1.around.2 (Nat.le_refl _)
  · rcases List.mem_cons.mp hrest with rfl | hlast
    · exact absurd rfl hcommit
    · exact absurd rfl (hbefore _ hlast)

end History

/-- **Logout revokes** where no token lives longer than the entry of the blacklist. -/
theorem logoutRevokes_of_le (hle : ∀ lifetime,
      tokenLifetime deployment.ms (getJwtExpiresIn deployment.config.JWT_EXPIRES_IN) = some lifetime →
        lifetime ≤ 0 ∨ lifetime ≤ getJwtExpiresInSeconds deployment.config.JWT_EXPIRES_IN) :
    deployment.LogoutRevokes := by
  intro r hreach t v signer leaver validator h₁ h₂ commit response user hhistory hleaver hlogout hjti
    ht hresponse hsigned hv hcall hlater hunexpired
  have hr := System.traced_of_reachable (program_plain deployment) hreach
  obtain ⟨row, jti, -, hpayload⟩ := hr.finished ht (program_signs signer.call) hresponse _ rfl
  obtain ⟨env, now, lifetime, hclock, hlifetime, hexp⟩ :=
    hr.finished ht (program_dated signer.call) hresponse _ rfl
  rw [hpayload] at hjti hcall
  have huser : jti.1 = user.jti := Option.some.inj hjti
  have hcommit : commit ∈ r.history := hhistory ▸ List.mem_append_right _ List.mem_cons_self
  have hset := logout_issues hr hcommit hleaver hlogout
  have hnow : now ≤ commit.before.redis.now := clock_read_before hr hhistory hsigned (by simp [hset]) hclock
  cases hresult : validator.result? with
  | none => rfl
  | some outcome =>
      have hobeys : (deployment.system.program (.validate (row.payload jti))).Obeys _ [] :=
        program_unlisted row jti
      rw [← hcall] at hobeys
      obtain ⟨env', hcheck⟩ := hr.finished hv hobeys hresult
      obtain ⟨db, hissued, hreply⟩ := logged hcheck
      -- The blacklist was read after the logout.
      have hread : ⟨v, .redis (.exists (tokenBlacklistKey jti.1)), env', db⟩ ∈ h₂ := by
        rw [hhistory] at hissued
        rcases List.mem_append.mp hissued with hfirst | hrest
        · exact absurd rfl (hlater _ hfirst)
        · rcases List.mem_cons.mp hrest with rfl | hlast
          · cases hset
          · exact hlast
      have hunexp := hunexpired _ hread rfl (by rw [huser])
      have hlisted := listed_after_logout hr hhistory hleaver hlogout hread
      have hgone := hlisted.of_not_live (huser ▸ hreply)
      refine absurd ?_ hunexp
      rw [Token.Expired, hexp]
      rcases hle lifetime hlifetime with hnonpos | hle
      · omega
      · omega

end Runs

/-! ### A token that outlives its entry -/

section Outlived

variable {config : EnvConfig} {platform : Platform} {ms : String → Option ℚ} {lifetime : Int}

def ofTenant : Tenancy.Ambient where
  isTenantBypass := true
  getAccessContext := some { tenantIds := ["t1"], activeTenantId := none, dataScope := .organization }

def registration : RegisterDto := { username := "a", password := "p" }

def registered (platform : Platform) : User :=
  { id := someUuid, tenantId := some "t1", username := "a", passwordHash := platform.hash "" "p" }

def registeredUser : AuthUser :=
  { userId := someUuid, username := "a", role := .STAFF, jti := someUuid.1 }

def registeredResponse (platform : Platform) (lifetime : Int) : AuthResponse where
  token :=
    { payload := (registered platform).payload someUuid, iat := 0, exp := (0 / 1000 : Nat) + lifetime }
  user := ⟨someUuid, "a", .STAFF⟩

def noUsers : Db where
  redis := { now := 0, entries := fun _ => none }
  tenants := []
  users := ∅

def withUser (platform : Platform) : Db := (noUsers.createUser platform (registered platform)).2

def loggedOut (platform : Platform) : Db :=
  { withUser platform with
    redis := noUsers.redis.put (tokenBlacklistKey someUuid.1)
      (some (noUsers.redis.lasting 1 (some 604800))) }

def weekLater (platform : Platform) : Db :=
  { loggedOut platform with
    redis := { (loggedOut platform).redis with now := (loggedOut platform).redis.now + 604800000 } }

theorem registered_mem : registered platform ∈ (weekLater platform).users.rows :=
  List.mem_singleton_self _

def logoutThenWait : List (Action Call Env) :=
  .spawn (.register ofTenant registration) :: List.replicate 5 (.run 0 {}) ++
    [.spawn (.logout registeredUser), .run 1 {}, .spawn (.pass 604800000), .run 2 {}]

/-- The user has logged out, and seven days have passed. -/
def waited (platform : Platform) (lifetime : Int) : Run where
  world :=
    { committed := weekLater platform
      threads :=
        [⟨.register ofTenant registration, .ret (.response (registeredResponse platform lifetime)), none⟩,
          ⟨.logout registeredUser, .ret .done, none⟩, ⟨.pass 604800000, .ret .done, none⟩] }
  history :=
    [⟨0, .findUserByAccount none "t1" "a", {}, noUsers⟩, ⟨0, .hash "p", {}, noUsers⟩,
      ⟨0, .createUser "t1" "a" (platform.hash "" "p") .STAFF, {}, noUsers⟩,
      ⟨0, .randomUUID, {}, withUser platform⟩, ⟨0, .now, {}, withUser platform⟩,
      ⟨1, .redis (.set (tokenBlacklistKey someUuid.1) 1 (some 604800)), {}, withUser platform⟩,
      ⟨2, .pass 604800000, {}, loggedOut platform⟩]

/-- The token has been accepted once more. -/
def acceptedAgain (platform : Platform) (lifetime : Int) : Run where
  world :=
    { committed := weekLater platform
      threads := (waited platform lifetime).world.threads ++
        [⟨.validate ((registered platform).payload someUuid), .ret (.user registeredUser), none⟩] }
  history := (waited platform lifetime).history ++
    [⟨3, .redis (.exists (tokenBlacklistKey someUuid.1)), {}, weekLater platform⟩,
      ⟨3, .findUserById none someUuid.1, {}, weekLater platform⟩]

theorem register_eq
    (h : tokenLifetime ms (getJwtExpiresIn config.JWT_EXPIRES_IN) = some lifetime) :
    register config ms ofTenant registration =
      (query (.findUserByAccount none "t1" "a")).bind fun
        | some _ => .throw (.http (.conflict "用户名已存在"))
        | none => (query (.hash "p")).bind fun passwordHash =>
            (query (.createUser "t1" "a" passwordHash .STAFF)).bind fun
              | some user => (query .randomUUID).bind fun jti => (query .now).bind fun now =>
                  .ret ⟨⟨user.payload jti, now / 1000, (now / 1000 : Nat) + lifetime⟩,
                    ⟨user.id, user.username, user.role⟩⟩
              | none => .throw (.http .internal) := by
  have hbuild : ∀ user, buildAuthResponse config ms user =
      (query .randomUUID).bind fun jti => (query .now).bind fun now =>
        .ret ⟨⟨user.payload jti, now / 1000, (now / 1000 : Nat) + lifetime⟩,
          ⟨user.id, user.username, user.role⟩⟩ := by
    intro user
    simp only [buildAuthResponse, sign, h]
    rfl
  have htenant : truthy (Tenancy.resolveTenantIdForWrite ofTenant) = some "t1" := by decide
  simp only [register, hbuild, htenant]
  refine congrArg (Prog.bind _) (funext fun exists? => ?_)
  cases exists? with
  | some _ => rfl
  | none =>
      refine congrArg (Prog.bind _) (funext fun passwordHash =>
        congrArg (Prog.bind _) (funext fun created => ?_))
      cases created with
      | none => rfl
      | some user => rfl

theorem logout_eq (h : getJwtExpiresInSeconds config.JWT_EXPIRES_IN = 604800) (jti : String) :
    logout config jti = query (.redis (.set (tokenBlacklistKey jti) 1 (some 604800))) := by
  simp only [logout, h]
  rfl

theorem validate_eq (user : User) (jti : Uuid) :
    validate (user.payload jti) =
      (query (.redis (.exists (tokenBlacklistKey jti.1)))).bind fun blacklisted =>
        if blacklisted then unauthorized "令牌已失效"
        else (query (.findUserById none user.id.1)).bind fun
          | some found =>
              if found.tokenVersion = user.tokenVersion then
                .ret { userId := found.id, username := found.username, role := found.role, jti := jti.1 }
              else unauthorized "令牌已失效，请重新登录"
          | none => unauthorized "令牌已失效，请重新登录" := by
  simp only [validate, User.payload, truthy_uuid]
  refine congrArg (Prog.bind _) (funext fun blacklisted => ?_)
  cases blacklisted with
  | true => rfl
  | false =>
      refine congrArg (Prog.bind _) (funext fun found => ?_)
      cases found with
      | none => rfl
      | some found => rfl

/-- Seven days after the logout the entry has expired. -/
theorem weekLater_exists (platform : Platform) : (weekLater platform).exec platform {}
    (.redis (.exists (tokenBlacklistKey someUuid.1))) = (false, weekLater platform) := by
  have hget : (weekLater platform).redis.get? (tokenBlacklistKey someUuid.1) = none := by
    simp [Keyspace.get?, Keyspace.lasting, weekLater, loggedOut, Stored.live, noUsers]
  simp [Db.exec, Keyspace.exec, hget]

section Runs

variable {deployment : Deployment}

theorem logoutThenWait_runs
    (hlifetime : tokenLifetime deployment.ms (getJwtExpiresIn deployment.config.JWT_EXPIRES_IN) =
      some lifetime)
    (hseconds : getJwtExpiresInSeconds deployment.config.JWT_EXPIRES_IN = 604800) :
    deployment.machine.exec { world := { committed := noUsers } } logoutThenWait =
      some (waited deployment.platform lifetime) := by
  obtain ⟨config, platform, ms⟩ := deployment
  have hregister : (Deployment.mk config platform ms).system.program (.register ofTenant registration) =
      _ := congrArg (Prog.bind · fun r => .ret (Outcome.response r)) (register_eq hlifetime)
  have hlogout : (Deployment.mk config platform ms).system.program (.logout registeredUser) = _ :=
    congrArg (Prog.bind · fun _ => .ret Outcome.done) (logout_eq hseconds someUuid.1)
  have habsent : noUsers.exec platform {} (.findUserByAccount none "t1" "a") = (none, noUsers) := rfl
  have hhash : noUsers.exec platform {} (.hash "p") = (platform.hash "" "p", noUsers) := rfl
  have hcreate : noUsers.exec platform {} (.createUser "t1" "a" (platform.hash "" "p") .STAFF) =
      (some (registered platform), withUser platform) := rfl
  have huuid : (withUser platform).exec platform {} .randomUUID = (someUuid, withUser platform) := rfl
  have hnow : (withUser platform).exec platform {} .now = ((0 : Nat), withUser platform) := rfl
  have hset : (withUser platform).exec platform {}
      (.redis (.set (tokenBlacklistKey someUuid.1) 1 (some 604800))) = ((), loggedOut platform) := rfl
  have hpass : (loggedOut platform).exec platform {} (.pass 604800000) = ((), weekLater platform) := rfl
  refine (Recorded.exec_spawn hregister _).trans ?_
  refine (Recorded.exec_stmt rfl habsent _).trans ?_
  refine (Recorded.exec_stmt rfl hhash _).trans ?_
  refine (Recorded.exec_stmt rfl hcreate _).trans ?_
  refine (Recorded.exec_stmt rfl huuid _).trans ?_
  refine (Recorded.exec_stmt rfl hnow _).trans ?_
  refine (Recorded.exec_spawn hlogout _).trans ?_
  refine (Recorded.exec_stmt rfl hset _).trans ?_
  refine (Recorded.exec_spawn rfl _).trans ?_
  refine (Recorded.exec_stmt rfl hpass _).trans ?_
  rfl

theorem validate_runs :
    deployment.machine.exec (waited deployment.platform lifetime)
        [.spawn (.validate ((registered deployment.platform).payload someUuid)), .run 3 {}, .run 3 {}] =
      some (acceptedAgain deployment.platform lifetime) := by
  obtain ⟨config, platform, ms⟩ := deployment
  have hvalidate : (Deployment.mk config platform ms).system.program
      (.validate ((registered platform).payload someUuid)) = _ :=
    congrArg (Prog.bind · fun user => .ret (Outcome.user user)) (validate_eq (registered platform) someUuid)
  have hgone : (weekLater platform).exec platform {} (.redis (.exists (tokenBlacklistKey someUuid.1))) =
      (false, weekLater platform) := weekLater_exists platform
  have hfound : (weekLater platform).exec platform {} (.findUserById none someUuid.1) =
      (some (registered platform), weekLater platform) :=
    congrArg (·, weekLater platform) (Db.findUser_of_mem registered_mem)
  simp only [acceptedAgain, waited]
  -- The steps do not look into the database.
  generalize weekLater platform = db at hgone hfound ⊢
  refine (Recorded.exec_spawn hvalidate _).trans ?_
  refine (Recorded.exec_stmt rfl hgone _).trans ?_
  refine (Recorded.exec_stmt rfl hfound _).trans ?_
  rfl

/-- A token with more than seven days to live is accepted seven days after its logout. -/
theorem not_logoutRevokes_of_lt
    (hlifetime : tokenLifetime deployment.ms (getJwtExpiresIn deployment.config.JWT_EXPIRES_IN) =
      some lifetime)
    (hseconds : getJwtExpiresInSeconds deployment.config.JWT_EXPIRES_IN = 604800)
    (hlt : 604800 < lifetime) : ¬ deployment.LogoutRevokes := by
  intro hrevokes
  have hwaited : deployment.machine.Reachable (waited deployment.platform lifetime) :=
    Machine.reachableBy_exec (Machine.reachableBy_init ⟨⟨trivial, rfl⟩, rfl⟩) (Machine.admits_true _ _)
      (logoutThenWait_runs hlifetime hseconds)
  have hreach : deployment.machine.Reachable (acceptedAgain deployment.platform lifetime) :=
    Machine.reachableBy_exec hwaited (Machine.admits_true _ _) validate_runs
  have hsigned : ∀ i ∈ (acceptedAgain deployment.platform lifetime).history.drop 6, i.thread ≠ 0 := by
    simp [acceptedAgain, waited]
  have hlater : ∀ i ∈ (acceptedAgain deployment.platform lifetime).history.take 5, i.thread ≠ 3 := by
    simp [acceptedAgain, waited]
  have hunexpired : ∀ i ∈ (acceptedAgain deployment.platform lifetime).history.drop 6,
      i.thread = 3 → i.q = .redis (.exists (tokenBlacklistKey someUuid.1)) →
        ¬ (registeredResponse deployment.platform lifetime).token.Expired i.before.redis.now := by
    have hexp : ¬ (registeredResponse deployment.platform lifetime).token.Expired
        (weekLater deployment.platform).redis.now := by
      simp only [Token.Expired, registeredResponse, weekLater, loggedOut, Keyspace.put, noUsers]
      omega
    intro i hi hthread hq
    simp only [acceptedAgain, waited, List.cons_append, List.nil_append, List.drop_succ_cons, List.drop_zero,
      List.mem_cons, List.not_mem_nil, or_false] at hi
    rcases hi with rfl | rfl | rfl
    · cases hthread
    · exact hexp
    · cases hq
  have hrejected := hrevokes _ hreach 0 3 _ _ _ _ _
    ⟨1, .redis (.set (tokenBlacklistKey someUuid.1) 1 (some 604800)), {}, withUser deployment.platform⟩
    (registeredResponse deployment.platform lifetime) registeredUser rfl rfl rfl rfl rfl rfl hsigned rfl rfl
    hlater hunexpired
  cases hrejected

end Runs

end Outlived

/-! ### When logout revokes -/

def expiringIn (value : String) : Deployment where
  config := { (default : EnvConfig) with JWT_EXPIRES_IN := value }
  platform := plainPlatform
  ms := parseMs

def sevenDaysSpan : Timespan where
  whole := ['7']
  unit := .day
  name := ['d']
  whole_digits := by decide
  fraction_digits := by decide
  number _ := by decide
  named := by decide

def thirtyDaysSpan : Timespan where
  whole := ['3', '0']
  spaces := 1
  unit := .day
  name := "days".toList
  whole_digits := by decide
  fraction_digits := by decide
  number _ := by decide
  named := by decide

end MibServer.Auth
