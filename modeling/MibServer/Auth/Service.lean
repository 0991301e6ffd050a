import MibServer.Auth.JwtExpiry
import MibServer.Auth.Store
import MibServer.Http

/-!
`AuthLoginSecurityService`, `AuthService` and `JwtStrategy`.

The log lines and the `LoginEvent` rows are left out: nothing reads them.
-/

namespace MibServer.Auth

open MibServer.Lib MibServer.Redis MibServer.Tenancy

/-- The variables of the environment these services read; the schema of the environment
rejects a count or a time that is not positive. -/
structure EnvConfig where
  AUTH_LOGIN_MAX_ATTEMPTS : Nat := 10
  AUTH_LOGIN_WINDOW_SECONDS : Nat := 900
  AUTH_LOGIN_LOCK_AFTER_FAILURES : Nat := 5
  AUTH_LOGIN_LOCK_SECONDS : Nat := 900
  JWT_EXPIRES_IN : String := "7d"
  maxAttempts_pos : 0 < AUTH_LOGIN_MAX_ATTEMPTS := by decide
  window_pos : 0 < AUTH_LOGIN_WINDOW_SECONDS := by decide
  lockAfter_pos : 0 < AUTH_LOGIN_LOCK_AFTER_FAILURES := by decide
  lockSeconds_range : 300 ≤ AUTH_LOGIN_LOCK_SECONDS ∧ AUTH_LOGIN_LOCK_SECONDS ≤ 900 := by decide

instance : Inhabited EnvConfig := ⟨{}⟩

/-- What the services throw; 429 carries a body of its own. -/
inductive AuthException where
  | http (e : HttpException)
  | tooManyRequests (message : String) (retryAfterSeconds : Int)
deriving DecidableEq

abbrev AuthProg (α : Type) := Prog Stmt Stmt.Reply AuthException α

def query (q : Stmt) : AuthProg q.Reply := .stmt q .ret

def unauthorized {α : Type} (message : String) : AuthProg α := .throw (.http (.unauthorized message))

/-! ### `RedisService` -/

/-- `set`: without a positive time to live the key does not expire. -/
def set (key : String) (value ttlSeconds : Nat) : AuthProg Unit :=
  query (.redis (.set key value (if 0 < ttlSeconds then some ttlSeconds else none)))

def incr (key : String) (ttlSeconds : Nat) : AuthProg Nat := do
  let value ← query (.redis (.incr key))
  if value = 1 ∧ 0 < ttlSeconds then
    let _ ← query (.redis (.expire key ttlSeconds))
    return value
  else return value

structure RateLimitResult where
  allowed : Bool
  current : Nat
  ttl : Int

def rateLimitKey (scope subject : String) : String := "rate:" ++ (scope ++ ":" ++ subject)

/-- `checkRateLimit`, with `rateLimit` inlined. -/
def checkRateLimit (scope subject : String) (limit windowSeconds : Nat) : AuthProg RateLimitResult := do
  let current ← incr (rateLimitKey scope subject) windowSeconds
  let ttl ← query (.redis (.ttl (rateLimitKey scope subject)))
  return { allowed := current ≤ limit, current, ttl }

def tokenBlacklistKey (tokenId : String) : String := "auth:blacklist:" ++ tokenId

def blacklistToken (tokenId : String) (ttlSeconds : Nat) : AuthProg Unit :=
  set (tokenBlacklistKey tokenId) 1 ttlSeconds

def isTokenBlacklisted (tokenId : String) : AuthProg Bool :=
  query (.redis (.exists (tokenBlacklistKey tokenId)))

/-! ### `AuthLoginSecurityService` -/

def lockKey (username : String) : String := "auth:login:lock:" ++ username

def strikesKey (username : String) : String := "auth:login:strikes:" ++ username

inductive LoginGuardResult where
  | ok
  | locked (retryAfterSeconds : Int)
  | rateLimited (retryAfterSeconds : Int)

section Config

variable (config : EnvConfig)

def checkCanAttemptLogin (ip username : String) : AuthProg LoginGuardResult := do
  let lockTtl ← query (.redis (.ttl (lockKey username)))
  if 0 < lockTtl then return .locked lockTtl
  else
    let ipLimit ← checkRateLimit "login:ip" ip config.AUTH_LOGIN_MAX_ATTEMPTS
      config.AUTH_LOGIN_WINDOW_SECONDS
    if !ipLimit.allowed then return .rateLimited ipLimit.ttl
    else
      let userLimit ← checkRateLimit "login:user" username config.AUTH_LOGIN_MAX_ATTEMPTS
        config.AUTH_LOGIN_WINDOW_SECONDS
      if !userLimit.allowed then return .rateLimited userLimit.ttl
      else return .ok

def assertCanAttemptLogin (ip username : String) : AuthProg Unit := do
  match ← checkCanAttemptLogin config ip username with
  | .ok => return ()
  | .locked retryAfterSeconds =>
      .throw (.http (.forbidden
        ("登录失败次数过多，账号已锁定，请 " ++ toString retryAfterSeconds ++ " 秒后重试")))
  | .rateLimited retryAfterSeconds =>
      .throw (.tooManyRequests "登录尝试过于频繁，请稍后再试" retryAfterSeconds)

structure LockResult where
  locked : Bool
  lockSeconds : Nat

/-- Record a failed attempt: rate counters and strike counter; may lock the account. -/
def recordLoginFailure (ip username : String) : AuthProg LockResult := do
  let _ ← checkRateLimit "login:ip" ip config.AUTH_LOGIN_MAX_ATTEMPTS
    config.AUTH_LOGIN_WINDOW_SECONDS
  let _ ← checkRateLimit "login:user" username config.AUTH_LOGIN_MAX_ATTEMPTS
    config.AUTH_LOGIN_WINDOW_SECONDS
  let strikes ← incr (strikesKey username) config.AUTH_LOGIN_WINDOW_SECONDS
  if config.AUTH_LOGIN_LOCK_AFTER_FAILURES ≤ strikes then
    set (lockKey username) 1 config.AUTH_LOGIN_LOCK_SECONDS
    return { locked := true, lockSeconds := config.AUTH_LOGIN_LOCK_SECONDS }
  else return { locked := false, lockSeconds := config.AUTH_LOGIN_LOCK_SECONDS }

def clearLoginFailures (username : String) : AuthProg Unit := do
  let _ ← query (.redis (.del [strikesKey username, lockKey username]))
  return ()

/-! ### `AuthService` -/

/-- The claims of a token; each may be missing from one that was not signed here. -/
structure JwtPayload where
  sub : Option String
  username : String
  role : UserRole
  jti : Option String
  tv : Option Nat
deriving DecidableEq

/-- A signed token; the times are in seconds. -/
structure Token where
  payload : JwtPayload
  iat : Nat
  exp : Int
deriving DecidableEq

/-- The `user` of a response. -/
structure UserView where
  id : Uuid
  username : String
  role : UserRole
deriving DecidableEq

structure AuthResponse where
  token : Token
  user : UserView
deriving DecidableEq

/-- `req.user` of an authenticated request; its permissions are left out. -/
structure AuthUser where
  userId : Uuid
  username : String
  role : UserRole
  jti : String
deriving DecidableEq

structure LoginDto where
  tenantCode : Option String := none
  username : String
  password : String
deriving DecidableEq

structure RegisterDto where
  username : String
  password : String
  role : Option UserRole := none
deriving DecidableEq

structure ChangePasswordDto where
  currentPassword : String
  newPassword : String
deriving DecidableEq

variable (ms : String → Option ℚ)

/-- `jwtService.sign`, which throws for an `expiresIn` it does not accept. -/
def sign (payload : JwtPayload) : AuthProg Token := do
  let now ← query .now
  match tokenLifetime ms (getJwtExpiresIn config.JWT_EXPIRES_IN) with
  | some lifetime => return { payload, iat := now / 1000, exp := (now / 1000 : Nat) + lifetime }
  | none => .throw (.http .internal)

def User.payload (user : User) (jti : Uuid) : JwtPayload :=
  { sub := some user.id.1, username := user.username, role := user.role, jti := some jti.1,
    tv := some user.tokenVersion }

def buildAuthResponse (user : User) : AuthProg AuthResponse := do
  let jti ← query .randomUUID
  let token ← sign config ms (user.payload jti)
  return { token, user := { id := user.id, username := user.username, role := user.role } }

def DEFAULT_TENANT_CODE : String := "default"

def INVALID_CREDENTIALS_MSG : String := "用户名或密码错误"

/-- `code?.trim() || DEFAULT_TENANT_CODE` -/
def tenantCodeOf (code : Option String) : String :=
  (truthy (code.map trim)).getD DEFAULT_TENANT_CODE

def resolveTenantByCode (code : Option String) : AuthProg Tenant := do
  match ← query (.findTenant (tenantCodeOf code)) with
  | some tenant => return tenant
  | none => unauthorized INVALID_CREDENTIALS_MSG

/-- `login`; its reads bypass the tenant filter. -/
def login (dto : LoginDto) (ip : String) : AuthProg AuthResponse := do
  assertCanAttemptLogin config ip dto.username
  let tenant ← resolveTenantByCode dto.tenantCode
  match ← query (.findUserByAccount none tenant.id dto.username) with
  | none =>
      let _ ← recordLoginFailure config ip dto.username
      unauthorized INVALID_CREDENTIALS_MSG
  | some user =>
      if ← query (.compare dto.password user.passwordHash) then
        clearLoginFailures dto.username
        buildAuthResponse config ms user
      else
        let lock ← recordLoginFailure config ip dto.username
        if lock.locked then
          unauthorized ("登录失败次数过多，账号已锁定 " ++ toString lock.lockSeconds ++ " 秒")
        else unauthorized INVALID_CREDENTIALS_MSG

def register (ambient : Ambient) (dto : RegisterDto) : AuthProg AuthResponse := do
  match truthy (resolveTenantIdForWrite ambient) with
  | none => .throw (.http (.conflict "无法确定租户，请设置 X-Tenant-Id"))
  | some tenantId =>
    match ← query (.findUserByAccount (resolveTenantWhere ambient) tenantId dto.username) with
    | some _ => .throw (.http (.conflict "用户名已存在"))
    | none =>
      let passwordHash ← query (.hash dto.password)
      match ← query (.createUser tenantId dto.username passwordHash (dto.role.getD .STAFF)) with
      | some user => buildAuthResponse config ms user
      | none => .throw (.http .internal)

def changePassword (ambient : Ambient) (userId : String) (dto : ChangePasswordDto) :
    AuthProg AuthResponse := do
  match ← query (.findUserById (resolveTenantWhere ambient) userId) with
  | none => unauthorized "用户不存在"
  | some user =>
    if ← query (.compare dto.currentPassword user.passwordHash) then
      let passwordHash ← query (.hash dto.newPassword)
      match ← query (.updatePassword (resolveTenantWhere ambient) userId passwordHash) with
      | some updated => buildAuthResponse config ms updated
      | none => .throw (.http .internal)
    else unauthorized "当前密码错误"

def logout (jti : String) : AuthProg Unit :=
  blacklistToken jti (getJwtExpiresInSeconds config.JWT_EXPIRES_IN)

/-! ### `JwtStrategy` -/

/-- `validate`, which is called with the claims of a token whose signature and expiry have
been checked. Its read bypasses the tenant filter. -/
def validate (payload : JwtPayload) : AuthProg AuthUser :=
  match truthy payload.sub, truthy payload.jti, payload.tv with
  | some sub, some jti, some tv => do
      if ← isTokenBlacklisted jti then unauthorized "令牌已失效"
      else
        match ← query (.findUserById none sub) with
        | some user =>
            if user.tokenVersion = tv then
              return { userId := user.id, username := user.username, role := user.role, jti }
            else unauthorized "令牌已失效，请重新登录"
        | none => unauthorized "令牌已失效，请重新登录"
  | _, _, _ => unauthorized "无效的令牌"

end Config

/-! ### Calls -/

deriving instance DecidableEq for AccessContext, Ambient

inductive Call where
  | login (dto : LoginDto) (ip : String)
  | register (ambient : Ambient) (dto : RegisterDto)
  | changePassword (ambient : Ambient) (userId : String) (dto : ChangePasswordDto)
  | logout (user : AuthUser)
  | validate (payload : JwtPayload)
  /-- Time passes. -/
  | pass (milliseconds : Nat)
deriving DecidableEq

inductive Outcome where
  | response (response : AuthResponse)
  | user (user : AuthUser)
  | done
deriving DecidableEq

/-- What the services run with. -/
structure Deployment where
  config : EnvConfig := default
  platform : Platform
  ms : String → Option ℚ

namespace Deployment

variable (deployment : Deployment)

def program : Call → AuthProg Outcome
  | .login dto ip => (login deployment.config deployment.ms dto ip).bind fun r => .ret (.response r)
  | .register ambient dto =>
      (register deployment.config deployment.ms ambient dto).bind fun r => .ret (.response r)
  | .changePassword ambient userId dto =>
      (changePassword deployment.config deployment.ms ambient userId dto).bind fun r => .ret (.response r)
  | .logout user => (logout deployment.config user.jti).bind fun _ => .ret .done
  | .validate payload => (validate payload).bind fun user => .ret (.user user)
  | .pass milliseconds => (query (.pass milliseconds)).bind fun _ => .ret .done

/-- A call fails with an error of its own wherever a database, Redis or `bcrypt` call of it
does. -/
def system : System Db Stmt Stmt.Reply Env AuthException Outcome Call where
  engine := deployment.platform.engine
  program := deployment.program
  aborted := .http .internal

/-- Any number of calls, from any tables and any keyspace, with their history. -/
abbrev machine := deployment.system.recorded fun _ => True

end Deployment

abbrev Run := Recorded Db Stmt Stmt.Reply Env AuthException Outcome Call

/-- Thread `t` is this call. -/
def Run.Calls (r : Run) (t : Nat) (call : Call) : Prop :=
  ∃ th, r.world.threads[t]? = some th ∧ th.call = call

theorem Run.calls_iff {r : Run} {t : Nat} {call : Call} :
    r.Calls t call ↔ (r.world.threads.map Thread.call)[t]? = some call := by
  rw [List.getElem?_map, Option.map_eq_some_iff]
  rfl

/-! ### Which statements a call issues -/

/-- The statement leaves the tables and the keyspace alone. -/
def Stmt.Reads : Stmt → Prop
  | .redis (.ttl _) | .redis (.exists _) => True
  | .findTenant _ | .findUserByAccount _ _ _ | .findUserById _ _ => True
  | .compare _ _ | .hash _ | .randomUUID | .now => True
  | _ => False

section Config

variable {config : EnvConfig} {ms : String → Option ℚ} {P : Stmt → Prop}

theorem obeys_query {α : Type} {T : TraceSpec Stmt Stmt.Reply Env AuthException α} {q : Stmt}
    {f : q.Reply → AuthProg α} {past : List (Entry Stmt Stmt.Reply Env)} (hq : T.issue past q)
    (hf : ∀ env r, (f r).Obeys T (past ++ [⟨q, env, r⟩])) : ((query q).bind f).Obeys T past :=
  ⟨hq, hf⟩

theorem only_query {α : Type} {q : Stmt} {f : q.Reply → AuthProg α} (hq : P q)
    (hf : ∀ r, (f r).Only P) : ((query q).bind f).Only P :=
  ⟨hq, hf⟩

/-- The writes of `checkRateLimit`. -/
def rateLimitWrites (config : EnvConfig) (scope subject : String) : List Command :=
  [.incr (rateLimitKey scope subject),
    .expire (rateLimitKey scope subject) config.AUTH_LOGIN_WINDOW_SECONDS]

/-- The writes of the guard. -/
def guardWrites (config : EnvConfig) (ip username : String) : List Command :=
  rateLimitWrites config "login:ip" ip ++ rateLimitWrites config "login:user" username

/-- The writes of `recordLoginFailure`. -/
def failureWrites (config : EnvConfig) (ip username : String) : List Command :=
  guardWrites config ip username ++
    [.incr (strikesKey username), .expire (strikesKey username) config.AUTH_LOGIN_WINDOW_SECONDS,
      .set (lockKey username) 1 (some config.AUTH_LOGIN_LOCK_SECONDS)]

def loginWrites (config : EnvConfig) (ip username : String) : List Command :=
  failureWrites config ip username ++ [.del [strikesKey username, lockKey username]]

theorem incr_only {key : String} {ttlSeconds : Nat} (hincr : P (.redis (.incr key)))
    (hexpire : P (.redis (.expire key ttlSeconds))) : (incr key ttlSeconds).Only P := by
  refine only_query hincr fun value => ?_
  split
  · exact only_query hexpire fun _ => trivial
  · trivial

theorem checkRateLimit_only {scope subject : String} {limit : Nat}
    (hwrites : ∀ c ∈ rateLimitWrites config scope subject, P (.redis c))
    (httl : ∀ scope subject, P (.redis (.ttl (rateLimitKey scope subject)))) :
    (checkRateLimit scope subject limit config.AUTH_LOGIN_WINDOW_SECONDS).Only P :=
  (incr_only (hwrites _ (by simp [rateLimitWrites])) (hwrites _ (by simp [rateLimitWrites]))).bind
    fun _ => only_query (httl _ _) fun _ => trivial

theorem checkCanAttemptLogin_only {ip username : String}
    (hwrites : ∀ c ∈ guardWrites config ip username, P (.redis c))
    (hlock : P (.redis (.ttl (lockKey username))))
    (httl : ∀ scope subject, P (.redis (.ttl (rateLimitKey scope subject)))) :
    (checkCanAttemptLogin config ip username).Only P := by
  refine only_query hlock fun lockTtl => ?_
  split
  · trivial
  · refine (checkRateLimit_only (fun c hc => hwrites c ?_) httl).bind fun ipLimit => ?_
    · exact List.mem_append_left _ hc
    · split
      · trivial
      · refine (checkRateLimit_only (fun c hc => hwrites c ?_) httl).bind fun userLimit => ?_
        · exact List.mem_append_right _ hc
        · split
          · trivial
          · trivial

theorem assertCanAttemptLogin_only {ip username : String}
    (hwrites : ∀ c ∈ guardWrites config ip username, P (.redis c))
    (hlock : P (.redis (.ttl (lockKey username))))
    (httl : ∀ scope subject, P (.redis (.ttl (rateLimitKey scope subject)))) :
    (assertCanAttemptLogin config ip username).Only P := by
  refine (checkCanAttemptLogin_only hwrites hlock httl).bind fun result => ?_
  cases result with
  | ok | locked _ | rateLimited _ => trivial

theorem recordLoginFailure_only {ip username : String}
    (hwrites : ∀ c ∈ failureWrites config ip username, P (.redis c))
    (httl : ∀ scope subject, P (.redis (.ttl (rateLimitKey scope subject)))) :
    (recordLoginFailure config ip username).Only P := by
  refine (checkRateLimit_only (fun c hc => hwrites c ?_) httl).bind fun _ => ?_
  · exact List.mem_append_left _ (List.mem_append_left _ hc)
  refine (checkRateLimit_only (fun c hc => hwrites c ?_) httl).bind fun _ => ?_
  · exact List.mem_append_left _ (List.mem_append_right _ hc)
  refine (incr_only (hwrites _ (by simp [failureWrites])) (hwrites _ (by simp [failureWrites]))).bind
    fun strikes => ?_
  split
  · have hseconds : 0 < config.AUTH_LOGIN_LOCK_SECONDS :=
      Nat.lt_of_lt_of_le (by decide) config.lockSeconds_range.1
    refine ⟨?_, fun _ => trivial⟩
    rw [if_pos hseconds]
    exact hwrites _ (by simp [failureWrites])
  · trivial

theorem buildAuthResponse_only {user : User} (huuid : P .randomUUID) (hnow : P .now) :
    (buildAuthResponse config ms user).Only P := by
  refine only_query huuid fun jti => ?_
  refine Prog.Only.bind (only_query hnow fun now => ?_) fun _ => trivial
  split
  · trivial
  · trivial

theorem resolveTenantByCode_only {code : Option String}
    (htenant : P (.findTenant (tenantCodeOf code))) : (resolveTenantByCode code).Only P := by
  refine only_query htenant fun tenant => ?_
  cases tenant with
  | none | some _ => trivial

theorem clearLoginFailures_only {username : String}
    (hdel : P (.redis (.del [strikesKey username, lockKey username]))) :
    (clearLoginFailures username).Only P :=
  only_query hdel fun _ => trivial

theorem login_only {dto : LoginDto} {ip : String}
    (hwrites : ∀ c ∈ loginWrites config ip dto.username, P (.redis c)) (hreads : ∀ q, q.Reads → P q) :
    (login config ms dto ip).Only P := by
  have hfailure : ∀ c ∈ failureWrites config ip dto.username, P (.redis c) :=
    fun c hc => hwrites c (List.mem_append_left _ hc)
  have httl : ∀ scope subject, P (.redis (.ttl (rateLimitKey scope subject))) :=
    fun _ _ => hreads _ trivial
  refine (assertCanAttemptLogin_only (fun c hc => hfailure c (List.mem_append_left _ hc))
    (hreads _ trivial) httl).bind fun _ => ?_
  refine (resolveTenantByCode_only (hreads _ trivial)).bind fun tenant => ?_
  refine only_query (hreads _ trivial) fun user => ?_
  cases user with
  | none => exact (recordLoginFailure_only hfailure httl).bind fun _ => trivial
  | some user =>
      refine only_query (hreads _ trivial) fun isPwdOk => ?_
      cases isPwdOk with
      | true =>
          refine (clearLoginFailures_only (hwrites _ ?_)).bind fun _ => ?_
          · simp [loginWrites]
          exact buildAuthResponse_only (hreads _ trivial) (hreads _ trivial)
      | false =>
          refine (recordLoginFailure_only hfailure httl).bind fun lock => ?_
          split
          · trivial
          · trivial

theorem register_only {ambient : Ambient} {dto : RegisterDto}
    (hcreate : ∀ tenantId passwordHash role, P (.createUser tenantId dto.username passwordHash role))
    (hreads : ∀ q, q.Reads → P q) : (register config ms ambient dto).Only P := by
  unfold register
  split
  · trivial
  · refine only_query (hreads _ trivial) fun exists? => ?_
    cases exists? with
    | some _ => trivial
    | none =>
        refine only_query (hreads _ trivial) fun passwordHash => ?_
        refine only_query (hcreate _ _ _) fun created => ?_
        cases created with
        | none => trivial
        | some user => exact buildAuthResponse_only (hreads _ trivial) (hreads _ trivial)

theorem changePassword_only {ambient : Ambient} {userId : String} {dto : ChangePasswordDto}
    (hupdate : ∀ scope passwordHash, P (.updatePassword scope userId passwordHash))
    (hreads : ∀ q, q.Reads → P q) : (changePassword config ms ambient userId dto).Only P := by
  refine only_query (hreads _ trivial) fun user => ?_
  cases user with
  | none => trivial
  | some user =>
      refine only_query (hreads _ trivial) fun ok => ?_
      cases ok with
      | false => trivial
      | true =>
          refine only_query (hreads _ trivial) fun passwordHash => ?_
          refine only_query (hupdate _ _) fun updated => ?_
          cases updated with
          | none => trivial
          | some updated => exact buildAuthResponse_only (hreads _ trivial) (hreads _ trivial)

theorem logout_only {jti : String}
    (hset : ∀ ttl, P (.redis (.set (tokenBlacklistKey jti) 1 ttl))) : (logout config jti).Only P :=
  only_query (hset _) fun _ => trivial

theorem validate_only {payload : JwtPayload} (hreads : ∀ q, q.Reads → P q) :
    (validate payload).Only P := by
  unfold validate
  split
  · refine only_query (hreads _ trivial) fun blacklisted => ?_
    cases blacklisted with
    | true => trivial
    | false =>
        refine only_query (hreads _ trivial) fun user => ?_
        cases user with
        | none => trivial
        | some user =>
            dsimp only
            split
            · trivial
            · trivial
  · trivial

end Config

/-- The statements a call issues beside those that only read. -/
def Call.Writes (config : EnvConfig) : Call → Stmt → Prop
  | .login dto ip, q => ∃ c ∈ loginWrites config ip dto.username, q = .redis c
  | .register _ dto, q => ∃ tenantId passwordHash role, q = .createUser tenantId dto.username passwordHash role
  | .changePassword _ userId _, q => ∃ scope passwordHash, q = .updatePassword scope userId passwordHash
  | .logout user, q => ∃ ttl, q = .redis (.set (tokenBlacklistKey user.jti) 1 ttl)
  | .validate _, _ => False
  | .pass milliseconds, q => q = .pass milliseconds

theorem program_only (deployment : Deployment) (call : Call) :
    (deployment.program call).Only fun q => call.Writes deployment.config q ∨ q.Reads := by
  cases call with
  | login dto ip =>
      exact (login_only (fun c hc => Or.inl ⟨c, hc, rfl⟩) fun _ => Or.inr).bind fun _ => trivial
  | register ambient dto =>
      exact (register_only (fun _ _ _ => Or.inl ⟨_, _, _, rfl⟩) fun _ => Or.inr).bind fun _ => trivial
  | changePassword ambient userId dto =>
      exact (changePassword_only (fun _ _ => Or.inl ⟨_, _, rfl⟩) fun _ => Or.inr).bind fun _ => trivial
  | logout user => exact (logout_only fun _ => Or.inl ⟨_, rfl⟩).bind fun _ => trivial
  | validate payload => exact (validate_only fun _ => Or.inr).bind fun _ => trivial
  | pass milliseconds => exact only_query (Or.inl rfl) fun _ => trivial

theorem program_plain (deployment : Deployment) (call : Call) : (deployment.system.program call).Plain :=
  (program_only deployment call).plain

end MibServer.Auth
