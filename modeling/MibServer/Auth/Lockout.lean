import MibServer.Auth.LoginGuard

/-!
The lock of an account, where an account is a username in a tenant.

The strikes and the lock are kept under the username alone and as the request spells it. So a
login of the same username in another tenant counts on them, sets them and clears them as well,
and a login that spells the username otherwise, which the database takes for the same account,
does not. As long as neither happens, an account is locked by the attempts on it and by nothing
else: what Redis holds under its two keys is what these attempts alone would have left there
(`alone_entries`).
-/

namespace MibServer.Auth

open MibServer.Lib MibServer.Redis

/-- An account: `@@unique([tenantId, username])`, with the tenant by its code. Of the texts that
the database takes for its code and its username these are one. -/
structure Account where
  tenantCode : String
  username : String

/-- What the call has failed with. -/
def Run.error? (r : Run) (t : Nat) : Option AuthException :=
  (r.world.threads[t]?).bind fun th => th.prog.error?

namespace Account

variable (A : Account) (platform : Platform)

/-- The call is an attempt on the account. -/
def tried : Call → Bool
  | .login dto _ => platform.sameText dto.username A.username &&
      platform.sameText (tenantCodeOf dto.tenantCode) A.tenantCode
  | _ => false

/-- The call is an attempt on the account that spells its username otherwise. -/
def respelled : Call → Bool
  | .login dto ip => A.tried platform (.login dto ip) && dto.username != A.username
  | _ => false

/-- The call is an attempt on another account of the same username. -/
def shared : Call → Bool
  | .login dto _ => dto.username = A.username &&
      !platform.sameText (tenantCodeOf dto.tenantCode) A.tenantCode
  | _ => false

def keys : List String := [strikesKey A.username, lockKey A.username]

/-- A login arrives that spells the username of the account otherwise, or an attempt on another
account of the username records its result: it counts a strike, sets the lock or clears them. -/
def disturbed (r : Run) : Action Call Env → Bool
  | .spawn call => A.respelled platform call
  | .run t _ =>
      match r.world.threads[t]? with
      | some ⟨call, .stmt q _, _⟩ => A.shared platform call && q.writes.any (· ∈ A.keys)
      | _ => false
  | .abort _ => false

def attempts (r : Run) (t : Nat) : Bool :=
  (r.world.threads[t]?).any fun th => A.tried platform th.call

/-- What the attempts on the account have done. -/
def own (r : Run) (h : List (Issued Db Stmt Env)) : List (Issued Db Stmt Env) :=
  h.filter fun i => A.attempts platform r i.thread

/-- The command of a statement, at its time, on another keyspace. -/
def replay (k : Keyspace Nat) (i : Issued Db Stmt Env) : Keyspace Nat :=
  match i.q with
  | .redis c => ({ k with now := i.before.redis.now }.exec platform.ttlSeconds c).2
  | _ => k

/-- The keyspace at a time, if there had been the attempts on the account alone. -/
def alone (k : Keyspace Nat) (r : Run) (h : List (Issued Db Stmt Env)) (now : Nat) : Keyspace Nat :=
  { (A.own platform r h).foldl (replay platform) k with now }

/-- The statement is this one of an attempt on the account, for the username as it spells it. -/
def issued (q : String → Stmt) (r : Run) (i : Issued Db Stmt Env) : Bool :=
  match (r.world.threads[i.thread]?).map Thread.call with
  | some (.login dto ip) => A.tried platform (.login dto ip) && i.q = q dto.username
  | _ => false

/-- An attempt looks for the lock. -/
def checks : Run → Issued Db Stmt Env → Bool :=
  A.issued platform fun username => .redis (.ttl (lockKey username))

/-- An attempt counts a strike. -/
def strikes : Run → Issued Db Stmt Env → Bool :=
  A.issued platform fun username => .redis (.incr (strikesKey username))

variable (deployment : Deployment) (k : Keyspace Nat) (r : Run)

/-- Whether an attempt is refused as locked depends on the attempts on the account alone. -/
def LockedByItself : Prop :=
  ∀ h i h', r.history = h ++ i :: h' → A.checks deployment.platform r i = true →
    r.error? i.thread ≠ some deployment.system.aborted →
    ((∃ message, r.error? i.thread = some (.http (.forbidden message))) ↔
      0 < (A.alone deployment.platform k r h i.before.redis.now).ttl
        deployment.platform.ttlSeconds (lockKey A.username))

/-- In this part of the history each strike on the account falls into one strike window: the
counter of the attempts on it has not lapsed. -/
def OneWindow (pre seg : List (Issued Db Stmt Env)) : Prop :=
  ∀ a i b, seg = a ++ i :: b → a ≠ [] → A.strikes deployment.platform r i = true →
    (A.alone deployment.platform k r (pre ++ a) i.before.redis.now).Live (strikesKey A.username)

/-- An attempt on the account that has counted a strike in this part of the history and
answered 401. -/
def WrongPassword (seg : List (Issued Db Stmt Env)) (t : Nat) : Prop :=
  (∃ i ∈ seg, i.thread = t ∧ A.strikes deployment.platform r i = true) ∧
    ∃ message, r.error? t = some (.http (.unauthorized message))

/-- `AUTH_LOGIN_LOCK_AFTER_FAILURES` wrong passwords within one strike window lock the
account. -/
def LockedByFailures : Prop :=
  ∀ pre seg post, r.history = pre ++ seg ++ post → A.OneWindow deployment k r pre seg →
    ∀ ts : List Nat, ts.Nodup → deployment.config.AUTH_LOGIN_LOCK_AFTER_FAILURES ≤ ts.length →
      (∀ t ∈ ts, A.WrongPassword deployment r seg t) →
      ∃ t ∈ ts, ∃ i ∈ r.history, i.thread = t ∧
        i.q = .redis (.set (lockKey A.username) 1 (some deployment.config.AUTH_LOGIN_LOCK_SECONDS))

end Account

/-! ### The keys of an account -/

section Keys

variable {config : EnvConfig} {call : Call} {q : Stmt} {A : Account} {platform : Platform}

/-- The strikes of a username are counted, given their expiry or cleared by a login of that
username. -/
theorem KeyWrite.strikesKey {username : String} (h : KeyWrite config call q (strikesKey username)) :
    ∃ dto ip, call = .login dto ip ∧ dto.username = username ∧
      (q = .redis (.incr (strikesKey username)) ∨
        (∃ seconds, q = .redis (.expire (strikesKey username) seconds)) ∨
          ∃ keys, q = .redis (.del keys)) := by
  generalize hk : Auth.strikesKey username = k at h
  cases h with
  | count scope' subject' | countExpiry scope' subject' =>
      exact absurd hk.symm (rateLimitKey_ne_strikesKey _ _ _)
  | strike dto ip =>
      obtain rfl := strikesKey_inj hk
      exact ⟨dto, ip, rfl, rfl, Or.inl rfl⟩
  | strikeExpiry dto ip =>
      obtain rfl := strikesKey_inj hk
      exact ⟨dto, ip, rfl, rfl, Or.inr (Or.inl ⟨_, rfl⟩)⟩
  | lock dto ip => exact absurd hk.symm (lockKey_ne_strikesKey _ _)
  | clear dto ip hkey =>
      rcases hkey with rfl | rfl
      · obtain rfl := strikesKey_inj hk
        exact ⟨dto, ip, rfl, rfl, Or.inr (Or.inr ⟨_, rfl⟩)⟩
      · exact absurd hk.symm (lockKey_ne_strikesKey _ _)
  | blacklist user ttl => exact absurd hk (strikesKey_ne_tokenBlacklistKey _ _)

/-- The keys of an account are written by the logins of its username. -/
theorem KeyWrite.account {key : String} (hkey : key ∈ A.keys) (h : KeyWrite config call q key) :
    A.tried platform call = true ∨ A.shared platform call = true := by
  have hlogin : ∃ dto ip, call = .login dto ip ∧ dto.username = A.username := by
    rcases List.mem_pair.mp hkey with rfl | rfl
    · obtain ⟨dto, ip, hcall, husername, -⟩ := h.strikesKey
      exact ⟨dto, ip, hcall, husername⟩
    · obtain ⟨dto, ip, hcall, husername, -⟩ := h.lockKey
      exact ⟨dto, ip, hcall, husername⟩
  obtain ⟨dto, ip, rfl, husername⟩ := hlogin
  by_cases htenant : platform.sameText (tenantCodeOf dto.tenantCode) A.tenantCode = true
  · exact Or.inl (by simp [Account.tried, husername, htenant])
  · exact Or.inr (by simp [Account.shared, husername, htenant])

end Keys

/-! ### The attempts on an account alone -/

section Alone

variable {A : Account} {deployment : Deployment} {r : Run} {db₀ : Db}

/-- A run in which every login of the username spells it so and is of the tenant is undisturbed. -/
theorem undisturbed_of_unshared {init : Db → Prop}
    (hreach : (deployment.system.recorded init).ReachableBy (fun _ a => ∀ call, a = .spawn call →
      A.respelled deployment.platform call = false ∧ A.shared deployment.platform call = false) r) :
    (deployment.system.recorded init).ReachableBy
      (fun r a => A.disturbed deployment.platform r a = false) r := by
  refine (hreach.invariant (I := fun r => (deployment.system.recorded init).ReachableBy
    (fun r a => A.disturbed deployment.platform r a = false) r ∧
      ∀ th ∈ r.world.threads, A.shared deployment.platform th.call = false) ?_ ?_).1
  · rintro ⟨⟨s, threads⟩, history⟩ ⟨⟨hs, rfl⟩, rfl⟩
    exact ⟨Machine.reachableBy_init ⟨⟨hs, rfl⟩, rfl⟩, fun th hth => by cases hth⟩
  · rintro r a r' ⟨hr, hunshared⟩ hspawn hstep
    refine ⟨hr.next ?_ hstep, fun th hth => ?_⟩
    · cases a with
      | spawn call => exact (hspawn call rfl).1
      | abort _ => rfl
      | run t env =>
          simp only [Account.disturbed]
          split
          · rename_i hth
            rw [hunshared _ (List.mem_of_getElem? hth), Bool.false_and]
          · rfl
    · obtain ⟨world, hworld, rfl⟩ := Option.map_eq_some_iff.mp hstep
      rcases World.call_of_step hworld hth with ⟨th', hth', hcall⟩ | hnew
      · exact hcall ▸ hunshared th' hth'
      · exact (hspawn _ hnew).2

/-- The attempts on the account spell its username as it is. -/
theorem spelled_of_undisturbed {init : Db → Prop}
    (hreach : (deployment.system.recorded init).ReachableBy
      (fun r a => A.disturbed deployment.platform r a = false) r) :
    ∀ th ∈ r.world.threads, A.respelled deployment.platform th.call = false := by
  refine hreach.invariant
    (I := fun r => ∀ th ∈ r.world.threads, A.respelled deployment.platform th.call = false) ?_ ?_
  · rintro ⟨⟨s, threads⟩, history⟩ ⟨⟨hs, rfl⟩, rfl⟩ th hth
    cases hth
  · rintro r a r' hspelled hok hstep th hth
    obtain ⟨world, hworld, rfl⟩ := Option.map_eq_some_iff.mp hstep
    rcases World.call_of_step hworld hth with ⟨th', hth', hcall⟩ | rfl
    · exact hcall ▸ hspelled th' hth'
    · exact hok

/-- A statement of an attempt on the account is one for its username. -/
theorem issued_of_undisturbed {init : Db → Prop} {q : String → Stmt} {i : Issued Db Stmt Env}
    (hreach : (deployment.system.recorded init).ReachableBy
      (fun r a => A.disturbed deployment.platform r a = false) r)
    (h : A.issued deployment.platform q r i = true) :
    ∃ th dto ip, r.world.threads[i.thread]? = some th ∧ th.call = .login dto ip ∧
      dto.username = A.username ∧ i.q = q A.username := by
  unfold Account.issued at h
  split at h
  · rename_i dto ip hcall
    obtain ⟨th, hth, hcall⟩ := Option.map_eq_some_iff.mp hcall
    obtain ⟨htried, hq⟩ := Bool.and_eq_true_iff.mp h
    have hspelled := spelled_of_undisturbed hreach th (List.mem_of_getElem? hth)
    rw [hcall, Account.respelled, htried, Bool.true_and, bne_eq_false_iff_eq] at hspelled
    exact ⟨th, dto, ip, hth, hcall, hspelled, hspelled ▸ of_decide_eq_true hq⟩
  · cases h

/-- As long as no other account of the username has recorded a result, the keys of the
account are written by the attempts on it. -/
theorem own_of_writes (hreach : (deployment.system.recorded (· = db₀)).ReachableBy
      (fun r a => A.disturbed deployment.platform r a = false) r)
    {i : Issued Db Stmt Env} (hi : i ∈ r.history)
    {key : String} (hkey : key ∈ A.keys) (hwrites : key ∈ i.q.writes) :
    A.attempts deployment.platform r i.thread = true := by
  have hr := System.traced_of_reachable (program_plain deployment) hreach
  have hquiet := System.history_of_reachable
    (P := fun call q => A.shared deployment.platform call = true → ∀ key ∈ q.writes, key ∉ A.keys)
    hreach
    (fun r t env th q k hok hth hprog hshared key hwrites hkey => ?_) i hi
  · obtain ⟨th, hth, hquiet⟩ := hquiet
    obtain ⟨th', hth', hwrite⟩ := history_keyWrite hr hi hwrites
    cases hth.symm.trans hth'
    rw [Account.attempts, hth, Option.any_some]
    rcases hwrite.account hkey with htried | hshared
    · exact htried
    · exact absurd hkey (hquiet hshared key hwrites)
  · obtain ⟨call, _, tx⟩ := th
    subst hprog
    simp only [Account.disturbed, hth, hshared, Bool.true_and, List.any_eq_false,
      decide_eq_true_eq] at hok
    exact hok key hwrites hkey

/-- One statement of an attempt, on two keyspaces that agree on a key. -/
theorem replay_entries {k : Keyspace Nat} {i : Issued Db Stmt Env} {key : String}
    (h : k.entries key = i.before.redis.entries key) :
    (Account.replay deployment.platform k i).entries key =
      (i.after deployment.system.engine).redis.entries key := by
  obtain ⟨t, q, env, db⟩ := i
  cases q with
  | redis c =>
      have hnow : ({ k with now := db.redis.now } : Keyspace Nat).now = db.redis.now := rfl
      exact exec_entries_congr hnow h c
  | _ =>
      refine h.trans (Eq.symm ?_)
      exact show (db.exec deployment.platform env _).2.redis.entries key = _ from
        exec_redis_entries List.not_mem_nil

/-- **Replay**: where only the attempts on the account write its keys, these hold what the
attempts alone would have left there. -/
theorem alone_entries {k : Keyspace Nat} {db db' : Db} {h : List (Issued Db Stmt Env)} {key : String}
    (hl : Linked deployment.system.engine db h db')
    (hown : ∀ i ∈ h, key ∈ i.q.writes → A.attempts deployment.platform r i.thread = true)
    (hk : k.entries key = db.redis.entries key) (now : Nat) :
    (A.alone deployment.platform k r h now).entries key = db'.redis.entries key := by
  induction h generalizing k db with
  | nil => exact hl ▸ hk
  | cons i h ih =>
      obtain ⟨rfl, hrest⟩ := hl
      have htail : ∀ j ∈ h, key ∈ j.q.writes → A.attempts deployment.platform r j.thread = true :=
        fun j hj => hown j (List.mem_cons_of_mem _ hj)
      by_cases hattempts : A.attempts deployment.platform r i.thread = true
      · have hcons : A.own deployment.platform r (i :: h) = i :: A.own deployment.platform r h :=
          List.filter_cons_of_pos hattempts
        rw [Account.alone, hcons]
        exact ih hrest htail (replay_entries hk)
      · have hcons : A.own deployment.platform r (i :: h) = A.own deployment.platform r h :=
          List.filter_cons_of_neg hattempts
        rw [Account.alone, hcons]
        have hsame : (i.after deployment.system.engine).redis.entries key = i.before.redis.entries key :=
          exec_redis_entries fun hwrites => hattempts (hown i List.mem_cons_self hwrites)
        exact ih hrest htail (hk.trans hsame.symm)

/-- At each statement of the history. -/
theorem alone_before (hreach : (deployment.system.recorded (· = db₀)).ReachableBy
      (fun r a => A.disturbed deployment.platform r a = false) r)
    {h h' : List (Issued Db Stmt Env)} {i : Issued Db Stmt Env}
    (hhistory : r.history = h ++ i :: h') {key : String} (hkey : key ∈ A.keys) (now : Nat) :
    (A.alone deployment.platform db₀.redis r h now).entries key =
      i.before.redis.entries key := by
  obtain ⟨s, rfl, hlinked⟩ := (System.traced_of_reachable (program_plain deployment) hreach).linked
  rw [hhistory] at hlinked
  refine alone_entries hlinked.around.1 (fun j hj hwrites => ?_) rfl now
  exact own_of_writes hreach (hhistory ▸ List.mem_append_left _ hj) hkey hwrites

end Alone

/-! ### What an attempt does -/

section Attempts

variable {config : EnvConfig} {ms : String → Option ℚ} {ip username : String} {past : Log} {α : Type}

theorem raises_query {F : AuthException → Prop} {q : Stmt} {f : q.Reply → AuthProg α}
    (hf : ∀ r, (f r).Raises F) : ((query q).bind f).Raises F :=
  hf

theorem incr_raises {F : AuthException → Prop} {key : String} {ttlSeconds : Nat} :
    (incr key ttlSeconds).Raises F := by
  refine raises_query fun value => ?_
  split
  · exact fun _ => trivial
  · exact trivial

theorem checkRateLimit_raises {F : AuthException → Prop} {scope subject : String} {limit window : Nat} :
    (checkRateLimit scope subject limit window).Raises F :=
  incr_raises.bind fun _ _ => trivial

theorem recordLoginFailure_raises {F : AuthException → Prop} :
    (recordLoginFailure config ip username).Raises F := by
  refine checkRateLimit_raises.bind fun _ => checkRateLimit_raises.bind fun _ => incr_raises.bind fun _ => ?_
  split
  · exact fun _ => trivial
  · exact trivial

theorem buildAuthResponse_raises {F : AuthException → Prop} (hinternal : F (.http .internal)) {user : User} :
    (buildAuthResponse config ms user).Raises F := by
  refine raises_query (q := .randomUUID) fun jti => ?_
  have hsign : ∀ payload, (sign config ms payload).Raises F := by
    intro payload
    refine raises_query (q := .now) fun now => ?_
    split
    · exact trivial
    · exact hinternal
  exact (hsign _).bind fun _ => trivial

/-- The check of the lock has found one. -/
def FoundLocked (username : String) (past : Log) : Prop :=
  ∃ ttl > 0, past.findSome? (lockTtlOf username) = some ttl

/-- The check of the lock has found none. -/
def FoundOpen (username : String) (past : Log) : Prop :=
  ∃ ttl ≤ 0, past.findSome? (lockTtlOf username) = some ttl

def AuthException.IsForbidden (e : AuthException) : Prop := ∃ message, e = .http (.forbidden message)

/-- A login that has found the lock fails with 403 at once, and one that has not never does. -/
def refusing (username : String) (finish : Log → α → Prop) :
    TraceSpec Stmt Stmt.Reply Env AuthException α where
  issue past _ := past = [] ∨ FoundOpen username past
  finish := finish
  fail past e := e.IsForbidden ∧ FoundLocked username past ∨ ¬ e.IsForbidden ∧ FoundOpen username past

theorem FoundOpen.append (h : FoundOpen username past) (log : Log) : FoundOpen username (past ++ log) := by
  obtain ⟨ttl, hle, hfirst⟩ := h
  exact ⟨ttl, hle, findSome_append_of_some hfirst log⟩

/-- A piece of `login` after the check. -/
theorem obeys_open {β : Type} {P : Stmt → Prop} {p : AuthProg α} {f : α → AuthProg β}
    {finish : Log → β → Prop} (hp : p.Only P) (hraises : p.Raises fun e => ¬ e.IsForbidden)
    (hopen : FoundOpen username past)
    (hf : ∀ a log, FoundOpen username (past ++ log) → (f a).Obeys (refusing username finish) (past ++ log)) :
    (p.bind f).Obeys (refusing username finish) past := by
  refine Prog.Obeys.bind (hp.obeys_raises hraises fun log _ => ⟨fun _ _ => ?_, fun a => ?_, fun e he => ?_⟩)
  · exact Or.inr (hopen.append log)
  · exact hf a log (hopen.append log)
  · exact Or.inr ⟨he, hopen.append log⟩

theorem checkCanAttemptLogin_refusing :
    (checkCanAttemptLogin config ip username).Obeys (refusing username fun past result =>
      (∃ retryAfterSeconds, result = .locked retryAfterSeconds) ∧ FoundLocked username past ∨
        (∀ retryAfterSeconds, result ≠ .locked retryAfterSeconds) ∧ FoundOpen username past) [] := by
  refine obeys_query (Or.inl rfl) fun env lockTtl => ?_
  have hfirst : ([⟨.redis (.ttl (lockKey username)), env, lockTtl⟩] : Log).findSome?
      (lockTtlOf username) = some lockTtl := by
    simp [lockTtlOf]
  split
  · rename_i hlocked
    exact Or.inl ⟨⟨lockTtl, rfl⟩, lockTtl, hlocked, hfirst⟩
  · rename_i hlocked
    have hopen : FoundOpen username _ := ⟨lockTtl, Int.not_lt.mp hlocked, hfirst⟩
    refine obeys_open (P := fun _ => True) (checkRateLimit_only (fun _ _ => trivial) fun _ _ => trivial)
      checkRateLimit_raises hopen fun ipLimit log hopen => ?_
    split
    · exact Or.inr ⟨fun _ h => (by cases h), hopen⟩
    · refine obeys_open (P := fun _ => True) (checkRateLimit_only (fun _ _ => trivial) fun _ _ => trivial)
        checkRateLimit_raises hopen fun userLimit log hopen => ?_
      split
      · exact Or.inr ⟨fun _ h => (by cases h), hopen⟩
      · exact Or.inr ⟨fun _ h => (by cases h), hopen⟩

theorem assertCanAttemptLogin_refusing :
    (assertCanAttemptLogin config ip username).Obeys
      (refusing username fun past _ => FoundOpen username past) [] := by
  refine Prog.Obeys.bind (checkCanAttemptLogin_refusing.mono (fun _ _ h => h) (fun past result h => ?_)
    fun _ _ h => h)
  rcases h with ⟨⟨retryAfterSeconds, rfl⟩, hlocked⟩ | ⟨hne, hopen⟩
  · exact Or.inl ⟨⟨_, rfl⟩, hlocked⟩
  · cases result with
    | ok => exact hopen
    | locked retryAfterSeconds => exact absurd rfl (hne retryAfterSeconds)
    | rateLimited _ => exact Or.inr ⟨fun ⟨_, h⟩ => (by cases h), hopen⟩

theorem not_isForbidden_unauthorized (message : String) :
    ¬ (AuthException.http (.unauthorized message)).IsForbidden := by
  rintro ⟨_, h⟩
  cases h

theorem login_refusing (dto : LoginDto) (ip : String) :
    (login config ms dto ip).Obeys
      (refusing dto.username fun past _ => FoundOpen dto.username past) [] := by
  have hfailure : (recordLoginFailure config ip dto.username).Only fun _ => True :=
    recordLoginFailure_only (fun _ _ => trivial) fun _ _ => trivial
  refine Prog.Obeys.bind (assertCanAttemptLogin_refusing.mono (fun _ _ h => h) (fun past _ hopen => ?_)
    fun _ _ h => h)
  refine obeys_open (P := fun _ => True) (resolveTenantByCode_only trivial) (fun tenant => ?_) hopen
    fun tenant log hopen => ?_
  · cases tenant with
    | none => exact not_isForbidden_unauthorized _
    | some _ => exact trivial
  refine obeys_query (Or.inr hopen) fun env user => ?_
  have hopen := hopen.append [⟨.findUserByAccount none tenant.id dto.username, env, user⟩]
  cases user with
  | none =>
      refine obeys_open hfailure recordLoginFailure_raises hopen fun _ log hopen => ?_
      exact Or.inr ⟨not_isForbidden_unauthorized _, hopen⟩
  | some user =>
      refine obeys_query (Or.inr hopen) fun env' isPwdOk => ?_
      have hopen := hopen.append [⟨.compare dto.password user.passwordHash, env', isPwdOk⟩]
      cases isPwdOk with
      | true =>
          refine obeys_open (P := fun _ => True) (clearLoginFailures_only trivial) (fun _ => trivial) hopen
            fun _ log hopen => ?_
          refine (buildAuthResponse_only (P := fun _ => True) trivial trivial).obeys_raises
            (F := fun e => ¬ e.IsForbidden) (buildAuthResponse_raises ?_) fun log _ => ?_
          · rintro ⟨_, h⟩
            cases h
          · exact ⟨fun _ _ => Or.inr (hopen.append log), fun _ => hopen.append log,
              fun e he => Or.inr ⟨he, hopen.append log⟩⟩
      | false =>
          refine obeys_open hfailure recordLoginFailure_raises hopen fun lock log hopen => ?_
          split
          · exact Or.inr ⟨not_isForbidden_unauthorized _, hopen⟩
          · exact Or.inr ⟨not_isForbidden_unauthorized _, hopen⟩

/-- A statement that counts no strike of the username. -/
def Stmt.NoStrike (username : String) (q : Stmt) : Prop := q ≠ .redis (.incr (strikesKey username))

/-- A strike that has reached the limit has been followed by the lock. -/
def LockedIfDue (config : EnvConfig) (username : String) (past : Log) : Prop :=
  ∀ env value, ⟨.redis (.incr (strikesKey username)), env, value⟩ ∈ past →
    config.AUTH_LOGIN_LOCK_AFTER_FAILURES ≤ value →
    ∃ env, ⟨.redis (.set (lockKey username) 1 (some config.AUTH_LOGIN_LOCK_SECONDS)), env, ()⟩ ∈ past

def locking (config : EnvConfig) (username : String) (finish : Log → α → Prop) :
    TraceSpec Stmt Stmt.Reply Env AuthException α where
  finish := finish
  fail past _ := LockedIfDue config username past

theorem lockedIfDue_of_noStrike (h : ∀ e ∈ past, e.q.NoStrike username) :
    LockedIfDue config username past :=
  fun _ _ hmem => absurd rfl (h _ hmem)

/-- A piece of `login` that counts no strike. -/
theorem obeys_noStrike {β : Type} {p : AuthProg α} {f : α → AuthProg β} {finish : Log → β → Prop}
    (hp : p.Only (Stmt.NoStrike username)) (hpast : ∀ e ∈ past, e.q.NoStrike username)
    (hf : ∀ a log, (∀ e ∈ past ++ log, e.q.NoStrike username) →
      (f a).Obeys (locking config username finish) (past ++ log)) :
    (p.bind f).Obeys (locking config username finish) past := by
  refine Prog.Obeys.bind (hp.obeys fun log hlog => ?_)
  have hall : ∀ e ∈ past ++ log, e.q.NoStrike username :=
    fun e he => (List.mem_append.mp he).elim (hpast e) (hlog e)
  exact ⟨fun _ _ => trivial, fun a => hf a log hall, fun _ => lockedIfDue_of_noStrike hall⟩

theorem rateLimit_noStrike {scope subject : String} :
    ∀ c ∈ rateLimitWrites config scope subject, (Stmt.redis c).NoStrike username := by
  intro c hc
  rcases List.mem_pair.mp hc with rfl | rfl
  · intro heq
    cases (rateLimitKey_ne_strikesKey _ _ _) (Command.incr.inj (Stmt.redis.inj heq))
  · intro heq
    cases heq

theorem checkRateLimit_noStrike {scope subject : String} {limit : Nat} :
    (checkRateLimit scope subject limit config.AUTH_LOGIN_WINDOW_SECONDS).Only
      (Stmt.NoStrike username) :=
  checkRateLimit_only rateLimit_noStrike fun _ _ h => by cases h

theorem recordLoginFailure_locking (hpast : ∀ e ∈ past, e.q.NoStrike username) :
    (recordLoginFailure config ip username).Obeys
      (locking config username fun past _ => LockedIfDue config username past) past := by
  refine obeys_noStrike checkRateLimit_noStrike hpast fun _ log hpast => ?_
  refine obeys_noStrike checkRateLimit_noStrike hpast fun _ log' hpast => ?_
  refine Prog.Obeys.bind (obeys_query trivial fun env strikes => ?_)
  -- The strike just counted is the only one of the log.
  have hlast : ∀ rest : Log, (∀ e ∈ rest, e.q.NoStrike username) →
      Prog.Obeys (locking config username fun past _ => LockedIfDue config username past)
        (past ++ log ++ log' ++ ⟨.redis (.incr (strikesKey username)), env, strikes⟩ :: rest)
        (if config.AUTH_LOGIN_LOCK_AFTER_FAILURES ≤ strikes then
          (set (lockKey username) 1 config.AUTH_LOGIN_LOCK_SECONDS).bind fun _ =>
            Prog.ret { locked := true, lockSeconds := config.AUTH_LOGIN_LOCK_SECONDS }
        else .ret { locked := false, lockSeconds := config.AUTH_LOGIN_LOCK_SECONDS } :
          AuthProg LockResult) := by
    intro rest hrest
    split
    · refine ⟨trivial, fun env' _ => ?_⟩
      have hseconds : 0 < config.AUTH_LOGIN_LOCK_SECONDS :=
        Nat.lt_of_lt_of_le (by decide) config.lockSeconds_range.1
      refine fun _ _ _ _ => ⟨env', ?_⟩
      rw [if_pos hseconds]
      exact List.mem_append_right _ (List.mem_singleton_self _)
    · rename_i hunder
      intro env' value hmem hdue
      rcases List.mem_append.mp hmem with hold | hnew
      · exact absurd rfl (hpast _ hold)
      · rcases List.mem_cons.mp hnew with heq | hlater
        · cases heq
          exact absurd hdue hunder
        · exact absurd rfl (hrest _ hlater)
  split
  · refine obeys_query trivial fun env' set? => ?_
    have hrest := hlast
      [⟨.redis (.expire (strikesKey username) config.AUTH_LOGIN_WINDOW_SECONDS), env', set?⟩] fun e he => ?_
    · rw [List.append_assoc]
      exact hrest
    · obtain rfl := List.mem_singleton.mp he
      intro heq
      cases heq
  · exact hlast [] (fun e he => by cases he)

theorem login_locking (dto : LoginDto) (ip : String) :
    (login config ms dto ip).Obeys (locking config dto.username fun _ _ => True) [] := by
  have httl : ∀ scope subject, (Stmt.redis (.ttl (rateLimitKey scope subject))).NoStrike dto.username :=
    fun _ _ h => by cases h
  refine obeys_noStrike (assertCanAttemptLogin_only (fun c hc => ?_) (fun h => by cases h) httl)
    (fun e he => by cases he) fun _ log hpast => ?_
  · exact (List.mem_append.mp hc).elim (rateLimit_noStrike c) (rateLimit_noStrike c)
  refine obeys_noStrike (resolveTenantByCode_only fun h => by cases h) hpast fun tenant log hpast => ?_
  refine obeys_noStrike (p := query (.findUserByAccount none tenant.id dto.username))
    ⟨fun h => (by cases h), fun _ => trivial⟩ hpast fun user log hpast => ?_
  cases user with
  | none =>
      exact Prog.Obeys.bind ((recordLoginFailure_locking hpast).mono (fun _ _ h => h)
        (fun _ _ h => h) fun _ _ h => h)
  | some user =>
      refine obeys_noStrike (p := query (.compare dto.password user.passwordHash))
        ⟨fun h => (by cases h), fun _ => trivial⟩ hpast fun isPwdOk log hpast => ?_
      cases isPwdOk with
      | true =>
          refine obeys_noStrike (clearLoginFailures_only fun h => by cases h) hpast fun _ log hpast => ?_
          refine (buildAuthResponse_only (P := Stmt.NoStrike dto.username) (fun h => by cases h)
            fun h => by cases h).obeys fun log hlog => ⟨fun _ _ => trivial, fun _ => trivial, fun _ => ?_⟩
          exact lockedIfDue_of_noStrike fun e he => (List.mem_append.mp he).elim (hpast e) (hlog e)
      | false =>
          refine Prog.Obeys.bind ((recordLoginFailure_locking hpast).mono (fun _ _ h => h)
            (fun past lock h => ?_) fun _ _ h => h)
          dsimp only
          split
          · exact h
          · exact h

end Attempts

/-! ### Runs -/

section Runs

variable {A : Account} {deployment : Deployment} {r : Run} {db₀ : Db}

theorem error?_of_thread {t : Nat} {th : Thread Db Stmt Stmt.Reply Env AuthException Outcome Call}
    (hth : r.world.threads[t]? = some th) {e : AuthException} :
    r.error? t = some e ↔ th.prog = .throw e := by
  rw [Run.error?, hth, Option.bind_some, Prog.error?_eq_some]

/-- The check of the lock is the first statement of its call. -/
theorem check_first (hr : Traced deployment.system (· = db₀) r)
    {th : Thread Db Stmt Stmt.Reply Env AuthException Outcome Call} {dto : LoginDto} {ip : String}
    {h h' : List (Issued Db Stmt Env)} {t : Nat} {env : Env} {db : Db}
    (hth : r.world.threads[t]? = some th) (hcall : th.call = .login dto ip)
    (hhistory : r.history = h ++ ⟨t, .redis (.ttl (lockKey dto.username)), env, db⟩ :: h') :
    ((own t r.history).map (Issued.entry deployment.system.engine)).findSome? (lockTtlOf dto.username) =
      some (db.redis.ttl deployment.platform.ttlSeconds (lockKey dto.username)) := by
  have hobeys : (deployment.system.program (.login dto ip)).Obeys _ [] := program_guarded dto ip
  rw [← hcall] at hobeys
  have hstart := hr.issued hth hobeys hhistory rfl rfl
  have hself : own t [(⟨t, .redis (.ttl (lockKey dto.username)), env, db⟩ : Issued Db Stmt Env)] =
      [⟨t, .redis (.ttl (lockKey dto.username)), env, db⟩] := own_self rfl
  rw [hhistory, ← List.singleton_append, own_append, List.map_append, hstart, own_append, hself]
  simp [Issued.entry, Issued.reply, lockTtlOf, Deployment.system, Platform.engine, Db.exec,
    Keyspace.exec]

/-- An attempt is refused with 403 exactly when its check has found the lock. -/
theorem refused_iff_found (hr : Traced deployment.system (· = db₀) r)
    {th : Thread Db Stmt Stmt.Reply Env AuthException Outcome Call} {dto : LoginDto} {ip : String}
    {h h' : List (Issued Db Stmt Env)} {t : Nat} {env : Env} {db : Db}
    (hth : r.world.threads[t]? = some th) (hcall : th.call = .login dto ip)
    (hhistory : r.history = h ++ ⟨t, .redis (.ttl (lockKey dto.username)), env, db⟩ :: h')
    (haborted : th.prog ≠ .throw deployment.system.aborted) :
    (∃ message, th.prog = .throw (.http (.forbidden message))) ↔
      0 < db.redis.ttl deployment.platform.ttlSeconds (lockKey dto.username) := by
  have hfirst := check_first hr hth hcall hhistory
  obtain ⟨-, p, hfollows, hp⟩ := hr.threads t th hth
  rcases hp with rfl | hthrown
  · have hobeys : (deployment.system.program th.call).Obeys
        (refusing dto.username fun past _ => FoundOpen dto.username past) [] := by
      rw [hcall]
      exact Prog.Obeys.bind ((login_refusing dto ip).mono (fun _ _ h => h) (fun _ _ h => h) fun _ _ h => h)
    have hleft := hfollows.obeys hobeys
    rw [List.nil_append] at hleft
    -- What the check has found is known from the log.
    have hopen : FoundOpen dto.username ((own t r.history).map (Issued.entry deployment.system.engine)) →
        ¬ 0 < db.redis.ttl deployment.platform.ttlSeconds (lockKey dto.username) := by
      rintro ⟨ttl, hle, hfound⟩
      cases hfound.symm.trans hfirst
      exact Int.not_lt.mpr hle
    cases hprog : th.prog with
    | ret a =>
        rw [hprog] at hleft
        exact iff_of_false (fun ⟨_, h⟩ => by cases h) (hopen hleft)
    | throw e =>
        rw [hprog] at hleft
        rcases hleft with ⟨⟨message, rfl⟩, ttl, hpos, hfound⟩ | ⟨hother, hfound⟩
        · cases hfound.symm.trans hfirst
          exact iff_of_true ⟨message, rfl⟩ hpos
        · refine iff_of_false (fun ⟨message, h⟩ => hother ⟨message, ?_⟩) (hopen hfound)
          cases h
          rfl
    | stmt q k =>
        rw [hprog] at hleft
        refine iff_of_false (fun ⟨_, h⟩ => by cases h) ?_
        rcases hleft.1 with hnil | hfound
        · rw [hnil] at hfirst
          cases hfirst
        · exact hopen hfound
    | start _ _ =>
        rw [hprog] at hleft
        exact hleft.elim
    | commit _ =>
        rw [hprog] at hleft
        exact hleft.elim
  · exact absurd hthrown haborted

/-- A strike that reaches the limit locks, if its call goes on to answer 401. -/
theorem locked_of_strike (hr : Traced deployment.system (· = db₀) r)
    {th : Thread Db Stmt Stmt.Reply Env AuthException Outcome Call} {dto : LoginDto} {ip message : String}
    {t : Nat} {env : Env} {db : Db} (hth : r.world.threads[t]? = some th) (hcall : th.call = .login dto ip)
    (hthrown : th.prog = .throw (.http (.unauthorized message)))
    (hstrike : ⟨t, .redis (.incr (strikesKey dto.username)), env, db⟩ ∈ r.history)
    (hdue : deployment.config.AUTH_LOGIN_LOCK_AFTER_FAILURES ≤
      (db.redis.incr (strikesKey dto.username)).value) :
    ∃ i ∈ r.history, i.thread = t ∧
      i.q = .redis (.set (lockKey dto.username) 1 (some deployment.config.AUTH_LOGIN_LOCK_SECONDS)) := by
  have hobeys : (deployment.system.program th.call).Obeys
      (locking deployment.config dto.username fun _ _ => True) [] := by
    rw [hcall]
    exact Prog.Obeys.bind ((login_locking dto ip).mono (fun _ _ h => h) (fun _ _ h => h) fun _ _ h => h)
  rcases hr.failed hth hobeys hthrown with haborted | hlocked
  · cases haborted
  · obtain ⟨env', hset⟩ := hlocked env _
      (List.mem_map.mpr ⟨_, mem_own.mpr ⟨hstrike, rfl⟩, rfl⟩) hdue
    obtain ⟨s, hmem, -⟩ := logged hset
    exact ⟨_, hmem, rfl, rfl⟩

/-- Within one strike window every write of the strikes counts on them while they live. -/
theorem onlyCounts_of_oneWindow (hreach : (deployment.system.recorded (· = db₀)).ReachableBy
      (fun r a => A.disturbed deployment.platform r a = false) r) {pre seg post : List (Issued Db Stmt Env)}
    (hhistory : r.history = pre ++ seg ++ post) (hwindow : A.OneWindow deployment db₀.redis r pre seg)
    {i : Issued Db Stmt Env} (hi : i ∈ seg.tail) : OnlyCounts (strikesKey A.username) i := by
  intro hwrites
  have hkey : strikesKey A.username ∈ A.keys := List.mem_cons_self
  have hmem : i ∈ r.history := hhistory ▸
    List.mem_append_left _ (List.mem_append_right _ (List.mem_of_mem_tail hi))
  have hr := System.traced_of_reachable (program_plain deployment) hreach
  obtain ⟨th, hth, hwrite⟩ := history_keyWrite hr hmem hwrites
  obtain ⟨dto, ip, hcall, husername, hincr | hother⟩ := hwrite.strikesKey
  · refine Or.inl ⟨hincr, ?_⟩
    cases seg with
    | nil => cases hi
    | cons x seg =>
        obtain ⟨a, b, hsplit⟩ := List.append_of_mem hi
        rw [List.tail_cons] at hsplit
        subst hsplit
        have htried := own_of_writes hreach hmem hkey hwrites
        rw [Account.attempts, hth, Option.any_some, hcall] at htried
        have hstrikes : A.strikes deployment.platform r i = true := by
          simp [Account.strikes, Account.issued, hth, hcall, htried, hincr, husername]
        have hlive := hwindow (x :: a) i b rfl (List.cons_ne_nil _ _) hstrikes
        have hparts : r.history = (pre ++ x :: a) ++ i :: (b ++ post) := by
          rw [hhistory]
          simp
        refine (live_congr ?_ ?_).mp hlive
        · rfl
        · exact alone_before hreach hparts hkey _
  · exact Or.inr hother

end Runs

/-- **The lock of an account**: as long as every login of the account spells its username in one
way, and no attempt on another account of the username records its result, whether an attempt is
refused as locked depends on the attempts on the account alone, and enough wrong passwords within
one strike window lock it. -/
theorem locked_by_own_attempts {deployment : Deployment} {A : Account} {db₀ : Db} {r : Run}
    (hreach : (deployment.system.recorded (· = db₀)).ReachableBy
      (fun r a => A.disturbed deployment.platform r a = false) r) :
    A.LockedByItself deployment db₀.redis r ∧ A.LockedByFailures deployment db₀.redis r := by
  have hr := System.traced_of_reachable (program_plain deployment) hreach
  constructor
  · rintro h ⟨t, _, env, db⟩ h' hhistory hchecks haborted
    obtain ⟨th, dto, ip, hth, hcall, husername, rfl⟩ := issued_of_undisturbed hreach hchecks
    have hrefused : (∃ message, r.error? t = some (.http (.forbidden message))) ↔
        0 < db.redis.ttl deployment.platform.ttlSeconds (lockKey A.username) := by
      rw [← husername] at hhistory ⊢
      simp only [error?_of_thread hth]
      exact refused_iff_found hr hth hcall hhistory fun heq => haborted ((error?_of_thread hth).mpr heq)
    have hsame := alone_before hreach hhistory
      (List.mem_cons_of_mem _ (List.mem_singleton_self (lockKey A.username))) db.redis.now
    have hnow : (A.alone deployment.platform db₀.redis r h db.redis.now).now = db.redis.now := rfl
    rw [hrefused, ttl_congr hnow hsame]
  · intro pre seg post hhistory hwindow ts hnodup hmany hts
    have hmem : ∀ i ∈ seg, i ∈ r.history := fun i hi =>
      hhistory ▸ List.mem_append_left _ (List.mem_append_right _ hi)
    by_contra hnone
    -- Otherwise each strike is below the limit, and no two are the same.
    have hfew : ts.length ≤ deployment.config.AUTH_LOGIN_LOCK_AFTER_FAILURES - 1 := by
      refine length_le_of_numbered (P := CountedAs (strikesKey A.username) seg) hnodup (fun t ht => ?_)
        fun t t' v hne hv hv' => ?_
      · obtain ⟨⟨⟨_, _, env, db⟩, hi, rfl, hstrikes⟩, message, herror⟩ := hts t ht
        obtain ⟨th, dto, ip, hth, hcall, husername, rfl⟩ := issued_of_undisturbed hreach hstrikes
        have hthrown := (error?_of_thread hth).mp herror
        obtain ⟨a, b, hsplit⟩ := List.append_of_mem hi
        refine ⟨(db.redis.incr (strikesKey A.username)).value, ?_, ?_, a, env, db, b, hsplit, rfl⟩
        · rw [Keyspace.incr]
          split
          · exact Nat.one_pos
          · exact Nat.succ_pos _
        · by_contra hover
          refine hnone ⟨_, ht, ?_⟩
          have hstrike := hmem _ hi
          rw [← husername] at hstrike hover ⊢
          exact locked_of_strike hr hth hcall hthrown hstrike (by omega)
      · obtain ⟨s, -, hlinked⟩ := hr.linked
        rw [hhistory, List.append_assoc] at hlinked
        have hlinked' : Linked deployment.platform.engine _ _ _ := hlinked
        exact counts_differ hlinked'
          (fun i hi => onlyCounts_of_oneWindow hreach hhistory hwindow hi) t t' v hne hv hv'
    have hpos := deployment.config.lockAfter_pos
    omega

/-! ### A lock by its own failure -/

def ownAccount : Account := { tenantCode := "default", username := "a" }

/-- The same of the statement at a place of the history. -/
theorem Account.LockedByItself.get {A : Account} {deployment : Deployment} {k : Keyspace Nat} {r : Run}
    (h : A.LockedByItself deployment k r) (n : Nat) (hn : n < r.history.length)
    (hchecks : A.checks deployment.platform r (r.history.get ⟨n, hn⟩) = true)
    (haborted : r.error? (r.history.get ⟨n, hn⟩).thread ≠ some deployment.system.aborted) :
    (∃ message, r.error? (r.history.get ⟨n, hn⟩).thread = some (.http (.forbidden message))) ↔
      0 < (A.alone deployment.platform k r (r.history.take n)
        (r.history.get ⟨n, hn⟩).before.redis.now).ttl deployment.platform.ttlSeconds
          (lockKey A.username) := by
  refine h _ _ (r.history.drop (n + 1)) ?_ hchecks haborted
  exact (List.take_append_drop n _).symm.trans (congrArg _ (List.drop_eq_getElem_cons hn))

/-- Whether the statements of a part of a history fall into one window is read off place by
place. -/
theorem Account.oneWindow_of_get {A : Account} {deployment : Deployment} {k : Keyspace Nat} {r : Run}
    {pre seg : List (Issued Db Stmt Env)}
    (h : ∀ n : Fin seg.length, n.val ≠ 0 → A.strikes deployment.platform r (seg.get n) = true →
      (A.alone deployment.platform k r (pre ++ seg.take n) (seg.get n).before.redis.now).Live
        (strikesKey A.username)) : A.OneWindow deployment k r pre seg := by
  rintro a i b rfl hne hstrikes
  have hlive := h ⟨a.length, by simp⟩ (by simpa using hne)
  simp only [List.get_eq_getElem, List.getElem_append_right (Nat.le_refl _), Nat.sub_self,
    List.getElem_cons_zero, List.take_left'] at hlive
  exact hlive hstrikes

theorem locked_by_its_own_failure :
    (∃ message, lockedRun.error? 1 = some (.http (.forbidden message))) ∧
      ∃ t ∈ [0], ∃ i ∈ lockedRun.history, i.thread = t ∧
        i.q = .redis (.set (lockKey "a") 1 (some 900)) := by
  have hreach : (lockAtOnce.system.recorded (· = oneAccount)).ReachableBy
      (fun _ a => ∀ call, a = .spawn call → ownAccount.respelled lockAtOnce.platform call = false ∧
        ownAccount.shared lockAtOnce.platform call = false) lockedRun := by
    refine Machine.reachableBy_exec
      (Machine.reachableBy_init (s := { world := { committed := oneAccount } }) ⟨⟨rfl, rfl⟩, rfl⟩)
      (show Machine.Admits _ _ _ failThenTryAgain from
        Machine.admits_of_forall fun a ha _ call heq => ?_) ?_
    · have hcall : call = .login (attempt "wrong") "10.0.0.1" ∨
          call = .login (attempt "right") "10.0.0.1" := by
        simpa [failThenTryAgain, heq] using ha
      rcases hcall with rfl | rfl
      · decide +kernel
      · decide +kernel
    · exact (Machine.exec_congr rfl _ _).trans (Option.some_get failThenTryAgain_runs).symm
  obtain ⟨hitself, hfailures⟩ := locked_by_own_attempts (undisturbed_of_unshared hreach)
  constructor
  · exact (hitself.get 17 (by decide +kernel) (by decide +kernel) (by decide +kernel)).mpr
      (by decide +kernel)
  · refine hfailures (lockedRun.history.take 14) (lockedRun.history.drop 14) [] (by simp)
      (Account.oneWindow_of_get (by decide +kernel)) [0] (List.nodup_singleton 0) (by decide) fun t ht =>
        ⟨?_, "登录失败次数过多，账号已锁定 900 秒", ?_⟩
    all_goals
      revert t
      decide +kernel

/-! ### The same username in another tenant -/

/-- The username "a" is taken in both tenants. -/
def twoAccounts : Db where
  redis := { now := 0, entries := fun _ => none }
  tenants := [⟨"t1", "default"⟩, ⟨"t2", "branch"⟩]
  users := ⟨[{ id := firstId, tenantId := some "t1", username := "a", passwordHash := "right" },
      { id := ⟨"u2", by decide⟩, tenantId := some "t2", username := "a", passwordHash := "other" }],
    by decide⟩

def attemptAtBranch (password : String) : LoginDto :=
  { tenantCode := some "branch", username := "a", password }

/-- A wrong password in the other tenant, then a first attempt on the account. -/
def failAtBranch : List (Action Call Env) :=
  (.spawn (.login (attemptAtBranch "guess") "10.0.0.1") :: List.replicate 17 (.run 0 {})) ++
    [.spawn (.login (attempt "right") "10.0.0.2"), .run 1 {}]

theorem failAtBranch_runs :
    (lockAtOnce.machine.exec { world := { committed := twoAccounts } } failAtBranch).isSome := by
  decide +kernel

def lockedFromBranch : Run := (lockAtOnce.machine.exec _ failAtBranch).get failAtBranch_runs

def lockAtTwo : Deployment :=
  { lockAtOnce with
    config :=
      { (default : EnvConfig) with AUTH_LOGIN_LOCK_AFTER_FAILURES := 2, lockAfter_pos := Nat.two_pos } }

/-- Two wrong passwords, and between them a login that succeeds in the other tenant. -/
def succeedAtBranch : List (Action Call Env) :=
  (.spawn (.login (attempt "guess") "10.0.0.1") :: List.replicate 16 (.run 0 {})) ++
    (.spawn (.login (attemptAtBranch "other") "10.0.0.1") :: List.replicate 11 (.run 1 {})) ++
      .spawn (.login (attempt "guess") "10.0.0.1") :: List.replicate 14 (.run 2 {})

/-- Two wrong passwords, of which the second spells the username in capitals. -/
def failInCapitals : List (Action Call Env) :=
  (.spawn (.login (attempt "guess") "10.0.0.1") :: List.replicate 16 (.run 0 {})) ++
    .spawn (.login { attempt "guess" with username := "A" } "10.0.0.1") ::
      List.replicate 15 (.run 1 {})

theorem failInCapitals_runs :
    (lockAtTwo.machine.exec { world := { committed := oneAccount } } failInCapitals).isSome := by
  decide +kernel

def countedApart : Run := (lockAtTwo.machine.exec _ failInCapitals).get failInCapitals_runs

theorem succeedAtBranch_runs :
    (lockAtTwo.machine.exec { world := { committed := twoAccounts } } succeedAtBranch).isSome := by
  decide +kernel

def clearedFromBranch : Run := (lockAtTwo.machine.exec _ succeedAtBranch).get succeedAtBranch_runs

/-- A failure in another tenant locks the account before any attempt on it, and a success
there lets two wrong passwords on it go by where two are to lock; so does another spelling of its
username, in a database of one tenant and one user. -/
theorem lock_shared_between_tenants :
    (∃ r, (lockAtOnce.system.recorded (· = twoAccounts)).Reachable r ∧
      ¬ ownAccount.LockedByItself lockAtOnce twoAccounts.redis r) ∧
    (∃ r, (lockAtTwo.system.recorded (· = twoAccounts)).Reachable r ∧
      ¬ ownAccount.LockedByFailures lockAtTwo twoAccounts.redis r) ∧
    ∃ r, (lockAtTwo.system.recorded (· = oneAccount)).Reachable r ∧
      ¬ ownAccount.LockedByFailures lockAtTwo oneAccount.redis r := by
  refine ⟨?_, ?_, ?_⟩
  · refine ⟨lockedFromBranch, ?_, fun hitself => ?_⟩
    · refine Machine.reachableBy_exec
        (Machine.reachableBy_init (s := { world := { committed := twoAccounts } }) ⟨⟨rfl, rfl⟩, rfl⟩)
        (Machine.admits_true _ failAtBranch) ?_
      exact (Machine.exec_congr rfl _ _).trans (Option.some_get failAtBranch_runs).symm
    · have hlocked := (hitself.get 17 (by decide +kernel) (by decide +kernel) (by decide +kernel)).mp
        ⟨"登录失败次数过多，账号已锁定，请 900 秒后重试", by decide +kernel⟩
      revert hlocked
      decide +kernel
  · refine ⟨clearedFromBranch, ?_, fun hfailures => ?_⟩
    · refine Machine.reachableBy_exec
        (Machine.reachableBy_init (s := { world := { committed := twoAccounts } }) ⟨⟨rfl, rfl⟩, rfl⟩)
        (Machine.admits_true _ succeedAtBranch) ?_
      exact (Machine.exec_congr rfl _ _).trans (Option.some_get succeedAtBranch_runs).symm
    · have hlock := hfailures (clearedFromBranch.history.take 14) (clearedFromBranch.history.drop 14) []
        (by simp) (Account.oneWindow_of_get (by decide +kernel)) [0, 2] (by decide) (by decide) fun t ht =>
          ⟨?_, "用户名或密码错误", ?_⟩
      · revert hlock
        decide +kernel
      all_goals
        revert t
        decide +kernel
  · refine ⟨countedApart, ?_, fun hfailures => ?_⟩
    · refine Machine.reachableBy_exec
        (Machine.reachableBy_init (s := { world := { committed := oneAccount } }) ⟨⟨rfl, rfl⟩, rfl⟩)
        (Machine.admits_true _ failInCapitals) ?_
      exact (Machine.exec_congr rfl _ _).trans (Option.some_get failInCapitals_runs).symm
    · have hlock := hfailures (countedApart.history.take 14) (countedApart.history.drop 14) []
        (by simp) (Account.oneWindow_of_get (by decide +kernel)) [0, 1] (by decide) (by decide) fun t ht =>
          ⟨?_, "用户名或密码错误", ?_⟩
      · revert hlock
        decide +kernel
      all_goals
        revert t
        decide +kernel

end MibServer.Auth
