import MibServer.Auth.Service
import Mathlib.Data.List.Perm.Subperm

/-!
The guard of `login`: the rate limits and the lock, under any interleaving.

Of the keys of the guard only `login` writes any: a rate counter by `INCR` and `EXPIRE`, the
lock by the `SET` of a failure and the `DEL` of a success. So the replies to `INCR` within
one lifetime of a counter are all different, and a call that has passed the guard has got
one of the first `AUTH_LOGIN_MAX_ATTEMPTS` of them; and a lock that has been set is found by
every check before its expiry, unless a success has deleted it.
-/

namespace MibServer.Auth

open MibServer.Lib MibServer.Redis

/-! ### Keys -/

/-- Two prefixes that differ at a place keep the keys after them apart. -/
theorem key_ne {p p' : String} (n : Nat) (hp : n < p.toList.length) (hp' : n < p'.toList.length)
    (hne : p.toList[n]? ≠ p'.toList[n]?) (s s' : String) : p ++ s ≠ p' ++ s' := by
  intro heq
  have hat := congrArg (fun key : String => key.toList[n]?) heq
  simp only [String.toList_append] at hat
  rw [List.getElem?_append_left hp, List.getElem?_append_left hp'] at hat
  exact hne hat

theorem rateLimitKey_ne_lockKey (scope subject username : String) :
    rateLimitKey scope subject ≠ lockKey username :=
  key_ne 0 (by decide) (by decide) (by decide) _ _

theorem rateLimitKey_ne_strikesKey (scope subject username : String) :
    rateLimitKey scope subject ≠ strikesKey username :=
  key_ne 0 (by decide) (by decide) (by decide) _ _

theorem rateLimitKey_ne_tokenBlacklistKey (scope subject tokenId : String) :
    rateLimitKey scope subject ≠ tokenBlacklistKey tokenId :=
  key_ne 0 (by decide) (by decide) (by decide) _ _

theorem lockKey_ne_strikesKey (username username' : String) : lockKey username ≠ strikesKey username' :=
  key_ne 11 (by decide) (by decide) (by decide) _ _

theorem lockKey_ne_tokenBlacklistKey (username tokenId : String) :
    lockKey username ≠ tokenBlacklistKey tokenId :=
  key_ne 5 (by decide) (by decide) (by decide) _ _

theorem strikesKey_ne_tokenBlacklistKey (username tokenId : String) :
    strikesKey username ≠ tokenBlacklistKey tokenId :=
  key_ne 5 (by decide) (by decide) (by decide) _ _

theorem lockKey_inj {username username' : String} (h : lockKey username = lockKey username') :
    username = username' :=
  (String.append_right_inj _).mp h

theorem strikesKey_inj {username username' : String} (h : strikesKey username = strikesKey username') :
    username = username' :=
  (String.append_right_inj _).mp h

/-! ### Who writes them -/

/-- What a statement of a call does to a key of Redis it writes. -/
inductive KeyWrite (config : EnvConfig) : Call → Stmt → String → Prop where
  | count {dto ip} (scope subject : String) : KeyWrite config (.login dto ip)
      (.redis (.incr (rateLimitKey scope subject))) (rateLimitKey scope subject)
  | countExpiry {dto ip} (scope subject : String) : KeyWrite config (.login dto ip)
      (.redis (.expire (rateLimitKey scope subject) config.AUTH_LOGIN_WINDOW_SECONDS))
      (rateLimitKey scope subject)
  | strike (dto : LoginDto) (ip : String) : KeyWrite config (.login dto ip)
      (.redis (.incr (strikesKey dto.username))) (strikesKey dto.username)
  | strikeExpiry (dto : LoginDto) (ip : String) : KeyWrite config (.login dto ip)
      (.redis (.expire (strikesKey dto.username) config.AUTH_LOGIN_WINDOW_SECONDS))
      (strikesKey dto.username)
  | lock (dto : LoginDto) (ip : String) : KeyWrite config (.login dto ip)
      (.redis (.set (lockKey dto.username) 1 (some config.AUTH_LOGIN_LOCK_SECONDS)))
      (lockKey dto.username)
  | clear (dto : LoginDto) (ip : String) {key : String}
      (hkey : key = strikesKey dto.username ∨ key = lockKey dto.username) :
      KeyWrite config (.login dto ip)
        (.redis (.del [strikesKey dto.username, lockKey dto.username])) key
  | blacklist (user : AuthUser) (ttl : Option Nat) : KeyWrite config (.logout user)
      (.redis (.set (tokenBlacklistKey user.jti) 1 ttl)) (tokenBlacklistKey user.jti)

section Writes

variable {config : EnvConfig} {call : Call} {q : Stmt} {key : String}

theorem Stmt.Reads.writes_nil (h : q.Reads) : q.writes = [] := by
  cases q with
  | redis c =>
      cases c with
      | ttl _ | «exists» _ => rfl
      | incr _ | expire _ _ | set _ _ _ | del _ => exact h.elim
  | _ => rfl

theorem keyWrite_of_mem (h : call.Writes config q ∨ q.Reads) (hkey : key ∈ q.writes) :
    KeyWrite config call q key := by
  rcases h with h | h
  · cases call with
    | login dto ip =>
        obtain ⟨c, hc, rfl⟩ := h
        simp only [loginWrites, failureWrites, guardWrites, rateLimitWrites, List.cons_append, List.nil_append,
          List.mem_cons, List.not_mem_nil, or_false] at hc
        rcases hc with rfl | rfl | rfl | rfl | rfl | rfl | rfl | rfl <;>
          simp only [Stmt.writes, Command.writes, List.mem_cons, List.not_mem_nil, or_false] at hkey
        · subst hkey
          exact .count _ _
        · subst hkey
          exact .countExpiry _ _
        · subst hkey
          exact .count _ _
        · subst hkey
          exact .countExpiry _ _
        · subst hkey
          exact .strike dto ip
        · subst hkey
          exact .strikeExpiry dto ip
        · subst hkey
          exact .lock dto ip
        · exact .clear dto ip hkey
    | register _ _ =>
        obtain ⟨_, _, _, rfl⟩ := h
        cases hkey
    | changePassword _ _ _ =>
        obtain ⟨_, _, rfl⟩ := h
        cases hkey
    | logout user =>
        obtain ⟨ttl, rfl⟩ := h
        obtain rfl := List.mem_singleton.mp hkey
        exact .blacklist user ttl
    | validate _ => exact h.elim
    | pass _ =>
        cases h
        cases hkey
  · rw [h.writes_nil] at hkey
    cases hkey

/-- A rate counter is counted on, or given its expiry. -/
theorem KeyWrite.rateLimit {scope subject : String}
    (h : KeyWrite config call q (rateLimitKey scope subject)) :
    q = .redis (.incr (rateLimitKey scope subject)) ∨
      ∃ seconds, q = .redis (.expire (rateLimitKey scope subject) seconds) := by
  generalize hk : rateLimitKey scope subject = k at h
  cases h with
  | count scope' subject' => exact Or.inl rfl
  | countExpiry scope' subject' => exact Or.inr ⟨_, rfl⟩
  | strike dto ip | strikeExpiry dto ip => exact absurd hk (rateLimitKey_ne_strikesKey _ _ _)
  | lock dto ip => exact absurd hk (rateLimitKey_ne_lockKey _ _ _)
  | clear dto ip hkey =>
      rcases hkey with rfl | rfl
      · exact absurd hk (rateLimitKey_ne_strikesKey _ _ _)
      · exact absurd hk (rateLimitKey_ne_lockKey _ _ _)
  | blacklist user ttl => exact absurd hk (rateLimitKey_ne_tokenBlacklistKey _ _ _)

/-- The lock of a username is set or deleted by a login of that username. -/
theorem KeyWrite.lockKey {username : String} (h : KeyWrite config call q (lockKey username)) :
    ∃ dto ip, call = .login dto ip ∧ dto.username = username ∧
      (q = .redis (.set (lockKey username) 1 (some config.AUTH_LOGIN_LOCK_SECONDS)) ∨
        q = .redis (.del [strikesKey username, Auth.lockKey username])) := by
  generalize hk : Auth.lockKey username = k at h
  cases h with
  | count scope' subject' | countExpiry scope' subject' =>
      exact absurd hk.symm (rateLimitKey_ne_lockKey _ _ _)
  | strike dto ip | strikeExpiry dto ip => exact absurd hk (lockKey_ne_strikesKey _ _)
  | lock dto ip =>
      obtain rfl := lockKey_inj hk
      exact ⟨dto, ip, rfl, rfl, Or.inl rfl⟩
  | clear dto ip hkey =>
      rcases hkey with rfl | rfl
      · exact absurd hk (lockKey_ne_strikesKey _ _)
      · obtain rfl := lockKey_inj hk
        exact ⟨dto, ip, rfl, rfl, Or.inr rfl⟩
  | blacklist user ttl => exact absurd hk (lockKey_ne_tokenBlacklistKey _ _)

end Writes

/-! ### What the guard has seen -/

abbrev Log := List (Entry Stmt Stmt.Reply Env)

/-- The reply to an `INCR` of the key. -/
def countOf (key : String) : Entry Stmt Stmt.Reply Env → Option Nat
  | ⟨.redis (.incr key'), _, value⟩ => if key' = key then some value else none
  | _ => none

/-- The reply to the check of the lock. -/
def lockTtlOf (username : String) : Entry Stmt Stmt.Reply Env → Option Int
  | ⟨.redis (.ttl key), _, ttl⟩ => if key = lockKey username then some ttl else none
  | _ => none

/-- The call has found no lock, and its first count on each limit was within it. -/
structure PassedGuard (config : EnvConfig) (ip username : String) (past : Log) : Prop where
  lock : ∃ ttl ≤ 0, past.findSome? (lockTtlOf username) = some ttl
  counts : ∀ key, key = rateLimitKey "login:ip" ip ∨ key = rateLimitKey "login:user" username →
    ∃ value ≤ config.AUTH_LOGIN_MAX_ATTEMPTS, past.findSome? (countOf key) = some value

/-- A comparison of passwords that succeeded. -/
def Matched (past : Log) : Prop :=
  ∃ password passwordHash env, ⟨.compare password passwordHash, env, true⟩ ∈ past

/-- The lock is checked first, passwords are compared after the guard, and strikes are
cleared after a match. -/
def guardedIssue (config : EnvConfig) (ip username : String) (past : Log) : Stmt → Prop
  | .redis (.ttl key) => key = lockKey username → past = []
  | .compare _ _ => PassedGuard config ip username past
  | .redis (.del _) => Matched past
  | _ => True

/-- A statement `guardedIssue` asks nothing of. -/
def Stmt.Unguarded : Stmt → Prop
  | .redis (.ttl key) => ∀ username, key ≠ lockKey username
  | .compare _ _ | .redis (.del _) => False
  | _ => True

section Guard

variable {config : EnvConfig} {ms : String → Option ℚ} {ip username : String} {past : Log}

theorem findSome_append_of_some {β : Type} {f : Entry Stmt Stmt.Reply Env → Option β} {b : β}
    (h : past.findSome? f = some b) (log : Log) : (past ++ log).findSome? f = some b := by
  rw [List.findSome?_append, h]
  rfl

theorem PassedGuard.append (h : PassedGuard config ip username past) (log : Log) :
    PassedGuard config ip username (past ++ log) := by
  constructor
  · obtain ⟨ttl, hle, hfirst⟩ := h.lock
    exact ⟨ttl, hle, findSome_append_of_some hfirst log⟩
  · intro key hkey
    obtain ⟨value, hle, hfirst⟩ := h.counts key hkey
    exact ⟨value, hle, findSome_append_of_some hfirst log⟩

theorem guardedIssue_of_unguarded {q : Stmt} (h : q.Unguarded) : guardedIssue config ip username past q := by
  cases q with
  | redis c =>
      cases c with
      | ttl key => exact fun hkey => absurd hkey (h username)
      | del _ => exact h.elim
      | _ => trivial
  | compare _ _ => exact h.elim
  | _ => trivial

/-- The specification of a piece of `login`. -/
def guarded (config : EnvConfig) (ip username : String) {α : Type} (finish : Log → α → Prop) :
    TraceSpec Stmt Stmt.Reply Env AuthException α where
  issue := guardedIssue config ip username
  finish := finish

/-- A piece of `login` that neither compares nor clears. -/
theorem obeys_unguarded {α β : Type} {p : AuthProg α} {f : α → AuthProg β} {finish : Log → β → Prop}
    (hp : p.Only Stmt.Unguarded)
    (hf : ∀ a log, (f a).Obeys (guarded config ip username finish) (past ++ log)) :
    (p.bind f).Obeys (guarded config ip username finish) past := by
  refine Prog.Obeys.bind (hp.obeys fun log _ => ⟨fun q hq => ?_, fun a => hf a log, fun _ => trivial⟩)
  exact guardedIssue_of_unguarded hq

/-- A rate limit counts once; its answer compares the count with the limit. -/
theorem checkRateLimit_obeys {T : TraceSpec Stmt Stmt.Reply Env AuthException RateLimitResult}
    {scope subject : String} {limit window : Nat}
    (hincr : T.issue past (.redis (.incr (rateLimitKey scope subject))))
    (hissue : ∀ (log : Log) (q : Stmt), q = .redis (.expire (rateLimitKey scope subject) window) ∨
      q = .redis (.ttl (rateLimitKey scope subject)) → T.issue (past ++ log) q)
    (hfinish : ∀ env value rest ttl, (∀ e ∈ rest, ∀ key, e.q ≠ .redis (.incr key)) →
      T.finish (past ++ ⟨.redis (.incr (rateLimitKey scope subject)), env, value⟩ :: rest)
        { allowed := value ≤ limit, current := value, ttl }) :
    (checkRateLimit scope subject limit window).Obeys T past := by
  refine Prog.Obeys.bind (obeys_query hincr fun env value => ?_)
  have hlast : ∀ rest : Log, (∀ e ∈ rest, ∀ key, e.q ≠ .redis (.incr key)) →
      Prog.Obeys T (past ++ ⟨.redis (.incr (rateLimitKey scope subject)), env, value⟩ :: rest)
        ((query (.redis (.ttl (rateLimitKey scope subject)))).bind fun ttl =>
          .ret { allowed := value ≤ limit, current := value, ttl }) := by
    intro rest hrest
    refine obeys_query (hissue _ _ (Or.inr rfl)) fun env' ttl => ?_
    rw [List.append_assoc, List.cons_append]
    refine hfinish env value _ ttl fun e he key => ?_
    rcases List.mem_append.mp he with he | he
    · exact hrest e he key
    · rw [List.mem_singleton.mp he]
      intro heq
      cases heq
  split
  · refine obeys_query (hissue _ _ (Or.inl rfl)) fun env' set? => ?_
    have hrest := hlast [⟨.redis (.expire (rateLimitKey scope subject) window), env', set?⟩]
      fun e he key => by
        rw [List.mem_singleton.mp he]
        intro heq
        cases heq
    rw [List.append_assoc]
    exact hrest
  · exact hlast [] fun e he => by cases he

theorem countOf_eq_none {key : String} {e : Entry Stmt Stmt.Reply Env} (h : e.q ≠ .redis (.incr key)) :
    countOf key e = none := by
  unfold countOf
  split
  · split
    · rename_i heq
      exact absurd (congrArg (fun k => Stmt.redis (.incr k)) heq) h
    · rfl
  · rfl

theorem findSome?_countOf_eq_none {key : String} {log : Log} (h : ∀ e ∈ log, e.q ≠ .redis (.incr key)) :
    log.findSome? (countOf key) = none :=
  List.findSome?_eq_none_iff.mpr fun e he => countOf_eq_none (h e he)

theorem checkCanAttemptLogin_obeys :
    (checkCanAttemptLogin config ip username).Obeys
      (guarded config ip username fun past result =>
        result = .ok → PassedGuard config ip username past) [] := by
  have hissue : ∀ {scope subject : String} (past log : Log) (q : Stmt),
      q = .redis (.expire (rateLimitKey scope subject) config.AUTH_LOGIN_WINDOW_SECONDS) ∨
        q = .redis (.ttl (rateLimitKey scope subject)) →
      guardedIssue config ip username (past ++ log) q := by
    rintro scope subject past log q (rfl | rfl)
    · trivial
    · exact fun hkey => absurd hkey (rateLimitKey_ne_lockKey _ _ _)
  refine obeys_query (fun _ => rfl) fun env lockTtl => ?_
  split
  · exact fun h => by cases h
  rename_i hlock
  refine Prog.Obeys.bind (checkRateLimit_obeys trivial (hissue _) fun env₁ value₁ rest₁ ttl₁ hrest₁ => ?_)
  dsimp only
  split
  · exact fun h => by cases h
  rename_i hip
  refine Prog.Obeys.bind (checkRateLimit_obeys trivial (hissue _) fun env₂ value₂ rest₂ ttl₂ hrest₂ => ?_)
  dsimp only
  split
  · exact fun h => by cases h
  rename_i huser
  intro _
  have hvalue₁ : value₁ ≤ config.AUTH_LOGIN_MAX_ATTEMPTS := by simpa using hip
  have hvalue₂ : value₂ ≤ config.AUTH_LOGIN_MAX_ATTEMPTS := by simpa using huser
  constructor
  · refine ⟨lockTtl, Int.not_lt.mp hlock, ?_⟩
    simp [lockTtlOf]
  · rintro key (rfl | rfl)
    · refine ⟨value₁, hvalue₁, ?_⟩
      simp [List.findSome?_cons, countOf]
    · by_cases hsame : rateLimitKey "login:ip" ip = rateLimitKey "login:user" username
      · refine ⟨value₁, hvalue₁, ?_⟩
        simp [List.findSome?_cons, countOf, hsame]
      · refine ⟨value₂, hvalue₂, ?_⟩
        have hnone := findSome?_countOf_eq_none fun e he =>
          hrest₁ e he (rateLimitKey "login:user" username)
        simp [List.findSome?_cons, List.findSome?_append, countOf, hsame, hnone]

theorem failureWrites_unguarded : ∀ c ∈ failureWrites config ip username, (Stmt.redis c).Unguarded := by
  simp [failureWrites, guardWrites, rateLimitWrites, Stmt.Unguarded]

theorem rateLimitTtl_unguarded (scope subject : String) :
    (Stmt.redis (.ttl (rateLimitKey scope subject))).Unguarded :=
  rateLimitKey_ne_lockKey scope subject

theorem assertCanAttemptLogin_obeys :
    (assertCanAttemptLogin config ip username).Obeys
      (guarded config ip username fun past _ => PassedGuard config ip username past) [] := by
  refine Prog.Obeys.bind (checkCanAttemptLogin_obeys.mono (fun _ _ h => h) (fun past result h => ?_)
    fun _ _ _ => trivial)
  cases result with
  | ok => exact h rfl
  | locked _ | rateLimited _ => trivial

theorem login_guarded (dto : LoginDto) (ip : String) :
    (login config ms dto ip).Obeys (guarded config ip dto.username fun _ _ => True) [] := by
  have hfailure : (recordLoginFailure config ip dto.username).Only Stmt.Unguarded :=
    recordLoginFailure_only failureWrites_unguarded rateLimitTtl_unguarded
  refine Prog.Obeys.bind (assertCanAttemptLogin_obeys.mono (fun _ _ h => h) (fun past _ hpassed => ?_)
    fun _ _ h => h)
  refine obeys_unguarded (resolveTenantByCode_only trivial) fun tenant log => ?_
  refine obeys_query trivial fun env user => ?_
  cases user with
  | none => exact obeys_unguarded hfailure fun _ _ => trivial
  | some user =>
      refine obeys_query ((hpassed.append _).append _) fun env' isPwdOk => ?_
      cases isPwdOk with
      | true =>
          refine Prog.Obeys.bind (obeys_query ?_ fun _ _ => ?_)
          · exact ⟨dto.password, user.passwordHash, env', List.mem_append_right _ List.mem_cons_self⟩
          · exact (buildAuthResponse_only (P := Stmt.Unguarded) trivial trivial).obeys fun log _ =>
              ⟨fun q hq => guardedIssue_of_unguarded hq, fun _ => trivial, fun _ => trivial⟩
      | false =>
          refine obeys_unguarded hfailure fun lock _ => ?_
          split
          · exact trivial
          · exact trivial

end Guard

/-! ### The history of the guard -/

section Runs

variable {deployment : Deployment} {r : Run}

/-- A login of the system keeps to its guard. -/
theorem program_guarded (dto : LoginDto) (ip : String) :
    (deployment.system.program (.login dto ip)).Obeys
      (guarded deployment.config ip dto.username fun _ _ => True) [] :=
  Prog.Obeys.bind ((login_guarded dto ip).mono (fun _ _ h => h) (fun _ _ _ => trivial) fun _ _ h => h)

/-- The history writes keys as the programs of its calls do. -/
theorem history_keyWrite {init : Db → Prop} (hr : Traced deployment.system init r)
    {i : Issued Db Stmt Env} (hi : i ∈ r.history) {key : String} (hkey : key ∈ i.q.writes) :
    ∃ th, r.world.threads[i.thread]? = some th ∧ KeyWrite deployment.config th.call i.q key := by
  have hlt := hr.issuers i hi
  refine ⟨_, List.getElem?_eq_getElem hlt, keyWrite_of_mem ?_ hkey⟩
  exact hr.only hi (List.getElem?_eq_getElem hlt) (program_only deployment _)

/-! ### Counting within one lifetime -/

/-- The stored counter has reached `n`. -/
def CountedTo (key : String) (n : Nat) (db : Db) : Prop :=
  ∃ v, db.redis.entries key = some v ∧ n ≤ v.value

variable {platform : Platform} {db : Db} {env : Env}

theorem get?_eq_some {s : Keyspace Nat} {key : String} {v : Stored Nat Nat} :
    s.get? key = some v ↔ s.entries key = some v ∧ v.live s.now = true :=
  Option.filter_eq_some_iff

/-- `INCR` of a live counter goes beyond what it has reached. -/
theorem CountedTo.lt_incr {key : String} {n : Nat} (h : CountedTo key n db)
    (hlive : db.redis.Live key) : n < (db.redis.incr key).value := by
  obtain ⟨v, hv⟩ := Option.isSome_iff_exists.mp hlive
  obtain ⟨v', hentry, hn⟩ := h
  rw [(get?_eq_some.mp hv).1] at hentry
  cases hentry
  rw [Keyspace.incr, hv]
  exact Nat.lt_succ_of_le hn

/-- What the statements of a history do to a counter: they count on it while it is live, set
its expiry or delete it. -/
def OnlyCounts (key : String) (i : Issued Db Stmt Env) : Prop :=
  key ∈ i.q.writes → (i.q = .redis (.incr key) ∧ i.before.redis.Live key) ∨
    (∃ seconds, i.q = .redis (.expire key seconds)) ∨ ∃ keys, i.q = .redis (.del keys)

/-- The counter has reached `n`, unless it has been deleted. -/
theorem OnlyCounts.countedTo {key : String} {n : Nat} {i : Issued Db Stmt Env} (hi : OnlyCounts key i)
    (h : CountedTo key n i.before ∨ i.before.redis.entries key = none) :
    CountedTo key n (i.after platform.engine) ∨ (i.after platform.engine).redis.entries key = none := by
  obtain ⟨t, q, env, db⟩ := i
  by_cases hwrites : key ∈ q.writes
  · rcases hi hwrites with ⟨hq, hlive⟩ | ⟨seconds, hq⟩ | ⟨keys, hq⟩
    · dsimp only at hq
      subst hq
      rcases h with h | h
      · exact Or.inl ⟨_, Keyspace.entries_put_self .., Nat.le_of_lt (h.lt_incr hlive)⟩
      · obtain ⟨v, hv⟩ := Option.isSome_iff_exists.mp hlive
        rw [(get?_eq_some.mp hv).1] at h
        cases h
    · dsimp only at hq
      subst hq
      change CountedTo key n (db.exec platform env (.redis (.expire key seconds))).2 ∨
        (db.exec platform env (.redis (.expire key seconds))).2.redis.entries key = none
      cases hget : db.redis.get? key with
      | none => simpa [Db.exec, Keyspace.exec, hget, CountedTo] using h
      | some v =>
          rcases h with ⟨v', hentry, hn⟩ | h
          · rw [(get?_eq_some.mp hget).1] at hentry
            cases hentry
            refine Or.inl ⟨{ v with expiresAt := some (db.redis.now + 1000 * seconds) }, ?_, hn⟩
            simp only [Db.exec, Keyspace.exec, hget]
            exact Keyspace.entries_put_self ..
          · rw [(get?_eq_some.mp hget).1] at h
            cases h
    · dsimp only at hq
      subst hq
      exact Or.inr (if_pos hwrites)
  · have hsame : (db.exec platform env q).2.redis.entries key = db.redis.entries key :=
      exec_redis_entries hwrites
    rcases h with ⟨v, hentry, hn⟩ | h
    · exact Or.inl ⟨v, hsame.trans hentry, hn⟩
    · exact Or.inr (hsame.trans h)

/-- The key does not cease to exist in this part of a history: it exists before each of its
statements, but perhaps the one that creates it. -/
def OneLifetime (key : String) (seg : List (Issued Db Stmt Env)) : Prop :=
  ∀ i ∈ seg.tail, i.before.redis.Live key

/-- A later `INCR` of a counter replies with a greater number, if the counter lives then. -/
theorem incr_lt_incr {s s' : Db} {pre a b c : List (Issued Db Stmt Env)} {t t' : Nat} {env env' : Env}
    {db db' : Db} {key : String}
    (hl : Linked platform.engine s (pre ++ (a ++ ⟨t, .redis (.incr key), env, db⟩ ::
      (b ++ ⟨t', .redis (.incr key), env', db'⟩ :: c))) s')
    (hb : ∀ i ∈ b, OnlyCounts key i) (hlive : db'.redis.Live key) :
    (db.redis.incr key).value < (db'.redis.incr key).value := by
  rw [← List.append_assoc] at hl
  obtain ⟨-, hafter⟩ := hl.around
  have hcounted : CountedTo key (db.redis.incr key).value db' ∨ db'.redis.entries key = none :=
    hafter.around.1.keeps (I := fun db => CountedTo key _ db ∨ db.redis.entries key = none)
      (Or.inl ⟨_, Keyspace.entries_put_self .., Nat.le_refl _⟩) fun i hi h => (hb i hi).countedTo h
  rcases hcounted with hcounted | hnone
  · exact hcounted.lt_incr hlive
  · obtain ⟨v, hv⟩ := Option.isSome_iff_exists.mp hlive
    rw [(get?_eq_some.mp hv).1] at hnone
    cases hnone

/-- Of two places of a list one comes first. -/
theorem split_cases {α : Type} {xs a b a' b' : List α} {x y : α} (h : xs = a ++ x :: b)
    (h' : xs = a' ++ y :: b') (hne : x ≠ y) :
    (∃ m, xs = a ++ x :: (m ++ y :: b')) ∨ ∃ m, xs = a' ++ y :: (m ++ x :: b) := by
  rcases List.append_eq_append_iff.mp (h.symm.trans h') with ⟨m, ha', hb⟩ | ⟨m, ha, hb'⟩
  · cases m with
    | nil =>
        cases hb
        exact absurd rfl hne
    | cons z m =>
        cases hb
        exact Or.inl ⟨m, h⟩
  · cases m with
    | nil =>
        cases hb'
        exact absurd rfl hne
    | cons z m =>
        cases hb'
        exact Or.inr ⟨m, h'⟩

/-- Different numbers from 1 to `n` are at most `n`. -/
theorem length_le_of_numbered {α : Type} {ts : List α} (hnodup : ts.Nodup) {n : Nat}
    {P : α → Nat → Prop} (hP : ∀ t ∈ ts, ∃ v, 0 < v ∧ v ≤ n ∧ P t v)
    (hdiffer : ∀ t t' v, t ≠ t' → P t v → P t' v → False) : ts.length ≤ n := by
  choose! v hpos hle hv using hP
  have hmap : (ts.map v).Nodup := hnodup.map_on fun t ht t' ht' heq => by
    by_contra hne
    exact hdiffer t t' (v t) hne (hv t ht) (heq ▸ hv t' ht')
  have hsubset : ts.map v ⊆ List.range' 1 n := by
    intro m hm
    obtain ⟨t, ht, rfl⟩ := List.mem_map.mp hm
    have hbound := hle t ht
    have hfirst := hpos t ht
    exact List.mem_range'_1.mpr ⟨hfirst, by omega⟩
  simpa using (List.subperm_of_subset hmap hsubset).length_le

/-- The thread has made count `v` of the counter in the part `seg` of a history. -/
def CountedAs (key : String) (seg : List (Issued Db Stmt Env)) (t v : Nat) : Prop :=
  ∃ a env db b, seg = a ++ ⟨t, .redis (.incr key), env, db⟩ :: b ∧ v = (db.redis.incr key).value

/-- While a counter lives no two threads make the same count. -/
theorem counts_differ {s s' : Db} {pre seg post : List (Issued Db Stmt Env)} {key : String}
    (hl : Linked platform.engine s (pre ++ (seg ++ post)) s')
    (hseg : ∀ i ∈ seg.tail, OnlyCounts key i) (t t' v : Nat) (hne : t ≠ t')
    (hv : CountedAs key seg t v) (hv' : CountedAs key seg t' v) : False := by
  -- Two counts at different places, the first `v` and the second greater.
  have hlt : ∀ {t t' : Nat} {a m c : List (Issued Db Stmt Env)} {env env' : Env} {db db' : Db},
      seg = a ++ ⟨t, .redis (.incr key), env, db⟩ :: (m ++ ⟨t', .redis (.incr key), env', db'⟩ :: c) →
      (db.redis.incr key).value < (db'.redis.incr key).value := by
    intro t t' a m c env env' db db' heq
    have htail : ∀ i ∈ m ++ ⟨t', .redis (.incr key), env', db'⟩ :: c, i ∈ seg.tail := by
      intro i hi
      rw [heq]
      cases a with
      | nil => exact hi
      | cons _ a => exact List.mem_append_right _ (List.mem_cons_of_mem _ hi)
    rw [heq, List.append_assoc, List.cons_append, List.append_assoc, List.cons_append] at hl
    refine incr_lt_incr hl (fun i hi => hseg i (htail i (List.mem_append_left _ hi))) ?_
    have hlast := hseg _ (htail _ (List.mem_append_right _ List.mem_cons_self))
    rcases hlast (List.mem_singleton_self _) with ⟨-, hlive⟩ | ⟨_, hq⟩ | ⟨_, hq⟩
    · exact hlive
    · cases hq
    · cases hq
  obtain ⟨a, env, db, b, hplace, hvalue⟩ := hv
  obtain ⟨a', env', db', b', hplace', hvalue'⟩ := hv'
  rcases split_cases hplace hplace' fun heq => hne (congrArg Issued.thread heq) with ⟨m, hm⟩ | ⟨m, hm⟩
  · have hless := hlt hm
    omega
  · have hless := hlt hm
    omega

/-- The count a thread makes for its guard falls into the part `seg` of a history. -/
def CountsIn (key : String) (t : Nat) (pre seg : List (Issued Db Stmt Env)) : Prop :=
  ∃ a i b, seg = a ++ i :: b ∧ i.thread = t ∧ i.q = .redis (.incr key) ∧
    ∀ j ∈ pre ++ a, j.thread = t → j.q ≠ .redis (.incr key)

/-- The thread reaches the comparison of passwords. -/
def Compares (t : Nat) (h : List (Issued Db Stmt Env)) : Prop :=
  ∃ i ∈ h, i.thread = t ∧ ∃ password passwordHash, i.q = .compare password passwordHash

/-- The reply to the first count of a thread, found in its log. -/
theorem first_count {platform : Platform} {h a b : List (Issued Db Stmt Env)} {key : String} {t : Nat}
    {env : Env} {db : Db} (hplace : h = a ++ ⟨t, .redis (.incr key), env, db⟩ :: b)
    (hfirst : ∀ j ∈ a, j.thread = t → j.q ≠ .redis (.incr key)) :
    ((own t h).map (Issued.entry platform.engine)).findSome? (countOf key) =
      some (db.redis.incr key).value := by
  have hnone : ((own t a).map (Issued.entry platform.engine)).findSome? (countOf key) = none := by
    refine findSome?_countOf_eq_none fun e he => ?_
    obtain ⟨j, hj, rfl⟩ := List.mem_map.mp he
    obtain ⟨hmem, hjt⟩ := mem_own.mp hj
    exact hfirst j hmem hjt
  have hparts : h = a ++ ([⟨t, .redis (.incr key), env, db⟩] ++ b) := by
    rw [hplace]
    simp
  have hself : own t [(⟨t, .redis (.incr key), env, db⟩ : Issued Db Stmt Env)] =
      [⟨t, .redis (.incr key), env, db⟩] := own_self rfl
  rw [hparts, own_append t a, List.map_append, List.findSome?_append, hnone, own_append, hself]
  simp [Issued.entry, Issued.reply, countOf, Platform.engine, Db.exec, Keyspace.exec]

/-- A call that reaches the comparison has counted at most to the limit. -/
theorem count_le_limit (hr : Traced deployment.system (fun _ => True) r)
    {pre seg post : List (Issued Db Stmt Env)} (hhistory : r.history = pre ++ seg ++ post) {t : Nat}
    {th : Thread Db Stmt Stmt.Reply Env AuthException Outcome Call} (hth : r.world.threads[t]? = some th)
    {dto : LoginDto} {ip key : String} (hcall : th.call = .login dto ip)
    (hkey : key = rateLimitKey "login:ip" ip ∨ key = rateLimitKey "login:user" dto.username)
    (hcounts : CountsIn key t pre seg) (hcompares : Compares t r.history) :
    ∃ v, 0 < v ∧ v ≤ deployment.config.AUTH_LOGIN_MAX_ATTEMPTS ∧ CountedAs key seg t v := by
  obtain ⟨a, ⟨t, _, env, db⟩, b, hseg, rfl, rfl, hfirst⟩ := hcounts
  obtain ⟨i, hi, hthread, password, passwordHash, hq⟩ := hcompares
  obtain ⟨h, h', hsplit⟩ := List.append_of_mem hi
  have hobeys : (deployment.system.program (.login dto ip)).Obeys _ [] := program_guarded dto ip
  rw [← hcall] at hobeys
  have hpassed := hr.issued hth hobeys hsplit hthread
  rw [hq] at hpassed
  obtain ⟨v, hle, hv⟩ := hpassed.counts key hkey
  -- The first count in the log of the whole call, once by the comparison, once by its place.
  have hwhole : ((own t r.history).map (Issued.entry deployment.system.engine)).findSome? (countOf key) =
      some v := by
    rw [hsplit, own_append, List.map_append]
    exact findSome_append_of_some hv _
  have hparts : r.history = (pre ++ a) ++ ⟨t, .redis (.incr key), env, db⟩ :: (b ++ post) := by
    rw [hhistory, hseg]
    simp
  have hplace : ((own t r.history).map (Issued.entry deployment.system.engine)).findSome? (countOf key) =
      some (db.redis.incr key).value := first_count hparts hfirst
  have hvalue : v = (db.redis.incr key).value := Option.some.inj (hwhole.symm.trans hplace)
  refine ⟨v, ?_, hle, a, env, db, b, hseg, hvalue⟩
  rw [hvalue, Keyspace.incr]
  split
  · exact Nat.one_pos
  · exact Nat.succ_pos _

/-- Different calls that count within one lifetime of a limit and reach the comparison are at
most as many as the limit. -/
theorem passed_le_limit (hr : Traced deployment.system (fun _ => True) r)
    {pre seg post : List (Issued Db Stmt Env)} (hhistory : r.history = pre ++ seg ++ post)
    {scope subject : String} (hlife : OneLifetime (rateLimitKey scope subject) seg) {ts : List Nat}
    (hnodup : ts.Nodup)
    (hts : ∀ t ∈ ts, ∃ dto ip, r.Calls t (.login dto ip) ∧
      (rateLimitKey scope subject = rateLimitKey "login:ip" ip ∨
        rateLimitKey scope subject = rateLimitKey "login:user" dto.username) ∧
      CountsIn (rateLimitKey scope subject) t pre seg ∧ Compares t r.history) :
    ts.length ≤ deployment.config.AUTH_LOGIN_MAX_ATTEMPTS := by
  refine length_le_of_numbered (P := CountedAs (rateLimitKey scope subject) seg) hnodup
    (fun t ht => ?_) fun t t' v hne hv hv' => ?_
  · obtain ⟨dto, ip, ⟨th, hth, hcall⟩, hkey, hcounts, hcompares⟩ := hts t ht
    exact count_le_limit hr hhistory hth hcall hkey hcounts hcompares
  · obtain ⟨s, -, hlinked⟩ := hr.linked
    rw [hhistory, List.append_assoc] at hlinked
    refine counts_differ hlinked (fun i hi hwrites => ?_) t t' v hne hv hv'
    have hmem : i ∈ r.history := hhistory ▸
      List.mem_append_left _ (List.mem_append_right _ (List.mem_of_mem_tail hi))
    obtain ⟨th, -, hwrite⟩ := history_keyWrite hr hmem hwrites
    rcases hwrite.rateLimit with hincr | hexpire
    · exact Or.inl ⟨hincr, hlife i hi⟩
    · exact Or.inr (Or.inl hexpire)

/-! ### The lock -/

/-- The lock of the username lasts at least until `time`. -/
def LockedUntil (username : String) (time : Nat) (db : Db) : Prop :=
  ∃ v expiresAt, db.redis.entries (lockKey username) = some v ∧ v.expiresAt = some expiresAt ∧
    time ≤ expiresAt

theorem LockedUntil.exec {username : String} {time seconds : Nat} {q : Stmt}
    (h : LockedUntil username time db) (htime : time ≤ db.redis.now + 1000 * seconds)
    (hq : lockKey username ∈ q.writes → q = .redis (.set (lockKey username) 1 (some seconds))) :
    LockedUntil username time (db.exec platform env q).2 := by
  by_cases hwrites : lockKey username ∈ q.writes
  · rw [hq hwrites]
    exact ⟨_, _, Keyspace.entries_put_self .., rfl, htime⟩
  · obtain ⟨v, expiresAt, hentry, hexpires, hle⟩ := h
    exact ⟨v, expiresAt, (exec_redis_entries hwrites).trans hentry, hexpires, hle⟩

/-- A lock that lasts is found. -/
theorem LockedUntil.ttl_pos {username : String} {time : Nat} (h : LockedUntil username time db)
    (hnow : db.redis.now < time) {seconds : Nat → Nat} (hpositive : ∀ ms, 0 < ms → 0 < seconds ms) :
    0 < db.redis.ttl seconds (lockKey username) := by
  obtain ⟨⟨value, _⟩, expiresAt, hentry, rfl, hle⟩ := h
  have hget : db.redis.get? (lockKey username) = some ⟨value, some expiresAt⟩ := by
    refine get?_eq_some.mpr ⟨hentry, ?_⟩
    simp only [Stored.live, Option.all_some, decide_eq_true_eq]
    omega
  rw [Keyspace.ttl, hget]
  exact Int.natCast_pos.mpr (hpositive _ (by omega))

/-- The thread is a login of the username whose password has matched. -/
def Succeeds (deployment : Deployment) (r : Run) (username : String) (t : Nat) : Prop :=
  (∃ dto ip, r.Calls t (.login dto ip) ∧ dto.username = username) ∧
    ∃ password passwordHash env db, ⟨t, .compare password passwordHash, env, db⟩ ∈ r.history ∧
      deployment.platform.compare password passwordHash = true

/-- A lock is set again, or deleted by a login that succeeds. -/
theorem lock_write_cases (hr : Traced deployment.system (fun _ => True) r)
    {i : Issued Db Stmt Env} (hi : i ∈ r.history) {username : String}
    (hwrites : lockKey username ∈ i.q.writes) :
    i.q = .redis (.set (lockKey username) 1 (some deployment.config.AUTH_LOGIN_LOCK_SECONDS)) ∨
      i.q = .redis (.del [strikesKey username, lockKey username]) ∧
        Succeeds deployment r username i.thread := by
  obtain ⟨th, hth, hwrite⟩ := history_keyWrite hr hi hwrites
  obtain ⟨dto, ip, hcall, rfl, hset | hdel⟩ := hwrite.lockKey
  · exact Or.inl hset
  · obtain ⟨h, h', hsplit⟩ := List.append_of_mem hi
    have hobeys : (deployment.system.program (.login dto ip)).Obeys _ [] := program_guarded dto ip
    rw [← hcall] at hobeys
    have hissue := hr.issued hth hobeys hsplit rfl
    rw [hdel] at hissue
    obtain ⟨password, passwordHash, env, hmatch⟩ := hissue
    obtain ⟨db, hcompare, hreply⟩ := logged hmatch
    refine Or.inr ⟨hdel, ⟨dto, ip, ⟨th, hth, hcall⟩, rfl⟩, password, passwordHash, env, db, ?_, hreply⟩
    rw [hsplit]
    exact List.mem_append_left _ hcompare

/-- While a lock lasts, no check of it leads on to the comparison. -/
theorem locked_out (hr : Traced deployment.system (fun _ => True) r)
    (hpositive : ∀ ms, 0 < ms → 0 < deployment.platform.ttlSeconds ms) {username : String}
    {h₁ h₂ h₃ : List (Issued Db Stmt Env)} {c t : Nat} {env env' : Env} {db db' : Db}
    (hhistory : r.history = h₁ ++ ⟨c, .redis (.set (lockKey username) 1
        (some deployment.config.AUTH_LOGIN_LOCK_SECONDS)), env, db⟩ :: (h₂ ++
      ⟨t, .redis (.ttl (lockKey username)), env', db'⟩ :: h₃))
    (hlive : db'.redis.now < db.redis.now + 1000 * deployment.config.AUTH_LOGIN_LOCK_SECONDS)
    (hclear : ∀ i ∈ h₂, i.q = .redis (.del [strikesKey username, lockKey username]) →
      ¬ Succeeds deployment r username i.thread)
    {dto : LoginDto} {ip : String} (hcall : r.Calls t (.login dto ip)) (husername : dto.username = username) :
    ¬ Compares t r.history := by
  rintro ⟨i, hi, hthread, password, passwordHash, hq⟩
  obtain ⟨th, hth, hcall⟩ := hcall
  have hobeys : (deployment.system.program (.login dto ip)).Obeys _ [] := program_guarded dto ip
  rw [← hcall] at hobeys
  -- The lock stays until the check.
  have hlocked : LockedUntil username
      (db.redis.now + 1000 * deployment.config.AUTH_LOGIN_LOCK_SECONDS) db' := by
    obtain ⟨s, -, hlinked⟩ := hr.linked
    rw [hhistory] at hlinked
    refine (hlinked.around.2.around.1.keeps (I := fun db'' => db.redis.now ≤ db''.redis.now ∧
      LockedUntil username _ db'') ⟨Nat.le_refl _, ?_⟩ ?_).2
    · exact ⟨_, _, Keyspace.entries_put_self .., rfl, Nat.le_refl _⟩
    · rintro j hj ⟨hnow, hlocked⟩
      have htime : db.redis.now + 1000 * deployment.config.AUTH_LOGIN_LOCK_SECONDS ≤
          j.before.redis.now + 1000 * deployment.config.AUTH_LOGIN_LOCK_SECONDS := by omega
      refine ⟨Nat.le_trans hnow (exec_redis_now j.q), hlocked.exec htime fun hwrites => ?_⟩
      have hmem : j ∈ r.history := by
        rw [hhistory]
        exact List.mem_append_right _ (List.mem_cons_of_mem _ (List.mem_append_left _ hj))
      rcases lock_write_cases hr hmem hwrites with hset | ⟨hdel, hsucceeds⟩
      · exact hset
      · exact absurd hsucceeds (hclear j hj hdel)
  have hfound := hlocked.ttl_pos hlive hpositive
  -- The check is the first statement of the call, and the one its guard has passed by.
  have hparts : r.history = (h₁ ++ ⟨c, .redis (.set (lockKey username) 1
        (some deployment.config.AUTH_LOGIN_LOCK_SECONDS)), env, db⟩ :: h₂) ++
      ([⟨t, .redis (.ttl (lockKey username)), env', db'⟩] ++ h₃) := by
    rw [hhistory]
    simp
  have hstart := hr.issued hth hobeys hparts rfl (by rw [husername])
  obtain ⟨h, h', hsplit⟩ := List.append_of_mem hi
  have hpassed := hr.issued hth hobeys hsplit hthread
  rw [hq] at hpassed
  obtain ⟨ttl, hle, hfirst⟩ := hpassed.lock
  have hwhole : ((own t r.history).map (Issued.entry deployment.system.engine)).findSome?
      (lockTtlOf username) = some ttl := by
    rw [hsplit, own_append, List.map_append]
    exact findSome_append_of_some (husername ▸ hfirst) _
  have hself : own t [(⟨t, .redis (.ttl (lockKey username)), env', db'⟩ : Issued Db Stmt Env)] =
      [⟨t, .redis (.ttl (lockKey username)), env', db'⟩] := own_self rfl
  rw [hparts, own_append t (_ ++ _), List.map_append, hstart, own_append, hself] at hwhole
  simp [Issued.entry, Issued.reply, lockTtlOf, Deployment.system, Platform.engine, Db.exec,
    Keyspace.exec] at hwhole
  omega

end Runs

/-- **The guard of login**: among the calls for one username whose count falls into one
lifetime of its limit at most `AUTH_LOGIN_MAX_ATTEMPTS` reach the comparison of passwords,
and likewise for one address; and while a lock lasts no call that checks it after it was
set does, unless a login that succeeded has deleted it in between. -/
theorem attempts_within_limits {deployment : Deployment}
    (hpositive : ∀ ms, 0 < ms → 0 < deployment.platform.ttlSeconds ms) {r : Run}
    (hreach : deployment.machine.Reachable r) :
    (∀ username pre seg post, r.history = pre ++ seg ++ post →
      OneLifetime (rateLimitKey "login:user" username) seg → ∀ ts : List Nat, ts.Nodup →
        (∀ t ∈ ts, (∃ dto ip, r.Calls t (.login dto ip) ∧ dto.username = username) ∧
          CountsIn (rateLimitKey "login:user" username) t pre seg ∧ Compares t r.history) →
        ts.length ≤ deployment.config.AUTH_LOGIN_MAX_ATTEMPTS) ∧
      (∀ ip pre seg post, r.history = pre ++ seg ++ post →
        OneLifetime (rateLimitKey "login:ip" ip) seg → ∀ ts : List Nat, ts.Nodup →
          (∀ t ∈ ts, (∃ dto, r.Calls t (.login dto ip)) ∧
            CountsIn (rateLimitKey "login:ip" ip) t pre seg ∧ Compares t r.history) →
          ts.length ≤ deployment.config.AUTH_LOGIN_MAX_ATTEMPTS) ∧
      ∀ username h₁ h₂ h₃ set check, r.history = h₁ ++ set :: (h₂ ++ check :: h₃) →
        set.q = .redis (.set (lockKey username) 1 (some deployment.config.AUTH_LOGIN_LOCK_SECONDS)) →
        check.q = .redis (.ttl (lockKey username)) →
        check.before.redis.now < set.before.redis.now + 1000 * deployment.config.AUTH_LOGIN_LOCK_SECONDS →
        (∀ i ∈ h₂, i.q = .redis (.del [strikesKey username, lockKey username]) →
          ¬ Succeeds deployment r username i.thread) →
        (∃ dto ip, r.Calls check.thread (.login dto ip) ∧ dto.username = username) →
        ¬ Compares check.thread r.history := by
  have hr := System.traced_of_reachable (program_plain deployment) hreach
  refine ⟨?_, ?_, ?_⟩
  · intro username pre seg post hhistory hlife ts hnodup hts
    refine passed_le_limit hr hhistory hlife hnodup fun t ht => ?_
    obtain ⟨⟨dto, ip, hcall, rfl⟩, hcounts, hcompares⟩ := hts t ht
    exact ⟨dto, ip, hcall, Or.inr rfl, hcounts, hcompares⟩
  · intro ip pre seg post hhistory hlife ts hnodup hts
    refine passed_le_limit hr hhistory hlife hnodup fun t ht => ?_
    obtain ⟨⟨dto, hcall⟩, hcounts, hcompares⟩ := hts t ht
    exact ⟨dto, ip, hcall, Or.inl rfl, hcounts, hcompares⟩
  · rintro username h₁ h₂ h₃ ⟨c, _, env, db⟩ ⟨t, _, env', db'⟩ hhistory rfl rfl hlive hclear
      ⟨dto, ip, hcall, husername⟩
    exact locked_out hr hpositive hhistory hlive hclear hcall husername

/-! ### A failure that locks at once -/

/-- Redis here rounds a time to live up. -/
def lockAtOnce : Deployment where
  config :=
    { (default : EnvConfig) with AUTH_LOGIN_LOCK_AFTER_FAILURES := 1, lockAfter_pos := Nat.one_pos }
  platform := { compare := fun password passwordHash => password == passwordHash
                hash := fun _ password => password
                ttlSeconds := fun milliseconds => (milliseconds + 999) / 1000
                collate := lowerCase }
  ms := fun _ => some 604800000

def firstId : Uuid := ⟨"u1", by decide⟩

def oneAccount : Db where
  redis := { now := 0, entries := fun _ => none }
  tenants := [⟨"t1", "default"⟩]
  users := ⟨[{ id := firstId, tenantId := some "t1", username := "a", passwordHash := "right" }],
    by decide⟩

def attempt (password : String) : LoginDto := { username := "a", password }

def failThenTryAgain : List (Action Call Env) :=
  (.spawn (.login (attempt "wrong") "10.0.0.1") :: List.replicate 17 (.run 0 {})) ++
    [.spawn (.login (attempt "right") "10.0.0.1"), .run 1 {}]

theorem failThenTryAgain_runs :
    (lockAtOnce.machine.exec { world := { committed := oneAccount } } failThenTryAgain).isSome := by
  decide +kernel

def lockedRun : Run := (lockAtOnce.machine.exec _ failThenTryAgain).get failThenTryAgain_runs

theorem lockedRun_length : lockedRun.history.length = 18 := by decide +kernel

def lockedRunEvent (i : Fin 18) : Issued Db Stmt Env := lockedRun.history.get (i.cast lockedRun_length.symm)

theorem lockedRun_drop (i : Fin 18) :
    lockedRun.history.drop i = lockedRunEvent i :: lockedRun.history.drop (i + 1) :=
  List.drop_eq_getElem_cons _

theorem second_attempt_locked_out : [0].length ≤ 10 ∧ ¬ Compares 1 lockedRun.history := by
  have hreach : lockAtOnce.machine.Reachable lockedRun :=
    Machine.reachableBy_exec_get (by exact ⟨⟨trivial, rfl⟩, rfl⟩) (Machine.admits_true _ _) _
  have hpositive : ∀ ms, 0 < ms → 0 < lockAtOnce.platform.ttlSeconds ms :=
    fun ms hms => Nat.div_pos (by omega) (by decide)
  obtain ⟨huser, -, hlock⟩ := attempts_within_limits hpositive hreach
  constructor
  · -- The counter of the username exists from statement 4 on.
    refine huser "a" (lockedRun.history.take 4) (lockedRun.history.drop 4) [] (by simp) ?_ [0]
      (List.nodup_singleton 0) ?_
    · unfold OneLifetime
      decide +kernel
    · intro t ht
      obtain rfl := List.mem_singleton.mp ht
      refine ⟨⟨attempt "wrong", "10.0.0.1", Run.calls_iff.mpr (by decide +kernel), rfl⟩, ?_, ?_⟩
      · refine ⟨[], lockedRunEvent 4, lockedRun.history.drop 5, lockedRun_drop 4,
          by decide +kernel, by decide +kernel, ?_⟩
        rw [List.append_nil]
        decide +kernel
      · refine ⟨lockedRunEvent 9, List.getElem_mem _, by decide +kernel, "wrong", "right", ?_⟩
        decide +kernel
  · have hthread : (lockedRunEvent 17).thread = 1 := by decide +kernel
    have hout := hlock "a" (lockedRun.history.take 16) [] (lockedRun.history.drop 18)
      (lockedRunEvent 16) (lockedRunEvent 17) ?_ (by decide +kernel) (by decide +kernel)
      (by decide +kernel) (fun i hi => by cases hi)
      ⟨attempt "right", "10.0.0.1", Run.calls_iff.mpr (by decide +kernel), rfl⟩
    · rwa [hthread] at hout
    · have hset := lockedRun_drop 16
      have hcheck := lockedRun_drop 17
      rw [List.nil_append]
      exact (List.take_append_drop 16 _).symm.trans (congrArg _ (hset.trans (congrArg _ hcheck)))

end MibServer.Auth
