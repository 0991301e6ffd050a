import MibServer.Auth.Lockout

/-!
What the limit of an address admits.

The counter of an address is counted on by the guard of every login from it, and again by
`recordLoginFailure`. Within one lifetime it therefore stands at the calls that have reached
the limiter plus the failures recorded, and a call is refused once these are as many as the
limit allows.
-/

namespace MibServer.Auth

open MibServer.Lib MibServer.Redis

/-! ### Calls counted in a part of a history -/

/-- The threads of the statements that `P` picks, each seen with the history before it. -/
def threadsWhere (P : List (Issued Db Stmt Env) → Issued Db Stmt Env → Bool) :
    List (Issued Db Stmt Env) → List (Issued Db Stmt Env) → List Nat
  | _, [] => []
  | before, i :: seg =>
      if P before i then i.thread :: threadsWhere P (before ++ [i]) seg
      else threadsWhere P (before ++ [i]) seg

/-- The lookup of the user, which a login makes once it has passed its guard. -/
def Stmt.LooksUp : Stmt → Bool
  | .findUserByAccount _ _ _ => true
  | _ => false

/-- The first count of its thread on the key: the call reaches the limiter. -/
def firstCount (key : String) (before : List (Issued Db Stmt Env)) (i : Issued Db Stmt Env) : Bool :=
  i.q = .redis (.incr key) ∧ ∀ j ∈ own i.thread before, j.q ≠ .redis (.incr key)

/-- A count on the key after the lookup: the call records its failure. -/
def failureCount (key : String) (before : List (Issued Db Stmt Env)) (i : Issued Db Stmt Env) : Bool :=
  i.q = .redis (.incr key) ∧ ∃ j ∈ own i.thread before, j.q.LooksUp = true

/-- The calls that reach the limiter of the key in `seg`. -/
def reached (key : String) (before seg : List (Issued Db Stmt Env)) : List Nat :=
  threadsWhere (firstCount key) before seg

/-- The calls that record a failure on the key in `seg`. -/
def recorded (key : String) (before seg : List (Issued Db Stmt Env)) : List Nat :=
  threadsWhere (failureCount key) before seg

/-- The first statement creates the key, and it exists before each of the others. -/
def FromCreation (key : String) (seg : List (Issued Db Stmt Env)) : Prop :=
  (∀ i ∈ seg.head?, ¬ i.before.redis.Live key) ∧ OneLifetime key seg

/-- The call has ended, and not with an error 500. -/
def Run.Answered (r : Run) (t : Nat) : Prop :=
  ∃ th, r.world.threads[t]? = some th ∧
    ((∃ outcome, th.result? = some outcome) ∨ ∃ e, th.prog = .throw e ∧ e ≠ .http .internal)

theorem Run.answered_of_error {r : Run} {t : Nat} {e : AuthException} (h : r.error? t = some e)
    (hne : e ≠ .http .internal) : r.Answered t := by
  obtain ⟨th, hth, herror⟩ := Option.bind_eq_some_iff.mp h
  exact ⟨th, hth, Or.inr ⟨e, Prog.error?_eq_some.mp herror, hne⟩⟩

/-- The call is answered 429 before it has counted on its username. -/
def Run.RefusedByIpLimit (r : Run) (t : Nat) (username : String) : Prop :=
  (∃ message retryAfterSeconds, r.error? t = some (.tooManyRequests message retryAfterSeconds)) ∧
    ∀ i ∈ own t r.history, i.q ≠ .redis (.incr (rateLimitKey "login:user" username))

section Threads

variable {P P' : List (Issued Db Stmt Env) → Issued Db Stmt Env → Bool}

theorem mem_threadsWhere {t : Nat} {before seg : List (Issued Db Stmt Env)} :
    t ∈ threadsWhere P before seg ↔
      ∃ a i b, seg = a ++ i :: b ∧ i.thread = t ∧ P (before ++ a) i = true := by
  induction seg generalizing before with
  | nil => simp [threadsWhere]
  | cons j seg ih =>
      have hrest : (∃ a i b, j :: seg = a ++ i :: b ∧ i.thread = t ∧ P (before ++ a) i = true) ↔
          (j.thread = t ∧ P before j = true) ∨
            ∃ a i b, seg = a ++ i :: b ∧ i.thread = t ∧ P (before ++ [j] ++ a) i = true := by
        constructor
        · rintro ⟨a, i, b, heq, hthread, hP⟩
          cases a with
          | nil =>
              cases heq
              rw [List.append_nil] at hP
              exact Or.inl ⟨hthread, hP⟩
          | cons _ a =>
              cases heq
              refine Or.inr ⟨a, i, b, rfl, hthread, ?_⟩
              rwa [List.append_assoc]
        · rintro (⟨hthread, hP⟩ | ⟨a, i, b, rfl, hthread, hP⟩)
          · refine ⟨[], j, seg, rfl, hthread, ?_⟩
            rwa [List.append_nil]
          · refine ⟨j :: a, i, b, rfl, hthread, ?_⟩
            rwa [List.append_assoc] at hP
      rw [hrest, ← ih, threadsWhere]
      by_cases hj : P before j = true
      · rw [if_pos hj, List.mem_cons, and_iff_left hj, eq_comm]
      · rw [if_neg hj, or_iff_right fun h => hj h.2]

/-- What no thread does twice is done by different threads. -/
theorem threadsWhere_nodup {before seg : List (Issued Db Stmt Env)}
    (honce : ∀ a i b j c, seg = a ++ i :: (b ++ j :: c) → i.thread = j.thread →
      P (before ++ a) i = true → P (before ++ (a ++ i :: b)) j = true → False) :
    (threadsWhere P before seg).Nodup := by
  induction seg generalizing before with
  | nil => exact List.nodup_nil
  | cons j seg ih =>
      have hrest : (threadsWhere P (before ++ [j]) seg).Nodup := by
        refine ih fun a i b k c heq hthread hi hk => ?_
        refine honce (j :: a) i b k c (by rw [heq, List.cons_append]) hthread ?_ ?_
        · rwa [List.append_assoc] at hi
        · rwa [List.append_assoc] at hk
      rw [threadsWhere]
      split
      · rename_i hj
        refine List.nodup_cons.mpr ⟨fun hmem => ?_, hrest⟩
        obtain ⟨b, k, c, rfl, hthread, hk⟩ := mem_threadsWhere.mp hmem
        refine honce [] j b k c rfl hthread.symm ?_ ?_
        · rwa [List.append_nil]
        · rwa [List.append_assoc] at hk
      · exact hrest

theorem length_threadsWhere_cons (before : List (Issued Db Stmt Env)) (i : Issued Db Stmt Env)
    (seg : List (Issued Db Stmt Env)) : (threadsWhere P before (i :: seg)).length =
      (P before i).toNat + (threadsWhere P (before ++ [i]) seg).length := by
  rw [threadsWhere]
  cases P before i with
  | true => exact Nat.add_comm _ _
  | false => exact (Nat.zero_add _).symm

/-- Two kinds of statements that make up a third. -/
theorem length_threadsWhere_add {before seg : List (Issued Db Stmt Env)} {p : Issued Db Stmt Env → Bool}
    (h : ∀ a i b, seg = a ++ i :: b → (P (before ++ a) i).toNat + (P' (before ++ a) i).toNat = (p i).toNat) :
    (threadsWhere P before seg).length + (threadsWhere P' before seg).length = seg.countP p := by
  induction seg generalizing before with
  | nil => rfl
  | cons j seg ih =>
      have hrest : (threadsWhere P (before ++ [j]) seg).length +
          (threadsWhere P' (before ++ [j]) seg).length = seg.countP p := by
        refine ih fun a i b heq => ?_
        have hi := h (j :: a) i b (by rw [heq, List.cons_append])
        rwa [List.append_assoc]
      have hj := h [] j seg rfl
      have hcount : (j :: seg).countP p = seg.countP p + (p j).toNat := by
        rw [List.countP_cons]
        cases p j with
        | true | false => rfl
      rw [List.append_nil] at hj
      rw [length_threadsWhere_cons, length_threadsWhere_cons, hcount]
      omega

end Threads

/-! ### What the counter stands at -/

section Counter

variable {platform : Platform} {key : String}

/-- The count of the key; a key that does not exist stands at 0. -/
def countOn (key : String) (db : Db) : Nat := ((db.redis.get? key).map Stored.value).getD 0

def isCount (key : String) (i : Issued Db Stmt Env) : Bool := i.q = .redis (.incr key)

theorem incr_value (key : String) (db : Db) : (db.redis.incr key).value = countOn key db + 1 := by
  rw [Keyspace.incr, countOn]
  cases db.redis.get? key with
  | none | some _ => rfl

theorem countOn_of_not_live {db : Db} (h : ¬ db.redis.Live key) : countOn key db = 0 := by
  rw [countOn, Option.not_isSome_iff_eq_none.mp h]
  rfl

/-- What the statements of a history do to a rate counter. -/
def CountsOrExpires (key : String) (i : Issued Db Stmt Env) : Prop :=
  key ∈ i.q.writes → i.q = .redis (.incr key) ∨ ∃ seconds, i.q = .redis (.expire key seconds)

theorem countOn_of_entry {db : Db} {v : Stored Nat Nat} (hentry : db.redis.entries key = some v)
    (hlive : db.redis.Live key) : countOn key db = v.value := by
  obtain ⟨v', hv'⟩ := Option.isSome_iff_exists.mp hlive
  cases hentry.symm.trans (get?_eq_some.mp hv').1
  rw [countOn, hv']
  rfl

/-- A statement that leaves the counter in existence adds its own count to it. -/
theorem CountsOrExpires.countOn_after {i : Issued Db Stmt Env} (hi : CountsOrExpires key i)
    (hlive : (i.after platform.engine).redis.Live key) :
    countOn key (i.after platform.engine) = countOn key i.before + (isCount key i).toNat := by
  obtain ⟨t, q, env, db⟩ := i
  change (db.exec platform env q).2.redis.Live key at hlive
  change countOn key (db.exec platform env q).2 = countOn key db + _
  by_cases hwrites : key ∈ q.writes
  · rcases hi hwrites with hq | ⟨seconds, hq⟩
    · dsimp only at hq
      subst hq
      have hentry : ((db.exec platform env (.redis (.incr key))).2).redis.entries key =
          some (db.redis.incr key) := Keyspace.entries_put_self ..
      rw [countOn_of_entry hentry hlive, incr_value]
      simp [isCount]
    · dsimp only at hq
      subst hq
      cases hget : db.redis.get? key with
      | none => simp [Db.exec, Keyspace.exec, hget, isCount]
      | some v =>
          have hentry : (db.exec platform env (.redis (.expire key seconds))).2.redis.entries key =
              some { v with expiresAt := some (db.redis.now + 1000 * seconds) } := by
            simp only [Db.exec, Keyspace.exec, hget]
            exact Keyspace.entries_put_self ..
          rw [countOn_of_entry hentry hlive, countOn, hget]
          simp [isCount]
  · have hsame : (db.exec platform env q).2.redis.entries key = db.redis.entries key :=
      exec_redis_entries hwrites
    have hnow : db.redis.now ≤ (db.exec platform env q).2.redis.now := exec_redis_now q
    have hother : isCount key ⟨t, q, env, db⟩ = false := by
      refine decide_eq_false fun heq => hwrites ?_
      dsimp only at heq
      rw [heq]
      exact List.mem_singleton_self key
    obtain ⟨v, hv⟩ := Option.isSome_iff_exists.mp hlive
    obtain ⟨hentry, hlater⟩ := get?_eq_some.mp hv
    -- What lives after the statement has lived before it.
    have hearlier : v.live db.redis.now = true := by
      cases hexpires : v.expiresAt with
      | none => simp [Stored.live, hexpires]
      | some expiresAt =>
          have hlt : (db.exec platform env q).2.redis.now < expiresAt := by
            simpa [Stored.live, hexpires] using hlater
          simp only [Stored.live, hexpires, Option.all_some, decide_eq_true_eq]
          omega
    have hbefore : db.redis.get? key = some v := get?_eq_some.mpr ⟨hsame ▸ hentry, hearlier⟩
    rw [countOn_of_entry hentry hlive, hother, countOn, hbefore]
    rfl

/-- The counts of a part of a history add up, if the counter exists after each of its
statements. -/
theorem countOn_eq_add {s s' : Db} {h : List (Issued Db Stmt Env)} (hl : Linked platform.engine s h s')
    (hcounts : ∀ i ∈ h, CountsOrExpires key i) (hlife : OneLifetime key h)
    (hend : h ≠ [] → s'.redis.Live key) : countOn key s' = countOn key s + h.countP (isCount key) := by
  induction h generalizing s with
  | nil =>
      cases hl
      rfl
  | cons i h ih =>
      obtain ⟨rfl, hrest⟩ := hl
      have hs' := hend (List.cons_ne_nil i h)
      have hafter : (i.after platform.engine).redis.Live key := by
        cases h with
        | nil =>
            cases hrest
            exact hs'
        | cons j h =>
            rw [← hrest.1]
            exact hlife j List.mem_cons_self
      have hstep := (hcounts i List.mem_cons_self).countOn_after hafter
      have htotal := ih hrest (fun j hj => hcounts j (List.mem_cons_of_mem _ hj))
        (fun j hj => hlife j (List.mem_of_mem_tail hj)) fun _ => hs'
      have hcount : (i :: h).countP (isCount key) = h.countP (isCount key) + (isCount key i).toNat := by
        rw [List.countP_cons]
        cases isCount key i with
        | true | false => rfl
      rw [htotal, hstep, hcount]
      omega

end Counter

/-! ### The counts of one login -/

theorem rateLimitKey_inj {scope subject subject' : String}
    (h : rateLimitKey scope subject = rateLimitKey scope subject') : subject = subject' :=
  (String.append_right_inj _).mp ((String.append_right_inj _).mp h)

theorem ipKey_ne_userKey (ip username : String) :
    rateLimitKey "login:ip" ip ≠ rateLimitKey "login:user" username := by
  have happend : ∀ scope subject, rateLimitKey scope subject = "rate:" ++ scope ++ ":" ++ subject := by
    intro scope subject
    rw [rateLimitKey, ← String.append_assoc, ← String.append_assoc]
  rw [happend, happend]
  exact key_ne 11 (by decide) (by decide) (by decide) _ _

theorem incr_ne {key key' : String} (h : key ≠ key') : Stmt.redis (.incr key) ≠ .redis (.incr key') := by
  intro heq
  injection heq with hcommand
  injection hcommand with hkey
  exact h hkey

def AuthException.IsTooManyRequests (e : AuthException) : Prop :=
  ∃ message retryAfterSeconds, e = .tooManyRequests message retryAfterSeconds

section Logs

variable {config : EnvConfig} {ms : String → Option ℚ} {ip username : String} {past : Log} {α : Type}

def countsIn (key : String) (past : Log) : Nat := past.countP fun e => e.q = .redis (.incr key)

def lookedUp (past : Log) : Bool := past.any fun e => e.q.LooksUp

/-- The first count on the address was within the limit. -/
def AdmittedByIp (config : EnvConfig) (ip : String) (past : Log) : Prop :=
  ∃ value ≤ config.AUTH_LOGIN_MAX_ATTEMPTS,
    past.findSome? (countOf (rateLimitKey "login:ip" ip)) = some value

/-- A login counts on its address once before it looks up the user and at most once after
that; it fails with 429 before it has counted on the username just where the first of these
counts is above the limit. -/
def counting (config : EnvConfig) (ip username : String) (finish : Log → α → Prop) :
    TraceSpec Stmt Stmt.Reply Env AuthException α where
  issue past q := q = .redis (.incr (rateLimitKey "login:ip" ip)) →
    countsIn (rateLimitKey "login:ip" ip) past = (lookedUp past).toNat
  finish := finish
  fail past e := ∀ value, past.findSome? (countOf (rateLimitKey "login:ip" ip)) = some value →
    ((e.IsTooManyRequests ∧ ∀ x ∈ past, x.q ≠ .redis (.incr (rateLimitKey "login:user" username))) ↔
      config.AUTH_LOGIN_MAX_ATTEMPTS < value)

theorem AdmittedByIp.append (h : AdmittedByIp config ip past) (log : Log) :
    AdmittedByIp config ip (past ++ log) := by
  obtain ⟨value, hle, hfirst⟩ := h
  exact ⟨value, hle, findSome_append_of_some hfirst log⟩

/-- Once admitted, a login fails otherwise. -/
theorem AdmittedByIp.fail (h : AdmittedByIp config ip past) {e : AuthException}
    (he : ¬ e.IsTooManyRequests) {finish : Log → α → Prop} :
    (counting config ip username finish).fail past e := by
  intro value hvalue
  obtain ⟨value', hle, hfirst⟩ := h
  cases hfirst.symm.trans hvalue
  exact iff_of_false (fun hlimited => he hlimited.1) (Nat.not_lt.mpr hle)

theorem countP_incr_eq_zero {key : String} {log : Log} (h : ∀ e ∈ log, e.q ≠ .redis (.incr key)) :
    log.countP (fun e => e.q = .redis (.incr key)) = 0 :=
  List.countP_eq_zero.mpr fun e he => by simpa using h e he

theorem countsIn_append_of_ne {key : String} {log : Log} (h : ∀ e ∈ log, e.q ≠ .redis (.incr key)) :
    countsIn key (past ++ log) = countsIn key past := by
  rw [countsIn, List.countP_append, countP_incr_eq_zero h, Nat.add_zero]
  rfl

/-- A piece of an admitted login that does not count on the address. -/
theorem obeys_admitted {β : Type} {p : AuthProg α} {f : α → AuthProg β} {finish : Log → β → Prop}
    (hp : p.Only fun q => q ≠ .redis (.incr (rateLimitKey "login:ip" ip)))
    (hraises : p.Raises fun e => ¬ e.IsTooManyRequests) (hadmitted : AdmittedByIp config ip past)
    (hf : ∀ a log, (∀ e ∈ log, e.q ≠ .redis (.incr (rateLimitKey "login:ip" ip))) →
      (f a).Obeys (counting config ip username finish) (past ++ log)) :
    (p.bind f).Obeys (counting config ip username finish) past := by
  refine Prog.Obeys.bind (hp.obeys_raises hraises fun log hlog => ⟨fun q hq => ?_, fun a => ?_, fun e he => ?_⟩)
  · exact fun heq => absurd heq hq
  · exact hf a log hlog
  · exact (hadmitted.append log).fail he

/-- The requests of a limit after its count. -/
theorem counting_issue_other {scope subject : String} {window : Nat} {finish : Log → α → Prop} (past log : Log)
    (q : Stmt) (hq : q = .redis (.expire (rateLimitKey scope subject) window) ∨
      q = .redis (.ttl (rateLimitKey scope subject))) :
    (counting config ip username finish).issue (past ++ log) q := by
  rcases hq with rfl | rfl
  · exact fun heq => by cases heq
  · exact fun heq => by cases heq

theorem checkCanAttemptLogin_counting :
    (checkCanAttemptLogin config ip username).Obeys
      (counting config ip username fun past result =>
        match result with
        | .ok => AdmittedByIp config ip past ∧ countsIn (rateLimitKey "login:ip" ip) past = 1
        | .locked _ => past.findSome? (countOf (rateLimitKey "login:ip" ip)) = none
        | .rateLimited _ => ∀ value, past.findSome? (countOf (rateLimitKey "login:ip" ip)) = some value →
            ((∀ x ∈ past, x.q ≠ .redis (.incr (rateLimitKey "login:user" username))) ↔
              config.AUTH_LOGIN_MAX_ATTEMPTS < value)) [] := by
  have hne := ipKey_ne_userKey ip username
  refine obeys_query (fun heq => by cases heq) fun env lockTtl => ?_
  split
  · rfl
  refine Prog.Obeys.bind (checkRateLimit_obeys (fun _ => rfl) (counting_issue_other _)
    fun env₁ value₁ rest₁ ttl₁ hrest₁ => ?_)
  -- What the log says after the limit of the address.
  have hfirst : ([⟨.redis (.ttl (lockKey username)), env, lockTtl⟩] ++
      ⟨.redis (.incr (rateLimitKey "login:ip" ip)), env₁, value₁⟩ :: rest₁ : Log).findSome?
        (countOf (rateLimitKey "login:ip" ip)) = some value₁ := by
    simp [List.findSome?_cons, countOf]
  have hcount : countsIn (rateLimitKey "login:ip" ip)
      ([⟨.redis (.ttl (lockKey username)), env, lockTtl⟩] ++
        ⟨.redis (.incr (rateLimitKey "login:ip" ip)), env₁, value₁⟩ :: rest₁) = 1 := by
    have hrest : ∀ e ∈ rest₁, e.q ≠ .redis (.incr (rateLimitKey "login:ip" ip)) :=
      fun e he => hrest₁ e he _
    have hnone := countP_incr_eq_zero hrest
    simp [countsIn, hnone]
  dsimp only
  split
  · rename_i hip
    intro value hvalue
    cases hfirst.symm.trans hvalue
    have hover : config.AUTH_LOGIN_MAX_ATTEMPTS < value₁ := by simpa using hip
    refine iff_of_true (fun x hx heq => ?_) hover
    rcases List.mem_cons.mp hx with rfl | hx
    · cases heq
    rcases List.mem_cons.mp hx with rfl | hx
    · exact incr_ne hne heq
    · exact hrest₁ x hx _ heq
  rename_i hip
  have hadmitted : AdmittedByIp config ip _ := ⟨value₁, by simpa using hip, hfirst⟩
  refine Prog.Obeys.bind (checkRateLimit_obeys (fun heq => ?_) (counting_issue_other _)
    fun env₂ value₂ rest₂ ttl₂ hrest₂ => ?_)
  · exact absurd heq (incr_ne hne.symm)
  dsimp only
  split
  · intro value hvalue
    obtain ⟨value', hle, hfirst'⟩ := hadmitted.append
      (⟨.redis (.incr (rateLimitKey "login:user" username)), env₂, value₂⟩ :: rest₂)
    cases hfirst'.symm.trans hvalue
    refine iff_of_false (fun hnone => ?_) (Nat.not_lt.mpr hle)
    exact hnone _ (List.mem_append_right _ List.mem_cons_self) rfl
  · refine ⟨hadmitted.append _, (countsIn_append_of_ne fun e he => ?_).trans hcount⟩
    rcases List.mem_cons.mp he with rfl | he
    · exact incr_ne hne.symm
    · exact hrest₂ e he _

theorem assertCanAttemptLogin_counting :
    (assertCanAttemptLogin config ip username).Obeys (counting config ip username fun past _ =>
      AdmittedByIp config ip past ∧ countsIn (rateLimitKey "login:ip" ip) past = 1) [] := by
  refine Prog.Obeys.bind (checkCanAttemptLogin_counting.mono (fun _ _ h => h) (fun past result h => ?_)
    fun _ _ h => h)
  cases result with
  | ok => exact h
  | locked retryAfterSeconds =>
      intro value hvalue
      cases h.symm.trans hvalue
  | rateLimited retryAfterSeconds =>
      intro value hvalue
      exact (and_iff_right ⟨_, _, rfl⟩).trans (h value hvalue)

/-- A failure is counted on the address once more. -/
theorem recordLoginFailure_counting {β : Type} {f : LockResult → AuthProg β} {finish : Log → β → Prop}
    (hadmitted : AdmittedByIp config ip past) (hcount : countsIn (rateLimitKey "login:ip" ip) past = 1)
    (hlooked : lookedUp past = true)
    (hf : ∀ lock past, AdmittedByIp config ip past → (f lock).Obeys (counting config ip username finish) past) :
    ((recordLoginFailure config ip username).bind f).Obeys (counting config ip username finish) past := by
  have huser : rateLimitKey "login:user" username ≠ rateLimitKey "login:ip" ip :=
    (ipKey_ne_userKey ip username).symm
  have hstrikes : strikesKey username ≠ rateLimitKey "login:ip" ip :=
    (rateLimitKey_ne_strikesKey _ _ _).symm
  refine Prog.Obeys.bind (Prog.Obeys.bind (checkRateLimit_obeys (fun _ => ?_) (counting_issue_other _)
    fun env value rest ttl hrest => ?_))
  · rw [hcount, hlooked]
    rfl
  have hadmitted := hadmitted.append (⟨.redis (.incr (rateLimitKey "login:ip" ip)), env, value⟩ :: rest)
  refine obeys_admitted (checkRateLimit_only ?_ ?_) checkRateLimit_raises hadmitted fun _ log₁ _ => ?_
  · simp [rateLimitWrites, huser]
  · simp
  refine obeys_admitted (incr_only ?_ ?_) incr_raises (hadmitted.append log₁) fun strikes log₂ _ => ?_
  · simpa using hstrikes
  · simp
  split
  · refine obeys_query ?_ fun env' reply => ?_
    · split <;> exact fun heq => by cases heq
    · exact hf _ _ (((hadmitted.append log₁).append log₂).append _)
  · exact hf _ _ ((hadmitted.append log₁).append log₂)

theorem not_isTooManyRequests_http (e : HttpException) : ¬ (AuthException.http e).IsTooManyRequests := by
  rintro ⟨_, _, h⟩
  cases h

theorem login_counting (dto : LoginDto) (ip : String) :
    (login config ms dto ip).Obeys (counting config ip dto.username fun past _ =>
      AdmittedByIp config ip past) [] := by
  refine Prog.Obeys.bind (assertCanAttemptLogin_counting.mono (fun _ _ h => h)
    (fun past _ ⟨hadmitted, hcount⟩ => ?_) fun _ _ h => h)
  refine obeys_admitted (resolveTenantByCode_only ?_) (fun tenant => ?_) hadmitted fun tenant log hlog => ?_
  · exact fun heq => by cases heq
  · cases tenant with
    | none => exact not_isTooManyRequests_http _
    | some _ => exact trivial
  refine obeys_query (fun heq => by cases heq) fun env user => ?_
  have hadmitted := (hadmitted.append log).append [⟨.findUserByAccount none tenant.id dto.username, env, user⟩]
  have hcount : countsIn (rateLimitKey "login:ip" ip)
      (past ++ log ++ [⟨.findUserByAccount none tenant.id dto.username, env, user⟩]) = 1 := by
    rw [countsIn_append_of_ne (by simp), countsIn_append_of_ne hlog, hcount]
  cases user with
  | none =>
      refine recordLoginFailure_counting hadmitted hcount (by simp [lookedUp, Stmt.LooksUp])
        fun lock past hadmitted => ?_
      exact hadmitted.fail (not_isTooManyRequests_http _)
  | some user =>
      refine obeys_query (fun heq => by cases heq) fun env' isPwdOk => ?_
      have hadmitted := hadmitted.append [⟨.compare dto.password user.passwordHash, env', isPwdOk⟩]
      cases isPwdOk with
      | true =>
          refine obeys_admitted (clearLoginFailures_only ?_) (fun _ => trivial) hadmitted fun _ log' _ => ?_
          · exact fun heq => by cases heq
          have hbuild : (buildAuthResponse config ms user).Only fun q =>
              q ≠ .redis (.incr (rateLimitKey "login:ip" ip)) :=
            buildAuthResponse_only (fun heq => by cases heq) fun heq => by cases heq
          have hraises : (buildAuthResponse config ms user).Raises fun e => ¬ e.IsTooManyRequests :=
            buildAuthResponse_raises (not_isTooManyRequests_http _)
          refine hbuild.obeys_raises hraises fun log'' _ => ⟨fun q hq heq => absurd heq hq, fun _ => ?_,
            fun e he => ?_⟩
          · exact (hadmitted.append log').append log''
          · exact ((hadmitted.append log').append log'').fail he
      | false =>
          refine recordLoginFailure_counting hadmitted ?_ ?_ fun lock past hadmitted => ?_
          · rw [countsIn_append_of_ne (by simp), hcount]
          · simp [lookedUp, Stmt.LooksUp]
          · split
            · exact hadmitted.fail (not_isTooManyRequests_http _)
            · exact hadmitted.fail (not_isTooManyRequests_http _)

end Logs

/-! ### Runs -/

section Runs

variable {deployment : Deployment} {r : Run} {ip : String}

/-- The counter of an address is counted on by the logins from it. -/
theorem login_of_writes {config : EnvConfig} {call : Call}
    (h : call.Writes config (.redis (.incr (rateLimitKey "login:ip" ip)))) : ∃ dto, call = .login dto ip := by
  cases call with
  | login dto ip' =>
      obtain ⟨c, hc, heq⟩ := h
      cases heq
      simp only [loginWrites, failureWrites, guardWrites, rateLimitWrites, List.cons_append, List.nil_append,
        List.mem_cons, List.not_mem_nil, or_false, Command.incr.injEq, reduceCtorEq, false_or] at hc
      rcases hc with hkey | hkey | hkey
      · exact ⟨dto, by rw [rateLimitKey_inj hkey]⟩
      · exact absurd hkey (ipKey_ne_userKey _ _)
      · exact absurd hkey (rateLimitKey_ne_strikesKey _ _ _)
  | register _ _ =>
      obtain ⟨_, _, _, heq⟩ := h
      cases heq
  | changePassword _ _ _ =>
      obtain ⟨_, _, heq⟩ := h
      cases heq
  | logout user =>
      obtain ⟨_, heq⟩ := h
      cases heq
  | validate _ => exact h.elim
  | pass _ => cases h

theorem login_of_count {init : Db → Prop} (hr : Traced deployment.system init r) {i : Issued Db Stmt Env}
    (hi : i ∈ r.history) (hq : i.q = .redis (.incr (rateLimitKey "login:ip" ip))) :
    ∃ th dto, r.world.threads[i.thread]? = some th ∧ th.call = .login dto ip := by
  have hth := List.getElem?_eq_getElem (hr.issuers i hi)
  have honly := hr.only hi hth (program_only deployment _)
  rw [hq] at honly
  obtain ⟨dto, hcall⟩ := login_of_writes (honly.resolve_right id)
  exact ⟨_, dto, hth, hcall⟩

theorem program_counting (dto : LoginDto) (ip : String) :
    (deployment.system.program (.login dto ip)).Obeys (counting deployment.config ip dto.username
      fun past _ => AdmittedByIp deployment.config ip past) [] :=
  Prog.Obeys.bind ((login_counting dto ip).mono (fun _ _ h => h) (fun _ _ h => h) fun _ _ h => h)

/-- A thread counts on the address for the second time once it has looked up the user. -/
theorem own_counts {init : Db → Prop} (hr : Traced deployment.system init r)
    {h h' : List (Issued Db Stmt Env)} {i : Issued Db Stmt Env} (hhistory : r.history = h ++ i :: h')
    (hq : i.q = .redis (.incr (rateLimitKey "login:ip" ip))) :
    (own i.thread h).countP (isCount (rateLimitKey "login:ip" ip)) =
      ((own i.thread h).any fun j => j.q.LooksUp).toNat := by
  have hi : i ∈ r.history := hhistory ▸ List.mem_append_right _ List.mem_cons_self
  obtain ⟨th, dto, hth, hcall⟩ := login_of_count hr hi hq
  have hobeys : (deployment.system.program (.login dto ip)).Obeys _ [] := program_counting dto ip
  rw [← hcall] at hobeys
  have hissue := hr.issued hth hobeys hhistory rfl hq
  rw [countsIn, List.countP_map, lookedUp, List.any_map] at hissue
  exact hissue

theorem firstCount_iff {key : String} {before : List (Issued Db Stmt Env)} {i : Issued Db Stmt Env} :
    firstCount key before i = true ↔
      i.q = .redis (.incr key) ∧ (own i.thread before).countP (isCount key) = 0 := by
  simp [firstCount, isCount, List.countP_eq_zero]

theorem failureCount_iff {key : String} {before : List (Issued Db Stmt Env)} {i : Issued Db Stmt Env} :
    failureCount key before i = true ↔
      i.q = .redis (.incr key) ∧ ((own i.thread before).any fun j => j.q.LooksUp) = true := by
  simp [failureCount]

/-- Each count on the address is that of a call that reaches the limiter or that of a
failure recorded. -/
theorem length_reached_add_recorded {init : Db → Prop} (hr : Traced deployment.system init r)
    {pre seg post : List (Issued Db Stmt Env)} (hhistory : r.history = pre ++ seg ++ post) :
    (reached (rateLimitKey "login:ip" ip) pre seg).length +
        (recorded (rateLimitKey "login:ip" ip) pre seg).length =
      seg.countP (isCount (rateLimitKey "login:ip" ip)) := by
  refine length_threadsWhere_add fun a i b heq => ?_
  have hsplit : r.history = (pre ++ a) ++ i :: (b ++ post) := by
    rw [hhistory, heq]
    simp
  by_cases hq : i.q = .redis (.incr (rateLimitKey "login:ip" ip))
  · have hcounts := own_counts hr hsplit hq
    have hcount : isCount (rateLimitKey "login:ip" ip) i = true := decide_eq_true hq
    rw [hcount]
    cases hlooked : (own i.thread (pre ++ a)).any fun j => j.q.LooksUp with
    | true =>
        have hfailure := failureCount_iff.mpr ⟨hq, hlooked⟩
        have hlater : firstCount (rateLimitKey "login:ip" ip) (pre ++ a) i = false := by
          refine Bool.eq_false_iff.mpr fun hfirst => ?_
          rw [(firstCount_iff.mp hfirst).2, hlooked] at hcounts
          cases hcounts
        rw [hfailure, hlater]
        rfl
    | false =>
        rw [hlooked] at hcounts
        have hfirst := firstCount_iff.mpr ⟨hq, hcounts⟩
        have hguard : failureCount (rateLimitKey "login:ip" ip) (pre ++ a) i = false := by
          refine Bool.eq_false_iff.mpr fun hfailure => ?_
          rw [(failureCount_iff.mp hfailure).2] at hlooked
          cases hlooked
        rw [hfirst, hguard]
        rfl
  · have hcount : isCount (rateLimitKey "login:ip" ip) i = false := decide_eq_false hq
    have hfirst : firstCount (rateLimitKey "login:ip" ip) (pre ++ a) i = false :=
      Bool.eq_false_iff.mpr fun h => hq (firstCount_iff.mp h).1
    have hfailure : failureCount (rateLimitKey "login:ip" ip) (pre ++ a) i = false :=
      Bool.eq_false_iff.mpr fun h => hq (failureCount_iff.mp h).1
    rw [hcount, hfirst, hfailure]
    rfl

theorem reached_nodup {key : String} {pre seg : List (Issued Db Stmt Env)} : (reached key pre seg).Nodup := by
  refine threadsWhere_nodup fun a i b j c _ hthread hi hj => ?_
  have hnone := List.countP_eq_zero.mp (firstCount_iff.mp hj).2 i
    (mem_own.mpr ⟨by simp, hthread⟩)
  exact hnone (decide_eq_true (firstCount_iff.mp hi).1)

theorem recorded_nodup {init : Db → Prop} (hr : Traced deployment.system init r)
    {pre seg post : List (Issued Db Stmt Env)} (hhistory : r.history = pre ++ seg ++ post) :
    (recorded (rateLimitKey "login:ip" ip) pre seg).Nodup := by
  refine threadsWhere_nodup fun a i b j c heq hthread hi hj => ?_
  obtain ⟨hiq, hilooked⟩ := failureCount_iff.mp hi
  obtain ⟨hjq, hjlooked⟩ := failureCount_iff.mp hj
  have hisplit : r.history = (pre ++ a) ++ i :: (b ++ j :: c ++ post) := by
    rw [hhistory, heq]
    simp
  have hjsplit : r.history = (pre ++ (a ++ i :: b)) ++ j :: (c ++ post) := by
    rw [hhistory, heq]
    simp
  have hicounts := own_counts hr hisplit hiq
  have hjcounts := own_counts hr hjsplit hjq
  rw [hilooked] at hicounts
  rw [hjlooked, ← hthread, ← List.append_assoc, own_append, List.countP_append, hicounts] at hjcounts
  have hmem : i ∈ own i.thread (i :: b) := mem_own.mpr ⟨List.mem_cons_self, rfl⟩
  have hpos : 0 < (own i.thread (i :: b)).countP (isCount (rateLimitKey "login:ip" ip)) :=
    List.countP_pos_iff.mpr ⟨i, hmem, decide_eq_true hiq⟩
  change 1 + _ = 1 at hjcounts
  omega

/-- Within one lifetime of the counter a call that reaches the limiter finds it at the calls
that have reached it and the failures recorded. -/
theorem incr_value_eq {init : Db → Prop} (hr : Traced deployment.system init r)
    {pre a post : List (Issued Db Stmt Env)} {i : Issued Db Stmt Env}
    (hhistory : r.history = pre ++ a ++ i :: post)
    (hlifetime : FromCreation (rateLimitKey "login:ip" ip) (a ++ [i])) :
    (i.before.redis.incr (rateLimitKey "login:ip" ip)).value =
      (reached (rateLimitKey "login:ip" ip) pre a).length +
        (recorded (rateLimitKey "login:ip" ip) pre a).length + 1 := by
  obtain ⟨hnew, hlife⟩ := hlifetime
  rw [length_reached_add_recorded hr hhistory, incr_value]
  cases a with
  | nil => rw [countOn_of_not_live (hnew i rfl), List.countP_nil]
  | cons j a =>
      obtain ⟨s, -, hlinked⟩ := hr.linked
      rw [hhistory] at hlinked
      obtain ⟨m, -, hpart⟩ := linked_append.mp hlinked.around.1
      have hcounts : ∀ k ∈ j :: a, CountsOrExpires (rateLimitKey "login:ip" ip) k := by
        intro k hk hwrites
        have hmem : k ∈ r.history :=
          hhistory ▸ List.mem_append_left _ (List.mem_append_right _ hk)
        obtain ⟨th, -, hwrite⟩ := history_keyWrite hr hmem hwrites
        exact hwrite.rateLimit
      have htotal := countOn_eq_add hpart hcounts
        (fun k hk => hlife k (List.mem_append_left _ hk))
        fun _ => hlife i (List.mem_append_right _ List.mem_cons_self)
      rw [htotal, ← hpart.1, countOn_of_not_live (hnew j rfl), Nat.zero_add]

/-- A call that has been answered was refused by the limit of its address just where its
first count was above it. -/
theorem refused_iff_over (hr : Traced deployment.system (fun _ => True) r)
    {a post : List (Issued Db Stmt Env)} {i : Issued Db Stmt Env} (hhistory : r.history = a ++ i :: post)
    (hfirst : firstCount (rateLimitKey "login:ip" ip) a i = true) {dto : LoginDto}
    (hcalls : r.Calls i.thread (.login dto ip)) (hanswered : r.Answered i.thread) :
    r.RefusedByIpLimit i.thread dto.username ↔ deployment.config.AUTH_LOGIN_MAX_ATTEMPTS <
      (i.before.redis.incr (rateLimitKey "login:ip" ip)).value := by
  obtain ⟨t, q, env, db⟩ := i
  obtain ⟨rfl, hnone⟩ := (firstCount_iff.mp hfirst)
  obtain ⟨th, hth, hcall⟩ := hcalls
  obtain ⟨th', hth', hended⟩ := hanswered
  cases hth.symm.trans hth'
  have hvalue : ((own t r.history).map (Issued.entry deployment.system.engine)).findSome?
      (countOf (rateLimitKey "login:ip" ip)) = some (db.redis.incr (rateLimitKey "login:ip" ip)).value := by
    refine first_count hhistory fun j hj hthread heq => ?_
    exact List.countP_eq_zero.mp hnone j (mem_own.mpr ⟨hj, hthread⟩) (decide_eq_true heq)
  have hobeys : (deployment.system.program (.login dto ip)).Obeys _ [] := program_counting dto ip
  rw [← hcall] at hobeys
  rw [Run.RefusedByIpLimit]
  rcases hended with ⟨outcome, hresult⟩ | ⟨e, hthrown, hne⟩
  · obtain ⟨value, hle, hfound⟩ := hr.finished hth hobeys hresult
    cases hfound.symm.trans hvalue
    refine iff_of_false ?_ (Nat.not_lt.mpr hle)
    rintro ⟨⟨message, seconds, herror⟩, -⟩
    simp [Thread.result?, (error?_of_thread hth).mp herror, Prog.result?] at hresult
  · rcases hr.failed hth hobeys hthrown with haborted | hfail
    · exact absurd haborted hne
    · refine Iff.trans (and_congr ?_ ?_) (hfail _ hvalue)
      · simp only [error?_of_thread hth, hthrown, Prog.throw.injEq]
        exact Iff.rfl
      · constructor
        · intro h x hx
          obtain ⟨j, hj, rfl⟩ := List.mem_map.mp hx
          exact h j hj
        · exact fun h j hj => h _ (List.mem_map_of_mem hj)

end Runs

/-- **The limit of an address**: of the calls from it that reach the limiter within one
lifetime of its counter, a call that is answered is refused by it exactly when the calls
that have reached it before and the failures recorded before are together at least
`AUTH_LOGIN_MAX_ATTEMPTS`. -/
theorem refused_by_ip_limit_iff {deployment : Deployment} {r : Run}
    (hreach : deployment.machine.Reachable r) {dto : LoginDto} {ip : String}
    {pre a post : List (Issued Db Stmt Env)} {i : Issued Db Stmt Env}
    (hhistory : r.history = pre ++ a ++ i :: post)
    (hlifetime : FromCreation (rateLimitKey "login:ip" ip) (a ++ [i]))
    (hcalls : r.Calls i.thread (.login dto ip))
    (hfirst : firstCount (rateLimitKey "login:ip" ip) (pre ++ a) i = true)
    (hanswered : r.Answered i.thread) :
    (reached (rateLimitKey "login:ip" ip) pre a).Nodup ∧ (recorded (rateLimitKey "login:ip" ip) pre a).Nodup ∧
      (r.RefusedByIpLimit i.thread dto.username ↔ deployment.config.AUTH_LOGIN_MAX_ATTEMPTS ≤
        (reached (rateLimitKey "login:ip" ip) pre a).length +
          (recorded (rateLimitKey "login:ip" ip) pre a).length) := by
  have hr := System.traced_of_reachable (program_plain deployment) hreach
  refine ⟨reached_nodup, recorded_nodup hr hhistory, ?_⟩
  rw [refused_iff_over hr hhistory hfirst hcalls hanswered, incr_value_eq hr hhistory hlifetime,
    Nat.lt_succ_iff]

/-! ### A failure that counts twice -/

def twoAttempts : Deployment :=
  { lockAtOnce with
    config := { (default : EnvConfig) with AUTH_LOGIN_MAX_ATTEMPTS := 2, maxAttempts_pos := Nat.two_pos } }

/-- A wrong password, then a second login from the same address. -/
def failThenLogIn : List (Action Call Env) :=
  (.spawn (.login (attempt "wrong") "10.0.0.1") :: List.replicate 16 (.run 0 {})) ++
    .spawn (.login (attempt "right") "10.0.0.1") :: List.replicate 3 (.run 1 {})

theorem failThenLogIn_runs :
    (twoAttempts.machine.exec { world := { committed := oneAccount } } failThenLogIn).isSome := by
  decide +kernel

def refusedRun : Run := (twoAttempts.machine.exec _ failThenLogIn).get failThenLogIn_runs

theorem refusedRun_length : refusedRun.history.length = 19 := by decide +kernel

def refusedRunEvent (i : Fin 19) : Issued Db Stmt Env :=
  refusedRun.history.get (i.cast refusedRun_length.symm)

theorem refusedRun_reachable : twoAttempts.machine.Reachable refusedRun :=
  Machine.reachableBy_exec_get (by exact ⟨⟨trivial, rfl⟩, rfl⟩) (Machine.admits_true _ _) _

/-- The first login has the statements 0 to 15, and its count in statement 1 creates the
counter; the second login reaches the limiter in statement 17. -/
theorem refusedRun_parts : refusedRun.history = refusedRun.history.take 1 ++
    (refusedRun.history.drop 1).take 16 ++ refusedRunEvent 17 :: refusedRun.history.drop 18 := by
  have hevent : refusedRun.history.drop 17 = refusedRunEvent 17 :: refusedRun.history.drop 18 :=
    List.drop_eq_getElem_cons _
  rw [← hevent, List.append_assoc, ← List.drop_drop (i := 16) (j := 1), List.take_append_drop,
    List.take_append_drop]

theorem refusedRun_fromCreation : FromCreation (rateLimitKey "login:ip" "10.0.0.1")
    ((refusedRun.history.drop 1).take 16 ++ [refusedRunEvent 17]) := by
  unfold FromCreation OneLifetime
  decide +kernel

theorem refusedRun_calls : refusedRun.Calls (refusedRunEvent 17).thread (.login (attempt "right") "10.0.0.1") :=
  Run.calls_iff.mpr (by decide +kernel)

theorem refusedRun_error :
    refusedRun.error? (refusedRunEvent 17).thread = some (.tooManyRequests "登录尝试过于频繁，请稍后再试" 900) := by
  decide +kernel

theorem refusedRun_answered : refusedRun.Answered (refusedRunEvent 17).thread :=
  Run.answered_of_error refusedRun_error (by decide)

theorem refused_after_one_failure : refusedRun.RefusedByIpLimit (refusedRunEvent 17).thread "a" :=
  (refused_by_ip_limit_iff refusedRun_reachable refusedRun_parts refusedRun_fromCreation refusedRun_calls
    (by decide +kernel) refusedRun_answered).2.2.mpr (by decide +kernel)

/-- The failure alone has used up the second attempt. -/
theorem refused_before_limit_reached : ¬ ∀ (deployment : Deployment) (r : Run),
    deployment.machine.Reachable r → ∀ (dto : LoginDto) (ip : String) (pre a post : List (Issued Db Stmt Env))
      (i : Issued Db Stmt Env), r.history = pre ++ a ++ i :: post →
    FromCreation (rateLimitKey "login:ip" ip) (a ++ [i]) → r.Calls i.thread (.login dto ip) →
    firstCount (rateLimitKey "login:ip" ip) (pre ++ a) i = true → r.Answered i.thread →
    (r.RefusedByIpLimit i.thread dto.username ↔
      deployment.config.AUTH_LOGIN_MAX_ATTEMPTS ≤ (reached (rateLimitKey "login:ip" ip) pre a).length) := by
  intro h
  have hlimit := h twoAttempts refusedRun refusedRun_reachable (attempt "right") "10.0.0.1" _ _ _ _
    refusedRun_parts refusedRun_fromCreation refusedRun_calls (by decide +kernel) refusedRun_answered
  have hfew : ¬ twoAttempts.config.AUTH_LOGIN_MAX_ATTEMPTS ≤ (reached (rateLimitKey "login:ip" "10.0.0.1")
      (refusedRun.history.take 1) ((refusedRun.history.drop 1).take 16)).length := by
    decide +kernel
  refine hfew (hlimit.mp ⟨⟨_, _, refusedRun_error⟩, ?_⟩)
  decide +kernel

end MibServer.Auth
