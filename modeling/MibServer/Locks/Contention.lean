import MibServer.Locks.RedisLock
import MibServer.Locks.BusinessLocks
import MibServer.Lib.TryLocks

/-!
Any number of `runWithBusinessLocks` calls on one Redis.

Each command is one step, and so is the timer of a call, the end of its `fn`, and the expiry of
a key. A command may reject, whether Redis has carried it out or not.

Seen from outside the calls are parties that take locks in one order and do not wait: each step
of the calls is a step of the parties, or none (`Linked.step`, `reachable_linked`).
-/

namespace MibServer.Locks

open MibServer.Lib

/-! ### Calls -/

def businessLockKey (resource : String) : String := "biz:" ++ resource

/-- Where a call stands. -/
inductive Phase (T E : Type) where
  | acquiring (todo : List String)
  | racing
  | releasing (todo : List Held) (result : Except (LockFailure E) T)
  | settled (result : Except (LockFailure E) T)
deriving DecidableEq

/-- The `fn` of a call. It goes on when its timer has fired. -/
inductive Body where
  | notCalled | running | ended
deriving DecidableEq, Repr

/-- A call: its arguments, the locks it has taken, the one that was busy, the releases it has
issued. -/
structure Call (T E : Type) where
  resources : List String
  ttlSeconds : Int
  options : RunOptions E
  held : List Held
  refusedAt : Option String
  issued : List Held
  body : Body
  phase : Phase T E

structure Calls (Client T E : Type) where
  store : Store
  call : Client → Option (Call T E)

inductive CallAction (Client T E : Type) where
  | start (c : Client) (resources : List String) (ttlSeconds : Int) (options : RunOptions E)
  | acquire (c : Client)
  /-- The command rejects, and Redis may have `applied` it. -/
  | acquireRejects (c : Client) (applied : Bool)
  /-- The loop is over, and `fn` is called. -/
  | callFn (c : Client)
  | renew (c : Client) (lock : Held)
  | fnSettles (c : Client) (outcome : Except E T)
  | timeout (c : Client)
  | release (c : Client)
  | releaseRejects (c : Client) (applied : Bool)
  | settle (c : Client)
  | expire (resource : String)

variable {Client T E : Type}

/-- What a call throws when a lock is busy. -/
def RunOptions.busy (options : RunOptions E) (resource : String) : LockFailure E :=
  match options.onBusy with
  | some error => .onBusy error
  | none => .BusinessLockBusyError resource

def Call.timeoutError (call : Call T E) : LockFailure E :=
  .LockOperationTimeoutError (",".intercalate (sortedResources call.resources))
    (call.options.operationTimeoutMs.getD (max 1000 ((call.ttlSeconds - 1) * 1000)))

section Steps

variable [DecidableEq Client] (token : Client → String)

def Calls.put (s : Calls Client T E) (c : Client) (call : Call T E) (store : Store) :
    Calls Client T E :=
  ⟨store, Function.update s.call c (some call)⟩

/-- What a client's call does when it is in this phase. -/
def callStep (s : Calls Client T E) (c : Client) (call : Call T E) :
    Phase T E → CallAction Client T E → Option (Calls Client T E)
  | .acquiring (resource :: rest), .acquire _ =>
      let (reply, store) := acquireLock s.store (businessLockKey resource) call.ttlSeconds (token c)
      match reply with
      | some t =>
          some (s.put c { call with held := call.held ++ [⟨resource, t⟩], phase := .acquiring rest }
            store)
      | none =>
          let result := .error (call.options.busy resource)
          some (s.put c { call with
            refusedAt := some resource
            phase := .releasing call.held.reverse result } store)
  | .acquiring (resource :: _), .acquireRejects _ applied =>
      let store := if applied then
        (acquireLock s.store (businessLockKey resource) call.ttlSeconds (token c)).2 else s.store
      some (s.put c { call with phase := .settled (.error .redis) } store)
  | .acquiring [], .callFn _ =>
    some (s.put c { call with body := .running, phase := .racing } s.store)
  | .racing, .renew _ lock =>
      if lock ∈ call.held then
        some (s.put c call (renewLock s.store (businessLockKey lock.resource) lock.token
          call.ttlSeconds).2)
      else none
  | .racing, .fnSettles _ outcome =>
      some (s.put c { call with
        body := .ended
        phase := .releasing call.held.reverse (outcome.mapError LockFailure.fn) } s.store)
  | .racing, .timeout _ =>
      some (s.put c { call with phase := .releasing call.held.reverse (.error call.timeoutError) }
        s.store)
  | .releasing (lock :: rest) result, .release _ =>
      some (s.put c { call with issued := call.issued ++ [lock], phase := .releasing rest result }
        (releaseLock s.store (businessLockKey lock.resource) lock.token).2)
  | .releasing (lock :: _) _, .releaseRejects _ applied =>
      let store := if applied then
        (releaseLock s.store (businessLockKey lock.resource) lock.token).2 else s.store
      some (s.put c { call with issued := call.issued ++ [lock], phase := .settled (.error .redis) }
        store)
  | .releasing [] result, .settle _ => some (s.put c { call with phase := .settled result } s.store)
  | .releasing _ _, .fnSettles _ _ | .settled _, .fnSettles _ _ =>
      if call.body = .running then some (s.put c { call with body := .ended } s.store) else none
  | _, _ => none

def CallAction.client? : CallAction Client T E → Option Client
  | .start c _ _ _ | .acquire c | .acquireRejects c _ | .callFn c | .renew c _ | .fnSettles c _
  | .timeout c | .release c | .releaseRejects c _ | .settle c => some c
  | .expire _ => none

def Calls.step (s : Calls Client T E) : CallAction Client T E → Option (Calls Client T E)
  | .start c resources ttlSeconds options =>
      if (s.call c).isNone then
        some (s.put c ⟨resources, ttlSeconds, options, [], none, [], .notCalled,
          .acquiring (sortedResources resources)⟩ s.store)
      else none
  | .expire resource =>
      if (s.store (lockKey (businessLockKey resource))).any (fun v => v.expiresAt.isSome) then
        some { s with store := Function.update s.store (lockKey (businessLockKey resource)) none }
      else none
  | a => a.client?.bind fun c => (s.call c).bind fun call => callStep token s c call call.phase a

/-- Any number of clients, one call each, on a Redis without locks. -/
def calls : Machine (Calls Client T E) (CallAction Client T E) where
  init s := s.store = (fun _ => none) ∧ s.call = fun _ => none
  step := Calls.step token

def Call.isSettled (call : Call T E) : Bool :=
  match call.phase with
  | .settled _ => true
  | _ => false

/-- What may happen in a run: a lock is taken for a positive time, and only with faults does a
command reject, or a lock expire, which is then one that a settled call has left behind. -/
def Allowed (faults : Prop) (s : Calls Client T E) : CallAction Client T E → Prop
  | .start _ _ ttlSeconds _ => 0 < ttlSeconds
  | .acquireRejects _ _ | .releaseRejects _ _ => faults
  | .expire resource => faults ∧ ∀ c call, s.call c = some call →
      s.store.get (lockKey (businessLockKey resource)) = some (token c) → call.isSettled
  | _ => True

end Steps

/-! ### What a command leaves in the store -/

theorem businessLockKey_inj {r r' : String} : businessLockKey r = businessLockKey r' ↔ r = r' := by
  simp [businessLockKey, ← String.toList_inj]

theorem acquireLock_get (s : Store) (key t : String) (ttlSeconds : Int) (k v : String) :
    (acquireLock s key ttlSeconds t).2.get k = some v ↔
      s.get k = some v ∨ s.get k = none ∧ k = lockKey key ∧ v = t := by
  rcases acquireLock_cases s key ttlSeconds t with ⟨⟨held, hheld⟩, heq⟩ | ⟨hfree, expiresAt, heq⟩
  · rw [heq]
    refine ⟨Or.inl, ?_⟩
    rintro (h | ⟨hnone, rfl, -⟩)
    · exact h
    · rw [hheld] at hnone
      cases hnone
  · rw [heq]
    by_cases hk : k = lockKey key
    · subst hk
      simp [hfree, eq_comm]
    · simp [s.get_update_ne hk, hk]

theorem releaseLock_get (s : Store) (key t k v : String) :
    (releaseLock s key t).2.get k = some v ↔ s.get k = some v ∧ (k = lockKey key → v ≠ t) := by
  by_cases hheld : s.get (lockKey key) = some t
  · rw [releaseLock, if_pos hheld]
    by_cases hk : k = lockKey key
    · subst hk
      simp [Store.del, hheld, eq_comm]
    · simp [Store.del, s.get_update_ne hk, hk]
  · rw [releaseLock, if_neg hheld]
    refine ⟨fun h => ⟨h, ?_⟩, And.left⟩
    rintro rfl rfl
    exact hheld h

theorem renewLock_get (s : Store) (key t : String) {ttlSeconds : Int} (hpos : 0 < ttlSeconds) :
    (renewLock s key t ttlSeconds).2.get = s.get := by
  rcases renewLock_cases s key t ttlSeconds with heq | ⟨-, hneg, -⟩
  · exact heq
  · omega

/-! ### Calls as parties -/

section Parties

variable (token : Client → String)

/-- The order in which locks are taken. -/
def unitsLt (r r' : String) : Prop := codeUnits r < codeUnits r'

instance : IsStrictOrder String unitsLt where
  irrefl r := lt_irrefl (codeUnits r)
  trans _ _ _ := lt_trans

theorem sortedResources_ordered (resources : List String) :
    (sortedResources resources).Pairwise unitsLt := by
  have hsorted : (sortedResources resources).Pairwise fun a b => codeUnits a ≤ codeUnits b :=
    List.pairwise_insertionSort _ _
  refine (hsorted.and (sortedResources_nodup resources)).imp ?_
  rintro a b ⟨hle, hne⟩
  exact lt_of_le_of_ne hle fun heq => hne (codeUnits_injective heq)

theorem mem_sortedResources {resources : List String} {r : String} :
    r ∈ sortedResources resources ↔ r ∈ resources := by
  rw [sortedResources, List.mem_insertionSort, List.mem_dedup]

/-- The party a call is; a settled one still holds the locks it has left behind. -/
def Call.party (has : String → Bool) (call : Call T E) : TryLocks.Party String where
  stage := match call.phase with
    | .acquiring _ => .taking
    | .racing => .inside
    | .releasing _ _ => .leaving
    | .settled _ => .gone
  wants := sortedResources call.resources
  held := match call.phase with
    | .acquiring _ | .racing => call.held.map Held.resource
    | .releasing todo _ => (todo.map Held.resource).reverse
    | .settled _ => (sortedResources call.resources).filter has
  todo := match call.phase with
    | .acquiring todo => todo
    | _ => []
  refusedAt := call.refusedAt
  entered := call.body ≠ .notCalled

/-- The lock has the token. -/
def Store.hasToken (s : Store) (t r : String) : Bool := s.get (lockKey (businessLockKey r)) = some t

def Calls.parties (s : Calls Client T E) (c : Client) : TryLocks.Party String :=
  match s.call c with
  | none => .idle
  | some call => call.party (s.store.hasToken (token c))

/-- The locks of a call carry its token. -/
structure Call.Sound (t : String) (call : Call T E) : Prop where
  ttl : 0 < call.ttlSeconds
  held : ∀ lock ∈ call.held, lock.token = t
  todo : ∀ todo result, call.phase = .releasing todo result → ∀ lock ∈ todo, lock.token = t

/-- A key holds the token of the party that holds the lock, and no other value. -/
structure Linked (s : Calls Client T E) : Prop where
  store : ∀ r v, s.store.get (lockKey (businessLockKey r)) = some v ↔
    ∃ c, v = token c ∧ r ∈ (s.parties token c).held
  sound : ∀ c call, s.call c = some call → call.Sound (token c)

variable {token} {s : Calls Client T E} {c : Client} {call : Call T E}

theorem busy_iff (hlinked : Linked token s) {r : String} :
    TryLocks.Busy (s.parties token) r ↔ s.store.get (lockKey (businessLockKey r)) ≠ none := by
  rw [Option.ne_none_iff_exists']
  constructor
  · rintro ⟨c, hr⟩
    exact ⟨token c, (hlinked.store r _).mpr ⟨c, rfl, hr⟩⟩
  · rintro ⟨v, hv⟩
    obtain ⟨c, -, hr⟩ := (hlinked.store r v).mp hv
    exact ⟨c, hr⟩

theorem Linked.own (hlinked : Linked token s) (hinj : Function.Injective token) {r : String} :
    s.store.get (lockKey (businessLockKey r)) = some (token c) ↔ r ∈ (s.parties token c).held := by
  rw [hlinked.store]
  constructor
  · rintro ⟨c', htoken, hr⟩
    rwa [hinj htoken]
  · exact fun hr => ⟨c, rfl, hr⟩

theorem parties_of_call (hcall : s.call c = some call) : s.parties token c =
    call.party (s.store.hasToken (token c)) := by
  rw [Calls.parties, hcall]

end Parties

section Simulation

variable {token : Client → String} {s s' : Calls Client T E} {c : Client} {call call' : Call T E}
  {store' : Store} {faults : Prop}

/-- A command of one client changes no key under another's token. -/
def SameOthers (t : String) (store store' : Store) : Prop :=
  ∀ r v, v ≠ t →
    (store'.get (lockKey (businessLockKey r)) = some v ↔
      store.get (lockKey (businessLockKey r)) = some v)

theorem SameOthers.refl (t : String) (store : Store) : SameOthers t store store :=
  fun _ _ _ => Iff.rfl

theorem sameOthers_acquireLock (store : Store) (key t : String) (ttlSeconds : Int) :
    SameOthers t store (acquireLock store key ttlSeconds t).2 := by
  intro r v hv
  simp [acquireLock_get, hv]

theorem sameOthers_releaseLock (store : Store) (key t : String) :
    SameOthers t store (releaseLock store key t).2 := by
  intro r v hv
  simp [releaseLock_get, hv]

/-- What a settled call has left behind is what has its token. -/
theorem mem_left_iff (hwants : ∀ r, store'.get (lockKey (businessLockKey r)) = some (token c) →
      r ∈ call'.resources)
    {result : Except (LockFailure E) T} (hphase : call'.phase = .settled result) (r : String) :
    store'.get (lockKey (businessLockKey r)) = some (token c) ↔
      r ∈ (call'.party (store'.hasToken (token c))).held := by
  simp only [Call.party, hphase, List.mem_filter, mem_sortedResources, Store.hasToken,
    decide_eq_true_eq]
  exact ⟨fun h => ⟨hwants r h, h⟩, And.right⟩

/-- The locks with the client's token are among those of its call. -/
theorem wants_of_own (hinj : Function.Injective token) (hlinked : Linked token s)
    (hcall : s.call c = some call)
    (hsound : ∀ c, (s.parties token c).Sound unitsLt faults) {r : String}
      (h : s.store.get (lockKey (businessLockKey r)) = some (token c)) :
    r ∈ call.resources := by
  have hr := (hlinked.own hinj).mp h
  have hx := hsound c
  rw [parties_of_call hcall] at hr hx
  rw [← mem_sortedResources]
  change r ∈ (call.party (s.store.hasToken (token c))).wants
  cases hphase : call.phase with
  | acquiring todo =>
      rw [← (hx.taking (by simp [Call.party, hphase])).1]
      exact List.mem_append_left _ hr
  | racing => exact (hx.inside (by simp [Call.party, hphase])).1 ▸ hr
  | releasing todo result => exact (hx.leaving (by simp [Call.party, hphase])).1.mem hr
  | settled result =>
      simp only [Call.party, hphase] at hr
      exact (List.mem_filter.mp hr).1

variable [DecidableEq Client]

/-- When one call goes on, the other parties stay as they are. -/
theorem parties_put (hinj : Function.Injective token)
    (hothers : SameOthers (token c) s.store store') :
    (s.put c call' store').parties token =
      Function.update (s.parties token) c (call'.party (store'.hasToken (token c))) := by
  funext c'
  by_cases hc : c' = c
  · subst hc
    simp [Calls.parties, Calls.put]
  · have hhas : (s.put c call' store').store.hasToken (token c') = s.store.hasToken (token c') := by
      funext r
      have hsame := hothers r (token c') fun heq => hc (hinj heq)
      simp [Store.hasToken, Calls.put, hsame]
    rw [Function.update_of_ne hc, Calls.parties, Calls.parties, hhas]
    simp [Calls.put, Function.update_of_ne hc]

variable (token) in
/-- The new state is linked, and one party has moved or none. -/
def Simulates (faults : Prop) (s s' : Calls Client T E) : Prop :=
  Linked token s' ∧ (s'.parties token = s.parties token ∨
    TryLocks.Step unitsLt faults (s.parties token) (s'.parties token))

/-- One call goes on: it keeps the link, and its party moves. -/
theorem simulates_put (hinj : Function.Injective token) (hlinked : Linked token s)
    (hothers : SameOthers (token c) s.store store')
    (hown : ∀ r, store'.get (lockKey (businessLockKey r)) = some (token c) ↔
      r ∈ (call'.party (store'.hasToken (token c))).held)
    (hsound : call'.Sound (token c))
    (hmove : call'.party (store'.hasToken (token c)) = s.parties token c ∨
      TryLocks.Move unitsLt faults (TryLocks.Busy (s.parties token)) (s.parties token c)
        (call'.party (store'.hasToken (token c)))) :
    Simulates token faults s (s.put c call' store') := by
  have hparties : (s.put c call' store').parties token =
      Function.update (s.parties token) c (call'.party (store'.hasToken (token c))) :=
    parties_put hinj hothers
  refine ⟨⟨fun r v => ?_, fun c' call₀ hcall => ?_⟩, ?_⟩
  · rw [hparties]
    by_cases hv : v = token c
    · subst hv
      rw [show (s.put c call' store').store = store' from rfl, hown]
      constructor
      · exact fun hr => ⟨c, rfl, by rwa [Function.update_self]⟩
      · rintro ⟨c', htoken, hr⟩
        rwa [← hinj htoken, Function.update_self] at hr
    · rw [show (s.put c call' store').store = store' from rfl, hothers r v hv, hlinked.store]
      refine exists_congr fun c' => and_congr_right fun htoken => ?_
      rw [Function.update_of_ne]
      rintro rfl
      exact hv htoken
  · by_cases hc : c' = c
    · subst hc
      simp only [Calls.put, Function.update_self, Option.some.injEq] at hcall
      exact hcall ▸ hsound
    · simp only [Calls.put, Function.update_of_ne hc] at hcall
      exact hlinked.sound c' call₀ hcall
  · rw [hparties]
    rcases hmove with heq | hmove
    · exact Or.inl (by rw [heq, Function.update_eq_self])
    · exact Or.inr ⟨c, _, hmove, rfl⟩

section Step

variable (hinj : Function.Injective token) (hlinked : Linked token s) (hcall : s.call c = some call)

include hinj hlinked hcall

theorem simulates_acquire {resource : String} {rest : List String}
    (hphase : call.phase = .acquiring (resource :: rest))
    (hstep : callStep token s c call (.acquiring (resource :: rest)) (.acquire c) = some s') :
    Simulates token faults s s' := by
  have hown := fun r => hlinked.own hinj (c := c) (r := r)
  have hcs := hlinked.sound c call hcall
  have htodo : (call.party (s.store.hasToken (token c))).todo = resource :: rest := by
    simp [Call.party, hphase]
  rw [parties_of_call hcall] at hown
  rcases acquireLock_cases s.store (businessLockKey resource) call.ttlSeconds (token c) with
    ⟨⟨v, hv⟩, heq⟩ | ⟨hfree, expiresAt, heq⟩
  · simp only [callStep, heq, Option.some.injEq] at hstep
    subst hstep
    refine simulates_put hinj hlinked (.refl _ _) (fun r => ?_) ⟨hcs.ttl, hcs.held, ?_⟩ (Or.inr ?_)
    · rw [hown]
      simp [Call.party, hphase]
    · rintro todo result ⟨⟩ lock hlock
      exact hcs.held lock (List.mem_reverse.mp hlock)
    · have hmove : TryLocks.Move unitsLt faults (TryLocks.Busy (s.parties token))
        (call.party (s.store.hasToken (token c))) _ :=
          .refuse (by simp [Call.party, hphase]) htodo ((busy_iff hlinked).mpr (by simp [hv]))
      rw [parties_of_call hcall]
      convert hmove using 1
      simp [Call.party, hphase]
  · have hget := acquireLock_get s.store (businessLockKey resource) (token c) call.ttlSeconds
    have hothers := sameOthers_acquireLock s.store (businessLockKey resource) (token c)
      call.ttlSeconds
    simp only [callStep, heq, Option.some.injEq] at hstep hget hothers
    subst hstep
    refine simulates_put hinj hlinked hothers (fun r => ?_) ⟨hcs.ttl, ?_, by simp⟩ (Or.inr ?_)
    · rw [hget, hown]
      simp only [Call.party, hphase, List.map_append, List.mem_append, List.map_cons, List.map_nil,
        List.mem_singleton, lockKey_inj, businessLockKey_inj]
      refine or_congr_right ⟨fun h => h.2.1, ?_⟩
      rintro rfl
      exact ⟨hfree, rfl, trivial⟩
    · intro lock hlock
      rcases List.mem_append.mp hlock with hold | hnew
      · exact hcs.held lock hold
      · rw [List.mem_singleton.mp hnew]
    · have hmove : TryLocks.Move unitsLt faults (TryLocks.Busy (s.parties token))
        (call.party (s.store.hasToken (token c))) _ :=
          .take (by simp [Call.party, hphase]) htodo (by simp [busy_iff hlinked, hfree])
      rw [parties_of_call hcall]
      convert hmove using 1
      simp [Call.party, hphase]

/-- A call that rejects leaves its locks behind. -/
theorem simulates_stop (hsound : ∀ c, (s.parties token c).Sound unitsLt faults) (hfaults : faults)
    (hstage : (s.parties token c).stage = .taking ∨ (s.parties token c).stage = .leaving)
    (hothers : SameOthers (token c) s.store store')
    (hgrab : ∀ r, store'.get (lockKey (businessLockKey r)) = some (token c) →
      s.store.get (lockKey (businessLockKey r)) = some (token c) ∨
        s.store.get (lockKey (businessLockKey r)) = none ∧ r ∈ call.resources)
    (issued : List Held) :
    Simulates token faults s
      (s.put c { call with issued, phase := .settled (.error .redis) } store') := by
  have hcs := hlinked.sound c call hcall
  refine simulates_put hinj hlinked hothers (mem_left_iff ?_ rfl) ⟨hcs.ttl, hcs.held, by simp⟩
    (Or.inr ?_)
  · intro r hr
    rcases hgrab r hr with hold | ⟨-, hr⟩
    · exact wants_of_own hinj hlinked hcall hsound hold
    · exact hr
  · have hmove : TryLocks.Move unitsLt faults (TryLocks.Busy (s.parties token))
        (s.parties token c) { s.parties token c with
          stage := .gone
          held := (sortedResources call.resources).filter (store'.hasToken (token c))
          todo := [] } :=
      .stop hfaults hstage ?_
    · convert hmove using 1
      simp [parties_of_call hcall, Call.party]
    · intro r hr
      rw [busy_iff hlinked, not_not]
      rcases hgrab r (by simpa [Store.hasToken] using (List.mem_filter.mp hr).2) with hold |
        ⟨hfree, -⟩
      · exact Or.inl ((hlinked.own hinj).mp hold)
      · exact Or.inr hfree

theorem simulates_acquireRejects (hsound : ∀ c, (s.parties token c).Sound unitsLt faults)
    (hfaults : faults)
    {resource : String} {rest : List String} {applied : Bool}
      (hphase : call.phase = .acquiring (resource :: rest))
    (hstep : callStep token s c call (.acquiring (resource :: rest)) (.acquireRejects c applied) =
      some s') :
    Simulates token faults s s' := by
  have hstage : (s.parties token c).stage = .taking := by simp [parties_of_call hcall, Call.party,
    hphase]
  have hresource : resource ∈ call.resources := by
    have htaking := ((hsound c).taking hstage).1
    rw [parties_of_call hcall] at htaking
    rw [← mem_sortedResources]
    change resource ∈ (call.party (s.store.hasToken (token c))).wants
    rw [← htaking]
    simp [Call.party, hphase]
  simp only [callStep, Option.some.injEq] at hstep
  subst hstep
  refine simulates_stop hinj hlinked hcall hsound hfaults (Or.inl hstage) ?_ (fun r hr => ?_) _
  · split
    · exact sameOthers_acquireLock _ _ _ _
    · exact .refl _ _
  · split at hr
    · rw [acquireLock_get, lockKey_inj, businessLockKey_inj] at hr
      exact hr.imp_right fun ⟨hfree, heq, _⟩ => ⟨hfree, heq ▸ hresource⟩
    · exact Or.inl hr

theorem simulates_releaseRejects (hsound : ∀ c, (s.parties token c).Sound unitsLt faults)
    (hfaults : faults)
    {lock : Held} {rest : List Held} {result : Except (LockFailure E) T} {applied : Bool}
    (hphase : call.phase = .releasing (lock :: rest) result)
    (hstep : callStep token s c call (.releasing (lock :: rest) result)
      (.releaseRejects c applied) = some s') :
    Simulates token faults s s' := by
  have htoken : lock.token = token c :=
    (hlinked.sound c call hcall).todo _ _ hphase lock List.mem_cons_self
  have hstage : (s.parties token c).stage = .leaving := by simp [parties_of_call hcall, Call.party,
    hphase]
  simp only [callStep, htoken, Option.some.injEq] at hstep
  subst hstep
  refine simulates_stop hinj hlinked hcall hsound hfaults (Or.inr hstage) ?_ (fun r hr => Or.inl ?_)
    _
  · split
    · exact sameOthers_releaseLock _ _ _
    · exact .refl _ _
  · split at hr
    · rw [releaseLock_get] at hr
      exact hr.1
    · exact hr

theorem simulates_release (hsound : ∀ c, (s.parties token c).Sound unitsLt faults)
    {lock : Held} {rest : List Held} {result : Except (LockFailure E) T}
    (hphase : call.phase = .releasing (lock :: rest) result)
    (hstep : callStep token s c call (.releasing (lock :: rest) result) (.release c) = some s') :
    Simulates token faults s s' := by
  have hcs := hlinked.sound c call hcall
  have htoken : lock.token = token c := hcs.todo _ _ hphase lock List.mem_cons_self
  have hown := fun r => hlinked.own hinj (c := c) (r := r)
  rw [parties_of_call hcall] at hown
  have hx : (call.party (s.store.hasToken (token c))).held = (rest.map Held.resource).reverse ++
    [lock.resource] := by
    simp [Call.party, hphase]
  have hstage : (call.party (s.store.hasToken (token c))).stage = .leaving :=
    by simp [Call.party, hphase]
  -- No lock is held twice, so the released one is not among the rest.
  have hfresh : lock.resource ∉ rest.map Held.resource := by
    have hstart := ((parties_of_call hcall ▸ hsound c).leaving hstage).1
    rw [hx] at hstart
    have hnodup := hstart.sublist.nodup (sortedResources_nodup call.resources)
    simpa using (List.nodup_append.mp hnodup).2.2
  simp only [callStep, htoken, Option.some.injEq] at hstep
  subst hstep
  refine simulates_put hinj hlinked (sameOthers_releaseLock _ _ _) (fun r => ?_) ⟨hcs.ttl, hcs.held,
    ?_⟩ (Or.inr ?_)
  · rw [releaseLock_get, hown, hx]
    simp only [lockKey_inj, businessLockKey_inj, Call.party]
    grind
  · rintro todo result ⟨⟩ lock' hlock'
    exact hcs.todo _ _ hphase lock' (List.mem_cons_of_mem _ hlock')
  · have hmove : TryLocks.Move unitsLt faults (TryLocks.Busy (s.parties token))
        (call.party (s.store.hasToken (token c))) _ := .give hstage hx
    rw [parties_of_call hcall]
    convert hmove using 1
    simp [Call.party, hphase]

theorem simulates_settle {result : Except (LockFailure E) T}
    (hphase : call.phase = .releasing [] result)
    (hstep : callStep token s c call (.releasing [] result) (.settle c) = some s') :
    Simulates token faults s s' := by
  have hcs := hlinked.sound c call hcall
  have hown := fun r => hlinked.own hinj (c := c) (r := r)
  rw [parties_of_call hcall] at hown
  simp only [callStep, Option.some.injEq] at hstep
  subst hstep
  have hnone : ∀ r, ¬ s.store.get (lockKey (businessLockKey r)) = some (token c) := by
    intro r hr
    simpa [Call.party, hphase] using (hown r).mp hr
  refine simulates_put hinj hlinked (.refl _ _) (mem_left_iff ?_ rfl) ⟨hcs.ttl, hcs.held, by simp⟩
    (Or.inr ?_)
  · exact fun r hr => absurd hr (hnone r)
  · have hmove : TryLocks.Move unitsLt faults (TryLocks.Busy (s.parties token))
        (call.party (s.store.hasToken (token c))) _ :=
          .done (by simp [Call.party, hphase]) (by simp [Call.party, hphase])
    rw [parties_of_call hcall]
    convert hmove using 1
    simp [Call.party, hphase, Store.hasToken, hnone]

theorem simulates_callFn (hphase : call.phase = .acquiring [])
    (hstep : callStep token s c call (.acquiring []) (.callFn c) = some s') :
    Simulates token faults s s' := by
  have hcs := hlinked.sound c call hcall
  have hown := fun r => hlinked.own hinj (c := c) (r := r)
  rw [parties_of_call hcall] at hown
  simp only [callStep, Option.some.injEq] at hstep
  subst hstep
  refine simulates_put hinj hlinked (.refl _ _) (fun r => ?_) ⟨hcs.ttl, hcs.held, by simp⟩
    (Or.inr ?_)
  · rw [hown]
    simp [Call.party, hphase]
  · have hmove : TryLocks.Move unitsLt faults (TryLocks.Busy (s.parties token))
        (call.party (s.store.hasToken (token c))) _ :=
          .enter (by simp [Call.party, hphase]) (by simp [Call.party, hphase])
    rw [parties_of_call hcall]
    convert hmove using 1
    simp [Call.party, hphase]

theorem simulates_renew {lock : Held} (hphase : call.phase = .racing)
    (hstep : callStep token s c call .racing (.renew c lock) = some s') :
    Simulates token faults s s' := by
  have hcs := hlinked.sound c call hcall
  have hown := fun r => hlinked.own hinj (c := c) (r := r)
  have hget := renewLock_get s.store (businessLockKey lock.resource) lock.token hcs.ttl
  simp only [callStep, Option.ite_none_right_eq_some, Option.some.injEq] at hstep
  obtain ⟨-, rfl⟩ := hstep
  rw [parties_of_call hcall] at hown
  refine simulates_put hinj hlinked (fun r v _ => by rw [hget]) (fun r => ?_) hcs (Or.inl ?_)
  · rw [hget, hown]
    simp [Call.party, hphase]
  · rw [parties_of_call hcall]
    simp [Call.party, hphase]

/-- The race is over, and the locks are given back in reverse. -/
theorem simulates_leave {body : Body} {result : Except (LockFailure E) T}
    (hphase : call.phase = .racing)
    (hbody : body ≠ .notCalled) (hcalled : call.body ≠ .notCalled) :
    Simulates token faults s
      (s.put c { call with body, phase := .releasing call.held.reverse result } s.store) := by
  have hcs := hlinked.sound c call hcall
  have hown := fun r => hlinked.own hinj (c := c) (r := r)
  rw [parties_of_call hcall] at hown
  refine simulates_put hinj hlinked (.refl _ _) (fun r => ?_) ⟨hcs.ttl, hcs.held, ?_⟩ (Or.inr ?_)
  · rw [hown]
    simp [Call.party, hphase]
  · rintro todo result ⟨⟩ lock hlock
    exact hcs.held lock (List.mem_reverse.mp hlock)
  · have hmove : TryLocks.Move unitsLt faults (TryLocks.Busy (s.parties token))
        (call.party (s.store.hasToken (token c))) _ :=
          .leave (by simp [Call.party, hphase])
    rw [parties_of_call hcall]
    convert hmove using 1
    simp [Call.party, hphase, hbody, hcalled]

/-- The body ends when nobody waits for it. -/
theorem simulates_bodyEnds (hcalled : call.body ≠ .notCalled) :
    Simulates token faults s (s.put c { call with body := .ended } s.store) := by
  have hcs := hlinked.sound c call hcall
  have hown := fun r => hlinked.own hinj (c := c) (r := r)
  have hsame : ({ call with body := .ended } : Call T E).party (s.store.hasToken (token c)) =
      call.party (s.store.hasToken (token c)) := by
    simp [Call.party, hcalled]
  rw [parties_of_call hcall] at hown
  refine simulates_put hinj hlinked (.refl _ _) (fun r => ?_) ⟨hcs.ttl, hcs.held, hcs.todo⟩
    (Or.inl ?_)
  · rw [hown, hsame]
  · rw [hsame, parties_of_call hcall]

end Step

theorem simulates_start (hinj : Function.Injective token) (hlinked : Linked token s)
    {resources : List String}
    {ttlSeconds : Int} {options : RunOptions E} (hpos : 0 < ttlSeconds) (hnone : s.call c = none) :
    Simulates token faults s
      (s.put c ⟨resources, ttlSeconds, options, [], none, [], .notCalled,
        .acquiring (sortedResources resources)⟩
        s.store) := by
  have hidle : s.parties token c = .idle := by rw [Calls.parties, hnone]
  refine simulates_put hinj hlinked (.refl _ _) (fun r => ?_) ⟨hpos, by simp, by simp⟩ (Or.inr ?_)
  · rw [hlinked.own hinj, hidle]
    rfl
  · rw [hidle]
    exact TryLocks.Move.join (sortedResources_ordered resources)

/-- A lock that a settled call has left behind expires. -/
theorem simulates_expire (hinj : Function.Injective token) (hlinked : Linked token s)
    {resource : String}
    (hok : Allowed token faults s (.expire resource : CallAction Client T E))
    (hstep : s.step token (.expire resource) = some s') : Simulates token faults s s' := by
  obtain ⟨hfaults, hsettled⟩ := hok
  simp only [Calls.step, Option.ite_none_right_eq_some, Option.some.injEq] at hstep
  obtain ⟨hexpires, rfl⟩ := hstep
  obtain ⟨stored, hstored, -⟩ := (Option.any_eq_true _ _).mp hexpires
  have hget : s.store.get (lockKey (businessLockKey resource)) = some stored.value := by
    rw [Redis.Entries.get, hstored, Option.map_some]
  obtain ⟨c, htoken, hheld⟩ := (hlinked.store _ _).mp hget
  rw [htoken] at hget
  cases hcall : s.call c with
  | none => simp [Calls.parties, hcall, TryLocks.Party.idle] at hheld
  | some call =>
      obtain ⟨result, hphase⟩ : ∃ result, call.phase = .settled result := by
        have h := hsettled c call hcall hget
        unfold Call.isSettled at h
        split at h
        · exact ⟨_, ‹_›⟩
        · cases h
      have hcs := hlinked.sound c call hcall
      have hfreed : ∀ r v,
          Redis.Entries.get (Function.update s.store (lockKey (businessLockKey resource)) none)
            (lockKey (businessLockKey r)) = some v ↔
            s.store.get (lockKey (businessLockKey r)) = some v ∧ r ≠ resource := by
        intro r v
        by_cases hr : r = resource
        · simp [hr]
        · rw [s.store.get_update_ne fun heq => hr (businessLockKey_inj.mp (lockKey_inj.mp heq))]
          simp [hr]
      have hput : s.put c call (Function.update s.store (lockKey (businessLockKey resource)) none) =
          { s with store := Function.update s.store (lockKey (businessLockKey resource)) none } := by
        rw [Calls.put, ← hcall, Function.update_eq_self]
      rw [← hput]
      refine simulates_put hinj hlinked (fun r v hv => ?_) (mem_left_iff (fun r hr => ?_) hphase)
        hcs (Or.inr ?_)
      · rw [hfreed]
        refine and_iff_left_of_imp fun h => ?_
        rintro rfl
        exact hv (Option.some.inj (h.symm.trans hget))
      · have hr := (hlinked.own hinj).mp ((hfreed r _).mp hr).1
        rw [parties_of_call hcall] at hr
        simp only [Call.party, hphase] at hr
        exact mem_sortedResources.mp (List.mem_filter.mp hr).1
      · rw [parties_of_call hcall]
        have hmove : TryLocks.Move unitsLt faults (TryLocks.Busy (s.parties token))
            (call.party (s.store.hasToken (token c)))
            { call.party (s.store.hasToken (token c)) with
              held := (call.party (Store.hasToken (Function.update s.store
                (lockKey (businessLockKey resource)) none) (token c))).held } :=
          .lose hfaults (by simp [Call.party, hphase]) ?_
        · convert hmove using 1
          simp [Call.party, hphase]
        · intro r hr
          simp only [Call.party, hphase, List.mem_filter, Store.hasToken, decide_eq_true_eq] at hr ⊢
          exact ⟨hr.1, ((hfreed r _).mp hr.2).1⟩

/-- **Each step of the calls is a step of the parties**, or none. -/
theorem Linked.step (hinj : Function.Injective token) (hlinked : Linked token s)
    (hsound : ∀ c, (s.parties token c).Sound unitsLt faults) {a : CallAction Client T E}
    (hok : Allowed token faults s a) (hstep : s.step token a = some s') :
    Simulates token faults s s' := by
  have hcallStep : ∀ c, a.client? = some c →
    (s.call c).bind (fun call => callStep token s c call call.phase a) =
      some s' → Simulates token faults s s' := by
    intro c hc hstep
    obtain ⟨call, hcall, hstep⟩ := Option.bind_eq_some_iff.mp hstep
    have hentered : call.phase = .racing → call.body ≠ .notCalled := by
      intro hphase
      have hinside := ((hsound c).inside (by simp [parties_of_call hcall, Call.party, hphase])).2
      simpa [parties_of_call hcall, Call.party] using hinside
    generalize hphase : call.phase = phase at hstep
    have hcase := hstep
    unfold callStep at hcase
    split at hcase <;> try obtain rfl := Option.some.inj hc
    · exact simulates_acquire hinj hlinked hcall hphase hstep
    · exact simulates_acquireRejects hinj hlinked hcall hsound hok hphase hstep
    · exact simulates_callFn hinj hlinked hcall hphase hstep
    · exact simulates_renew hinj hlinked hcall hphase hstep
    · obtain rfl := Option.some.inj hcase
      exact simulates_leave hinj hlinked hcall hphase (by decide) (hentered hphase)
    · obtain rfl := Option.some.inj hcase
      exact simulates_leave hinj hlinked hcall hphase (hentered hphase) (hentered hphase)
    · exact simulates_release hinj hlinked hcall hsound hphase hstep
    · exact simulates_releaseRejects hinj hlinked hcall hsound hok hphase hstep
    · exact simulates_settle hinj hlinked hcall hphase hstep
    · simp only [Option.ite_none_right_eq_some, Option.some.injEq] at hcase
      obtain ⟨hrunning, rfl⟩ := hcase
      exact simulates_bodyEnds hinj hlinked hcall (by simp [hrunning])
    · simp only [Option.ite_none_right_eq_some, Option.some.injEq] at hcase
      obtain ⟨hrunning, rfl⟩ := hcase
      exact simulates_bodyEnds hinj hlinked hcall (by simp [hrunning])
    · cases hcase
  cases a with
  | start c resources ttlSeconds options =>
      simp only [Calls.step, Option.ite_none_right_eq_some, Option.some.injEq,
        Option.isNone_iff_eq_none] at hstep
      obtain ⟨hnone, rfl⟩ := hstep
      exact simulates_start hinj hlinked hok hnone
  | expire resource => exact simulates_expire hinj hlinked hok hstep
  | _ => exact hcallStep _ rfl hstep

theorem reachable_linked (hinj : Function.Injective token)
    (h : (calls token).ReachableBy (Allowed token faults) s) :
    Linked token s ∧ TryLocks.Reached unitsLt faults (s.parties token) := by
  refine h.invariant (I := fun s => Linked token s ∧ TryLocks.Reached unitsLt faults
    (s.parties token)) ?_ ?_
  · rintro s ⟨hstore, hcall⟩
    have hidle : s.parties token = fun _ => .idle := by
      funext c
      rw [Calls.parties, hcall]
    refine ⟨⟨fun r v => ?_, fun c call h => ?_⟩, hidle ▸ .refl⟩
    · rw [hidle]
      simp [hstore, Redis.Entries.get, TryLocks.Party.idle]
    · rw [hcall] at h
      cases h
  · rintro s a s' ⟨hlinked, hreached⟩ hok hstep
    obtain ⟨hlinked', hsame | hmove⟩ := hlinked.step hinj hreached.orderly.sound hok hstep
    · exact ⟨hlinked', hsame ▸ hreached⟩
    · exact ⟨hlinked', hreached.tail hmove⟩

end Simulation

end MibServer.Locks
