import MibServer.Idempotency.Protocol

/-!
One key, any number of requests, no Redis failure and no expiry: one execution at a
time, at most one success, and every replay repeats it.

A request past its `SET NX` claims the entry of its key until it is done, and for good
if it succeeded (`Phase.claim`). The invariant is that claims and stored entries are
the same thing (`Owned`), so two requests that claim one key are one request.
-/

namespace MibServer.Idempotency

open MibServer.Lib

section Exclusion

variable {Req Key Body H A T : Type}

/-! ### Claims -/

/-- The entry a request in this phase must find under its key. -/
def Phase.claim (i : Nat) : Phase Body → Option (Entry Body)
  | .proceed | .running | .completing _ | .discarding _ | .failing _ => some ⟨.processing, i⟩
  | .done (.executed response) =>
      if isSuccess response.statusCode then some ⟨.completed response.statusCode response.body, i⟩
      else none
  | _ => none

theorem Phase.claim_creator {i : Nat} {phase : Phase Body} {e : Entry Body}
    (h : phase.claim i = some e) : e.creator = i := by
  unfold Phase.claim at h
  split at h
  · cases h; rfl
  · cases h; rfl
  · cases h; rfl
  · cases h; rfl
  · cases h; rfl
  · split at h <;> cases h; rfl
  · cases h

/-- A response is completed or discarded by its status. -/
def Phase.Sorted : Phase Body → Prop
  | .completing response => isSuccess response.statusCode
  | .discarding response => ¬ isSuccess response.statusCode
  | _ => True

/-- A move of request `i`, its claim and the entry of its key: both stay, or the claim
has been the entry, a marker if any, and is again. -/
inductive Turn (i : Nat) (phase phase' : Phase Body) (entry entry' : Option (Entry Body)) : Prop where
  | keeps (claim : phase'.claim i = phase.claim i) (same : entry' = entry)
  | writes (owned : phase.claim i = entry) (claim : phase'.claim i = entry')
      (marker : ∀ e, entry = some e → e.record = .processing)

/-- A replay repeats the entry it has found. -/
def Phase.Repeats (phase : Phase Body) (entry : Option (Entry Body)) : Prop :=
  ∀ statusCode body, phase = .done (.replayed statusCode body) →
    ∃ creator, entry = some ⟨.completed statusCode body, creator⟩

theorem Phase.inProgress_claim (i : Nat) (again : Bool) :
    (Phase.inProgress again : Phase Body).claim i = none := by
  cases again <;> rfl

theorem Phase.inProgress_repeats (again : Bool) (entry : Option (Entry Body)) :
    (Phase.inProgress again).Repeats entry := by
  intro statusCode body h
  cases again <;> cases h

theorem StoredRecord.found_claim {i : Nat} {record : StoredRecord Body} {otherwise : Phase Body}
    (h : otherwise.claim i = none) : (record.found otherwise).claim i = none := by
  cases record with
  | processing => exact h
  | completed _ _ => rfl

theorem StoredRecord.found_repeats {e : Entry Body} {otherwise : Phase Body}
    (h : otherwise.Repeats (some e)) : (e.record.found otherwise).Repeats (some e) := by
  obtain ⟨record, creator⟩ := e
  cases record with
  | processing => exact h
  | completed statusCode body =>
      intro statusCode' body' heq
      cases heq
      exact ⟨creator, rfl⟩

theorem Phase.inProgress_sorted (again : Bool) : (Phase.inProgress again : Phase Body).Sorted := by
  cases again <;> trivial

theorem StoredRecord.found_sorted {record : StoredRecord Body} {otherwise : Phase Body}
    (h : otherwise.Sorted) : (record.found otherwise).Sorted := by
  cases record with
  | processing => exact h
  | completed _ _ => trivial

theorem not_replayed {phase : Phase Body} {entry : Option (Entry Body)}
    (h : ∀ statusCode body, phase ≠ .done (.replayed statusCode body)) : phase.Repeats entry :=
  fun statusCode body heq => absurd heq (h statusCode body)

/-- A request that holds the marker replaces it. -/
theorem Turn.settle {i : Nat} {phase phase' : Phase Body} {entry entry' : Option (Entry Body)}
    (hmarker : phase.claim i = some ⟨.processing, i⟩)
    (hheld : ∀ e, phase.claim i = some e → entry = some e) (hclaim : phase'.claim i = entry') :
    Turn i phase phase' entry entry' := by
  have hentry := hheld _ hmarker
  refine .writes (hmarker.trans hentry.symm) hclaim fun e he => ?_
  rw [hentry] at he
  cases he
  rfl

/-- **One Redis command**: the claim of the request moves with the entry. -/
theorem Phase.command_turn {isPost : Bool} {i : Nat} {phase phase' : Phase Body}
    {entry entry' : Option (Entry Body)}
    (h : phase.command isPost i entry = some (phase', entry')) (hsorted : phase.Sorted)
    (hheld : ∀ e, phase.claim i = some e → entry = some e) :
    Turn i phase phase' entry entry' ∧ phase'.Sorted ∧ phase'.Repeats entry' := by
  cases phase with
  | begin again =>
      cases entry with
      | none =>
          cases h
          exact ⟨.writes rfl rfl (by simp), trivial, not_replayed (by simp)⟩
      | some e =>
          cases h
          exact ⟨.keeps rfl rfl, trivial, not_replayed (by simp)⟩
  | retry again =>
      cases entry with
      | none =>
          cases h
          exact ⟨.writes rfl rfl (by simp), trivial, not_replayed (by simp)⟩
      | some e =>
          cases h
          exact ⟨.keeps (Phase.inProgress_claim i again) rfl, Phase.inProgress_sorted again,
            Phase.inProgress_repeats again _⟩
  | lookup again =>
      cases entry with
      | none =>
          cases h
          exact ⟨.keeps rfl rfl, trivial, not_replayed (by simp)⟩
      | some e =>
          cases h
          exact ⟨.keeps (StoredRecord.found_claim (Phase.inProgress_claim i again)) rfl,
            StoredRecord.found_sorted (Phase.inProgress_sorted again),
            StoredRecord.found_repeats (Phase.inProgress_repeats again _)⟩
  | waiting =>
      cases entry with
      | none =>
          cases h
          exact ⟨.keeps rfl rfl, trivial, not_replayed (by simp)⟩
      | some e =>
          cases h
          exact ⟨.keeps (StoredRecord.found_claim rfl) rfl, StoredRecord.found_sorted trivial,
            StoredRecord.found_repeats (not_replayed (by simp))⟩
  | completing response =>
      cases h
      refine ⟨.settle rfl hheld ?_, trivial, not_replayed (by simp)⟩
      simp [Phase.claim, show isSuccess response.statusCode from hsorted]
  | discarding response =>
      cases h
      refine ⟨.settle rfl hheld ?_, trivial, not_replayed (by simp)⟩
      simp [Phase.claim, show ¬ isSuccess response.statusCode from hsorted]
  | failing e =>
      cases h
      exact ⟨.settle rfl hheld rfl, trivial, not_replayed (by simp)⟩
  | proceed | running | done _ => cases h

theorem Outcome.settle_turn (outcome : Outcome Body) (isPost : Bool) (i : Nat) (key : Key)
    (entry : Option (Entry Body)) :
    Turn i .running (outcome.settle isPost (some key)) entry entry ∧
      (outcome.settle isPost (some key)).Sorted ∧
      (outcome.settle isPost (some key)).Repeats entry := by
  cases outcome with
  | returned response =>
      simp only [Outcome.settle, Option.isNone_some, Bool.false_eq_true, if_false,
        recordedStatus_final]
      split
      · exact ⟨.keeps rfl rfl, ‹_›, not_replayed (by simp)⟩
      · exact ⟨.keeps rfl rfl, ‹_›, not_replayed (by simp)⟩
  | threw e => exact ⟨.keeps rfl rfl, trivial, not_replayed (by simp [Outcome.settle])⟩

/-! ### The invariant -/

/-- Claims and stored entries are the same thing. -/
structure State.Owned (s : State Req Key Body H T) : Prop where
  held : ∀ (i : Nat) (r : Request Req Key Body T) key e, s.requests[i]? = some r →
    r.key = some key → r.phase.claim i = some e → s.redis key = some e
  claimed : ∀ key e, s.redis key = some e → ∃ r : Request Req Key Body T,
    s.requests[e.creator]? = some r ∧
    r.key = some key ∧ r.phase.claim e.creator = some e
  sorted : ∀ (i : Nat) (r : Request Req Key Body T), s.requests[i]? = some r → r.phase.Sorted
  replayed : ∀ (i : Nat) (r : Request Req Key Body T) statusCode body, s.requests[i]? = some r →
    r.phase = .done (.replayed statusCode body) → ∃ key creator, r.key = some key ∧
      s.redis key = some ⟨.completed statusCode body, creator⟩

/-- **The step of one request**: its turn on the entry of its key keeps the invariant. -/
theorem State.Owned.turn {s s' : State Req Key Body H T} (hs : s.Owned) {i : Nat}
    {r : Request Req Key Body T} {phase : Phase Body} {handler : Option T}
    (hr : s.requests[i]? = some r)
    (hrequests : s'.requests = s.requests.set i { r with phase, handler })
    (hothers : ∀ key, r.key ≠ some key → s'.redis key = s.redis key)
    (hturn : ∀ key, r.key = some key → Turn i r.phase phase (s.redis key) (s'.redis key) ∧
      phase.Repeats (s'.redis key))
    (hsorted : phase.Sorted)
    (hunkeyed : r.key = none → ∀ statusCode body, phase ≠ .done (.replayed statusCode body)) :
    s'.Owned := by
  have hi : i < s.requests.length := (List.getElem?_eq_some_iff.mp hr).1
  have hself : s'.requests[i]? = some { r with phase, handler } := by
    rw [hrequests, List.getElem?_set_self hi]
  have hother : ∀ j, j ≠ i → s'.requests[j]? = s.requests[j]? := fun j hj => by
    rw [hrequests, List.getElem?_set_ne hj.symm]
  refine ⟨fun j rj key e hj hkey hclaim => ?_, fun key e he => ?_, fun j rj hj => ?_,
    fun j rj statusCode body hj hphase => ?_⟩
  · rw [hrequests] at hj
    rcases getElem?_set_cases hj with ⟨rfl, rfl⟩ | ⟨hne, hj⟩
    · cases (hturn key hkey).1 with
      | keeps claim same => exact same.trans (hs.held j r key e hr hkey (claim ▸ hclaim))
      | writes _ claim _ => exact claim ▸ hclaim
    · have hheld := hs.held j rj key e hj hkey hclaim
      by_cases hsame : r.key = some key
      · cases (hturn key hsame).1 with
        | keeps _ same => exact same.trans hheld
        | writes owned _ _ =>
            have hcreator := Phase.claim_creator (owned.trans hheld)
            exact absurd ((Phase.claim_creator hclaim).symm.trans hcreator) hne
      · exact (hothers key hsame).trans hheld
  · by_cases hsame : r.key = some key
    · cases (hturn key hsame).1 with
      | keeps claim same =>
          obtain ⟨rc, hrc, hkey, hclaim⟩ := hs.claimed key e (same ▸ he)
          by_cases hc : e.creator = i
          · rw [hc, hr] at hrc
            cases hrc
            refine ⟨{ r with phase, handler }, hc ▸ hself, hsame, ?_⟩
            rw [hc] at hclaim ⊢
            exact claim.trans hclaim
          · exact ⟨rc, (hother _ hc).trans hrc, hkey, hclaim⟩
      | writes _ claim _ =>
          have hclaim := claim.trans he
          have hc := Phase.claim_creator hclaim
          exact ⟨{ r with phase, handler }, hc ▸ hself, hsame, hc ▸ hclaim⟩
    · obtain ⟨rc, hrc, hkey, hclaim⟩ := hs.claimed key e ((hothers key hsame) ▸ he)
      have hc : e.creator ≠ i := by
        intro hc
        rw [hc, hr] at hrc
        cases hrc
        exact hsame hkey
      exact ⟨rc, (hother _ hc).trans hrc, hkey, hclaim⟩
  · rw [hrequests] at hj
    rcases getElem?_set_cases hj with ⟨rfl, rfl⟩ | ⟨_, hj⟩
    · exact hsorted
    · exact hs.sorted j rj hj
  · rw [hrequests] at hj
    rcases getElem?_set_cases hj with ⟨rfl, rfl⟩ | ⟨_, hj⟩
    · cases hkey : r.key with
      | none => exact absurd hphase (hunkeyed hkey statusCode body)
      | some key =>
          obtain ⟨creator, hentry⟩ := (hturn key hkey).2 statusCode body hphase
          exact ⟨key, creator, rfl, hentry⟩
    · obtain ⟨key, creator, hkey, hentry⟩ := hs.replayed j rj statusCode body hj hphase
      refine ⟨key, creator, hkey, ?_⟩
      by_cases hsame : r.key = some key
      · cases (hturn key hsame).1 with
        | keeps _ same => exact same.trans hentry
        | writes _ _ marker => cases marker _ hentry
      · exact (hothers key hsame).trans hentry

/-! ### Every step -/

/-- No Redis command fails and no key reaches its TTL. -/
def Action.Reliable : Action Req Key A → Prop
  | .fail _ _ | .expire _ => False
  | _ => True

instance : (a : Action Req Key A) → Decidable a.Reliable
  | .fail _ _ | .expire _ => .isFalse id
  | .arrive _ | .run _ | .giveUp _ | .service _ => .isTrue trivial

variable [DecidableEq Key] {routes : Routes Req Key} {service : Service Req Body H A T}

omit [DecidableEq Key] in
/-- A request that arrives has no claim yet. -/
theorem State.Owned.arrive {s : State Req Key Body H T} (hs : s.Owned) (req : Req) :
    State.Owned { s with requests := s.requests ++ [routes.receive req] } := by
  have hkeyed : ∀ key, (routes.receive req : Request Req Key Body T).key = some key →
      (routes.receive req : Request Req Key Body T).phase = .begin false := by
    unfold Routes.receive
    split <;> simp
  have hnew : (routes.receive req : Request Req Key Body T).phase.Sorted ∧ ∀ statusCode body,
      (routes.receive req : Request Req Key Body T).phase ≠ .done (.replayed statusCode body) := by
    unfold Routes.receive
    split <;> simp [Phase.Sorted]
  refine ⟨fun j r key e hj hkey hclaim => ?_, fun key e he => ?_, fun j r hj => ?_,
    fun j r statusCode body hj hphase => ?_⟩
  · rcases getElem?_concat_cases hj with hold | ⟨-, rfl⟩
    · exact hs.held j r key e hold hkey hclaim
    · rw [hkeyed key hkey] at hclaim
      cases hclaim
  · obtain ⟨r, hr, hkey, hclaim⟩ := hs.claimed key e he
    exact ⟨r, getElem?_concat_of_some hr, hkey, hclaim⟩
  · rcases getElem?_concat_cases hj with hold | ⟨-, rfl⟩
    · exact hs.sorted j r hold
    · exact hnew.1
  · rcases getElem?_concat_cases hj with hold | ⟨-, rfl⟩
    · exact hs.replayed j r statusCode body hold hphase
    · exact absurd hphase (hnew.2 statusCode body)

theorem State.Owned.step {s s' : State Req Key Body H T} {a : Action Req Key A} (hs : s.Owned)
    (ha : a.Reliable) (h : State.Effect routes service s a s') : s'.Owned := by
  cases h with
  | arrived req _ after => exact after ▸ hs.arrive req
  | commanded i r key phase entry _ found hkey command after =>
      obtain ⟨hturn, hsorted, hrepeats⟩ :=
        Phase.command_turn command (hs.sorted i r found) fun e he => hs.held i r key e found hkey he
      subst after
      refine hs.turn found rfl (fun key' hne => ?_) (fun key' hkey' => ?_) hsorted
        fun hnone => by simp [hkey] at hnone
      · exact Function.update_of_ne (fun heq => hne (by rw [heq, hkey])) _ _
      · cases hkey.symm.trans hkey'
        have hentry : (s.move i r key phase entry).redis key = entry := Function.update_self ..
        rw [hentry]
        exact ⟨hturn, hrepeats⟩
  | failed i applied _ _ _ _ action => exact (action ▸ ha).elim
  | started i r _ found hphase after =>
      subst after
      exact hs.turn found rfl (fun _ _ => rfl)
        (fun key _ => ⟨.keeps (by rw [hphase]; rfl) rfl, not_replayed (by simp)⟩) trivial (by simp)
  | settled i r t outcome _ found hphase _ _ after =>
      subst after
      cases hkey : r.key with
      | none =>
          refine hs.turn found (by rw [State.become, hkey]) (fun _ _ => rfl)
            (fun key hkey' => by simp [hkey] at hkey') ?_ fun _ => ?_
          · cases outcome <;> trivial
          · cases outcome <;> simp [Outcome.settle]
      | some key =>
          obtain ⟨hturn, hsorted, hrepeats⟩ :=
            outcome.settle_turn (routes.isPost r.req) i key (s.redis key)
          refine hs.turn found (by rw [State.become, hkey]) (fun _ _ => rfl) (fun key' hkey' => ?_)
            hsorted fun hnone => by simp [hkey] at hnone
          cases hkey.symm.trans hkey'
          rw [hphase]
          exact ⟨hturn, hrepeats⟩
  | gaveUp i r _ found hphase after =>
      subst after
      exact hs.turn found rfl (fun _ _ => rfl)
        (fun key _ => ⟨.keeps (by rw [hphase]; rfl) rfl, not_replayed (by simp)⟩) trivial (by simp)
  | expired _ action => exact (action ▸ ha).elim
  | served _ h _ _ after =>
      subst after
      exact ⟨hs.held, hs.claimed, hs.sorted, hs.replayed⟩

theorem owned_of_reachable {init : H → Prop} {s : State Req Key Body H T}
    (h : (machine routes service init).ReachableBy (fun _ a => a.Reliable) s) : s.Owned := by
  refine h.invariant ?_ fun s a s' hs ha hstep => hs.step ha (State.step_cases hstep)
  rintro ⟨redis, requests, service⟩ ⟨hredis, rfl, -⟩
  refine ⟨fun _ _ _ _ h => ?_, fun key e he => ?_, fun _ _ h => ?_, fun _ _ _ _ h => ?_⟩
  · cases h
  · rw [hredis key] at he
    cases he
  · cases h
  · cases h

/-! ### One execution at a time, one success -/

/-- The response of a request whose execution has completed with a 2xx status. -/
def Phase.succeeded : Phase Body → Option (Response Body)
  | .completing response => some response
  | .done (.executed response) => if isSuccess response.statusCode then some response else none
  | _ => none

/-- The execution has failed, or has given a response that is not 2xx. -/
inductive Phase.Fails : Phase Body → Prop where
  | failing (e : HttpException) : Fails (.failing e)
  | discarding (response : Response Body) : Fails (.discarding response)

/-- Request `i` of key `key`. -/
def State.Has (s : State Req Key Body H T) (key : Key) (i : Nat) (r : Request Req Key Body T) : Prop :=
  s.requests[i]? = some r ∧ r.key = some key

/-- What one key promises its requests. -/
structure State.RunsOnce (routes : Routes Req Key) (service : Service Req Body H A T)
    (s : State Req Key Body H T) (key : Key) : Prop where
  /-- At most one handler is running. -/
  exclusive : ∀ i j r r', s.Has key i r → s.Has key j r' → r.phase = .running →
    r'.phase = .running → i = j
  /-- At most one execution has completed with 2xx. -/
  once : ∀ i j r r', s.Has key i r → s.Has key j r' → r.phase.succeeded.isSome →
    r'.phase.succeeded.isSome → i = j
  /-- A replay gives the status and the body of an execution that has succeeded. -/
  replayed : ∀ i r statusCode body, s.Has key i r → r.phase = .done (.replayed statusCode body) →
    ∃ j r' response, s.Has key j r' ∧ r'.phase = .done (.executed response) ∧
      isSuccess response.statusCode ∧ response.statusCode = statusCode ∧ response.body = body
  /-- A failed execution removes the marker with its next step. -/
  released : ∀ i r, s.Has key i r → r.phase.Fails →
    ∃ s', s.step routes service (.run i) = some s' ∧ s'.redis key = none
  /-- No other request has left a marker. -/
  stored : ∀ e, s.redis key = some e → ∃ r, s.Has key e.creator r ∧
    (r.phase = .proceed ∨ r.phase = .running ∨ r.phase.Fails ∨ r.phase.succeeded.isSome)
  /-- A request that finds no marker executes. -/
  free : ∀ i r again, s.Has key i r → r.phase = .begin again → s.redis key = none →
    ∃ s', s.step routes service (.run i) = some s' ∧ s'.Has key i { r with phase := .proceed }

namespace State.Owned

variable {s : State Req Key Body H T} {key : Key} {i j : Nat} {r r' : Request Req Key Body T}

omit [DecidableEq Key] in
/-- Two claims to one key are one. -/
theorem claim_unique (hs : s.Owned) (hi : s.Has key i r) (hj : s.Has key j r') {e e' : Entry Body}
    (he : r.phase.claim i = some e) (he' : r'.phase.claim j = some e') : i = j ∧ e = e' := by
  have hentry := hs.held i r key e hi.1 hi.2 he
  have hentry' := hs.held j r' key e' hj.1 hj.2 he'
  have heq : e = e' := Option.some.inj (hentry.symm.trans hentry')
  exact ⟨(Phase.claim_creator he).symm.trans ((congrArg Entry.creator heq).trans
    (Phase.claim_creator he')), heq⟩

end State.Owned

theorem Phase.claim_of_succeeded {phase : Phase Body} (i : Nat) (h : phase.succeeded.isSome) :
    ∃ e, phase.claim i = some e := by
  unfold Phase.succeeded at h
  split at h
  · exact ⟨_, rfl⟩
  · split at h
    · exact ⟨_, if_pos ‹_›⟩
    · cases h
  · cases h

/-- A completed record is claimed by the execution that gave it. -/
theorem Phase.executed_of_claim {phase : Phase Body} {i j statusCode : Nat} {body : Body}
    (h : phase.claim i = some ⟨.completed statusCode body, j⟩) :
    ∃ response, phase = .done (.executed response) ∧ isSuccess response.statusCode ∧
      response.statusCode = statusCode ∧ response.body = body := by
  unfold Phase.claim at h
  split at h
  all_goals try cases h
  rename_i response
  split at h
  · rename_i hsuccess
    cases h
    exact ⟨response, rfl, hsuccess, rfl, rfl⟩
  · cases h

theorem Phase.holder_of_claim {phase : Phase Body} {i : Nat} {e : Entry Body}
    (h : phase.claim i = some e) :
    phase = .proceed ∨ phase = .running ∨ phase.Fails ∨ phase.succeeded.isSome := by
  cases phase with
  | proceed => exact Or.inl rfl
  | running => exact Or.inr (Or.inl rfl)
  | discarding response => exact Or.inr (Or.inr (Or.inl (.discarding response)))
  | failing e => exact Or.inr (Or.inr (Or.inl (.failing e)))
  | completing response => exact Or.inr (Or.inr (Or.inr rfl))
  | done answer =>
      cases answer with
      | executed response =>
          simp only [Phase.claim] at h
          split at h
          · rename_i hsuccess
            exact Or.inr (Or.inr (Or.inr (by simp [Phase.succeeded, hsuccess])))
          · cases h
      | replayed _ _ | failed _ => cases h
  | begin _ | lookup _ | retry _ | waiting => cases h

/-- **One key runs once.** In every interleaving of any number of requests, with no
Redis failure and no expiry, every key has one execution at a time and at most one
success, every replay repeats it, and a failed execution leaves no marker. -/
theorem runs_once (routes : Routes Req Key) (service : Service Req Body H A T) (init : H → Prop)
    {s : State Req Key Body H T}
    (h : (machine routes service init).ReachableBy (fun _ a => a.Reliable) s) (key : Key) :
    s.RunsOnce routes service key := by
  have hs := owned_of_reachable h
  refine ⟨fun i j r r' hi hj hrun hrun' => ?_, fun i j r r' hi hj hok hok' => ?_,
    fun i r statusCode body hi hphase => ?_, fun i r hi hfails => ?_, fun e he => ?_,
    fun i r again hi hphase hfree => ?_⟩
  · have hclaim : r.phase.claim i = some ⟨.processing, i⟩ := by rw [hrun]; rfl
    have hclaim' : r'.phase.claim j = some ⟨.processing, j⟩ := by rw [hrun']; rfl
    exact (hs.claim_unique hi hj hclaim hclaim').1
  · obtain ⟨e, he⟩ := Phase.claim_of_succeeded i hok
    obtain ⟨e', he'⟩ := Phase.claim_of_succeeded j hok'
    exact (hs.claim_unique hi hj he he').1
  · obtain ⟨key', creator, hkey', hentry⟩ := hs.replayed i r statusCode body hi.1 hphase
    cases hi.2.symm.trans hkey'
    obtain ⟨rc, hrc, hkeyc, hclaim⟩ := hs.claimed key _ hentry
    obtain ⟨response, hexecuted⟩ := Phase.executed_of_claim hclaim
    exact ⟨creator, rc, response, ⟨hrc, hkeyc⟩, hexecuted⟩
  · obtain ⟨phase, hcommand⟩ : ∃ phase,
        r.phase.command (routes.isPost r.req) i (s.redis key) = some (phase, none) := by
      generalize r.phase = phase at hfails
      cases hfails <;> exact ⟨_, rfl⟩
    exact ⟨_, State.step_command hi.1 hi.2 hcommand, Function.update_self ..⟩
  · obtain ⟨r, hr, hkey, hclaim⟩ := hs.claimed key e he
    exact ⟨r, ⟨hr, hkey⟩, Phase.holder_of_claim hclaim⟩
  · have hcommand : r.phase.command (routes.isPost r.req) i (s.redis key) =
        some (.proceed, some ⟨.processing, i⟩) := by
      rw [hphase, hfree]
      rfl
    refine ⟨_, State.step_command hi.1 hi.2 hcommand, ?_, hi.2⟩
    exact List.getElem?_set_self (List.getElem?_eq_some_iff.mp hi.1).1

end Exclusion

/-! ### Three requests of one key -/

/-- Every request is a `POST` that gives its own key. -/
def ownKey : Routes String String where
  scopeKey req := .ok (some req)
  isPost _ := true

/-- The first execution fails, the second succeeds while the third one waits. -/
def failThenSucceed : List (Action String String (Nat × Outcome String)) :=
  [.arrive "key-0001", .arrive "key-0001", .arrive "key-0001",
    .run 0, .run 0, .service (0, .threw .internal), .run 0, .run 0,
    .run 1, .run 1, .run 2, .run 2,
    .service (1, .returned (.created "order")), .run 1, .run 1, .run 2]

def emptyRedis : State String String String (List (Option (Outcome String))) Nat where
  redis _ := none
  requests := []
  service := []

theorem emptyRedis_init :
    (machine ownKey (anyHandlers String String) (· = [])).init emptyRedis :=
  ⟨fun _ => rfl, rfl, rfl⟩

theorem runs_once_three_requests :
    ∃ s, (machine ownKey (anyHandlers String String) (· = [])).exec emptyRedis failThenSucceed =
        some s ∧
      s.requests.map Request.phase = [.done (.failed .internal),
        .done (.executed { statusCode := 201, body := "order" }), .done (.replayed 201 "order")] ∧
      s.RunsOnce ownKey (anyHandlers String String) "key-0001" := by
  have hresult : ((machine ownKey (anyHandlers String String) (· = [])).exec emptyRedis
      failThenSucceed).map (fun s => s.requests.map Request.phase) =
        some [.done (.failed .internal),
          .done (.executed { statusCode := 201, body := "order" }), .done (.replayed 201 "order")] := by
    decide +kernel
  obtain ⟨s, hexec, hphases⟩ := Option.map_eq_some_iff.mp hresult
  refine ⟨s, hexec, hphases, ?_⟩
  exact runs_once ownKey (anyHandlers String String) (· = [])
    (Machine.reachableBy_exec (Machine.reachableBy_init emptyRedis_init) (by decide +kernel) hexec)
    "key-0001"

end MibServer.Idempotency
