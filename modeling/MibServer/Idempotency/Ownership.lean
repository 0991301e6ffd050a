import MibServer.Idempotency.Exclusion

/-!
One key, any number of requests, with Redis failures and expiring markers.

`completeRequestIdempotency` and `failRequestIdempotency` write to the key whoever's
record is there, so a request whose marker has expired may meet the record of another
one. It does not as long as nobody takes the key over: as long as no `SET NX` succeeds
while another request of the key has still to settle.
-/

namespace MibServer.Idempotency

open MibServer.Lib

section Ownership

variable {Req Key Body H A T : Type}

/-- Past its `SET NX`, and still to write or delete the record of its key. -/
def Phase.unsettled : Phase Body → Bool
  | .proceed | .running | .completing _ | .discarding _ | .failing _ => true
  | _ => false

/-- At a `SET NX`. -/
def Phase.asks : Phase Body → Bool
  | .begin _ | .retry _ => true
  | _ => false

/-- What a Redis command does to the record of its key. -/
inductive Phase.Touches (i : Nat) (phase phase' : Phase Body) (entry entry' : Option (Entry Body)) :
    Prop where
  | reads (before : phase.unsettled = false) (after : phase'.unsettled = false)
      (same : entry' = entry)
  | marks (asks : phase.asks = true) (free : entry = none) (marker : entry' = some ⟨.processing, i⟩)
  | settles (before : phase.unsettled = true) (after : phase'.unsettled = false)
      (record : ∀ e, entry' = some e → e.creator = i)

theorem Phase.inProgress_settled (again : Bool) :
    (Phase.inProgress again : Phase Body).unsettled = false := by
  cases again <;> rfl

theorem StoredRecord.found_settled {record : StoredRecord Body} {otherwise : Phase Body}
    (h : otherwise.unsettled = false) : (record.found otherwise).unsettled = false := by
  cases record with
  | processing => exact h
  | completed _ _ => rfl

theorem Phase.command_touches {isPost : Bool} {i : Nat} {phase phase' : Phase Body}
    {entry entry' : Option (Entry Body)}
    (h : phase.command isPost i entry = some (phase', entry')) :
    Phase.Touches i phase phase' entry entry' := by
  cases phase with
  | begin again =>
      cases entry with
      | none => cases h; exact .marks rfl rfl rfl
      | some e => cases h; exact .reads rfl rfl rfl
  | retry again =>
      cases entry with
      | none => cases h; exact .marks rfl rfl rfl
      | some e => cases h; exact .reads rfl (Phase.inProgress_settled again) rfl
  | lookup again =>
      cases entry with
      | none => cases h; exact .reads rfl rfl rfl
      | some e =>
          cases h
          exact .reads rfl (StoredRecord.found_settled (Phase.inProgress_settled again)) rfl
  | waiting =>
      cases entry with
      | none => cases h; exact .reads rfl rfl rfl
      | some e => cases h; exact .reads rfl (StoredRecord.found_settled rfl) rfl
  | completing response =>
      cases h
      exact .settles rfl rfl fun e he => by cases he; rfl
  | discarding response => cases h; exact .settles rfl rfl (by simp)
  | failing e => cases h; exact .settles rfl rfl (by simp)
  | proceed | running | done _ => cases h

/-! ### Taking a key over -/

/-- The request whose Redis command an action executes. -/
def Action.sends : Action Req Key A → Option Nat
  | .run i | .fail i true => some i
  | _ => none

/-- No other request of the key has still to settle. -/
def State.Alone (s : State Req Key Body H T) (key : Key) (i : Nat) : Prop :=
  ∀ j < s.requests.length, j ≠ i → ∀ r ∈ s.requests[j]?, r.key = some key → r.phase.unsettled = false

/-- No `SET NX` takes a key that another request has still to settle. -/
def NoTakeover (s : State Req Key Body H T) (a : Action Req Key A) : Prop :=
  ∀ i ∈ a.sends, ∀ r ∈ s.requests[i]?, ∀ key ∈ r.key, r.phase.asks = true →
    (s.redis key).isNone = true → s.Alone key i

instance [DecidableEq Key] (s : State Req Key Body H T) (key : Key) (i : Nat) :
    Decidable (s.Alone key i) :=
  inferInstanceAs (Decidable (∀ j < _, _ → _))

instance [DecidableEq Key] (s : State Req Key Body H T) (a : Action Req Key A) :
    Decidable (NoTakeover s a) :=
  inferInstanceAs (Decidable (∀ i ∈ a.sends, ∀ r ∈ s.requests[i]?, ∀ key ∈ r.key, _))

theorem State.Alone.settled {s : State Req Key Body H T} {key : Key} {i j : Nat}
    {r : Request Req Key Body T} (h : s.Alone key i) (hne : j ≠ i) (hj : s.Has key j r) :
    r.phase.unsettled = false :=
  h j (List.getElem?_eq_some_iff.mp hj.1).1 hne r hj.1 hj.2

/-- Each key has at most one request to settle, and a record of it is that request's. -/
structure State.Undisturbed (s : State Req Key Body H T) : Prop where
  single : ∀ key i j r r', s.Has key i r → s.Has key j r' → r.phase.unsettled = true →
    r'.phase.unsettled = true → i = j
  creator : ∀ key e i r, s.redis key = some e → s.Has key i r → r.phase.unsettled = true →
    e.creator = i

theorem State.Undisturbed.alone {s : State Req Key Body H T} (hs : s.Undisturbed) {key : Key}
    {i : Nat} {r : Request Req Key Body T} (hi : s.Has key i r) (hr : r.phase.unsettled = true) :
    s.Alone key i := by
  intro j _ hne r' hj hkey
  refine Bool.eq_false_iff.mpr fun hr' => hne ?_
  exact hs.single key j i r' r ⟨hj, hkey⟩ hi hr' hr

/-- The requests of a key after request `i` has moved. -/
theorem State.has_set {s s' : State Req Key Body H T} {i j : Nat} {r r' : Request Req Key Body T}
    {phase : Phase Body} {handler : Option T} {key : Key}
    (hrequests : s'.requests = s.requests.set i { r with phase, handler }) (h : s'.Has key j r') :
    j = i ∧ r.key = some key ∧ r' = { r with phase, handler } ∨ j ≠ i ∧ s.Has key j r' := by
  obtain ⟨hj, hkey⟩ := h
  rw [hrequests] at hj
  rcases getElem?_set_cases hj with ⟨rfl, rfl⟩ | ⟨hne, hold⟩
  · exact Or.inl ⟨rfl, hkey, rfl⟩
  · exact Or.inr ⟨hne, hold, hkey⟩

/-- **The step of one request.** -/
theorem State.Undisturbed.turn {s s' : State Req Key Body H T} (hs : s.Undisturbed) {i : Nat}
    {r : Request Req Key Body T} {phase : Phase Body} {handler : Option T}
    (hr : s.requests[i]? = some r)
    (hrequests : s'.requests = s.requests.set i { r with phase, handler })
    (hothers : ∀ key, r.key ≠ some key → s'.redis key = s.redis key)
    (halone : ∀ key, r.key = some key → phase.unsettled = true → s.Alone key i)
    (hrecord : ∀ key e, r.key = some key → s'.redis key = some e →
      e.creator = i ∧ s.Alone key i ∨
        s.redis key = some e ∧ (phase.unsettled = true → r.phase.unsettled = true)) :
    s'.Undisturbed := by
  refine ⟨fun key j j' rj rj' hj hj' hu hu' => ?_, fun key e j rj he hj hu => ?_⟩
  · rcases State.has_set hrequests hj with ⟨rfl, hkey, rfl⟩ | ⟨hne, hold⟩ <;>
      rcases State.has_set hrequests hj' with ⟨rfl, hkey', rfl⟩ | ⟨hne', hold'⟩
    · rfl
    · exact absurd hu' (by simp [(halone key hkey hu).settled hne' hold'])
    · exact absurd hu (by simp [(halone key hkey' hu').settled hne hold])
    · exact hs.single key j j' rj rj' hold hold' hu hu'
  · rcases State.has_set hrequests hj with ⟨rfl, hkey, rfl⟩ | ⟨hne, hold⟩
    · rcases hrecord key e hkey he with ⟨hcreator, -⟩ | ⟨hentry, hkept⟩
      · exact hcreator
      · exact hs.creator key e j r hentry ⟨hr, hkey⟩ (hkept hu)
    · by_cases hsame : r.key = some key
      · rcases hrecord key e hsame he with ⟨-, hsettled⟩ | ⟨hentry, -⟩
        · exact absurd hu (by simp [hsettled.settled hne hold])
        · exact hs.creator key e j rj hentry hold hu
      · exact hs.creator key e j rj ((hothers key hsame) ▸ he) hold hu

variable [DecidableEq Key] {routes : Routes Req Key} {service : Service Req Body H A T}

omit [DecidableEq Key] in
theorem State.Undisturbed.arrive {s : State Req Key Body H T} (hs : s.Undisturbed) (req : Req) :
    State.Undisturbed { s with requests := s.requests ++ [routes.receive req] } := by
  have hnew : ∀ (key : Key) (j : Nat) (r : Request Req Key Body T),
      State.Has { s with requests := s.requests ++ [routes.receive req] } key j r →
      r.phase.unsettled = true → s.Has key j r := by
    rintro key j r ⟨hj, hkey⟩ hu
    rcases getElem?_concat_cases hj with hold | ⟨-, rfl⟩
    · exact ⟨hold, hkey⟩
    · unfold Routes.receive at hkey hu
      split at hkey <;> simp_all [Phase.unsettled]
  exact ⟨fun key i j r r' hi hj hu hu' =>
      hs.single key i j r r' (hnew key i r hi hu) (hnew key j r' hj hu') hu hu',
    fun key e i r he hi hu => hs.creator key e i r he (hnew key i r hi hu) hu⟩

theorem Phase.unsettled_of_failed {phase : Phase Body} (h : phase.failed.unsettled = true) :
    phase.unsettled = true := by
  cases phase <;> first | rfl | cases h

/-- A Redis command that takes effect, whatever the request makes of its reply. -/
theorem State.Undisturbed.command {s : State Req Key Body H T} (hs : s.Undisturbed) {i : Nat}
    {r : Request Req Key Body T} {key : Key} {phase phase' : Phase Body}
    {entry : Option (Entry Body)} (hi : s.Has key i r)
    (htouches : Phase.Touches i r.phase phase (s.redis key) entry)
    (halone : r.phase.asks = true → s.redis key = none → s.Alone key i)
    (hphase : phase'.unsettled = true → r.phase.unsettled = true ∨ r.phase.asks = true ∧
      s.redis key = none) :
    (s.move i r key phase' entry).Undisturbed := by
  have hentry : (s.move i r key phase' entry).redis key = entry := Function.update_self ..
  refine hs.turn hi.1 rfl (fun key' hne => ?_) (fun key' hkey' hu => ?_) fun key' e hkey' he => ?_
  · exact Function.update_of_ne (fun heq => hne (by rw [heq, hi.2])) _ _
  · cases hi.2.symm.trans hkey'
    rcases hphase hu with hbefore | ⟨hasks, hfree⟩
    · exact hs.alone hi hbefore
    · exact halone hasks hfree
  · cases hi.2.symm.trans hkey'
    rw [hentry] at he
    cases htouches with
    | reads before after same =>
        refine Or.inr ⟨same ▸ he, fun hu => ?_⟩
        rcases hphase hu with hbefore | ⟨hasks, hfree⟩
        · exact hbefore
        · rw [same, hfree] at he
          cases he
    | marks asks free marker =>
        rw [marker] at he
        cases he
        exact Or.inl ⟨rfl, halone asks free⟩
    | settles before after record => exact Or.inl ⟨record e he, hs.alone hi before⟩

theorem State.Undisturbed.step {s s' : State Req Key Body H T} {a : Action Req Key A}
    (hs : s.Undisturbed) (ha : NoTakeover s a) (h : State.Effect routes service s a s') :
    s'.Undisturbed := by
  cases h with
  | arrived req _ after => exact after ▸ hs.arrive req
  | commanded i r key phase entry action found hkey command after =>
      subst after action
      have htouches := Phase.command_touches command
      refine hs.command ⟨found, hkey⟩ htouches (fun hasks hfree =>
        ha i rfl r found key hkey hasks (by rw [hfree]; rfl)) fun hu => ?_
      cases htouches with
      | reads _ after _ => exact absurd hu (by simp [after])
      | marks asks free _ => exact Or.inr ⟨asks, free⟩
      | settles _ after _ => exact absurd hu (by simp [after])
  | failed i applied r key phase entry action found hkey command after =>
      subst after action
      have hphase := fun hu => Or.inl (b := r.phase.asks = true ∧ s.redis key = none)
        (show r.phase.unsettled = true from Phase.unsettled_of_failed hu)
      cases applied with
      | true =>
          exact hs.command ⟨found, hkey⟩ (Phase.command_touches command)
            (fun hasks hfree => ha i rfl r found key hkey hasks (by rw [hfree]; rfl)) hphase
      | false =>
          have hredis : (s.move i r key r.phase.failed (s.redis key)).redis = s.redis :=
            Function.update_eq_self key s.redis
          exact hs.turn found rfl (fun key' _ => congrFun hredis key')
            (fun key' hkey' hu => hs.alone ⟨found, hkey'⟩ (Phase.unsettled_of_failed hu))
            fun key' e hkey' he => Or.inr ⟨congrFun hredis key' ▸ he, Phase.unsettled_of_failed⟩
  | started i r action found hphase after =>
      subst after
      have hbefore : r.phase.unsettled = true := by rw [hphase]; rfl
      exact hs.turn found rfl (fun _ _ => rfl) (fun key hkey _ => hs.alone ⟨found, hkey⟩ hbefore)
        fun key e hkey he => Or.inr ⟨he, fun _ => hbefore⟩
  | settled i r t outcome action found hphase _ _ after =>
      subst after
      have hbefore : r.phase.unsettled = true := by rw [hphase]; rfl
      exact hs.turn found rfl (fun _ _ => rfl) (fun key hkey _ => hs.alone ⟨found, hkey⟩ hbefore)
        fun key e hkey he => Or.inr ⟨he, fun _ => hbefore⟩
  | gaveUp i r action found hphase after =>
      subst after
      exact hs.turn found rfl (fun _ _ => rfl) (fun _ _ hu => by cases hu)
        fun key e hkey he => Or.inr ⟨he, fun hu => by cases hu⟩
  | expired key action after =>
      subst after
      refine ⟨hs.single, fun key' e i r he hi hu => hs.creator key' e i r ?_ hi hu⟩
      by_cases hsame : key' = key
      · subst hsame
        simp at he
      · simpa [Function.update_of_ne hsame] using he
  | served _ h _ _ after =>
      subst after
      exact ⟨hs.single, hs.creator⟩

theorem undisturbed_of_reachable {init : H → Prop} {s : State Req Key Body H T}
    (h : (machine routes service init).ReachableBy NoTakeover s) : s.Undisturbed := by
  refine h.invariant ?_ fun s a s' hs ha hstep => hs.step ha (State.step_cases hstep)
  rintro ⟨redis, requests, service⟩ ⟨hredis, rfl, -⟩
  exact ⟨fun _ _ _ _ _ h => (by cases h.1), fun _ _ _ _ _ h => (by cases h.1)⟩

omit [DecidableEq Key] in
/-- A command that changes a record is of the request that wrote it. -/
theorem State.Undisturbed.owner {s : State Req Key Body H T} (hs : s.Undisturbed) {i : Nat}
    {r : Request Req Key Body T} {key : Key} {phase : Phase Body} {entry : Option (Entry Body)}
    (hi : s.Has key i r) (htouches : Phase.Touches i r.phase phase (s.redis key) entry)
    {e : Entry Body} (he : s.redis key = some e) (hchanged : entry ≠ some e) : e.creator = i := by
  cases htouches with
  | reads _ _ same => exact absurd (same.trans he) hchanged
  | marks _ free _ =>
      rw [he] at free
      cases free
  | settles before _ _ => exact hs.creator key e i r he hi before

/-- **Own records only.** As long as nobody takes over a key that another request has
still to settle, a record is overwritten or deleted by the request that wrote it, or
expires. -/
theorem own_records_only (routes : Routes Req Key) (service : Service Req Body H A T)
    (init : H → Prop) {s s' : State Req Key Body H T} {a : Action Req Key A}
    (h : (machine routes service init).ReachableBy NoTakeover s)
    (hstep : s.step routes service a = some s') (key : Key) (e : Entry Body)
    (he : s.redis key = some e) (hchanged : s'.redis key ≠ some e) :
    a = .expire key ∨ a.actor = some e.creator := by
  have hs := undisturbed_of_reachable h
  -- Only commands and expiries touch Redis.
  cases State.step_cases hstep with
  | arrived _ _ after | started _ _ _ _ _ after | settled _ _ _ _ _ _ _ _ _ after
  | gaveUp _ _ _ _ _ after | served _ _ _ _ after =>
      subst after
      exact absurd he hchanged
  | commanded i r key' phase entry action found hkey command after =>
      subst after action
      by_cases hsame : key = key'
      · subst hsame
        rw [show (s.move i r key phase entry).redis key = entry from Function.update_self ..]
          at hchanged
        rw [hs.owner ⟨found, hkey⟩ (Phase.command_touches command) he hchanged]
        exact Or.inr rfl
      · exact absurd ((Function.update_of_ne hsame ..).trans he) hchanged
  | failed i applied r key' phase entry action found hkey command after =>
      subst after action
      by_cases hsame : key = key'
      · subst hsame
        rw [show (s.move i r key r.phase.failed (if applied then entry else s.redis key)).redis key =
          if applied then entry else s.redis key from Function.update_self ..] at hchanged
        cases applied with
        | true =>
            rw [hs.owner ⟨found, hkey⟩ (Phase.command_touches command) he hchanged]
            exact Or.inr rfl
        | false => exact absurd he hchanged
      · exact absurd ((Function.update_of_ne hsame ..).trans he) hchanged
  | expired key' action after =>
      subst after action
      by_cases hsame : key = key'
      · exact Or.inl (congrArg Action.expire hsame.symm)
      · exact absurd ((Function.update_of_ne hsame ..).trans he) hchanged

end Ownership

/-! ### An expired marker -/

/-- Request 0 completes after its marker has expired, and its record expires too; then
request 2 executes while request 1 waits, and fails. -/
def expiredThenFailed : List (Action String String (Nat × Outcome String)) :=
  [.arrive "key-0001", .run 0, .run 0, .expire "key-0001",
    .service (0, .returned (.created "order")), .run 0, .run 0,
    .expire "key-0001", .arrive "key-0001", .arrive "key-0001", .run 2, .run 2, .run 1, .run 1,
    .service (1, .threw .internal), .run 2]

theorem own_records_only_expired :
    ∃ s s', (machine ownKey (anyHandlers String String) (· = [])).exec emptyRedis
        expiredThenFailed = some s ∧
      s.step ownKey (anyHandlers String String) (.run 2) = some s' ∧
      s.redis "key-0001" = some ⟨.processing, 2⟩ ∧ s'.redis "key-0001" = none ∧
      ((.run 2 : Action String String (Nat × Outcome String)) = .expire "key-0001" ∨
        (.run 2 : Action String String (Nat × Outcome String)).actor = some 2) := by
  have hrun : ((machine ownKey (anyHandlers String String) (· = [])).exec emptyRedis
      expiredThenFailed).map (fun s => (s.redis "key-0001",
        (s.step ownKey (anyHandlers String String) (.run 2)).map fun s' => s'.redis "key-0001")) =
      some (some ⟨.processing, 2⟩, some none) := by
    decide +kernel
  obtain ⟨s, hexec, hs⟩ := Option.map_eq_some_iff.mp hrun
  obtain ⟨hmarker, hdeleted⟩ := Prod.mk.inj hs
  obtain ⟨s', hstep, hgone⟩ := Option.map_eq_some_iff.mp hdeleted
  refine ⟨s, s', hexec, hstep, hmarker, hgone, ?_⟩
  exact own_records_only ownKey (anyHandlers String String) (· = [])
    (Machine.reachableBy_exec (Machine.reachableBy_init emptyRedis_init) (by decide +kernel) hexec)
    hstep "key-0001" _ hmarker (by simp [hgone])

/-- The marker of request 0 expires while its handler runs, and request 1 executes;
then the handler of request 0 fails. -/
def slowThenFail : List (Action String String (Nat × Outcome String)) :=
  [.arrive "key-0001", .arrive "key-0001", .run 0, .run 0, .expire "key-0001", .run 1, .run 1,
    .service (0, .threw .internal), .run 0]

/-- The marker of request 1 is deleted by request 0. -/
theorem marker_of_another_deleted :
    ¬ ∀ s, (machine ownKey (anyHandlers String String) (· = [])).Reachable s → ∀ a s',
      s.step ownKey (anyHandlers String String) a = some s' → ∀ key e, s.redis key = some e →
        s'.redis key ≠ some e → a = .expire key ∨ a.actor = some e.creator := by
  intro hclaim
  have hrun : ((machine ownKey (anyHandlers String String) (· = [])).exec emptyRedis
      slowThenFail).map (fun s => (s.redis "key-0001",
        (s.step ownKey (anyHandlers String String) (.run 0)).map fun s' => s'.redis "key-0001")) =
      some (some ⟨.processing, 1⟩, some none) := by
    decide +kernel
  obtain ⟨s, hexec, hs⟩ := Option.map_eq_some_iff.mp hrun
  obtain ⟨hmarker, hdeleted⟩ := Prod.mk.inj hs
  obtain ⟨s', hstep, hgone⟩ := Option.map_eq_some_iff.mp hdeleted
  have hreach := Machine.reachableBy_exec (Machine.reachableBy_init emptyRedis_init)
    (Machine.admits_true _ _) hexec
  rcases hclaim s hreach (.run 0) s' hstep "key-0001" _ hmarker (by simp [hgone]) with h | h
  · cases h
  · cases h

end MibServer.Idempotency
