import MibServer.Idempotency.Protocol

/-!
Where a replay comes from, whatever expires and whatever fails: a completed record, and
every answer taken from one, repeats the response of a request of the same key whose
handler has returned with 2xx (`Sourced`). What holds of each request that finds a
record and the writer of the record holds of each request that has been answered from
one and the request it repeats (`ReplaysWhere`).
-/

namespace MibServer.Idempotency

open MibServer.Lib

section Provenance

variable {Req Key Body H A T : Type}

/-- The handler of a request has returned `response`. -/
def Request.Returned (service : Service Req Body H A T) (h : H) (r : Request Req Key Body T)
    (response : Response Body) : Prop :=
  ∃ t, r.handler = some t ∧ service.outcome h t = some (.returned response)

/-- Request `j` of the key, `req`, has been processed with this status and body. -/
def State.Processed (service : Service Req Body H A T) (s : State Req Key Body H T) (key : Key)
    (j : Nat) (req : Req) (statusCode : Nat) (body : Body) : Prop :=
  ∃ r response, s.requests[j]? = some r ∧ r.req = req ∧ r.key = some key ∧
    r.Returned service s.service response ∧ isSuccess response.statusCode ∧
    response.statusCode = statusCode ∧ response.body = body

/-- No handler has been started for the request. -/
def Phase.unstarted : Phase Body → Bool
  | .begin _ | .lookup _ | .retry _ | .waiting | .proceed | .done (.replayed _ _) => true
  | _ => false

/-- The request answers from a completed record, if it finds one. -/
def Phase.looks : Phase Body → Bool
  | .lookup _ | .waiting => true
  | _ => false

/-- The response of the handler, on its way to the client. -/
def Phase.response : Phase Body → Option (Response Body)
  | .completing response | .discarding response | .done (.executed response) => some response
  | _ => none

/-- Completed records and responses on their way are what a handler has returned. -/
structure State.Sourced (service : Service Req Body H A T) (s : State Req Key Body H T) : Prop where
  stored : ∀ key statusCode body creator,
    s.redis key = some ⟨.completed statusCode body, creator⟩ →
    ∃ req, s.Processed service key creator req statusCode body
  responded : ∀ (i : Nat) (r : Request Req Key Body T) response, s.requests[i]? = some r →
    r.phase.response = some response → r.Returned service s.service response
  completing : ∀ (i : Nat) (r : Request Req Key Body T) response, s.requests[i]? = some r →
    r.phase = .completing response → isSuccess response.statusCode
  unstarted : ∀ (i : Nat) (r : Request Req Key Body T), s.requests[i]? = some r →
    r.phase.unstarted = true → r.handler = none

/-! ### One Redis command -/

/-- What a command takes from the entry of its key, and what it leaves there. -/
structure Phase.Reports (i : Nat) (phase phase' : Phase Body) (entry entry' : Option (Entry Body)) :
    Prop where
  stored : ∀ statusCode body creator, entry' = some ⟨.completed statusCode body, creator⟩ →
    entry = entry' ∨ ∃ response, phase = .completing response ∧ creator = i ∧
      response.statusCode = statusCode ∧ response.body = body
  responded : ∀ response, phase'.response = some response → phase.response = some response
  completing : ∀ response, phase' ≠ .completing response
  replayed : ∀ statusCode body, phase' = .done (.replayed statusCode body) →
    phase.looks = true ∧ ∃ creator, entry = some ⟨.completed statusCode body, creator⟩
  unstarted : phase'.unstarted = true → phase.unstarted = true

/-- A command that finds nothing to repeat. -/
theorem Phase.Reports.seek {i : Nat} {phase phase' : Phase Body} {entry entry' : Option (Entry Body)}
    (hphase : phase.unstarted = true) (hresponse : phase'.response = none)
    (hreplayed : ∀ statusCode body, phase' ≠ .done (.replayed statusCode body))
    (hstored : ∀ statusCode body creator, entry' = some ⟨.completed statusCode body, creator⟩ →
      entry = entry') : Phase.Reports i phase phase' entry entry' where
  stored statusCode body creator h := Or.inl (hstored statusCode body creator h)
  responded response h := by simp [hresponse] at h
  completing response h := by simp [h, Phase.response] at hresponse
  replayed statusCode body h := absurd h (hreplayed statusCode body)
  unstarted _ := hphase

theorem Phase.inProgress_reports {i : Nat} {phase : Phase Body} (again : Bool)
    (entry : Option (Entry Body)) (h : phase.unstarted = true) :
    Phase.Reports i phase (Phase.inProgress again) entry entry := by
  cases again <;> exact .seek h rfl (fun _ _ => by simp [Phase.inProgress]) fun _ _ _ _ => rfl

theorem StoredRecord.found_reports {i : Nat} {phase otherwise : Phase Body} {e : Entry Body}
    (h : Phase.Reports i phase otherwise (some e) (some e)) (hphase : phase.unstarted = true)
    (hlooks : phase.looks = true) :
    Phase.Reports i phase (e.record.found otherwise) (some e) (some e) := by
  obtain ⟨record, creator⟩ := e
  cases record with
  | processing => exact h
  | completed statusCode body =>
      refine ⟨fun _ _ _ _ => Or.inl rfl, fun _ h => (by cases h), fun _ h => (by cases h),
        fun _ _ h => ?_, fun _ => hphase⟩
      cases h
      exact ⟨hlooks, creator, rfl⟩

theorem Phase.command_reports {isPost : Bool} {i : Nat} {phase phase' : Phase Body}
    {entry entry' : Option (Entry Body)}
    (h : phase.command isPost i entry = some (phase', entry')) :
    Phase.Reports i phase phase' entry entry' := by
  cases phase with
  | begin again =>
      cases entry with
      | none => cases h; exact .seek rfl rfl (by simp) (by simp)
      | some e => cases h; exact .seek rfl rfl (by simp) fun _ _ _ _ => rfl
  | retry again =>
      cases entry with
      | none => cases h; exact .seek rfl rfl (by simp) (by simp)
      | some e => cases h; exact Phase.inProgress_reports again _ rfl
  | lookup again =>
      cases entry with
      | none => cases h; exact .seek rfl rfl (by simp) fun _ _ _ _ => rfl
      | some e =>
          cases h
          exact StoredRecord.found_reports (Phase.inProgress_reports again _ rfl) rfl rfl
  | waiting =>
      cases entry with
      | none => cases h; exact .seek rfl rfl (by simp) fun _ _ _ _ => rfl
      | some e =>
          cases h
          exact StoredRecord.found_reports (.seek rfl rfl (by simp) fun _ _ _ _ => rfl) rfl rfl
  | completing response =>
      cases h
      refine ⟨fun statusCode body creator heq => Or.inr ⟨response, rfl, ?_⟩, fun _ h => h, by simp,
        by simp, fun h => (by cases h)⟩
      cases heq
      exact ⟨rfl, (recordedStatus_final isPost response).symm, rfl⟩
  | discarding response =>
      cases h
      exact ⟨by simp, fun _ h => h, by simp, by simp, fun h => (by cases h)⟩
  | failing e =>
      cases h
      exact ⟨by simp, fun _ h => h, by simp, by simp, fun h => (by cases h)⟩
  | proceed | running | done _ => cases h

/-- A failed command goes on to no response and no replay. -/
theorem Phase.Reports.fails {i : Nat} {phase phase' : Phase Body} {entry entry' : Option (Entry Body)}
    (h : Phase.Reports i phase phase' entry entry') :
    Phase.Reports i phase phase.failed entry entry' := by
  refine ⟨h.stored, fun _ h => ?_, fun _ h => ?_, fun _ _ h => ?_, fun h => ?_⟩ <;>
    cases phase <;> cases h

/-- A command that has not been applied. -/
theorem Phase.Reports.lost {i : Nat} {phase phase' : Phase Body} {entry entry' : Option (Entry Body)}
    (h : Phase.Reports i phase phase' entry entry') : Phase.Reports i phase phase' entry entry :=
  ⟨fun _ _ _ _ => Or.inl rfl, h.responded, h.completing, h.replayed, h.unstarted⟩

/-- The response on its way is the one returned; only a 2xx response is recorded, and
no outcome is a replay. -/
theorem Outcome.settle_phase (outcome : Outcome Body) (isPost : Bool) (key : Option Key) :
    (∀ response, (outcome.settle isPost key).response = some response → outcome = .returned response) ∧
      (∀ response, outcome.settle isPost key = .completing response →
        isSuccess response.statusCode) ∧
      (outcome.settle isPost key).unstarted = false := by
  cases outcome with
  | threw e => cases key <;> simp [Outcome.settle, Phase.unstarted, Phase.response]
  | returned response =>
      simp only [Outcome.settle, recordedStatus_final]
      split
      · simp [Phase.unstarted, Phase.response]
      · split
        · rename_i hsuccess
          refine ⟨by simp [Phase.response], fun response' h => ?_, rfl⟩
          cases h
          exact hsuccess
        · simp [Phase.unstarted, Phase.response]

/-- A request that has just arrived has neither a handler nor a response. -/
theorem Routes.receive_fresh (routes : Routes Req Key) (req : Req) :
    (routes.receive req : Request Req Key Body T).phase.response = none ∧
      (∀ statusCode body,
        (routes.receive req : Request Req Key Body T).phase ≠ .done (.replayed statusCode body)) ∧
      (routes.receive req : Request Req Key Body T).handler = none := by
  unfold Routes.receive
  split <;> simp [Phase.response]

/-! ### Every step -/

/-- A later state: started handlers keep their requests, given responses stay. -/
structure State.Later (service : Service Req Body H A T) (s s' : State Req Key Body H T) : Prop where
  handler : ∀ (j : Nat) (r : Request Req Key Body T) t, s.requests[j]? = some r →
    r.handler = some t →
    ∃ r', s'.requests[j]? = some r' ∧ r'.req = r.req ∧ r'.key = r.key ∧ r'.handler = some t
  returned : ∀ t response, service.outcome s.service t = some (.returned response) →
    service.outcome s'.service t = some (.returned response)

variable {service : Service Req Body H A T}

theorem State.Processed.later {s s' : State Req Key Body H T} {key : Key} {j statusCode : Nat}
    {req : Req} {body : Body} (h : s.Processed service key j req statusCode body)
    (hlater : s.Later service s') : s'.Processed service key j req statusCode body := by
  obtain ⟨r, response, hr, hreq, hkey, ⟨t, ht, houtcome⟩, hresponse⟩ := h
  obtain ⟨r', hr', hreq', hkey', ht'⟩ := hlater.handler j r t hr ht
  exact ⟨r', response, hr', hreq'.trans hreq, hkey'.trans hkey,
    ⟨t, ht', hlater.returned t response houtcome⟩, hresponse⟩

theorem Request.Returned.later {s s' : State Req Key Body H T} {r : Request Req Key Body T}
    {response : Response Body} (h : r.Returned service s.service response)
    (hlater : s.Later service s') : r.Returned service s'.service response := by
  obtain ⟨t, ht, houtcome⟩ := h
  exact ⟨t, ht, hlater.returned t response houtcome⟩

/-- One request has moved, its handler perhaps started. -/
theorem State.Later.set {s s' : State Req Key Body H T} {i : Nat} {r r' : Request Req Key Body T}
    (hr : s.requests[i]? = some r) (hrequests : s'.requests = s.requests.set i r')
    (hreq : r'.req = r.req) (hkey : r'.key = r.key)
    (hhandler : ∀ t, r.handler = some t → r'.handler = some t)
    (hreturned : ∀ t response, service.outcome s.service t = some (.returned response) →
      service.outcome s'.service t = some (.returned response)) : s.Later service s' := by
  refine ⟨fun j rj t hj ht => ?_, hreturned⟩
  by_cases hij : j = i
  · subst hij
    cases hr.symm.trans hj
    refine ⟨r', ?_, hreq, hkey, hhandler t ht⟩
    rw [hrequests]
    exact List.getElem?_set_self (List.getElem?_eq_some_iff.mp hr).1
  · exact ⟨rj, by rw [hrequests, List.getElem?_set_ne (Ne.symm hij)]; exact hj, rfl, rfl, ht⟩

/-- **The step of one request.** -/
theorem State.Sourced.turn {s s' : State Req Key Body H T} (hs : s.Sourced service)
    (hlater : s.Later service s') {i : Nat} {r r' : Request Req Key Body T}
    (hr : s.requests[i]? = some r) (hrequests : s'.requests = s.requests.set i r')
    (hothers : ∀ key, r.key ≠ some key → s'.redis key = s.redis key)
    (hstored : ∀ key, r.key = some key → ∀ statusCode body creator,
      s'.redis key = some ⟨.completed statusCode body, creator⟩ →
      s.redis key = s'.redis key ∨ ∃ response, r.phase = .completing response ∧ creator = i ∧
        response.statusCode = statusCode ∧ response.body = body)
    (hresponded : ∀ response, r'.phase.response = some response →
      r'.Returned service s'.service response)
    (hcompleting : ∀ response, r'.phase = .completing response → isSuccess response.statusCode)
    (hunstarted : r'.phase.unstarted = true → r'.handler = none) : s'.Sourced service := by
  have hold : ∀ {j : Nat} {rj : Request Req Key Body T}, s'.requests[j]? = some rj →
      rj = r' ∨ s.requests[j]? = some rj := fun hj => by
    rw [hrequests] at hj
    exact (getElem?_set_cases hj).imp And.right And.right
  refine ⟨fun key statusCode body creator he => ?_, fun j rj response hj hphase => ?_,
    fun j rj response hj hphase => ?_, fun j rj hj hphase => ?_⟩
  · have hsame : s.redis key = s'.redis key → ∃ req,
        s'.Processed service key creator req statusCode body := fun hentry => by
      obtain ⟨req, hprocessed⟩ := hs.stored key statusCode body creator (hentry.trans he)
      exact ⟨req, hprocessed.later hlater⟩
    by_cases hkey : r.key = some key
    · rcases hstored key hkey statusCode body creator he with hentry |
        ⟨response, hphase, rfl, hstatus, hbody⟩
      · exact hsame hentry
      · have hreturned := hs.responded creator r response hr (by rw [hphase]; rfl)
        have hsuccess := hs.completing creator r response hr hphase
        exact ⟨r.req, State.Processed.later
          ⟨r, response, hr, rfl, hkey, hreturned, hsuccess, hstatus, hbody⟩ hlater⟩
    · exact hsame (hothers key hkey).symm
  · rcases hold hj with rfl | hj
    · exact hresponded response hphase
    · exact (hs.responded j rj response hj hphase).later hlater
  · rcases hold hj with rfl | hj
    · exact hcompleting response hphase
    · exact hs.completing j rj response hj hphase
  · rcases hold hj with rfl | hj
    · exact hunstarted hphase
    · exact hs.unstarted j rj hj hphase

variable [DecidableEq Key] {routes : Routes Req Key}

/-- A Redis command, whatever the request makes of its reply. -/
theorem State.Sourced.command {s : State Req Key Body H T} (hs : s.Sourced service) {i : Nat}
    {r : Request Req Key Body T} {key : Key} {phase : Phase Body} {entry : Option (Entry Body)}
    (hr : s.requests[i]? = some r) (hkey : r.key = some key)
    (hreports : Phase.Reports i r.phase phase (s.redis key) entry) :
    (s.move i r key phase entry).Sourced service := by
  have hentry : (s.move i r key phase entry).redis key = entry := Function.update_self ..
  refine hs.turn (.set hr rfl rfl rfl (fun _ h => h) fun _ _ h => h) hr rfl (fun key' hne => ?_)
    (fun key' hkey' => ?_) (fun response h => hs.responded i r response hr (hreports.responded response h))
    (fun response h => absurd h (hreports.completing response))
    fun h => hs.unstarted i r hr (hreports.unstarted h)
  · exact Function.update_of_ne (fun heq => hne (by rw [heq, hkey])) _ _
  · cases hkey.symm.trans hkey'
    rw [hentry]
    exact hreports.stored

theorem State.Effect.later {s s' : State Req Key Body H T} {a : Action Req Key A}
    (h : State.Effect routes service s a s') (hs : s.Sourced service) : s.Later service s' := by
  cases h with
  | arrived req _ after =>
      subst after
      exact ⟨fun j r t hj ht => ⟨r, getElem?_concat_of_some hj, rfl, rfl, ht⟩, fun _ _ h => h⟩
  | commanded _ _ _ _ _ _ found _ _ after | failed _ _ _ _ _ _ _ found _ _ after
  | settled _ _ _ _ _ found _ _ _ after | gaveUp _ _ _ found _ after =>
      subst after
      exact .set found rfl rfl rfl (fun _ h => h) fun _ _ h => h
  | started i r _ found phase after =>
      subst after
      have hnone : r.handler = none := hs.unstarted i r found (by rw [phase]; rfl)
      exact .set found rfl rfl rfl (by simp [hnone]) fun _ _ => service.start_returned r.req
  | expired _ _ after =>
      subst after
      exact ⟨fun j r t hj ht => ⟨r, hj, rfl, rfl, ht⟩, fun _ _ h => h⟩
  | served _ _ _ step after =>
      subst after
      exact ⟨fun j r t hj ht => ⟨r, hj, rfl, rfl, ht⟩, fun _ _ => service.step_returned step⟩

theorem State.Sourced.step {s s' : State Req Key Body H T} {a : Action Req Key A}
    (hs : s.Sourced service) (h : State.Effect routes service s a s') : s'.Sourced service := by
  have hlater := h.later hs
  have hstored : ∀ key statusCode body creator,
      s.redis key = some ⟨.completed statusCode body, creator⟩ →
      ∃ req, s'.Processed service key creator req statusCode body := fun key _ _ creator he => by
    obtain ⟨req, hprocessed⟩ := hs.stored key _ _ creator he
    exact ⟨req, hprocessed.later hlater⟩
  have hresponded : ∀ (i : Nat) (r : Request Req Key Body T) response, s.requests[i]? = some r →
      r.phase.response = some response → r.Returned service s'.service response :=
    fun i r response hr hphase => (hs.responded i r response hr hphase).later hlater
  cases h with
  | arrived req _ after =>
      subst after
      have hfresh : (routes.receive req : Request Req Key Body T).phase.response = none ∧ _ :=
        routes.receive_fresh req
      obtain ⟨hresponse, -, hhandler⟩ := hfresh
      refine ⟨hstored, fun j r response hj hphase => ?_, fun j r response hj hphase => ?_,
        fun j r hj hphase => ?_⟩
      · rcases getElem?_concat_cases hj with hold | ⟨-, rfl⟩
        · exact hresponded j r response hold hphase
        · simp [hresponse] at hphase
      · rcases getElem?_concat_cases hj with hold | ⟨-, rfl⟩
        · exact hs.completing j r response hold hphase
        · simp [hphase, Phase.response] at hresponse
      · rcases getElem?_concat_cases hj with hold | ⟨-, rfl⟩
        · exact hs.unstarted j r hold hphase
        · exact hhandler
  | commanded i r key phase entry action found hkey command after =>
      exact after ▸ hs.command found hkey (Phase.command_reports command)
  | failed i applied r key phase entry action found hkey command after =>
      have hreports := (Phase.command_reports command).fails
      subst after
      cases applied with
      | true => exact hs.command found hkey hreports
      | false => exact hs.command found hkey hreports.lost
  | started i r action found hphase after =>
      subst after
      exact hs.turn hlater found rfl (fun _ _ => rfl) (fun _ _ _ _ _ _ => Or.inl rfl)
        (by simp [Phase.response]) (by simp) fun h => (by cases h)
  | settled i r t outcome action found hphase handler returned after =>
      subst after
      obtain ⟨hreturned, hcompleting, hstarted⟩ := outcome.settle_phase (routes.isPost r.req) r.key
      exact hs.turn hlater found rfl (fun _ _ => rfl) (fun _ _ _ _ _ _ => Or.inl rfl)
        (fun response h => ⟨t, handler, hreturned response h ▸ returned⟩) hcompleting
        fun h => absurd h (by simp [hstarted])
  | gaveUp i r action found hphase after =>
      subst after
      exact hs.turn hlater found rfl (fun _ _ => rfl) (fun _ _ _ _ _ _ => Or.inl rfl)
        (by simp [Phase.response]) (by simp)
        fun _ => hs.unstarted i r found (by rw [hphase]; rfl)
  | expired key action after =>
      subst after
      refine ⟨fun key' statusCode body creator he => ?_, hs.responded, hs.completing, hs.unstarted⟩
      by_cases hsame : key' = key
      · subst hsame
        simp at he
      · exact hstored key' statusCode body creator ((Function.update_of_ne hsame ..).symm.trans he)
  | served b h _ hstep after =>
      subst after
      exact ⟨hstored, hresponded, hs.completing, hs.unstarted⟩

/-- **Completed records are processed requests**, in every run. -/
theorem sourced_of_reachable {init : H → Prop} {ok : State Req Key Body H T → Action Req Key A → Prop}
    {s : State Req Key Body H T} (h : (machine routes service init).ReachableBy ok s) :
    s.Sourced service := by
  refine h.invariant ?_ fun s a s' hs _ hstep => hs.step (State.step_cases hstep)
  rintro ⟨redis, requests, h⟩ ⟨hredis, rfl, -⟩
  refine ⟨fun key _ _ _ he => ?_, fun _ _ _ h => (by cases h), fun _ _ _ h => (by cases h),
    fun _ _ h => (by cases h)⟩
  rw [hredis key] at he
  cases he

/-! ### Replays -/

/-- The body a request has been answered with, if the status is 2xx. -/
def Phase.success? : Phase Body → Option Body
  | .done (.executed response) => if isSuccess response.statusCode then some response.body else none
  | .done (.replayed statusCode body) => if isSuccess statusCode then some body else none
  | _ => none

def StoredRecord.isCompleted : StoredRecord Body → Bool
  | .completed _ _ => true
  | .processing => false

/-- The request that the action answers from a completed record, and the request that
wrote the record. -/
def State.replay? (s : State Req Key Body H T) :
    Action Req Key A → Option (Request Req Key Body T × Request Req Key Body T)
  | .run i => do
      let r ← s.requests[i]?
      let e ← s.redis (← r.key)
      let writer ← s.requests[e.creator]?
      if r.phase.looks && e.record.isCompleted then some (r, writer) else none
  | _ => none

/-- Such an action answers its request from the record. -/
theorem State.replay?_answers {s s' : State Req Key Body H T} {a : Action Req Key A}
    {p : Request Req Key Body T × Request Req Key Body T} (hp : p ∈ s.replay? a)
    (hstep : s.step routes service a = some s') :
    ∃ (i : Nat) (key : Key) (statusCode : Nat) (body : Body) (creator : Nat),
      s.redis key = some ⟨.completed statusCode body, creator⟩ ∧
        s'.requests[i]? = some { p.1 with phase := .done (.replayed statusCode body) } := by
  cases a with
  | run i =>
      obtain ⟨r, hr, hp⟩ := Option.bind_eq_some_iff.mp hp
      obtain ⟨key, hkey, hp⟩ := Option.bind_eq_some_iff.mp hp
      obtain ⟨⟨record, creator⟩, hentry, hp⟩ := Option.bind_eq_some_iff.mp hp
      obtain ⟨writer, _, hp⟩ := Option.bind_eq_some_iff.mp hp
      split at hp
      · rename_i hfinds
        cases hp
        cases record with
        | processing => simp [StoredRecord.isCompleted] at hfinds
        | completed statusCode body =>
            have hcommand : r.phase.command (routes.isPost r.req) i (s.redis key) =
                some (.done (.replayed statusCode body), s.redis key) := by
              rw [hentry]
              cases hphase : r.phase <;> simp [hphase, Phase.looks] at hfinds <;> rfl
            cases (State.step_command hr hkey hcommand).symm.trans hstep
            exact ⟨i, key, statusCode, body, creator, hentry,
              List.getElem?_set_self (List.getElem?_eq_some_iff.mp hr).1⟩
      · cases hp
  | arrive _ | giveUp _ | fail _ _ | expire _ | service _ => cases hp

/-- Every replay repeats another request of its key that has been processed, and `P`
holds of the two. -/
def State.ReplaysWhere (service : Service Req Body H A T) (P : Req → Req → Prop)
    (s : State Req Key Body H T) : Prop :=
  ∀ (i : Nat) (r : Request Req Key Body T) statusCode body, s.requests[i]? = some r →
    r.phase = .done (.replayed statusCode body) → ∃ key j req, r.key = some key ∧ j ≠ i ∧
      s.Processed service key j req statusCode body ∧ P r.req req

/-- A request that has been answered from a record was so before, or has just found
it. -/
theorem State.Effect.replayed {s s' : State Req Key Body H T} {a : Action Req Key A}
    (h : State.Effect routes service s a s') {i statusCode : Nat} {body : Body}
    {r' : Request Req Key Body T} (hi : s'.requests[i]? = some r')
    (hphase : r'.phase = .done (.replayed statusCode body)) :
    s.requests[i]? = some r' ∨ ∃ r key creator, a = .run i ∧ s.requests[i]? = some r ∧
      r.key = some key ∧ r.phase.looks = true ∧
      s.redis key = some ⟨.completed statusCode body, creator⟩ ∧ r'.req = r.req ∧ r'.key = r.key := by
  cases h with
  | arrived req _ after =>
      subst after
      rcases getElem?_concat_cases hi with hold | ⟨-, rfl⟩
      · exact Or.inl hold
      · exact absurd hphase ((routes.receive_fresh req).2.1 statusCode body)
  | commanded j r key phase entry action found hkey command after =>
      subst after
      rcases getElem?_set_cases hi with ⟨rfl, rfl⟩ | ⟨_, hold⟩
      · obtain ⟨hlooks, creator, hfound⟩ :=
          (Phase.command_reports command).replayed statusCode body hphase
        exact Or.inr ⟨r, key, creator, action, found, hkey, hlooks, hfound, rfl, rfl⟩
      · exact Or.inl hold
  | failed j _ r _ _ _ _ _ _ _ after =>
      subst after
      rcases getElem?_set_cases hi with ⟨rfl, rfl⟩ | ⟨_, hold⟩
      · have hfailed : r.phase.failed = .done (.replayed statusCode body) := hphase
        cases hr : r.phase <;> rw [hr] at hfailed <;> cases hfailed
      · exact Or.inl hold
  | started j r _ _ _ after =>
      subst after
      rcases getElem?_set_cases hi with ⟨rfl, rfl⟩ | ⟨_, hold⟩
      · cases hphase
      · exact Or.inl hold
  | settled j r _ outcome _ _ _ _ _ after =>
      subst after
      rcases getElem?_set_cases hi with ⟨rfl, rfl⟩ | ⟨_, hold⟩
      · have hstarted := (outcome.settle_phase (routes.isPost r.req) r.key).2.2
        rw [show outcome.settle _ _ = _ from hphase] at hstarted
        cases hstarted
      · exact Or.inl hold
  | gaveUp j r _ _ _ after =>
      subst after
      rcases getElem?_set_cases hi with ⟨rfl, rfl⟩ | ⟨_, hold⟩
      · cases hphase
      · exact Or.inl hold
  | expired _ _ after | served _ _ _ _ after =>
      subst after
      exact Or.inl hi

theorem State.ReplaysWhere.step {P : Req → Req → Prop} {s s' : State Req Key Body H T}
    {a : Action Req Key A} (hreplays : s.ReplaysWhere service P) (hs : s.Sourced service)
    (hfound : ∀ p ∈ s.replay? a, P p.1.req p.2.req) (h : State.Effect routes service s a s') :
    s'.ReplaysWhere service P := by
  intro i r' statusCode body hi hphase
  have hlater := h.later hs
  rcases h.replayed hi hphase with
    hold | ⟨r, key, creator, rfl, hr, hkey, hlooks, hentry, hreq, hkey'⟩
  · obtain ⟨key, j, req, hkey, hne, hprocessed, hP⟩ := hreplays i r' statusCode body hold hphase
    exact ⟨key, j, req, hkey, hne, hprocessed.later hlater, hP⟩
  · obtain ⟨req, hprocessed⟩ := hs.stored key statusCode body creator hentry
    obtain ⟨writer, _, hwriter, rfl, _, ⟨t, ht, _⟩, _⟩ := id hprocessed
    refine ⟨key, creator, writer.req, hkey'.trans hkey, ?_, hprocessed.later hlater, ?_⟩
    · rintro rfl
      -- The writer has a handler, a request that looks for a record has none.
      cases hr.symm.trans hwriter
      have hnone : r.handler = none := hs.unstarted creator r hr (by
        cases hp : r.phase <;> rw [hp] at hlooks <;> first | rfl | cases hlooks)
      rw [hnone] at ht
      cases ht
    · rw [hreq]
      refine hfound (r, writer) ?_
      simp [State.replay?, hr, hkey, hentry, hwriter, hlooks, StoredRecord.isCompleted]

/-- **Replays repeat processed requests**: if `P` holds of each request that finds a
completed record and the writer of the record, it holds of every replay. -/
theorem replaysWhere_of_reachable {P : Req → Req → Prop} {init : H → Prop}
    {ok : State Req Key Body H T → Action Req Key A → Prop}
    (hok : ∀ s a, ok s a → ∀ p ∈ s.replay? a, P p.1.req p.2.req) {s : State Req Key Body H T}
    (h : (machine routes service init).ReachableBy ok s) : s.ReplaysWhere service P := by
  refine (h.invariant (I := fun s => s.Sourced service ∧ s.ReplaysWhere service P) ?_
    fun s a s' hs hstep_ok hstep => ?_).2
  · intro s hinit
    have hreachable : (machine routes service init).Reachable s := Machine.reachableBy_init hinit
    refine ⟨sourced_of_reachable hreachable, fun i r _ _ hi => ?_⟩
    rw [hinit.2.1] at hi
    cases hi
  · have heffect := State.step_cases hstep
    exact ⟨hs.1.step heffect, hs.2.step hs.1 (hok s a hstep_ok) heffect⟩

/-- Every request has arrived, and has the key of its content. -/
theorem received_of_reachable {D : Req → Prop} {init : H → Prop}
    {ok : State Req Key Body H T → Action Req Key A → Prop}
    (hok : ∀ s req, ok s (.arrive req) → D req) {s : State Req Key Body H T}
    (h : (machine routes service init).ReachableBy ok s) :
    ∀ (i : Nat) (r : Request Req Key Body T), s.requests[i]? = some r →
      D r.req ∧ r.key = (routes.receive r.req : Request Req Key Body T).key := by
  refine h.invariant (I := fun s : State Req Key Body H T => ∀ (i : Nat) (r : Request Req Key Body T),
      s.requests[i]? = some r → D r.req ∧ r.key = (routes.receive r.req : Request Req Key Body T).key)
    ?_ fun s a s' hs hstep_ok hstep i r' hi => ?_
  · intro s hinit i r hi
    rw [hinit.2.1] at hi
    cases hi
  · rcases (State.step_cases hstep).request hi with ⟨r, hr, hreq, hkey, _⟩ | ⟨req, rfl, rfl⟩
    · rw [hreq, hkey]
      exact hs i r hr
    · have hreq : (routes.receive req : Request Req Key Body T).req = req := by
        unfold Routes.receive
        split <;> rfl
      rw [hreq]
      exact ⟨hok s req hstep_ok, rfl⟩

end Provenance

end MibServer.Idempotency
