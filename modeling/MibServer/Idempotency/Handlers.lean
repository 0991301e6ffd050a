import MibServer.Idempotency.Provenance
import MibServer.Lib.Transaction

/-!
Handlers that are calls of a service on a database: the pipes of a route turn a request
into a call or reject it, and the call is a thread of the system.

The threads of the handlers are among those of the system, which takes other calls as
well (`Threaded`). A handler has returned when its thread has.
-/

namespace MibServer.Idempotency

open MibServer.Lib

section Handlers

variable {σ Q : Type} {R : Q → Type} {Env Body C Req Key : Type}

/-- A route: its pipes, and the response of a call that has returned. -/
structure Endpoint (Req C Body : Type) where
  call : Req → Except HttpException C
  respond : Body → Response Body
  respond_body : ∀ body, (respond body).body = body

variable (S : System σ Q R Env HttpException Body C) (endpoint : Endpoint Req C Body)

/-- The outcome of the thread of a call. -/
def Endpoint.threadOutcome (th : Thread σ Q R Env HttpException Body C) : Option (Outcome Body) :=
  match th.result? with
  | some body => some (.returned (endpoint.respond body))
  | none =>
      match th.prog with
      | .throw e => some (.threw e)
      | _ => none

/-- A request its pipes have rejected, or the thread of its call. -/
abbrev Handler := Except HttpException Nat

def Endpoint.outcome (w : World σ Q R Env HttpException Body C) : Handler → Option (Outcome Body)
  | .error e => some (.threw e)
  | .ok t => w.threads[t]?.bind endpoint.threadOutcome

def Endpoint.start (w : World σ Q R Env HttpException Body C) (req : Req) :
    World σ Q R Env HttpException Body C × Handler :=
  match endpoint.call req with
  | .error e => (w, .error e)
  | .ok c => ({ w with threads := w.threads ++ [{ call := c, prog := S.program c }] },
      .ok w.threads.length)

section Outcomes

variable {S} {endpoint} {th : Thread σ Q R Env HttpException Body C}
  {w : World σ Q R Env HttpException Body C} {handler : Handler}

theorem Endpoint.threadOutcome_returned {response : Response Body}
    (h : endpoint.threadOutcome th = some (.returned response)) : th.result? = some response.body := by
  unfold threadOutcome at h
  split at h
  · rename_i body hresult
    cases h
    rw [hresult, endpoint.respond_body]
  · split at h <;> cases h

/-- A thread that has failed is done. -/
theorem Endpoint.threadOutcome_threw {e : HttpException}
    (h : endpoint.threadOutcome th = some (.threw e)) : th.prog = .throw e := by
  unfold threadOutcome at h
  split at h
  · cases h
  · split at h
    · rename_i hprog
      cases h
      exact hprog
    · cases h

theorem Endpoint.outcome_returned {response : Response Body}
    (h : endpoint.outcome w handler = some (.returned response)) :
    ∃ t th, handler = .ok t ∧ w.threads[t]? = some th ∧ th.result? = some response.body ∧
      endpoint.threadOutcome th = some (.returned response) := by
  cases handler with
  | error e => cases h
  | ok t =>
      obtain ⟨th, hth, houtcome⟩ := Option.bind_eq_some_iff.mp h
      exact ⟨t, th, rfl, hth, threadOutcome_returned houtcome, houtcome⟩

/-- A handler that has just started is a thread of its request. -/
theorem Endpoint.start_thread {req : Req} {t : Nat} (h : (endpoint.start S w req).2 = .ok t) :
    ∃ c th, endpoint.call req = .ok c ∧ (endpoint.start S w req).1.threads[t]? = some th ∧
      th.call = c := by
  unfold start at *
  split at h
  · cases h
  · rename_i c hcall
    cases h
    exact ⟨c, _, hcall, List.getElem?_concat_length, rfl⟩

/-- A handler that starts leaves the database alone. -/
theorem Endpoint.start_committed (S : System σ Q R Env HttpException Body C)
    (endpoint : Endpoint Req C Body) (w : World σ Q R Env HttpException Body C) (req : Req) :
    (endpoint.start S w req).1.committed = w.committed := by
  unfold start
  split <;> rfl

variable [∀ q, DecidableEq (R q)]

/-- A response that has been given stays. -/
theorem Endpoint.outcome_step {w' : World σ Q R Env HttpException Body C} {a : Lib.Action C Env}
    {response : Response Body} (hstep : w.step S a = some w')
    (h : endpoint.outcome w handler = some (.returned response)) :
    endpoint.outcome w' handler = some (.returned response) := by
  obtain ⟨t, th, rfl, hth, hresult, houtcome⟩ := outcome_returned h
  obtain ⟨th', hth', _, hsame⟩ := World.step_thread hstep hth
  rw [hsame (by rw [hresult]; rfl)] at hth'
  exact Option.bind_eq_some_iff.mpr ⟨th, hth', houtcome⟩

/-- A handler starts by a call that arrives. -/
theorem Endpoint.start_world (S : System σ Q R Env HttpException Body C) (endpoint : Endpoint Req C Body)
    (w : World σ Q R Env HttpException Body C) (req : Req) :
    (endpoint.start S w req).1 = w ∨
      ∃ c, endpoint.call req = .ok c ∧ w.step S (.spawn c) = some (endpoint.start S w req).1 := by
  unfold start
  split
  · exact Or.inl rfl
  · rename_i c hcall
    exact Or.inr ⟨c, hcall, rfl⟩

end Outcomes

variable [∀ q, DecidableEq (R q)]

/-- A route, and the other callers of its service. -/
def Endpoint.service : Service Req Body (World σ Q R Env HttpException Body C) (Lib.Action C Env) Handler where
  start := endpoint.start S
  step w a := w.step S a
  outcome := endpoint.outcome
  start_returned {w handler response} req h := by
    rcases Endpoint.start_world S endpoint w req with hsame | ⟨c, _, hstep⟩
    · rw [hsame]
      exact h
    · exact Endpoint.outcome_step hstep h
  step_returned := Endpoint.outcome_step

/-! ### Threads and requests -/

variable [DecidableEq Key]

/-- The threads of the handlers are calls of their requests, in a state the system
reaches. -/
structure Threaded (M : Machine (World σ Q R Env HttpException Body C) (Lib.Action C Env))
    (s : State Req Key Body (World σ Q R Env HttpException Body C) Handler) : Prop where
  world : M.Reachable s.service
  handler : ∀ (i : Nat) (r : Request Req Key Body Handler) t, s.requests[i]? = some r →
    r.handler = some (.ok t) → ∃ c th, endpoint.call r.req = .ok c ∧
      s.service.threads[t]? = some th ∧ th.call = c

variable {S} {endpoint} {routes : Routes Req Key}
  {s s' : State Req Key Body (World σ Q R Env HttpException Body C) Handler}
  {a : Action Req Key (Lib.Action C Env)}

/-- The system goes on by steps of its own. -/
theorem Endpoint.service_step (h : State.Effect routes (endpoint.service S) s a s') :
    s'.service = s.service ∨ ∃ b, s.service.step S b = some s'.service := by
  rcases h.service_cases with hsame | ⟨req, hstart⟩ | hstep
  · exact Or.inl hsame
  · rcases Endpoint.start_world S endpoint s.service req with hsame | ⟨c, _, hstep⟩
    · exact Or.inl (hstart.trans hsame)
    · exact Or.inr ⟨_, hstep.trans (congrArg some hstart.symm)⟩
  · exact Or.inr hstep

variable {init : σ → Prop}

theorem Threaded.step (hs : Threaded endpoint (S.machine init) s)
    (h : State.Effect routes (endpoint.service S) s a s') :
    Threaded endpoint (S.machine init) s' := by
  have hthreads : ∀ (t : Nat) (th : Thread σ Q R Env HttpException Body C),
      s.service.threads[t]? = some th →
      ∃ th', s'.service.threads[t]? = some th' ∧ th'.call = th.call := by
    intro t th hth
    rcases Endpoint.service_step h with hsame | ⟨b, hstep⟩
    · exact ⟨th, hsame ▸ hth, rfl⟩
    · obtain ⟨th', hth', hcall, _⟩ := World.step_thread hstep hth
      exact ⟨th', hth', hcall⟩
  constructor
  · rcases Endpoint.service_step h with hsame | ⟨b, hstep⟩
    · rw [hsame]
      exact hs.world
    · exact hs.world.next trivial hstep
  · intro i r t hi ht
    rcases h.request hi with ⟨r₀, hr₀, hreq, _, hold | ⟨hnew, hservice⟩⟩ | ⟨req, _, rfl⟩
    · obtain ⟨c, th, hc, hth, hcall⟩ := hs.handler i r₀ t hr₀ (hold ▸ ht)
      obtain ⟨th', hth', hcall'⟩ := hthreads t th hth
      exact ⟨c, th', hreq ▸ hc, hth', hcall'.trans hcall⟩
    · rw [hreq, hservice]
      exact Endpoint.start_thread (Option.some.inj (hnew.symm.trans ht))
    · have hfresh : (routes.receive req : Request Req Key Body Handler).handler = none :=
        (routes.receive_fresh req).2.2
      rw [hfresh] at ht
      cases ht

theorem threaded_of_reachable
    {ok : State Req Key Body (World σ Q R Env HttpException Body C) Handler →
      Action Req Key (Lib.Action C Env) → Prop}
    (h : (machine routes (endpoint.service S) (S.machine init).init).ReachableBy ok s) :
    Threaded endpoint (S.machine init) s := by
  refine h.invariant ?_ fun s a s' hs _ hstep => hs.step (State.step_cases hstep)
  rintro ⟨redis, requests, w⟩ ⟨_, rfl, hw⟩
  exact ⟨Machine.reachableBy_init hw, fun _ _ _ h => by cases h⟩

omit [DecidableEq Key] in
/-- A handler that has returned is a thread that has. -/
theorem Threaded.returned (hs : Threaded endpoint (S.machine init) s) {j : Nat}
    {r : Request Req Key Body Handler} {response : Response Body} (hj : s.requests[j]? = some r)
    (h : r.Returned (endpoint.service S) s.service response) :
    ∃ t th c, r.handler = some (.ok t) ∧ s.service.threads[t]? = some th ∧
      endpoint.call r.req = .ok c ∧ th.call = c ∧ th.result? = some response.body := by
  obtain ⟨handler, hhandler, houtcome⟩ := h
  obtain ⟨t, th, rfl, hth, hresult, _⟩ := Endpoint.outcome_returned houtcome
  obtain ⟨c, th', hc, hth', hcall⟩ := hs.handler j r t hj hhandler
  cases hth.symm.trans hth'
  exact ⟨t, th, c, hhandler, hth, hc, hcall, hresult⟩

end Handlers

end MibServer.Idempotency
