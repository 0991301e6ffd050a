import MibServer.Http
import MibServer.Idempotency.Key
import MibServer.Lib.Machine
import Mathlib.Logic.Function.Basic

/-!
`IdempotencyInterceptor`, with `RedisBusinessService` inlined: any number of requests,
each Redis command of each of them a step of its own.

Between two commands of a request any other request may move, a key may reach its TTL
(`expire`), and a command may fail (`fail`), having taken effect or not. The handlers
belong to a `Service` that goes on by itself; the interceptor starts a handler and
waits for its outcome.
-/

namespace MibServer.Idempotency

open MibServer.Lib

/-! ### Handlers -/

/-- The response of a handler. Its status is a final one of HTTP: Express sends no
other. -/
structure Response (Body : Type) where
  statusCode : Nat
  body : Body
  final : 200 ≤ statusCode ∧ statusCode < 600 := by decide
deriving DecidableEq

/-- What a `POST` handler returns. -/
def Response.created {Body : Type} (body : Body) : Response Body := { statusCode := 201, body }

inductive Outcome (Body : Type) where
  | returned (response : Response Body)
  | threw (e : HttpException)
deriving DecidableEq

/-- What is behind the interceptor: `start` calls the handler of a request, `step` is
whatever goes on meanwhile. A response that has been given stays. -/
structure Service (Req Body H A T : Type) where
  start : H → Req → H × T
  step : H → A → Option H
  outcome : H → T → Option (Outcome Body)
  start_returned : ∀ {h t response} req, outcome h t = some (.returned response) →
    outcome (start h req).1 t = some (.returned response)
  step_returned : ∀ {h h' a t response}, step h a = some h' →
    outcome h t = some (.returned response) → outcome h' t = some (.returned response)

/-- The routes: the scoped key of a request, `none` to skip the interceptor, and
whether its method is `POST`. -/
structure Routes (Req Key : Type) where
  scopeKey : Req → Except HttpException (Option Key)
  isPost : Req → Bool

/-! ### Redis -/

/-- `IdempotencyStoredRecord`; the times are left out. -/
inductive StoredRecord (Body : Type) where
  | processing
  | completed (statusCode : Nat) (body : Body)
deriving DecidableEq

/-- A stored record, and the request that wrote it: a history variable. -/
structure Entry (Body : Type) where
  record : StoredRecord Body
  creator : Nat
deriving DecidableEq

/-! ### Requests -/

inductive Answer (Body : Type) where
  | executed (response : Response Body)
  | replayed (statusCode : Nat) (body : Body)
  | failed (e : HttpException)
deriving DecidableEq

/-- Where a request is. `again` marks the second `beginRequestIdempotency`. -/
inductive Phase (Body : Type) where
  /-- The `SET NX` of the marker. -/
  | begin (again : Bool)
  /-- The `GET` after it. -/
  | lookup (again : Bool)
  /-- The second `SET NX`, for a key gone in between. -/
  | retry (again : Bool)
  /-- The polling loop. -/
  | waiting
  /-- `next.handle()` -/
  | proceed
  | running
  /-- `completeRequestIdempotency` -/
  | completing (response : Response Body)
  /-- `failRequestIdempotency`, for a response that is not 2xx. -/
  | discarding (response : Response Body)
  /-- `failRequestIdempotency` in the `catchError`. -/
  | failing (e : HttpException)
  | done (answer : Answer Body)
deriving DecidableEq

structure Request (Req Key Body T : Type) where
  req : Req
  key : Option Key
  phase : Phase Body
  handler : Option T := none

/-- The status the interceptor records. -/
def recordedStatus (isPost : Bool) (responseStatus : Nat) : Nat :=
  if 200 ≤ responseStatus ∧ responseStatus < 600 then responseStatus
  else if isPost then 201 else 200

@[simp] theorem recordedStatus_final {Body : Type} (isPost : Bool) (response : Response Body) :
    recordedStatus isPost response.statusCode = response.statusCode := by
  simp [recordedStatus, response.final]

def isSuccess (code : Nat) : Prop := 200 ≤ code ∧ code < 300

instance (code : Nat) : Decidable (isSuccess code) := inferInstanceAs (Decidable (_ ∧ _))

def IN_PROGRESS : HttpException := .conflict "相同幂等键的请求正在处理中，请稍后重试"

section Steps

variable {Req Key Body H A T : Type}

/-- `in_progress`: wait the first time, give up the second. -/
def Phase.inProgress (again : Bool) : Phase Body :=
  if again then .done (.failed IN_PROGRESS) else .waiting

/-- What a `GET` tells a request that looks for a completed record. -/
def StoredRecord.found (record : StoredRecord Body) (otherwise : Phase Body) : Phase Body :=
  match record with
  | .completed statusCode body => .done (.replayed statusCode body)
  | .processing => otherwise

/-- The Redis command a request is at: its phase after it, and the entry of its key. -/
def Phase.command (isPost : Bool) (i : Nat) (entry : Option (Entry Body)) :
    Phase Body → Option (Phase Body × Option (Entry Body))
  | .begin again =>
      match entry with
      | none => some (.proceed, some ⟨.processing, i⟩)
      | some e => some (.lookup again, some e)
  | .lookup again =>
      match entry with
      | none => some (.retry again, none)
      | some e => some (e.record.found (.inProgress again), some e)
  | .retry again =>
      match entry with
      | none => some (.proceed, some ⟨.processing, i⟩)
      | some e => some (.inProgress again, some e)
  | .waiting =>
      match entry with
      | none => some (.begin true, none)
      | some e => some (e.record.found .waiting, some e)
  | .completing response =>
      some (.done (.executed response),
        some ⟨.completed (recordedStatus isPost response.statusCode) response.body, i⟩)
  | .discarding response => some (.done (.executed response), none)
  | .failing e => some (.done (.failed e), none)
  | _ => none

/-- A command that has failed: `prepare` lets the error through, the handler's pipeline
catches it once. -/
def Phase.failed : Phase Body → Phase Body
  | .completing _ | .discarding _ => .failing .internal
  | _ => .done (.failed .internal)

/-- What the interceptor does with the outcome of the handler. -/
def Outcome.settle (isPost : Bool) (key : Option Key) : Outcome Body → Phase Body
  | .returned response =>
      if key.isNone then .done (.executed response)
      else if isSuccess (recordedStatus isPost response.statusCode) then .completing response
      else .discarding response
  | .threw e => if key.isNone then .done (.failed e) else .failing e

structure State (Req Key Body H T : Type) where
  redis : Key → Option (Entry Body)
  requests : List (Request Req Key Body T)
  service : H

inductive Action (Req Key A : Type) where
  | arrive (req : Req)
  /-- Request `i` takes its next step. -/
  | run (i : Nat)
  /-- Request `i` has waited until its deadline. -/
  | giveUp (i : Nat)
  /-- The Redis command of request `i` fails, having been `applied` or not. -/
  | fail (i : Nat) (applied : Bool)
  | expire (key : Key)
  | service (a : A)

variable [DecidableEq Key]

namespace State

variable (s : State Req Key Body H T)

/-- Request `i` has gone on, and the entry of its key is now `entry`. -/
def move (i : Nat) (r : Request Req Key Body T) (key : Key) (phase : Phase Body)
    (entry : Option (Entry Body)) : State Req Key Body H T :=
  { s with
    redis := Function.update s.redis key entry
    requests := s.requests.set i { r with phase } }

/-- Request `i` has gone on without Redis. -/
def become (i : Nat) (r : Request Req Key Body T) : State Req Key Body H T :=
  { s with requests := s.requests.set i r }

end State

/-- The first part of `prepare`. -/
def Routes.receive (routes : Routes Req Key) (req : Req) : Request Req Key Body T :=
  match routes.scopeKey req with
  | .ok (some key) => { req, key := some key, phase := .begin false }
  | .ok none => { req, key := none, phase := .proceed }
  | .error e => { req, key := none, phase := .done (.failed e) }

/-- The next step of request `i`. -/
def Request.step (routes : Routes Req Key) (service : Service Req Body H A T)
    (s : State Req Key Body H T) (i : Nat) (r : Request Req Key Body T) :
    Option (State Req Key Body H T) :=
  match r.phase with
  | .proceed =>
      let (h, t) := service.start s.service r.req
      some { (s.become i { r with phase := .running, handler := some t }) with service := h }
  | .running => do
      let outcome ← service.outcome s.service (← r.handler)
      some (s.become i { r with phase := outcome.settle (routes.isPost r.req) r.key })
  | _ => do
      let key ← r.key
      let next ← r.phase.command (routes.isPost r.req) i (s.redis key)
      some (s.move i r key next.1 next.2)

/-- The command of request `i` fails. -/
def Request.fail (routes : Routes Req Key) (s : State Req Key Body H T) (i : Nat)
    (r : Request Req Key Body T) (applied : Bool) : Option (State Req Key Body H T) := do
  let key ← r.key
  let next ← r.phase.command (routes.isPost r.req) i (s.redis key)
  some (s.move i r key r.phase.failed (if applied then next.2 else s.redis key))

def State.step (routes : Routes Req Key) (service : Service Req Body H A T)
    (s : State Req Key Body H T) : Action Req Key A → Option (State Req Key Body H T)
  | .arrive req => some { s with requests := s.requests ++ [routes.receive req] }
  | .run i => do (← s.requests[i]?).step routes service s i
  | .giveUp i => do
      let r ← s.requests[i]?
      match r.phase with
      | .waiting => some (s.become i { r with phase := .begin true })
      | _ => none
  | .fail i applied => do (← s.requests[i]?).fail routes s i applied
  | .expire key => some { s with redis := Function.update s.redis key none }
  | .service a => do
      let h ← service.step s.service a
      some { s with service := h }

/-- Any number of requests, from an empty Redis. -/
def machine (routes : Routes Req Key) (service : Service Req Body H A T) (init : H → Prop) :
    Machine (State Req Key Body H T) (Action Req Key A) where
  init s := (∀ key, s.redis key = none) ∧ s.requests = [] ∧ init s.service
  step s a := s.step routes service a

/-! ### What a step does -/

/-- The request an action is a step of. -/
def Action.actor : Action Req Key A → Option Nat
  | .run i | .giveUp i | .fail i _ => some i
  | _ => none

/-- The steps of the machine. -/
inductive State.Effect (routes : Routes Req Key) (service : Service Req Body H A T)
    (s : State Req Key Body H T) (a : Action Req Key A) (s' : State Req Key Body H T) : Prop where
  | arrived (req : Req) (action : a = .arrive req)
      (after : s' = { s with requests := s.requests ++ [routes.receive req] })
  | commanded (i : Nat) (r : Request Req Key Body T) (key : Key) (phase : Phase Body)
      (entry : Option (Entry Body)) (action : a = .run i) (found : s.requests[i]? = some r)
      (hkey : r.key = some key)
      (command : r.phase.command (routes.isPost r.req) i (s.redis key) = some (phase, entry))
      (after : s' = s.move i r key phase entry)
  | failed (i : Nat) (applied : Bool) (r : Request Req Key Body T) (key : Key) (phase : Phase Body)
      (entry : Option (Entry Body)) (action : a = .fail i applied) (found : s.requests[i]? = some r)
      (hkey : r.key = some key)
      (command : r.phase.command (routes.isPost r.req) i (s.redis key) = some (phase, entry))
      (after : s' = s.move i r key r.phase.failed (if applied then entry else s.redis key))
  | started (i : Nat) (r : Request Req Key Body T) (action : a = .run i)
      (found : s.requests[i]? = some r) (phase : r.phase = .proceed)
      (after : s' = { s.become i { r with
          phase := .running, handler := some (service.start s.service r.req).2 } with
        service := (service.start s.service r.req).1 })
  | settled (i : Nat) (r : Request Req Key Body T) (t : T) (outcome : Outcome Body)
      (action : a = .run i) (found : s.requests[i]? = some r) (phase : r.phase = .running)
      (handler : r.handler = some t) (returned : service.outcome s.service t = some outcome)
      (after : s' = s.become i { r with phase := outcome.settle (routes.isPost r.req) r.key })
  | gaveUp (i : Nat) (r : Request Req Key Body T) (action : a = .giveUp i)
      (found : s.requests[i]? = some r) (phase : r.phase = .waiting)
      (after : s' = s.become i { r with phase := .begin true })
  | expired (key : Key) (action : a = .expire key)
      (after : s' = { s with redis := Function.update s.redis key none })
  | served (b : A) (h : H) (action : a = .service b) (step : service.step s.service b = some h)
      (after : s' = { s with service := h })

theorem State.step_cases {routes : Routes Req Key} {service : Service Req Body H A T}
    {s s' : State Req Key Body H T} {a : Action Req Key A} (h : s.step routes service a = some s') :
    State.Effect routes service s a s' := by
  cases a with
  | arrive req =>
      cases h
      exact .arrived req rfl rfl
  | run i =>
      obtain ⟨r, hr, hstep⟩ := Option.bind_eq_some_iff.mp h
      unfold Request.step at hstep
      split at hstep
      · rename_i hphase
        cases hstep
        exact .started i r rfl hr hphase rfl
      · rename_i hphase
        obtain ⟨t, ht, hstep⟩ := Option.bind_eq_some_iff.mp hstep
        obtain ⟨outcome, houtcome, hstep⟩ := Option.bind_eq_some_iff.mp hstep
        cases hstep
        exact .settled i r t outcome rfl hr hphase ht houtcome rfl
      · obtain ⟨key, hkey, hstep⟩ := Option.bind_eq_some_iff.mp hstep
        obtain ⟨next, hnext, hstep⟩ := Option.bind_eq_some_iff.mp hstep
        cases hstep
        exact .commanded i r key next.1 next.2 rfl hr hkey hnext rfl
  | giveUp i =>
      obtain ⟨r, hr, hstep⟩ := Option.bind_eq_some_iff.mp h
      split at hstep
      · rename_i hphase
        cases hstep
        exact .gaveUp i r rfl hr hphase rfl
      · cases hstep
  | fail i applied =>
      obtain ⟨r, hr, hstep⟩ := Option.bind_eq_some_iff.mp h
      obtain ⟨key, hkey, hstep⟩ := Option.bind_eq_some_iff.mp hstep
      obtain ⟨next, hnext, hstep⟩ := Option.bind_eq_some_iff.mp hstep
      cases hstep
      exact .failed i applied r key next.1 next.2 rfl hr hkey hnext rfl
  | expire key =>
      cases h
      exact .expired key rfl rfl
  | service b =>
      obtain ⟨h', hh', hstep⟩ := Option.bind_eq_some_iff.mp h
      cases hstep
      exact .served b h' rfl hh' rfl

/-- A request keeps its content, its key and its handler, once it has one. -/
theorem State.Effect.request {routes : Routes Req Key} {service : Service Req Body H A T}
    {s s' : State Req Key Body H T} {a : Action Req Key A} (h : State.Effect routes service s a s')
    {j : Nat} {r' : Request Req Key Body T} (hj : s'.requests[j]? = some r') :
    (∃ r, s.requests[j]? = some r ∧ r'.req = r.req ∧ r'.key = r.key ∧
      (r'.handler = r.handler ∨ r'.handler = some (service.start s.service r.req).2 ∧
        s'.service = (service.start s.service r.req).1)) ∨
      ∃ req, a = .arrive req ∧ r' = routes.receive req := by
  have hset : ∀ (i : Nat) (r : Request Req Key Body T) phase, s.requests[i]? = some r →
      s'.requests = s.requests.set i { r with phase } →
      ∃ r, s.requests[j]? = some r ∧ r'.req = r.req ∧ r'.key = r.key ∧ r'.handler = r.handler := by
    intro i r phase hr hrequests
    rw [hrequests] at hj
    rcases getElem?_set_cases hj with ⟨rfl, rfl⟩ | ⟨_, hold⟩
    · exact ⟨r, hr, rfl, rfl, rfl⟩
    · exact ⟨r', hold, rfl, rfl, rfl⟩
  have hkept : (∃ r, s.requests[j]? = some r ∧ r'.req = r.req ∧ r'.key = r.key ∧
      r'.handler = r.handler) → ∃ r, s.requests[j]? = some r ∧ r'.req = r.req ∧ r'.key = r.key ∧
        (r'.handler = r.handler ∨ r'.handler = some (service.start s.service r.req).2 ∧
          s'.service = (service.start s.service r.req).1) :=
    fun ⟨r, hr, hreq, hkey, hhandler⟩ => ⟨r, hr, hreq, hkey, Or.inl hhandler⟩
  cases h with
  | arrived req action after =>
      subst after
      rcases getElem?_concat_cases hj with hold | ⟨-, hnew⟩
      · exact Or.inl (hkept ⟨r', hold, rfl, rfl, rfl⟩)
      · exact Or.inr ⟨req, action, hnew⟩
  | commanded i r _ _ _ _ found _ _ after => exact Or.inl (hkept (hset i r _ found (by subst after; rfl)))
  | failed i _ r _ _ _ _ found _ _ after => exact Or.inl (hkept (hset i r _ found (by subst after; rfl)))
  | started i r _ found _ after =>
      subst after
      rcases getElem?_set_cases hj with ⟨rfl, rfl⟩ | ⟨_, hold⟩
      · exact Or.inl ⟨r, found, rfl, rfl, Or.inr ⟨rfl, rfl⟩⟩
      · exact Or.inl (hkept ⟨r', hold, rfl, rfl, rfl⟩)
  | settled i r _ _ _ found _ _ _ after => exact Or.inl (hkept (hset i r _ found (by subst after; rfl)))
  | gaveUp i r _ found _ after => exact Or.inl (hkept (hset i r _ found (by subst after; rfl)))
  | expired _ _ after => exact Or.inl (hkept ⟨r', by rw [after] at hj; exact hj, rfl, rfl, rfl⟩)
  | served _ _ _ _ after => exact Or.inl (hkept ⟨r', by rw [after] at hj; exact hj, rfl, rfl, rfl⟩)

/-- A command of a request moves it. -/
theorem State.step_command {routes : Routes Req Key} {service : Service Req Body H A T}
    {s : State Req Key Body H T} {key : Key} {i : Nat}
    {r : Request Req Key Body T} {next : Phase Body × Option (Entry Body)}
    (hr : s.requests[i]? = some r) (hkey : r.key = some key)
    (hcommand : r.phase.command (routes.isPost r.req) i (s.redis key) = some next) :
    s.step routes service (.run i) = some (s.move i r key next.1 next.2) := by
  have hrequest : r.step routes service s i = some (s.move i r key next.1 next.2) := by
    unfold Request.step
    split
    · rename_i hphase
      rw [hphase] at hcommand
      cases hcommand
    · rename_i hphase
      rw [hphase] at hcommand
      cases hcommand
    · simp [hkey, hcommand]
  simp [State.step, hr, hrequest]

/-- The service goes on by a handler that starts or by a step of its own. -/
theorem State.Effect.service_cases {routes : Routes Req Key} {service : Service Req Body H A T}
    {s s' : State Req Key Body H T} {a : Action Req Key A} (h : State.Effect routes service s a s') :
    s'.service = s.service ∨ (∃ req, s'.service = (service.start s.service req).1) ∨
      ∃ b, service.step s.service b = some s'.service := by
  cases h with
  | arrived _ _ after | commanded _ _ _ _ _ _ _ _ _ after | failed _ _ _ _ _ _ _ _ _ _ after
  | settled _ _ _ _ _ _ _ _ _ after | gaveUp _ _ _ _ _ after | expired _ _ after =>
      exact Or.inl (by subst after; rfl)
  | started i r _ _ _ after => exact Or.inr (Or.inl ⟨r.req, by rw [after]⟩)
  | served b h _ step after => exact Or.inr (Or.inr ⟨b, by rw [after]; exact step⟩)

end Steps

/-! ### Any handlers -/

/-- Handlers that return whatever they are told to, whenever they are told to. -/
def anyHandlers (Req Body : Type) :
    Service Req Body (List (Option (Outcome Body))) (Nat × Outcome Body) Nat where
  start h _ := (h ++ [none], h.length)
  step h a :=
    match h[a.1]? with
    | some none => some (h.set a.1 (some a.2))
    | _ => none
  outcome h t := h[t]?.join
  start_returned {h t response} _ houtcome := by
    rw [Option.join_eq_some_iff] at *
    exact getElem?_concat_of_some houtcome
  step_returned {h h' a t response} hstep houtcome := by
    rw [Option.join_eq_some_iff] at *
    split at hstep
    · rename_i hpending
      cases hstep
      have hne : a.1 ≠ t := by
        rintro rfl
        rw [hpending] at houtcome
        cases houtcome
      rw [List.getElem?_set_ne hne]
      exact houtcome
    · cases hstep

end MibServer.Idempotency
