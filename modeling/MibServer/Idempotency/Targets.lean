import MibServer.Idempotency.Arrivals
import MibServer.Tenancy.Extension

/-!
The idempotent routes of authenticated users: which requests share a stored response.

The key of a request is the scope of its route and the header of the client, so it
tells the route. It tells neither the tenant of the user nor the path parameter: responses
stay where they belong as long as the clients choose their keys apart (`OneTarget`).
-/

namespace MibServer.Idempotency

open MibServer.Lib MibServer.Tenancy

/-! ### Routes and keys -/

/-- The routes under `@ApiIdempotent` behind `JwtAuthGuard`. -/
inductive IdempotentRoute where
  | createOrder | checkIn | createMembership | adjustLessons | createSchedule
deriving DecidableEq, Repr

def IdempotentRoute.scope : IdempotentRoute → String
  | .createOrder => "order:create"
  | .checkIn => "attendance:check-in"
  | .createMembership => "membership:create"
  | .adjustLessons => "membership:adjust-lessons"
  | .createSchedule => "schedule:create"

/-- `@ApiIdempotent(scope)` -/
def IdempotentRoute.options (route : IdempotentRoute) : IdempotentOptions where
  scope := route.scope

structure AuthenticatedRequest where
  route : IdempotentRoute
  /-- The path parameter `:id`. -/
  id : Option String := none
  access : AccessContext
  idempotencyKey : Option String
  body : Json := .null

/-- The tenant the user acts for. -/
def AuthenticatedRequest.tenant (req : AuthenticatedRequest) : Option String :=
  resolveTenantIdForWrite ⟨false, some req.access⟩

def idempotentRoutes : Routes AuthenticatedRequest String where
  scopeKey req := req.route.options.scopeKey req.idempotencyKey req.body
  isPost _ := true

/-- No scope continues another one. -/
theorem route_of_scopedKey {route route' : IdempotentRoute} {clientKey clientKey' : String}
    (h : buildScopedIdempotencyKey route.scope clientKey =
      buildScopedIdempotencyKey route'.scope clientKey') : route = route' := by
  have htext := congrArg String.toList h
  cases route <;> cases route' <;> first
    | rfl
    | simp [buildScopedIdempotencyKey, IdempotentRoute.scope] at htext

/-- The key of a request that has one. -/
theorem scopedKey_of_receive {req : AuthenticatedRequest} {key : String} {Body T : Type}
    (h : (idempotentRoutes.receive req : Request AuthenticatedRequest String Body T).key = some key) :
    ∃ clientKey, key = buildScopedIdempotencyKey req.route.scope clientKey := by
  unfold Routes.receive at h
  split at h
  · rename_i found hfound
    cases h
    simp only [idempotentRoutes, IdempotentOptions.scopeKey] at hfound
    split at hfound
    · rename_i clientKey _
      cases hfound
      exact ⟨clientKey, rfl⟩
    · split at hfound <;> cases hfound
  · cases h
  · cases h

/-! ### Whose response a request gets -/

section Replays

variable {Body H A T : Type} {service : Service AuthenticatedRequest Body H A T} {init : H → Prop}

/-- The requests are of one tenant and one path parameter. -/
def SameTarget (req req' : AuthenticatedRequest) : Prop :=
  req.tenant = req'.tenant ∧ req.id = req'.id

instance : DecidableRel SameTarget := fun req req' =>
  inferInstanceAs (Decidable (req.tenant = req'.tenant ∧ req.id = req'.id))

/-- A request that arrives has the tenant and the path parameter of the requests of its
scoped key that are in play. -/
def OneTarget (s : State AuthenticatedRequest String Body H T)
    (a : Action AuthenticatedRequest String A) : Prop :=
  ArrivesBeside idempotentRoutes SameTarget s a

instance (s : State AuthenticatedRequest String Body H T)
    (a : Action AuthenticatedRequest String A) : Decidable (OneTarget s a) :=
  inferInstanceAs (Decidable (ArrivesBeside idempotentRoutes SameTarget s a))

/-- Every replay repeats what another request of the same tenant, route and path
parameter has been answered when it was processed. -/
def OwnResponses (service : Service AuthenticatedRequest Body H A T)
    (s : State AuthenticatedRequest String Body H T) : Prop :=
  ∀ (i : Nat) (r : Request AuthenticatedRequest String Body T) statusCode body,
    s.requests[i]? = some r → r.phase = .done (.replayed statusCode body) →
    ∃ (j : Nat) (writer : Request AuthenticatedRequest String Body T) (response : Response Body),
      j ≠ i ∧ s.requests[j]? = some writer ∧ writer.Returned service s.service response ∧
        isSuccess response.statusCode ∧ response.statusCode = statusCode ∧ response.body = body ∧
        writer.req.tenant = r.req.tenant ∧ writer.req.route = r.req.route ∧
        writer.req.id = r.req.id

/-- **Responses stay with their tenant and target** in the runs in which no request arrives
with the scoped key of a request in play of another tenant or path parameter. -/
theorem own_responses (service : Service AuthenticatedRequest Body H A T) (init : H → Prop)
    {s : State AuthenticatedRequest String Body H T}
    (h : (machine idempotentRoutes service init).ReachableBy OneTarget s) :
    OwnResponses service s := by
  intro i r statusCode body hr hphase
  have hreplays : s.ReplaysWhere service SameTarget :=
    replaysWhere_of_arrivals (fun _ _ hsame => ⟨hsame.1.symm, hsame.2.symm⟩) (fun _ _ hok => hok) h
  have hkeys : ∀ (i : Nat) (r : Request AuthenticatedRequest String Body T) (key : String),
      s.requests[i]? = some r → r.key = some key →
      ∃ clientKey, key = buildScopedIdempotencyKey r.req.route.scope clientKey := by
    intro i r key hr hkey
    obtain ⟨-, hreceived⟩ := received_of_reachable (D := fun _ => True) (fun _ _ _ => trivial) h i r hr
    exact scopedKey_of_receive (hreceived.symm.trans hkey)
  obtain ⟨key, j, _, hkey, hne, ⟨writer, response, hwriter, rfl, hwriterKey, hreturned, hresponse⟩,
    htenant, hid⟩ := hreplays i r statusCode body hr hphase
  obtain ⟨clientKey, rfl⟩ := hkeys i r key hr hkey
  obtain ⟨clientKey', hsame⟩ := hkeys j writer _ hwriter hwriterKey
  exact ⟨j, writer, response, hne, hwriter, hreturned, hresponse.1, hresponse.2.1, hresponse.2.2,
    htenant.symm, (route_of_scopedKey hsame).symm, hid.symm⟩

end Replays

/-! ### Two requests of one key -/

/-- A user of one tenant. -/
def userOf (tenantId : String) : AccessContext where
  tenantIds := [tenantId]
  activeTenantId := none
  dataScope := .organization

/-- `POST /memberships/:id/adjust-lessons` -/
def adjustRequest (tenantId id : String) : AuthenticatedRequest where
  route := .adjustLessons
  id := some id
  access := userOf tenantId
  idempotencyKey := some "key-0001"

/-- The first request is processed, then the second one arrives. -/
def oneAfterAnother (first second : AuthenticatedRequest) :
    List (Action AuthenticatedRequest String (Nat × Outcome String)) :=
  [.arrive first, .run 0, .run 0, .service (0, .returned (.created "card")),
    .run 0, .run 0, .arrive second, .run 1, .run 1]

def untouchedRedis : State AuthenticatedRequest String String (List (Option (Outcome String))) Nat where
  redis _ := none
  requests := []
  service := []

theorem untouchedRedis_init :
    (machine idempotentRoutes (anyHandlers AuthenticatedRequest String) (· = [])).init untouchedRedis :=
  ⟨fun _ => rfl, rfl, rfl⟩

theorem own_responses_retry :
    ∃ s, (machine idempotentRoutes (anyHandlers AuthenticatedRequest String) (· = [])).exec
        untouchedRedis (oneAfterAnother (adjustRequest "t1" "m1") (adjustRequest "t1" "m1")) = some s ∧
      s.requests.map Request.phase = [.done (.executed { statusCode := 201, body := "card" }),
        .done (.replayed 201 "card")] ∧
      OwnResponses (anyHandlers AuthenticatedRequest String) s := by
  have hrun : ((machine idempotentRoutes (anyHandlers AuthenticatedRequest String) (· = [])).exec
      untouchedRedis (oneAfterAnother (adjustRequest "t1" "m1") (adjustRequest "t1" "m1"))).map
        (fun s => s.requests.map Request.phase) =
      some [.done (.executed { statusCode := 201, body := "card" }), .done (.replayed 201 "card")] := by
    decide +kernel
  obtain ⟨s, hexec, hphases⟩ := Option.map_eq_some_iff.mp hrun
  exact ⟨s, hexec, hphases, own_responses _ _ (Machine.reachableBy_exec
    (Machine.reachableBy_init untouchedRedis_init) (by decide +kernel) hexec)⟩

/-- A user of tenant t2 gets the response to a user of tenant t1. -/
theorem response_of_another_tenant :
    ¬ ∀ s, (machine idempotentRoutes (anyHandlers AuthenticatedRequest String) (· = [])).Reachable s →
      OwnResponses (anyHandlers AuthenticatedRequest String) s := by
  intro hclaim
  have hrun : ((machine idempotentRoutes (anyHandlers AuthenticatedRequest String) (· = [])).exec
      untouchedRedis (oneAfterAnother (adjustRequest "t1" "m1") (adjustRequest "t2" "m2"))).map
        (fun s => s.requests.map fun r => (r.phase, r.req.tenant)) =
      some [(.done (.executed { statusCode := 201, body := "card" }), some "t1"),
        (.done (.replayed 201 "card"), some "t2")] := by
    decide +kernel
  obtain ⟨s, hexec, hrequests⟩ := Option.map_eq_some_iff.mp hrun
  have hreach := Machine.reachableBy_exec (Machine.reachableBy_init untouchedRedis_init)
    (Machine.admits_true _ _) hexec
  have hat : ∀ (j : Nat) (r : Request AuthenticatedRequest String String Nat),
      s.requests[j]? = some r →
      (s.requests.map fun r => (r.phase, r.req.tenant))[j]? = some (r.phase, r.req.tenant) := by
    intro j r hr
    rw [List.getElem?_map, hr]
    rfl
  have hsecond : (s.requests.map fun r => (r.phase, r.req.tenant))[1]? =
      some (.done (.replayed 201 "card"), some "t2") := by
    rw [hrequests]
    rfl
  obtain ⟨r, hr, hvalues⟩ := Option.map_eq_some_iff.mp (List.getElem?_map.symm.trans hsecond)
  obtain ⟨hphase, htenant⟩ := Prod.mk.inj hvalues
  obtain ⟨j, writer, _, hne, hwriter, _, _, _, _, hsame, _⟩ := hclaim s hreach 1 r 201 "card" hr hphase
  -- The only other request is of tenant t1.
  have hother := hat j writer hwriter
  rw [hsame, htenant, hrequests] at hother
  match j, hne with
  | 0, _ => simp at hother
  | j + 2, _ => cases hother

end MibServer.Idempotency
