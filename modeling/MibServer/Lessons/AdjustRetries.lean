import MibServer.Idempotency.Retention
import MibServer.Idempotency.Targets
import MibServer.Lessons.Contract

/-!
`POST /memberships/:id/adjust-lessons` and its retries: how often one `Idempotency-Key`
adjusts a card.

An adjustment is one commit of its call, which returns with it. Its ledger row has a
random `businessKey`, so nothing in the database tells a retry from a new adjustment, and
only the record in Redis keeps a retry from executing.
-/

namespace MibServer.Lessons

open MibServer.Lib MibServer.Prisma MibServer.Idempotency MibServer.Tenancy

/-! ### The route -/

structure AdjustRequest where
  ambient : Ambient
  /-- The path parameter `:id`. -/
  id : String
  idempotencyKey : Option String
  /-- What the validation pipe makes of the body. -/
  dto : Except HttpException AdjustLessonsDto

def adjustRoutes : Routes AdjustRequest String where
  scopeKey req := IdempotentRoute.adjustLessons.options.scopeKey req.idempotencyKey .null
  isPost _ := true

def adjustEndpoint : Endpoint AdjustRequest LessonCall LessonResult where
  call req := req.dto.map (LessonCall.adjustLessons req.ambient req.id)
  respond := .created
  respond_body _ := rfl

def adjustService (outside : Geofence) :
    Service AdjustRequest LessonResult LessonWorld LessonAction Handler :=
  adjustEndpoint.service (lessonSystem outside)

abbrev AdjustState := State AdjustRequest String LessonResult LessonWorld Handler

abbrev AdjustAction := Idempotency.Action AdjustRequest String LessonAction

/-- Any number of requests, from an empty Redis and a database in `init`; other calls go
on meanwhile. -/
def adjustMachine (outside : Geofence) (init : LessonDb → Prop) : Machine AdjustState AdjustAction :=
  machine adjustRoutes (adjustService outside) ((lessonSystem outside).machine init).init

/-! ### The one commit of an adjustment -/

/-- One row of this adjustment in the ledger, one change of the balance. -/
def BookedOnce (id : String) (dto : AdjustLessonsDto) (db db' : LessonDb) : Prop :=
  ∃ card row, Booked db db' card row 1 ∧ row.membershipId = id ∧ row.delta = dto.delta

/-- A commit of an adjustment books it and is the last of its call. -/
def AdjustsAtEnd (m : LessonCommit) : Prop :=
  ∀ ambient id dto, m.call = .adjustLessons ambient id dto →
    BookedOnce id dto m.base m.work ∧ ∃ result, m.rest = .ret result

def adjustContract : Contract LessonDb LessonCall (LessonProg LessonResult) :=
  { ledgerContract fun _ => True with post := AdjustsAtEnd }

theorem adjusts_at_end (outside : Geofence) (c : LessonCall) :
    (c.program outside).Safe lessonClient.engine adjustContract c none := by
  have hother : (∀ ambient id dto, c ≠ .adjustLessons ambient id dto) →
      (c.program outside).Safe lessonClient.engine adjustContract c none := by
    intro hne
    refine Prog.Safe.mono (program_safe outside c).1 fun m hcall _ ambient id dto hm => ?_
    exact absurd (hcall.symm.trans hm) (hne ambient id dto)
  cases c with
  | checkIn ambient dto => exact hother fun _ _ _ h => (by cases h)
  | create ambient dto => exact hother fun _ _ _ h => (by cases h)
  | update ambient id dto => exact hother fun _ _ _ h => (by cases h)
  | adjustLessons ambient id dto =>
      simp only [LessonCall.program, adjustLessons]
      split
      · trivial
      · rename_i hdelta
        refine Prog.Safe.transaction fun snapshot base _ _ _ => ?_
        refine (adjustLessonsTx_yields hdelta snapshot base).mono ?_
        rintro result db' ⟨⟨card, seen, uuid, -, -, -, -, hbooked⟩, -⟩
        refine ⟨trivial, trivial, fun ambient' id' dto' hcall => ?_⟩
        cases hcall
        exact ⟨⟨card, _, hbooked, rfl, rfl⟩, result, rfl⟩

/-- Every state the calls reach is one of the contract. -/
theorem adjustContract_of_reachable {outside : Geofence} {init : LessonDb → Prop} {w : LessonWorld}
    (h : ((lessonSystem outside).machine init).Reachable w) :
    w.Inv lessonClient.engine adjustContract :=
  (System.reachable_contract (S := lessonSystem outside) (K := adjustContract)
    (J := fun _ => True) (fun c _ => adjusts_at_end outside c)
    (fun _ _ => trivial) (fun _ a _ => by cases a <;> trivial) h (fun _ _ => trivial)
    fun _ _ _ _ _ _ _ => trivial).1

/-! ### Adjustments of a key -/

/-- The adjustment of the request has been committed. -/
def AdjustCommitted (outside : Geofence) (s : AdjustState)
    (r : Request AdjustRequest String LessonResult Handler) : Prop :=
  ∃ response, r.Returned (adjustService outside) s.service response

/-- What the retries of one key do to the ledger. -/
structure AdjustsOnce (outside : Geofence) (s : AdjustState) (key : String) : Prop where
  /-- At most one request of the key has had its adjustment committed. -/
  once : ∀ i j r r', s.Has key i r → s.Has key j r' → AdjustCommitted outside s r →
    AdjustCommitted outside s r' → i = j
  /-- A step that changes the ledger is a commit; where it is one of a request of the
  key, it commits the adjustment of that request, one row and one change. -/
  books : ∀ a s', s.step adjustRoutes (adjustService outside) a = some s' →
    SameLedger s.service.committed s'.service.committed ∨
      ∃ t env, a = .service (.run t env) ∧ ∀ i r, s.Has key i r → r.handler = some (.ok t) →
        ¬ AdjustCommitted outside s r ∧ AdjustCommitted outside s' r ∧ ∃ dto, r.req.dto = .ok dto ∧
          BookedOnce r.req.id dto s.service.committed s'.service.committed

section Steps

variable {outside : Geofence} {init : LessonDb → Prop} {s s' : AdjustState} {a : AdjustAction}

/-- What a step of a call does to the ledger. -/
theorem lesson_step {w w' : LessonWorld} {b : LessonAction}
    (hw : ((lessonSystem outside).machine init).Reachable w)
    (hstep : w.step (lessonSystem outside) b = some w') :
    w'.committed = w.committed ∨ ∃ t env th, b = .run t env ∧ w.threads[t]? = some th ∧
      th.result? = none ∧ ∀ ambient id dto, th.call = .adjustLessons ambient id dto →
        BookedOnce id dto w.committed w'.committed ∧
          ∃ th' result, w'.threads[t]? = some th' ∧ th'.result? = some result := by
  obtain ⟨-, heffect⟩ := step_contract (K := adjustContract) (fun c _ => adjusts_at_end outside c)
    (adjustContract_of_reachable hw) (by cases b <;> trivial) hstep
  cases heffect with
  | quiet committed _ => exact Or.inl committed
  | commit t env th rest action found _ threads commits =>
      refine Or.inr ⟨t, env, th, action, found, ?_, fun ambient id dto hcall => ?_⟩
      · by_contra hdone
        subst action
        have hrun : th.run lessonClient.engine w.committed env = none :=
          Thread.run_finished (Option.ne_none_iff_isSome.mp hdone)
        simp [World.step, found, lessonSystem, hrun] at hstep
      · obtain ⟨hbooked, result, hrest⟩ := commits.post ambient id dto hcall
        refine ⟨hbooked, { th with prog := rest, tx := none }, result, ?_, ?_⟩
        · rw [threads]
          exact List.getElem?_set_self (List.getElem?_eq_some_iff.mp found).1
        · have hrest' : rest = .ret result := hrest
          subst hrest'
          rfl

/-- **The steps of the ledger**, in every run. -/
theorem books_of_reachable {ok : AdjustState → AdjustAction → Prop}
    (h : (adjustMachine outside init).ReachableBy ok s) (key : String)
    (hstep : s.step adjustRoutes (adjustService outside) a = some s') :
    SameLedger s.service.committed s'.service.committed ∨
      ∃ t env, a = .service (.run t env) ∧ ∀ i r, s.Has key i r → r.handler = some (.ok t) →
        ¬ AdjustCommitted outside s r ∧ AdjustCommitted outside s' r ∧ ∃ dto, r.req.dto = .ok dto ∧
          BookedOnce r.req.id dto s.service.committed s'.service.committed := by
  have hthreads := threaded_of_reachable h
  have hsame : s'.service.committed = s.service.committed →
      SameLedger s.service.committed s'.service.committed :=
    fun heq => heq ▸ .refl _
  cases State.step_cases hstep with
  | arrived _ _ after | commanded _ _ _ _ _ _ _ _ _ after | failed _ _ _ _ _ _ _ _ _ _ after
  | settled _ _ _ _ _ _ _ _ _ after | gaveUp _ _ _ _ _ after | expired _ _ after =>
      exact Or.inl (hsame (by subst after; rfl))
  | started i r _ _ _ after =>
      subst after
      exact Or.inl (hsame (Endpoint.start_committed (lessonSystem outside) adjustEndpoint _ _))
  | served b w action step after =>
      subst after action
      rcases lesson_step hthreads.world step with hquiet | ⟨t, env, th, rfl, hth, hrunning, hcommit⟩
      · exact Or.inl (hsame hquiet)
      · refine Or.inr ⟨t, env, rfl, fun i r hi hhandler => ?_⟩
        obtain ⟨c, th₀, hc, hth₀, hcall⟩ := hthreads.handler i r t hi.1 hhandler
        cases hth.symm.trans hth₀
        obtain ⟨dto, hdto, rfl⟩ : ∃ dto, r.req.dto = .ok dto ∧
            LessonCall.adjustLessons r.req.ambient r.req.id dto = c := by
          cases hdto : r.req.dto with
          | error e => simp [adjustEndpoint, hdto, Except.map] at hc
          | ok dto => exact ⟨dto, rfl, by simpa [adjustEndpoint, hdto, Except.map] using hc⟩
        obtain ⟨hbooked, th', result, hth', hresult⟩ := hcommit r.req.ambient r.req.id dto hcall
        refine ⟨?_, ⟨adjustEndpoint.respond result, .ok t, hhandler, ?_⟩, dto, hdto, hbooked⟩
        · rintro ⟨response, handler, hhandler', houtcome⟩
          cases hhandler.symm.trans hhandler'
          have hreturned : adjustEndpoint.outcome s.service (.ok t) = some (.returned response) :=
            houtcome
          obtain ⟨t', th', heq, hth', hresult', -⟩ := Endpoint.outcome_returned hreturned
          cases heq
          cases hth.symm.trans hth'
          simp [hrunning] at hresult'
        · simp [adjustService, Endpoint.service, Endpoint.outcome, hth', Endpoint.threadOutcome, hresult]

end Steps

/-- **One key adjusts once**, in the runs that never remove the record of a key while the
call of its writer may still return, or has. -/
theorem adjusts_once (outside : Geofence) (init : LessonDb → Prop) {s : AdjustState}
    (h : (adjustMachine outside init).ReachableBy (KeepsLive (adjustService outside)) s)
    (key : String) : AdjustsOnce outside s key := by
  have hretained := retained_of_reachable
    (Endpoint.throwsForGood (lessonSystem outside) adjustEndpoint) h
  constructor
  · rintro i j r r' hi hj ⟨response, hr⟩ ⟨response', hr'⟩
    exact hretained.unique hi hj (Request.live_of_returned hr) (Request.live_of_returned hr')
  · exact fun a s' hstep => books_of_reachable h key hstep

/-! ### A response lost on its way to Redis -/

def adjustByFive : AdjustRequest where
  ambient := administrator
  id := "m1"
  idempotencyKey := some "key-0001"
  dto := .ok { delta := 5, reason := "makeup" }

/-- Request `i` starts its handler, thread `i`, which commits. -/
def executes (i : Nat) (uuid : String) : List AdjustAction :=
  [.arrive adjustByFive, .run i, .run i] ++
    List.replicate 7 (.service (.run i { random := uuid })) ++ [.run i]

def unadjusted : AdjustState where
  redis _ := none
  requests := []
  service := { committed := oneCardDb }

theorem unadjusted_init : (adjustMachine nowhere (· = oneCardDb)).init unadjusted :=
  ⟨fun _ => rfl, rfl, rfl, rfl⟩

/-- The adjustment is stored, and the retry finds it. -/
def executedThenRetried : List AdjustAction :=
  executes 0 "uuid-1" ++ [.run 0, .arrive adjustByFive, .run 1, .run 1]

/-- The `SET` of the adjustment fails and its marker is deleted; the retry executes. -/
def executedTwice : List AdjustAction :=
  executes 0 "uuid-1" ++ [.fail 0 false, .run 0] ++ executes 1 "uuid-2"

/-- The handler of the request has returned. -/
def hasReturned (s : AdjustState) (r : Request AdjustRequest String LessonResult Handler) : Bool :=
  r.handler.any fun handler => (adjustEndpoint.outcome s.service handler).any fun
    | .returned _ => true
    | .threw _ => false

theorem adjustCommitted_of_hasReturned {s : AdjustState}
    {r : Request AdjustRequest String LessonResult Handler} (h : hasReturned s r = true) :
    AdjustCommitted nowhere s r := by
  obtain ⟨handler, hhandler, hreturned⟩ := (Option.any_eq_true _ _).mp h
  obtain ⟨outcome, houtcome, hflag⟩ := (Option.any_eq_true _ _).mp hreturned
  cases outcome with
  | returned response => exact ⟨response, handler, hhandler, houtcome⟩
  | threw e => cases hflag

/-- The balance, the ledger, and the requests with their keys, told if they have returned. -/
def AdjustState.summary (s : AdjustState) : List Int × List String × List (Option String × Bool) :=
  (s.service.committed.cards.rows.map MembershipCard.remainingLessons,
    s.service.committed.transactions.rows.map LessonTransaction.businessKey,
    s.requests.map fun r => (r.key, hasReturned s r))

/-- The key of all these requests. -/
def adjustKey : String := "membership:adjust-lessons:key-0001"

theorem adjusts_once_retry :
    ∃ s, (adjustMachine nowhere (· = oneCardDb)).exec unadjusted executedThenRetried = some s ∧
      s.summary = ([15], ["adjust:m1:uuid-1"], [(some adjustKey, true), (some adjustKey, false)]) ∧
      AdjustsOnce nowhere s adjustKey := by
  have hrun : ((adjustMachine nowhere (· = oneCardDb)).exec unadjusted executedThenRetried).map
      AdjustState.summary =
      some ([15], ["adjust:m1:uuid-1"], [(some adjustKey, true), (some adjustKey, false)]) := by
    decide +kernel
  obtain ⟨s, hexec, hsummary⟩ := Option.map_eq_some_iff.mp hrun
  refine ⟨s, hexec, hsummary, ?_⟩
  exact adjusts_once nowhere (· = oneCardDb) (Machine.reachableBy_exec
    (Machine.reachableBy_init unadjusted_init) (by decide +kernel) hexec) adjustKey

/-- Of the records, only the markers expire. -/
def MarkersExpire (s : AdjustState) : AdjustAction → Prop
  | .expire key => ∀ e ∈ s.redis key, e.record = .processing
  | _ => True

/-- Two requests of one key have both adjusted the card. -/
theorem adjusted_twice :
    ∃ s, (adjustMachine nowhere (· = oneCardDb)).ReachableBy MarkersExpire s ∧
      s.summary = ([20], ["adjust:m1:uuid-1", "adjust:m1:uuid-2"],
        [(some adjustKey, true), (some adjustKey, true)]) ∧
      ¬ AdjustsOnce nowhere s adjustKey := by
  have hrun : ((adjustMachine nowhere (· = oneCardDb)).exec unadjusted executedTwice).map
      AdjustState.summary = some ([20], ["adjust:m1:uuid-1", "adjust:m1:uuid-2"],
        [(some adjustKey, true), (some adjustKey, true)]) := by
    decide +kernel
  obtain ⟨s, hexec, hsummary⟩ := Option.map_eq_some_iff.mp hrun
  -- Nothing expires here.
  have hadmits :
      (adjustMachine nowhere (· = oneCardDb)).Admits MarkersExpire unadjusted executedTwice := by
    refine Machine.admits_of_forall fun a ha s => ?_
    cases a with
    | expire key => simp [executedTwice, executes] at ha
    | _ => trivial
  refine ⟨s, Machine.reachableBy_exec (Machine.reachableBy_init unadjusted_init) hadmits hexec,
    hsummary, fun hclaim => ?_⟩
  have hrequests : s.requests.map (fun r => (r.key, hasReturned s r)) =
      [(some adjustKey, true), (some adjustKey, true)] :=
    congrArg (fun summary => summary.2.2) hsummary
  have hcommitted : ∀ j < 2, ∃ r, s.Has adjustKey j r ∧ AdjustCommitted nowhere s r := by
    intro j hj
    have hat : (s.requests.map fun r => (r.key, hasReturned s r))[j]? = some (some adjustKey, true) := by
      rw [hrequests]
      match j, hj with
      | 0, _ | 1, _ => rfl
    obtain ⟨r, hr, heq⟩ := Option.map_eq_some_iff.mp (List.getElem?_map.symm.trans hat)
    obtain ⟨hkey, hreturned⟩ := Prod.mk.inj heq
    exact ⟨r, ⟨hr, hkey⟩, adjustCommitted_of_hasReturned hreturned⟩
  obtain ⟨r, hr, hfirst⟩ := hcommitted 0 (by decide)
  obtain ⟨r', hr', hsecond⟩ := hcommitted 1 (by decide)
  exact absurd (hclaim.once 0 1 r r' hr hr' hfirst hsecond) (by decide)

end MibServer.Lessons
