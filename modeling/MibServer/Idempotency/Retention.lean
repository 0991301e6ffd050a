import MibServer.Idempotency.Handlers
import MibServer.Idempotency.Ownership

/-!
How often the handlers of one key may return, whatever expires and whatever fails.

The entry of a key is all that keeps a retry from executing again. It does as long as it
stays while the call of its writer may still return, or has (`KeepsLive`): then every
request in that position finds its own entry under its key, so two of them are one
(`Retained`).
-/

namespace MibServer.Idempotency

open MibServer.Lib

section Retention

variable {Req Key Body H A T : Type}

/-! ### Live requests -/

/-- The handler has not thrown. -/
def notThrown : Option (Outcome Body) → Bool
  | some (.threw _) => false
  | _ => true

/-- The handler of the request is about to start, may still return, or has. -/
def Request.live (service : Service Req Body H A T) (h : H) (r : Request Req Key Body T) : Bool :=
  match r.handler with
  | some t => notThrown (service.outcome h t)
  | none =>
      match r.phase with
      | .proceed => true
      | _ => false

theorem notThrown_eq_false {outcome : Option (Outcome Body)} :
    notThrown outcome = false ↔ ∃ e, outcome = some (.threw e) := by
  rcases outcome with _ | ⟨response⟩ | ⟨e⟩ <;> simp [notThrown]

/-- A handler that has thrown does not return any more. -/
structure Service.ThrowsForGood (service : Service Req Body H A T) : Prop where
  start : ∀ {h t} req, notThrown (service.outcome h t) = false →
    notThrown (service.outcome (service.start h req).1 t) = false
  step : ∀ {h h' a t}, service.step h a = some h' → notThrown (service.outcome h t) = false →
    notThrown (service.outcome h' t) = false

/-- The threads of a system throw for good. -/
theorem Endpoint.throwsForGood {σ Q : Type} {R : Q → Type} {Env C : Type} [∀ q, DecidableEq (R q)]
    (S : System σ Q R Env HttpException Body C) (endpoint : Endpoint Req C Body) :
    (endpoint.service S).ThrowsForGood := by
  have hstep : ∀ {w w' : World σ Q R Env HttpException Body C} {a : Lib.Action C Env}
      {handler : Handler}, w.step S a = some w' → notThrown (endpoint.outcome w handler) = false →
      notThrown (endpoint.outcome w' handler) = false := by
    intro w w' a handler hstep h
    cases handler with
    | error e => rfl
    | ok t =>
        obtain ⟨e, houtcome⟩ := notThrown_eq_false.mp h
        obtain ⟨th, hth, hthrew⟩ := Option.bind_eq_some_iff.mp houtcome
        obtain ⟨th', e', hth', hprog⟩ := World.step_thrown hstep hth (endpoint.threadOutcome_threw hthrew)
        simp [Endpoint.outcome, Endpoint.threadOutcome, Thread.result?,
          Prog.result?, hth', hprog, notThrown]
  constructor
  · intro w handler req h
    rcases Endpoint.start_world S endpoint w req with hsame | ⟨c, _, hspawn⟩
    · exact (congrArg (fun w => notThrown (endpoint.outcome w handler)) hsame).trans h
    · exact hstep hspawn h
  · exact hstep

theorem Request.live_of_returned {service : Service Req Body H A T} {h : H}
    {r : Request Req Key Body T} {response : Response Body} (hreturned : r.Returned service h response) :
    r.live service h = true := by
  obtain ⟨t, ht, houtcome⟩ := hreturned
  simp [live, ht, houtcome, notThrown]

/-- A request with a handler is live whatever phase it is in. -/
theorem Request.live_phase {service : Service Req Body H A T} {h : H} {r : Request Req Key Body T}
    {phase : Phase Body} (hphase : phase ≠ .proceed)
    (hlive : Request.live service h { r with phase } = true) : r.live service h = true := by
  unfold live at *
  split at hlive
  · rename_i t ht
    simpa [show r.handler = some t from ht] using hlive
  · split at hlive
    · rename_i hproceed
      exact absurd hproceed hphase
    · cases hlive

/-! ### Entries that stay -/

/-- At a command that deletes the entry of the key. -/
def Phase.deletes : Phase Body → Bool
  | .discarding _ | .failing _ => true
  | _ => false

/-- The key whose entry an action removes. -/
def State.deletes (s : State Req Key Body H T) : Action Req Key A → Option Key
  | .expire key => some key
  | .run i | .fail i true =>
      s.requests[i]?.bind fun r => if r.phase.deletes then r.key else none
  | _ => none

/-- No step removes the entry of a key while its writer is live. -/
def KeepsLive (service : Service Req Body H A T) (s : State Req Key Body H T)
    (a : Action Req Key A) : Prop :=
  ∀ key ∈ s.deletes a, ∀ e ∈ s.redis key, ∀ r ∈ s.requests[e.creator]?,
    r.live service s.service = false

instance (service : Service Req Body H A T) (s : State Req Key Body H T) (a : Action Req Key A) :
    Decidable (KeepsLive service s a) :=
  inferInstanceAs (Decidable (∀ key ∈ s.deletes a, ∀ e ∈ s.redis key, _))

/-- A live request finds its own entry under its key. -/
def State.Retained (service : Service Req Body H A T) (s : State Req Key Body H T) : Prop :=
  ∀ (i : Nat) (r : Request Req Key Body T) key, s.Has key i r → r.live service s.service = true →
    ∃ record, s.redis key = some ⟨record, i⟩

theorem State.Retained.unique {service : Service Req Body H A T} {s : State Req Key Body H T}
    (hs : s.Retained service) {key : Key} {i j : Nat} {r r' : Request Req Key Body T}
    (hi : s.Has key i r) (hj : s.Has key j r') (hr : r.live service s.service = true)
    (hr' : r'.live service s.service = true) : i = j := by
  obtain ⟨record, hrecord⟩ := hs i r key hi hr
  obtain ⟨record', hrecord'⟩ := hs j r' key hj hr'
  exact congrArg Entry.creator (Option.some.inj (hrecord.symm.trans hrecord'))

/-! ### One Redis command -/

/-- What a command leaves of the entry of its key. -/
inductive Phase.Leaves (i : Nat) (phase phase' : Phase Body) (entry entry' : Option (Entry Body)) :
    Prop where
  | same (after : phase' ≠ .proceed) (same : entry' = entry)
  | marks (free : entry = none) (marker : entry' = some ⟨.processing, i⟩)
  | completes (response : Response Body) (before : phase = .completing response)
      (after : phase' ≠ .proceed) (record : ∃ record, entry' = some ⟨record, i⟩)
  | deletes (before : phase.deletes = true) (after : phase' ≠ .proceed)

theorem Phase.inProgress_ne_proceed (again : Bool) :
    (Phase.inProgress again : Phase Body) ≠ .proceed := by
  cases again <;> simp [Phase.inProgress]

theorem StoredRecord.found_ne_proceed {record : StoredRecord Body} {otherwise : Phase Body}
    (h : otherwise ≠ .proceed) : record.found otherwise ≠ .proceed := by
  cases record with
  | processing => exact h
  | completed _ _ => simp [StoredRecord.found]

theorem Phase.command_leaves {isPost : Bool} {i : Nat} {phase phase' : Phase Body}
    {entry entry' : Option (Entry Body)}
    (h : phase.command isPost i entry = some (phase', entry')) :
    Phase.Leaves i phase phase' entry entry' := by
  cases phase with
  | begin again =>
      cases entry with
      | none => cases h; exact .marks rfl rfl
      | some e => cases h; exact .same (by simp) rfl
  | retry again =>
      cases entry with
      | none => cases h; exact .marks rfl rfl
      | some e => cases h; exact .same (Phase.inProgress_ne_proceed again) rfl
  | lookup again =>
      cases entry with
      | none => cases h; exact .same (by simp) rfl
      | some e =>
          cases h
          exact .same (StoredRecord.found_ne_proceed (Phase.inProgress_ne_proceed again)) rfl
  | waiting =>
      cases entry with
      | none => cases h; exact .same (by simp) rfl
      | some e => cases h; exact .same (StoredRecord.found_ne_proceed (by simp)) rfl
  | completing response => cases h; exact .completes response rfl (by simp) ⟨_, rfl⟩
  | discarding response => cases h; exact .deletes rfl (by simp)
  | failing e => cases h; exact .deletes rfl (by simp)
  | proceed | running | done _ => cases h

theorem Phase.failed_ne_proceed (phase : Phase Body) : phase.failed ≠ .proceed := by
  cases phase <;> simp [Phase.failed]

/-! ### Every step -/

variable [DecidableEq Key] {routes : Routes Req Key} {service : Service Req Body H A T}
  {s s' : State Req Key Body H T}

/-- **A command that takes effect**, whatever the request makes of its reply. -/
theorem State.Retained.command (hs : s.Retained service) (hsourced : s.Sourced service) {i : Nat}
    {r : Request Req Key Body T} {key : Key} {phase phase' : Phase Body}
    {entry : Option (Entry Body)} (hi : s.Has key i r)
    (hleaves : Phase.Leaves i r.phase phase (s.redis key) entry)
    (hphase : phase' = .proceed → phase = .proceed)
    (hkeeps : r.phase.deletes = true → ∀ e ∈ s.redis key, ∀ w ∈ s.requests[e.creator]?,
      w.live service s.service = false) :
    (s.move i r key phase' entry).Retained service := by
  have hentry : (s.move i r key phase' entry).redis key = entry := Function.update_self ..
  intro j rj key' hj hlive
  by_cases hkey : key' = key
  · subst hkey
    rw [hentry]
    -- A request that was live before has had its entry under the key.
    have hbefore : ∀ (rj₀ : Request Req Key Body T), s.Has key' j rj₀ →
        rj₀.live service s.service = true → ∃ record, entry = some ⟨record, j⟩ := by
      intro rj₀ hj₀ hlive₀
      obtain ⟨record, hrecord⟩ := hs j rj₀ key' hj₀ hlive₀
      cases hleaves with
      | same _ hsame => exact ⟨record, hsame.trans hrecord⟩
      | marks hfree _ => simp [hfree] at hrecord
      | completes response before _ hnew =>
          have hreturned := hsourced.responded i r response hi.1 (by rw [before]; rfl)
          rw [hs.unique hj₀ hi hlive₀ (Request.live_of_returned hreturned)]
          exact hnew
      | deletes before _ =>
          have hdead := hkeeps before _ hrecord rj₀ hj₀.1
          simp [hdead] at hlive₀
    rcases State.has_set rfl hj with ⟨rfl, hkey', rfl⟩ | ⟨_, hold⟩
    · by_cases hproceed : phase' = .proceed
      · cases hleaves with
        | same after _ => exact absurd (hphase hproceed) after
        | marks _ hmarker => exact ⟨_, hmarker⟩
        | completes _ _ after _ => exact absurd (hphase hproceed) after
        | deletes _ after => exact absurd (hphase hproceed) after
      · exact hbefore r hi (Request.live_phase hproceed hlive)
    · exact hbefore rj hold hlive
  · have hsame : (s.move i r key phase' entry).redis key' = s.redis key' :=
      Function.update_of_ne hkey _ _
    rw [hsame]
    rcases State.has_set rfl hj with ⟨rfl, hkey', rfl⟩ | ⟨_, hold⟩
    · exact absurd (Option.some.inj (hkey'.symm.trans hi.2)) hkey
    · exact hs j rj key' hold hlive

omit [DecidableEq Key] in
/-- A step of request `i` beside Redis. -/
theorem State.Retained.move (hs : s.Retained service) {i : Nat} {r : Request Req Key Body T}
    {phase : Phase Body} {handler : Option T} (hr : s.requests[i]? = some r)
    (hrequests : s'.requests = s.requests.set i { r with phase, handler })
    (hredis : s'.redis = s.redis)
    (hself : Request.live service s'.service { r with phase, handler } = true →
      r.live service s.service = true)
    (hothers : ∀ rj : Request Req Key Body T, rj.live service s'.service = true →
      rj.live service s.service = true) : s'.Retained service := by
  intro j rj key hj hlive
  rw [hredis]
  rcases State.has_set hrequests hj with ⟨rfl, hkey, rfl⟩ | ⟨_, hold⟩
  · exact hs j r key ⟨hr, hkey⟩ (hself hlive)
  · exact hs j rj key hold (hothers rj hlive)

omit [DecidableEq Key] in
/-- What is live in a later state of the service was live before. -/
theorem Request.live_of_later {h h' : H}
    (hthrown : ∀ t, notThrown (service.outcome h t) = false → notThrown (service.outcome h' t) = false)
    {r : Request Req Key Body T} (hlive : r.live service h' = true) : r.live service h = true := by
  unfold live at *
  split at hlive
  · rename_i t ht
    by_contra hdead
    simp [hthrown t (Bool.eq_false_iff.mpr hdead)] at hlive
  · exact hlive

theorem State.Retained.step {a : Action Req Key A} (hgood : service.ThrowsForGood)
    (hs : s.Retained service) (hsourced : s.Sourced service) (ha : KeepsLive service s a)
    (h : State.Effect routes service s a s') : s'.Retained service := by
  cases h with
  | arrived req _ after =>
      subst after
      rintro j r key ⟨hj, hkey⟩ hlive
      rcases getElem?_concat_cases hj with hold | ⟨-, rfl⟩
      · exact hs j r key ⟨hold, hkey⟩ hlive
      · unfold Routes.receive at hkey hlive
        split at hkey <;> simp_all [Request.live]
  | commanded i r key phase entry action found hkey command after =>
      subst after action
      refine hs.command hsourced ⟨found, hkey⟩ (Phase.command_leaves command) id fun hdeletes => ?_
      exact ha key (by simp [State.deletes, found, hdeletes, hkey])
  | failed i applied r key phase entry action found hkey command after =>
      subst after action
      cases applied with
      | true =>
          refine hs.command hsourced ⟨found, hkey⟩ (Phase.command_leaves command)
            (fun hproceed => absurd hproceed (Phase.failed_ne_proceed _)) fun hdeletes => ?_
          exact ha key (by simp [State.deletes, found, hdeletes, hkey])
      | false =>
          exact hs.move found rfl (Function.update_eq_self key s.redis)
            (Request.live_phase (Phase.failed_ne_proceed _)) fun _ hlive => hlive
  | started i r action found phase after =>
      subst after
      have hnone : r.handler = none := hsourced.unstarted i r found (by rw [phase]; rfl)
      exact hs.move found rfl rfl (fun _ => by simp [Request.live, hnone, phase])
        fun _ => Request.live_of_later fun _ => hgood.start r.req
  | settled i r t outcome action found phase handler _ after =>
      subst after
      refine hs.move found rfl rfl (fun hlive => ?_) fun _ hlive => hlive
      simpa only [Request.live, State.become, handler] using hlive
  | gaveUp i r action found phase after =>
      subst after
      exact hs.move found rfl rfl (Request.live_phase (by simp))
        fun _ hlive => hlive
  | expired key action after =>
      subst after action
      intro j r key' hj hlive
      obtain ⟨record, hrecord⟩ := hs j r key' hj hlive
      by_cases hsame : key' = key
      · subst hsame
        have hdead := ha key' rfl _ hrecord r hj.1
        simp [hdead] at hlive
      · exact ⟨record, (Function.update_of_ne hsame _ _).trans hrecord⟩
  | served b h action step after =>
      subst after
      exact fun j r key hj hlive =>
        hs j r key hj (Request.live_of_later (fun _ => hgood.step step) hlive)

/-- **Live entries.** In the runs that never remove the entry of a live request, every
live request of a key has its entry there. -/
theorem retained_of_reachable (hgood : service.ThrowsForGood) {init : H → Prop}
    (h : (machine routes service init).ReachableBy (KeepsLive service) s) : s.Retained service := by
  refine h.induction ?_ fun s a s' hreach hs ha hstep =>
    hs.step hgood (sourced_of_reachable hreach) ha (State.step_cases hstep)
  rintro ⟨redis, requests, h⟩ ⟨-, rfl, -⟩
  exact fun _ _ _ h => (by cases h.1)

end Retention

end MibServer.Idempotency
