import MibServer.Idempotency.Provenance

/-!
Conditions on the requests that arrive.

A request is in play while it is under way, and after that as long as the completed record of
its key is its own. `ArrivesBeside P` asks of a request that arrives that `P` relates it to
those of its key that are in play. Then `P` relates every two requests of a key that are in
play together, and so every request that is answered from a record to the one it repeats.
-/

namespace MibServer.Idempotency

open MibServer.Lib

section Arrivals

variable {Req Key Body H A T : Type}

def Phase.isDone : Phase Body → Bool
  | .done _ => true
  | _ => false

/-- Request `j` is under way, or the completed record of its key is its own. -/
def State.inPlay (s : State Req Key Body H T) (j : Nat) (r : Request Req Key Body T) : Bool :=
  !r.phase.isDone ||
    (r.key.bind s.redis).any fun e => e.record.isCompleted && e.creator == j

/-- `P` relates a request that arrives to the requests of its key that are in play. -/
def ArrivesBeside (routes : Routes Req Key) (P : Req → Req → Prop) (s : State Req Key Body H T) :
    Action Req Key A → Prop
  | .arrive req => ∀ p ∈ s.requests.zipIdx,
      p.1.key = (routes.receive req : Request Req Key Body T).key → p.1.key.isSome →
        s.inPlay p.2 p.1 → P req p.1.req
  | _ => True

instance [DecidableEq Key] (routes : Routes Req Key) (P : Req → Req → Prop) [DecidableRel P]
    (s : State Req Key Body H T) : (a : Action Req Key A) → Decidable (ArrivesBeside routes P s a)
  | .arrive req => inferInstanceAs (Decidable (∀ p ∈ s.requests.zipIdx,
      p.1.key = (routes.receive req : Request Req Key Body T).key → p.1.key.isSome →
        s.inPlay p.2 p.1 → P req p.1.req))
  | .run _ | .giveUp _ | .fail _ _ | .expire _ | .service _ => .isTrue trivial

/-- `P` relates two requests of one key that are in play together. -/
def State.Together (P : Req → Req → Prop) (s : State Req Key Body H T) : Prop :=
  ∀ (i j : Nat) (r r' : Request Req Key Body T), i ≠ j → s.requests[i]? = some r →
    s.requests[j]? = some r' → r.key = r'.key → r.key.isSome → s.inPlay i r → s.inPlay j r' →
      P r.req r'.req

theorem State.inPlay_iff {s : State Req Key Body H T} {j : Nat} {r : Request Req Key Body T} :
    s.inPlay j r = true ↔ r.phase.isDone = false ∨
      ∃ key, r.key = some key ∧ ∃ statusCode body,
        s.redis key = some ⟨.completed statusCode body, j⟩ := by
  unfold inPlay
  rw [Bool.or_eq_true, Bool.not_eq_true', Option.any_eq_true]
  refine or_congr_right ⟨?_, ?_⟩
  · rintro ⟨⟨record, creator⟩, hentry, hwritten⟩
    obtain ⟨key, hkey, hentry⟩ := Option.bind_eq_some_iff.mp hentry
    obtain ⟨hcompleted, hcreator⟩ := Bool.and_eq_true_iff.mp hwritten
    obtain rfl : creator = j := by simpa using hcreator
    cases record with
    | processing => cases hcompleted
    | completed statusCode body => exact ⟨key, hkey, statusCode, body, hentry⟩
  · rintro ⟨key, hkey, statusCode, body, hentry⟩
    exact ⟨_, Option.bind_eq_some_iff.mpr ⟨key, hkey, hentry⟩, by simp [StoredRecord.isCompleted]⟩

/-- A request whose command is run is under way. -/
theorem Phase.command_underway {isPost : Bool} {i : Nat} {phase : Phase Body}
    {entry : Option (Entry Body)} {next : Phase Body × Option (Entry Body)}
    (h : phase.command isPost i entry = some next) : phase.isDone = false := by
  cases phase with
  | done _ => cases h
  | _ => rfl

/-- The record of request `j` was there before a step, or `j` is the request that moves. -/
theorem State.inPlay_of_move {s s' : State Req Key Body H T} {i j : Nat}
    {r rj : Request Req Key Body T} (r' : Request Req Key Body T) (hunderway : r.phase.isDone = false)
    (hr : s.requests[i]? = some r) (hrequests : s'.requests = s.requests.set i r')
    (hreq : r'.req = r.req) (hkey : r'.key = r.key)
    (hwritten : ∀ key statusCode body creator,
      s'.redis key = some ⟨.completed statusCode body, creator⟩ →
        s.redis key = s'.redis key ∨ creator = i)
    (hj : s'.requests[j]? = some rj) (hplay : s'.inPlay j rj = true) :
    ∃ old, s.requests[j]? = some old ∧ old.req = rj.req ∧ old.key = rj.key ∧
      s.inPlay j old = true := by
  rw [hrequests] at hj
  rcases getElem?_set_cases hj with ⟨rfl, rfl⟩ | ⟨hne, hold⟩
  · exact ⟨r, hr, hreq.symm, hkey.symm, State.inPlay_iff.mpr (Or.inl hunderway)⟩
  · refine ⟨rj, hold, rfl, rfl, State.inPlay_iff.mpr ?_⟩
    refine (State.inPlay_iff.mp hplay).imp_right ?_
    rintro ⟨key, hjkey, statusCode, body, hentry⟩
    rcases hwritten key statusCode body j hentry with hsame | rfl
    · exact ⟨key, hjkey, statusCode, body, hsame.trans hentry⟩
    · exact absurd rfl hne

variable [DecidableEq Key] {routes : Routes Req Key} {service : Service Req Body H A T}

/-- What a command leaves under its key was there before, or its request has written it. -/
theorem Phase.Reports.written {i : Nat} {phase phase' : Phase Body} {entry entry' : Option (Entry Body)}
    (h : Phase.Reports i phase phase' entry entry') (statusCode : Nat) (body : Body) (creator : Nat)
    (hentry : entry' = some ⟨.completed statusCode body, creator⟩) : entry = entry' ∨ creator = i :=
  (h.stored statusCode body creator hentry).imp_right fun ⟨_, _, hcreator, _⟩ => hcreator

theorem State.inPlay_of_command {s : State Req Key Body H T} {i j : Nat}
    {r rj : Request Req Key Body T} {key : Key} {phase : Phase Body} {entry : Option (Entry Body)}
    (hunderway : r.phase.isDone = false) (hr : s.requests[i]? = some r)
    (hwritten : ∀ statusCode body creator, entry = some ⟨.completed statusCode body, creator⟩ →
      s.redis key = entry ∨ creator = i)
    (hj : (s.move i r key phase entry).requests[j]? = some rj)
    (hplay : (s.move i r key phase entry).inPlay j rj = true) :
    ∃ old, s.requests[j]? = some old ∧ old.req = rj.req ∧ old.key = rj.key ∧
      s.inPlay j old = true := by
  have hentry : (s.move i r key phase entry).redis key = entry := Function.update_self ..
  refine State.inPlay_of_move { r with phase } hunderway hr rfl rfl rfl
    (fun key' statusCode body creator hrecord => ?_) hj hplay
  by_cases hsame : key' = key
  · subst hsame
    rw [hentry] at hrecord ⊢
    exact hwritten statusCode body creator hrecord
  · exact Or.inl (Function.update_of_ne hsame ..).symm

/-- What is in play after a step was so before, or has just arrived. -/
theorem State.Effect.inPlay {s s' : State Req Key Body H T} {a : Action Req Key A}
    (h : State.Effect routes service s a s') {j : Nat} {rj : Request Req Key Body T}
    (hj : s'.requests[j]? = some rj) (hplay : s'.inPlay j rj = true) :
    (∃ old, s.requests[j]? = some old ∧ old.req = rj.req ∧ old.key = rj.key ∧
      s.inPlay j old = true) ∨ ∃ req, a = .arrive req ∧ j = s.requests.length ∧ rj = routes.receive req := by
  cases h with
  | arrived req action after =>
      subst after
      rcases getElem?_concat_cases hj with hold | ⟨rfl, rfl⟩
      · exact Or.inl ⟨rj, hold, rfl, rfl, hplay⟩
      · exact Or.inr ⟨req, action, rfl, rfl⟩
  | commanded i r key phase entry _ found hkey command after =>
      subst after
      exact Or.inl (State.inPlay_of_command (Phase.command_underway command) found
        (Phase.command_reports command).written hj hplay)
  | failed i applied r key phase entry _ found hkey command after =>
      subst after
      refine Or.inl (State.inPlay_of_command (Phase.command_underway command) found ?_ hj hplay)
      cases applied with
      | true => exact (Phase.command_reports command).written
      | false => exact fun _ _ _ _ => Or.inl rfl
  | started i r _ found hphase after =>
      have hredis : s'.redis = s.redis := by rw [after]; rfl
      exact Or.inl (State.inPlay_of_move
        { r with phase := .running, handler := some (service.start s.service r.req).2 }
        (by rw [hphase]; rfl) found (by rw [after]; rfl) rfl rfl
        (fun key _ _ _ _ => Or.inl (congrFun hredis key).symm) hj hplay)
  | settled i r _ outcome _ found hphase _ _ after =>
      have hredis : s'.redis = s.redis := by rw [after]; rfl
      exact Or.inl (State.inPlay_of_move { r with phase := outcome.settle (routes.isPost r.req) r.key }
        (by rw [hphase]; rfl) found (by rw [after]; rfl) rfl rfl
        (fun key _ _ _ _ => Or.inl (congrFun hredis key).symm) hj hplay)
  | gaveUp i r _ found hphase after =>
      have hredis : s'.redis = s.redis := by rw [after]; rfl
      exact Or.inl (State.inPlay_of_move { r with phase := .begin true }
        (by rw [hphase]; rfl) found (by rw [after]; rfl) rfl rfl
        (fun key _ _ _ _ => Or.inl (congrFun hredis key).symm) hj hplay)
  | expired key _ after =>
      subst after
      refine Or.inl ⟨rj, hj, rfl, rfl, State.inPlay_iff.mpr ?_⟩
      refine (State.inPlay_iff.mp hplay).imp_right ?_
      rintro ⟨key', hkey', statusCode, body, hentry⟩
      by_cases hsame : key' = key
      · subst hsame
        simp at hentry
      · exact ⟨key', hkey', statusCode, body, (Function.update_of_ne hsame ..).symm.trans hentry⟩
  | served _ _ _ _ after =>
      subst after
      exact Or.inl ⟨rj, hj, rfl, rfl, hplay⟩

theorem State.Together.step {P : Req → Req → Prop} (hsymm : ∀ req req', P req req' → P req' req)
    {s s' : State Req Key Body H T} {a : Action Req Key A} (hs : s.Together P)
    (hok : ArrivesBeside routes P s a) (h : State.Effect routes service s a s') : s'.Together P := by
  -- A request that arrives, beside one that was in play before.
  have harrives : ∀ (req : Req) (j : Nat) (r : Request Req Key Body T), a = .arrive req →
      s.requests[j]? = some r → r.key = (routes.receive req : Request Req Key Body T).key →
      r.key.isSome → s.inPlay j r = true →
      P (routes.receive req : Request Req Key Body T).req r.req := by
    rintro req j r rfl hr hkey hsome hplay
    have hreq : (routes.receive req : Request Req Key Body T).req = req := by
      unfold Routes.receive
      split <;> rfl
    rw [hreq]
    exact hok (r, j) (List.mem_zipIdx_iff_getElem?.mpr hr) hkey hsome hplay
  intro i j r r' hne hi hj hkey hsome hplay hplay'
  rcases h.inPlay hi hplay with ⟨old, hold, hreq, holdKey, hbefore⟩ | ⟨req, hreq, hlast, rfl⟩
  · rcases h.inPlay hj hplay' with ⟨old', hold', hreq', holdKey', hbefore'⟩ | ⟨req, harrive, -, rfl⟩
    · rw [← hreq, ← hreq']
      exact hs i j old old' hne hold hold' (holdKey.trans (hkey.trans holdKey'.symm))
        (holdKey ▸ hsome) hbefore hbefore'
    · rw [← hreq]
      exact hsymm _ _ (harrives req i old harrive hold (holdKey.trans hkey) (holdKey ▸ hsome) hbefore)
  · rcases h.inPlay hj hplay' with ⟨old', hold', hreq', holdKey', hbefore'⟩ | ⟨_, _, hlast', _⟩
    · rw [← hreq']
      exact harrives req j old' hreq hold' (holdKey'.trans hkey.symm)
        (by rw [holdKey', ← hkey]; exact hsome) hbefore'
    · exact absurd (hlast.trans hlast'.symm) hne

omit [DecidableEq Key] in
/-- A request that finds a completed record is in play together with its writer. -/
theorem State.Together.replay {P : Req → Req → Prop} {s : State Req Key Body H T}
    (hs : s.Together P) (hsourced : s.Sourced service) {a : Action Req Key A} :
    ∀ p ∈ s.replay? a, P p.1.req p.2.req := by
  rintro ⟨r, writer⟩ hp
  cases a with
  | run i =>
      obtain ⟨r', hr, hp⟩ := Option.bind_eq_some_iff.mp hp
      obtain ⟨key, hkey, hp⟩ := Option.bind_eq_some_iff.mp hp
      obtain ⟨⟨record, creator⟩, hentry, hp⟩ := Option.bind_eq_some_iff.mp hp
      obtain ⟨writer', hwriter, hp⟩ := Option.bind_eq_some_iff.mp hp
      split at hp
      · rename_i hfinds
        cases hp
        obtain ⟨hlooks, hcompleted⟩ := Bool.and_eq_true_iff.mp hfinds
        cases record with
        | processing => cases hcompleted
        | completed statusCode body =>
            obtain ⟨_, found, _, hfound, _, hwriterKey, ⟨t, ht, _⟩, _⟩ :=
              hsourced.stored key statusCode body creator hentry
            cases hwriter.symm.trans hfound
            have hunstarted : r.phase.unstarted = true ∧ r.phase.isDone = false := by
              cases hphase : r.phase <;> rw [hphase] at hlooks <;> first | exact ⟨rfl, rfl⟩ | cases hlooks
            have hne : i ≠ creator := by
              rintro rfl
              -- The writer has a handler, a request that looks for a record has none.
              cases hr.symm.trans hwriter
              rw [hsourced.unstarted i r hr hunstarted.1] at ht
              cases ht
            exact hs i creator r writer hne hr hwriter (hkey.trans hwriterKey.symm) (by rw [hkey]; rfl)
              (State.inPlay_iff.mpr (Or.inl hunstarted.2))
              (State.inPlay_iff.mpr (Or.inr ⟨key, hwriterKey, statusCode, body, hentry⟩))
      · cases hp
  | arrive _ | giveUp _ | fail _ _ | expire _ | service _ => cases hp

/-- **Replays of related requests**: if `P` relates every request that arrives to those of
its key that are in play, it relates every replay to the request it repeats. -/
theorem replaysWhere_of_arrivals {P : Req → Req → Prop} (hsymm : ∀ req req', P req req' → P req' req)
    {init : H → Prop} {ok : State Req Key Body H T → Action Req Key A → Prop}
    (hok : ∀ s a, ok s a → ArrivesBeside routes P s a) {s : State Req Key Body H T}
    (h : (machine routes service init).ReachableBy ok s) : s.ReplaysWhere service P := by
  refine (h.invariant (I := fun s => s.Sourced service ∧ s.Together P ∧ s.ReplaysWhere service P) ?_
    fun s a s' hs hstep_ok hstep => ?_).2.2
  · intro s hinit
    have hreachable : (machine routes service init).Reachable s := Machine.reachableBy_init hinit
    refine ⟨sourced_of_reachable hreachable, fun i j r _ _ hi => ?_, fun i r _ _ hi => ?_⟩ <;>
      · rw [hinit.2.1] at hi
        cases hi
  · have heffect := State.step_cases hstep
    obtain ⟨hsourced, htogether, hreplays⟩ := hs
    exact ⟨hsourced.step heffect, htogether.step hsymm (hok s a hstep_ok) heffect,
      hreplays.step hsourced (htogether.replay hsourced) heffect⟩

end Arrivals

end MibServer.Idempotency
