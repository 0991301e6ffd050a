import MibServer.Locks.Contention

/-!
What competing `runWithBusinessLocks` calls do to one another.

Nothing, seen from one of them: it settles as the call alone does in some environment
(`settled_as_alone`). Its environment is what the others make of it: under one lock one body
runs at a time (`bodies_exclusive`), and of the calls that compete one gets through
(`settled_calls`).
-/

namespace MibServer.Locks

open MibServer.Lib

variable {Client T E : Type}

/-! ### What holds of each call -/

section Invariant

variable [DecidableEq Client] {token : Client → String} {s s' : Calls Client T E} {c : Client}
  {call : Call T E}

/-- What holds of a call when it starts, and is kept by what it does, holds of it in every state. -/
theorem call_invariant {ok : Calls Client T E → CallAction Client T E → Prop}
    {I : Client → Call T E → Prop}
    (h : (calls token).ReachableBy ok s)
    (hstart : ∀ c resources ttlSeconds options, I c ⟨resources, ttlSeconds, options, [], none,
      [], .notCalled,
      .acquiring (sortedResources resources)⟩)
    (hkeep : ∀ {s s' : Calls Client T E} {c : Client} {call : Call T E} {a : CallAction Client T E},
      ok s a →
      a.client? = some c → callStep token s c call call.phase a = some s' → I c call →
        ∃ call' store', s' = s.put c call' store' ∧ I c call') :
    ∀ c call, s.call c = some call → I c call := by
  refine h.invariant (I := fun s => ∀ c call, s.call c = some call → I c call) ?_ ?_
  · rintro s ⟨-, hcall⟩ c call h
    rw [hcall] at h
    cases h
  · intro s a s' hs hok hstep
    have hput : ∀ {c₀ : Client} {call₀ : Call T E} {store₀ : Store}, s' = s.put c₀ call₀ store₀ →
      I c₀ call₀ →
        ∀ c call, s'.call c = some call → I c call := by
      rintro c₀ call₀ store₀ rfl hcall₀ c call hcall
      by_cases hc : c = c₀
      · subst hc
        simp only [Calls.put, Function.update_self, Option.some.injEq] at hcall
        exact hcall ▸ hcall₀
      · simp only [Calls.put, Function.update_of_ne hc] at hcall
        exact hs c call hcall
    have hcallStep : ∀ c₀, a.client? = some c₀ →
        (s.call c₀).bind (fun call => callStep token s c₀ call call.phase a) = some s' →
        ∀ c call, s'.call c = some call → I c call := by
      intro c₀ hc₀ hstep
      obtain ⟨call₀, hcall₀, hstep⟩ := Option.bind_eq_some_iff.mp hstep
      obtain ⟨call', store', hs', hkept⟩ := hkeep hok hc₀ hstep (hs c₀ call₀ hcall₀)
      exact hput hs' hkept
    cases a with
    | start c₀ resources ttlSeconds options =>
        simp only [calls, Calls.step, Option.ite_none_right_eq_some, Option.some.injEq] at hstep
        exact hput hstep.2.symm (hstart _ _ _ _)
    | expire resource =>
        simp only [calls, Calls.step, Option.ite_none_right_eq_some, Option.some.injEq] at hstep
        obtain ⟨-, rfl⟩ := hstep
        exact hs
    | _ => exact hcallStep _ rfl hstep

/-- The body runs during the race only. -/
def Call.InRace (call : Call T E) : Prop := call.body = .running → call.phase = .racing

theorem callStep_inRace {a : CallAction Client T E} (ha : a.client? = some c)
    (hstep : callStep token s c call call.phase a = some s') :
    ∃ call' store', s' = s.put c call' store' ∧ (a ≠ .timeout c → call.InRace → call'.InRace) := by
  generalize hphase : call.phase = phase at hstep
  -- Out of the race, a call that has kept to it has no body running.
  have hout : phase ≠ .racing → call.InRace → call.body ≠ .running := by
    intro hne h hbody
    exact hne (hphase ▸ h hbody)
  unfold callStep at hstep
  split at hstep <;> try obtain rfl := Option.some.inj ha
  · split at hstep
    split at hstep <;> obtain rfl := Option.some.inj hstep
    all_goals exact ⟨_, _, rfl, fun _ h hbody => absurd hbody (hout (by simp) h)⟩
  · obtain rfl := Option.some.inj hstep
    exact ⟨_, _, rfl, fun _ h hbody => absurd hbody (hout (by simp) h)⟩
  · obtain rfl := Option.some.inj hstep
    exact ⟨_, _, rfl, fun _ _ _ => rfl⟩
  · simp only [Option.ite_none_right_eq_some, Option.some.injEq] at hstep
    obtain ⟨-, rfl⟩ := hstep
    exact ⟨_, _, rfl, fun _ h => h⟩
  · obtain rfl := Option.some.inj hstep
    exact ⟨_, _, rfl, fun _ _ hbody => by cases hbody⟩
  · obtain rfl := Option.some.inj hstep
    exact ⟨_, _, rfl, fun htimer => absurd rfl htimer⟩
  · obtain rfl := Option.some.inj hstep
    exact ⟨_, _, rfl, fun _ h hbody => absurd hbody (hout (by simp) h)⟩
  · obtain rfl := Option.some.inj hstep
    exact ⟨_, _, rfl, fun _ h hbody => absurd hbody (hout (by simp) h)⟩
  · obtain rfl := Option.some.inj hstep
    exact ⟨_, _, rfl, fun _ h hbody => absurd hbody (hout (by simp) h)⟩
  · simp only [Option.ite_none_right_eq_some, Option.some.injEq] at hstep
    obtain ⟨-, rfl⟩ := hstep
    exact ⟨_, _, rfl, fun _ _ hbody => by cases hbody⟩
  · simp only [Option.ite_none_right_eq_some, Option.some.injEq] at hstep
    obtain ⟨-, rfl⟩ := hstep
    exact ⟨_, _, rfl, fun _ _ hbody => by cases hbody⟩
  · cases hstep

end Invariant

/-! ### A call among others and a call alone -/

/-- The environment hands out these locks. -/
def Gives (acquireLock : String → Acquire) (held : List Held) : Prop :=
  ∀ lock ∈ held, acquireLock lock.resource = .token lock.token

/-- The locks in hand, and of any other resource what comes next. -/
def givenBy (held : List Held) (next : Acquire) (resource : String) : Acquire :=
  match held.find? fun lock => lock.resource = resource with
  | some lock => .token lock.token
  | none => next

theorem givenBy_gives {held : List Held} (hnodup : (held.map Held.resource).Nodup)
    (next : Acquire) :
    Gives (givenBy held next) held := by
  intro lock hlock
  have hfind : held.find? (fun lock' => lock'.resource = lock.resource) = some lock := by
    induction held with
    | nil => cases hlock
    | cons lock' rest ih =>
        obtain ⟨hfresh, hrest⟩ := List.nodup_cons.mp hnodup
        by_cases heq : lock'.resource = lock.resource
        · rw [List.find?_cons_of_pos (by simpa using heq)]
          rcases List.mem_cons.mp hlock with rfl | hmem
          · rfl
          · exact absurd (heq ▸ List.mem_map_of_mem hmem) hfresh
        · rw [List.find?_cons_of_neg (by simpa using heq)]
          rcases List.mem_cons.mp hlock with rfl | hmem
          · exact absurd rfl heq
          · exact ih hrest hmem
  rw [givenBy, hfind]

theorem givenBy_of_not_mem {held : List Held} (next : Acquire) {resource : String}
    (h : resource ∉ held.map Held.resource) : givenBy held next resource = next := by
  have hfind : held.find? (fun lock => lock.resource = resource) = none := by
    rw [List.find?_eq_none]
    intro lock hlock heq
    exact h (of_decide_eq_true heq ▸ List.mem_map_of_mem hlock)
  rw [givenBy, hfind]

/-- What is left of `runWithBusinessLocks` with these resources to come. -/
def Call.continue (call : Call T E) (env : Environment T E) (todo : List String) : Settled T E :=
  match acquireLocks env.acquireLock todo call.held with
  | (held, some (resource, .null)) => releaseThen env held (.error (call.options.busy resource))
  | (_, some _) => ⟨[], .error .redis⟩
  | (held, none) =>
      releaseThen env held (match env.fn with
        | .resolves value => .ok value
        | .rejects error => .error (.fn error)
        | .outlives => .error call.timeoutError)

def Call.alone (call : Call T E) (env : Environment T E) : Settled T E :=
  runWithBusinessLocks env call.resources call.ttlSeconds call.options

/-- What a call has done so far is what it does alone in some environment. -/
def Call.AsAlone (call : Call T E) : Prop :=
  match call.phase with
  | .acquiring todo => call.issued = [] ∧ call.held.map Held.resource ++ todo =
    sortedResources call.resources ∧
      ∀ env, Gives env.acquireLock call.held → call.alone env = call.continue env todo
  | .racing => call.issued = [] ∧ call.held.map Held.resource = sortedResources call.resources ∧
      ∀ env, Gives env.acquireLock call.held → call.alone env = call.continue env []
  | .releasing todo result => ((call.issued ++ todo).map Held.resource).Nodup ∧
      ∃ acquireLock fn, Gives acquireLock call.held ∧ ∀ releaseRejects : String → Bool,
        (∀ lock ∈ call.issued, releaseRejects lock.resource = false) →
          call.alone ⟨acquireLock, fn, releaseRejects⟩ =
            ⟨call.issued ++ (releaseLoop releaseRejects todo).1,
              if (releaseLoop releaseRejects todo).2 then result else .error .redis⟩
  | .settled result => ∃ env, Gives env.acquireLock call.held ∧ call.alone env =
    ⟨call.issued, result⟩

section AsAlone

variable {call : Call T E}

theorem continue_token {env : Environment T E} {resource t : String} {rest : List String}
    (h : env.acquireLock resource = .token t) :
    call.continue env (resource :: rest) =
      ({ call with held := call.held ++ [⟨resource, t⟩] } : Call T E).continue env rest := by
  simp [Call.continue, acquireLocks, h, Call.timeoutError]

/-- The race is over: what is left is to release the locks in reverse. -/
theorem asAlone_leave (hissued : call.issued = [])
    (hheld : call.held.map Held.resource = sortedResources call.resources)
    (halone : ∀ env : Environment T E, Gives env.acquireLock call.held →
      call.alone env = call.continue env [])
    (body : Body) (fn : FnOutcome T E) :
    ({ call with body, phase := .releasing call.held.reverse (match fn with
        | .resolves value => .ok value
        | .rejects error => .error (.fn error)
        | .outlives => .error call.timeoutError) } : Call T E).AsAlone := by
  have hnodup : (call.held.map Held.resource).Nodup := hheld ▸ sortedResources_nodup call.resources
  have hgives := givenBy_gives hnodup .null
  refine ⟨?_, givenBy call.held .null, fn, hgives, fun releaseRejects _ => ?_⟩
  · rw [hissued, List.nil_append, List.map_reverse]
    exact List.nodup_reverse.mpr hnodup
  · refine (halone ⟨givenBy call.held .null, fn, releaseRejects⟩ hgives).trans ?_
    simp only [Call.continue, acquireLocks, releaseThen, releaseHeldBusinessLocks, hissued,
      List.nil_append]
    rfl

/-- A busy lock: what is left is to release those in hand. -/
theorem asAlone_refused {resource : String} {rest : List String} (hissued : call.issued = [])
    (hheld : call.held.map Held.resource ++ resource :: rest = sortedResources call.resources)
    (halone : ∀ env : Environment T E, Gives env.acquireLock call.held →
      call.alone env = call.continue env (resource :: rest)) :
    ({ call with
      refusedAt := some resource
      phase := .releasing call.held.reverse (.error (call.options.busy resource)) } :
        Call T E).AsAlone := by
  have hnodup := hheld ▸ sortedResources_nodup call.resources
  obtain ⟨hnodupHeld, -, hfresh⟩ := List.nodup_append.mp hnodup
  have hgives := givenBy_gives hnodupHeld .null
  have hnull : givenBy call.held .null resource = .null :=
    givenBy_of_not_mem _ fun hmem => hfresh resource hmem resource List.mem_cons_self rfl
  refine ⟨?_, givenBy call.held .null, .outlives, hgives, fun releaseRejects _ => ?_⟩
  · rw [hissued, List.nil_append, List.map_reverse]
    exact List.nodup_reverse.mpr hnodupHeld
  · refine (halone ⟨givenBy call.held .null, .outlives, releaseRejects⟩ hgives).trans ?_
    simp only [Call.continue, acquireLocks, hnull, releaseThen, releaseHeldBusinessLocks, hissued,
      List.nil_append]
    rfl

theorem asAlone_acquireRejects {resource : String} {rest : List String} (hissued : call.issued = [])
    (hheld : call.held.map Held.resource ++ resource :: rest = sortedResources call.resources)
    (halone : ∀ env : Environment T E, Gives env.acquireLock call.held →
      call.alone env = call.continue env (resource :: rest)) :
    ({ call with phase := .settled (.error .redis) } : Call T E).AsAlone := by
  have hnodup := hheld ▸ sortedResources_nodup call.resources
  obtain ⟨hnodupHeld, -, hfresh⟩ := List.nodup_append.mp hnodup
  have hgives := givenBy_gives hnodupHeld .rejects
  have hrejects : givenBy call.held .rejects resource = .rejects :=
    givenBy_of_not_mem _ fun hmem => hfresh resource hmem resource List.mem_cons_self rfl
  refine ⟨⟨givenBy call.held .rejects, .outlives, fun _ => false⟩, hgives, ?_⟩
  refine (halone ⟨givenBy call.held .rejects, .outlives, fun _ => false⟩ hgives).trans ?_
  simp [hissued, Call.continue, acquireLocks, hrejects]

/-- **What a call does among others keeps to what it does alone.** -/
theorem callStep_asAlone [DecidableEq Client] {token : Client → String} {s s' : Calls Client T E}
    {c : Client}
    {a : CallAction Client T E} (ha : a.client? = some c)
    (hstep : callStep token s c call call.phase a = some s') (h : call.AsAlone) :
    ∃ call' store', s' = s.put c call' store' ∧ call'.AsAlone := by
  unfold Call.AsAlone at h
  generalize hphase : call.phase = phase at hstep h
  unfold callStep at hstep
  split at hstep <;> try obtain rfl := Option.some.inj ha
  · obtain ⟨hissued, hheld, halone⟩ := h
    rename_i resource rest c
    rcases acquireLock_cases s.store (businessLockKey resource) call.ttlSeconds (token c) with
      ⟨-, heq⟩ | ⟨-, expiresAt, heq⟩
    · simp only [heq, Option.some.injEq] at hstep
      exact ⟨_, _, hstep.symm, asAlone_refused hissued hheld halone⟩
    · simp only [heq, Option.some.injEq] at hstep
      refine ⟨_, _, hstep.symm, hissued, by simpa using hheld, fun env hgives => ?_⟩
      refine (halone env fun lock hlock => hgives lock (List.mem_append_left _ hlock)).trans ?_
      rw [continue_token (hgives ⟨resource, token c⟩ (by simp))]
      rfl
  · obtain rfl := Option.some.inj hstep
    exact ⟨_, _, rfl, asAlone_acquireRejects h.1 h.2.1 h.2.2⟩
  · obtain rfl := Option.some.inj hstep
    exact ⟨_, _, rfl, h.1, by simpa using h.2.1, h.2.2⟩
  · simp only [Option.ite_none_right_eq_some, Option.some.injEq] at hstep
    refine ⟨_, _, hstep.2.symm, ?_⟩
    rw [Call.AsAlone, hphase]
    exact h
  · rename_i c outcome
    obtain rfl := Option.some.inj hstep
    cases outcome with
    | ok value => exact ⟨_, _, rfl, asAlone_leave h.1 h.2.1 h.2.2 .ended (.resolves value)⟩
    | error error => exact ⟨_, _, rfl, asAlone_leave h.1 h.2.1 h.2.2 .ended (.rejects error)⟩
  · obtain rfl := Option.some.inj hstep
    exact ⟨_, _, rfl, asAlone_leave h.1 h.2.1 h.2.2 call.body .outlives⟩
  · rename_i lock rest result c
    obtain rfl := Option.some.inj hstep
    obtain ⟨hnodup, acquireLock, fn, hgives, halone⟩ := h
    refine ⟨_, _, rfl, by simpa using hnodup, acquireLock, fn, hgives, fun releaseRejects hissued =>
      ?_⟩
    have hlock : releaseRejects lock.resource = false := hissued lock (by simp)
    refine (halone releaseRejects fun l hl => hissued l (List.mem_append_left _ hl)).trans ?_
    simp [releaseLoop, hlock]
  · rename_i lock rest result c applied
    obtain rfl := Option.some.inj hstep
    obtain ⟨hnodup, acquireLock, fn, hgives, halone⟩ := h
    refine ⟨_, _, rfl, ⟨acquireLock, fn, fun r => r = lock.resource⟩, hgives, ?_⟩
    have hissued : ∀ l ∈ call.issued, decide (l.resource = lock.resource) = false := by
      intro l hl
      rw [List.map_append] at hnodup
      have hne := (List.nodup_append.mp hnodup).2.2 l.resource (List.mem_map_of_mem hl)
        lock.resource (by simp)
      simpa using hne
    refine (halone (fun r => r = lock.resource) hissued).trans ?_
    simp [releaseLoop]
  · obtain rfl := Option.some.inj hstep
    obtain ⟨-, acquireLock, fn, hgives, halone⟩ := h
    refine ⟨_, _, rfl, ⟨acquireLock, fn, fun _ => false⟩, hgives, ?_⟩
    refine (halone (fun _ => false) fun _ _ => rfl).trans ?_
    simp [releaseLoop]
  · simp only [Option.ite_none_right_eq_some, Option.some.injEq] at hstep
    refine ⟨_, _, hstep.2.symm, ?_⟩
    rw [Call.AsAlone]
    simp only [hphase]
    exact h
  · simp only [Option.ite_none_right_eq_some, Option.some.injEq] at hstep
    refine ⟨_, _, hstep.2.symm, ?_⟩
    rw [Call.AsAlone]
    simp only [hphase]
    exact h
  · cases hstep

/-- **Among others as alone**: whatever else goes on, a settled call has issued the releases and
has the result of `runWithBusinessLocks` in an environment that hands out the locks it got. -/
theorem settled_as_alone [DecidableEq Client] {token : Client → String} {s : Calls Client T E}
    (h : (calls token).Reachable s) {c : Client} (hcall : s.call c = some call)
    {result : Except (LockFailure E) T} (hphase : call.phase = .settled result) :
    ∃ env : Environment T E,
      (∀ lock ∈ call.held, env.acquireLock lock.resource = .token lock.token) ∧
      runWithBusinessLocks env call.resources call.ttlSeconds call.options =
        ⟨call.issued, result⟩ := by
  have halone := call_invariant h (I := fun _ => Call.AsAlone)
    (fun c resources ttlSeconds options => ⟨rfl, rfl, fun env _ => rfl⟩)
    (fun _ ha hstep halone => callStep_asAlone ha hstep halone) c call hcall
  rw [Call.AsAlone, hphase] at halone
  exact halone

end AsAlone

/-! ### Many calls -/

variable [DecidableEq Client] {token : Client → String} {s : Calls Client T E}

/-- **One body for each lock**: as long as no lock expires under a call that has not settled, the
bodies of two calls that share a resource never run together, whatever commands reject, unless
one of them outlives its timer. -/
theorem bodies_exclusive (hinj : Function.Injective token) {c c' : Client} (hne : c ≠ c')
    (h : (calls token).ReachableBy (fun s a => Allowed token True s a ∧ a ≠ .timeout c ∧
      a ≠ .timeout c') s)
    {call call' : Call T E} (hcall : s.call c = some call) (hcall' : s.call c' = some call')
    {resource : String} (hr : resource ∈ call.resources) (hr' : resource ∈ call'.resources) :
    ¬ (call.body = .running ∧ call'.body = .running) := by
  rintro ⟨hbody, hbody'⟩
  have hallowed : (calls token).ReachableBy (Allowed token True) s :=
    h.invariant (fun _ => Machine.reachableBy_init) fun _ _ _ hs hok hstep => hs.next hok.1 hstep
  have hinRace : ∀ c₀ call, s.call c₀ = some call → c₀ = c ∨ c₀ = c' → call.InRace := by
    refine call_invariant h (fun _ _ _ _ _ hbody => by cases hbody) ?_
    intro s s' c₀ call₀ a ⟨_, hc, hc'⟩ ha hstep hrace
    obtain ⟨call₁, store₁, hput, hkeep⟩ := callStep_inRace ha hstep
    refine ⟨call₁, store₁, hput, fun h₀ => hkeep ?_ (hrace h₀)⟩
    rcases h₀ with rfl | rfl
    · exact hc
    · exact hc'
  have hrace := hinRace c call hcall (Or.inl rfl) hbody
  have hrace' := hinRace c' call' hcall' (Or.inr rfl) hbody'
  have horderly := (reachable_linked hinj hallowed).2.orderly
  refine horderly.inside_disjoint hne (r := resource) ?_ ?_ ?_ ?_ <;>
    simp [parties_of_call hcall, parties_of_call hcall', Call.party, hrace, hrace',
      mem_sortedResources, hr, hr']

/-- **Calls that compete**: without faults, when every call has settled each lock is free again,
and if there was a call then some call has run its `fn`. -/
theorem settled_calls (hinj : Function.Injective token)
    (h : (calls token).ReachableBy (Allowed token False) s)
    (hsettled : ∀ c call, s.call c = some call → call.isSettled) :
    (∀ resource, s.store.get (lockKey (businessLockKey resource)) = none) ∧
      ∀ c, s.call c ≠ none → ∃ c' call, s.call c' = some call ∧ call.body ≠ .notCalled := by
  obtain ⟨hlinked, hreached⟩ := reachable_linked hinj h
  have hstage : ∀ c, (s.parties token c).stage = .idle ∨ (s.parties token c).stage = .gone := by
    intro c
    cases hcall : s.call c with
    | none => exact Or.inl (by simp [Calls.parties, hcall, TryLocks.Party.idle])
    | some call =>
        have hphase := hsettled c call hcall
        unfold Call.isSettled at hphase
        split at hphase
        · rename_i result heq
          exact Or.inr (by simp [parties_of_call hcall, Call.party, heq])
        · cases hphase
  constructor
  · intro resource
    by_contra hheld
    exact hreached.not_busy hstage resource ((busy_iff hlinked).mpr hheld)
  · intro c hc
    have hcame : (s.parties token c).stage ≠ .idle := by
      obtain ⟨call, hcall⟩ := Option.ne_none_iff_exists'.mp hc
      rw [parties_of_call hcall, Call.party]
      cases call.phase <;> simp
    obtain ⟨c', hentered⟩ := hreached.some_entered
      (fun p => by rcases hstage p with h | h <;> simp [h]) hcame
    cases hcall : s.call c' with
    | none => simp [Calls.parties, hcall, TryLocks.Party.idle] at hentered
    | some call =>
        rw [parties_of_call hcall] at hentered
        exact ⟨c', call, hcall, by simpa [Call.party] using hentered⟩

/-! ### Three clients -/

/-- Two calls want `r1`: one gets both its locks and runs, the other is refused. -/
def contenders (winner loser : Client) : List (CallAction Client Unit Unit) :=
  [.start winner ["r2", "r1"] 15 {}, .start loser ["r1", "r3"] 15 {}, .acquire winner,
    .acquire loser, .settle loser, .acquire winner, .callFn winner]

/-- The one that runs goes on to its end. -/
def winnerEnds (winner : Client) (token : String) : List (CallAction Client Unit Unit) :=
  [.renew winner ⟨"r1", token⟩, .fnSettles winner (.ok ()), .release winner, .release winner,
    .settle winner]

/-- The clients and the store before any call. -/
def noCalls : Calls (Fin 3) Unit Unit := ⟨fun _ => none, fun _ => none⟩

theorem noCalls_init : (calls tokenOf).init noCalls := ⟨rfl, rfl⟩

/-- The first call runs, and the second does not. -/
theorem bodies_exclusive_contenders :
    ∃ s call call', (calls tokenOf).exec noCalls (contenders 0 1) = some s ∧ s.call 0 = some call ∧
      s.call 1 = some call' ∧
      call.body = .running ∧ ¬ (call.body = .running ∧ call'.body = .running) := by
  have hrun : (calls tokenOf).ReachableBy
      (fun s a => Allowed tokenOf True s a ∧ a ≠ .timeout 0 ∧ a ≠ .timeout 1)
      (((calls tokenOf).exec noCalls (contenders 0 1)).get (by decide +kernel)) :=
    Machine.reachableBy_exec_get noCalls_init
      (Machine.admits_of_forall (by simp [contenders, Allowed])) _
  refine ⟨_, _, _, (Option.some_get (by decide +kernel)).symm,
    (Option.some_get (by decide +kernel)).symm,
    (Option.some_get (by decide +kernel)).symm, by decide +kernel, ?_⟩
  exact bodies_exclusive tokenOf_injective (by decide) hrun (Option.some_get _).symm
    (Option.some_get _).symm
    (by decide +kernel : "r1" ∈ _) (by decide +kernel)

theorem settled_contenders :
    ∃ s, (calls tokenOf).exec noCalls (contenders 0 1 ++ winnerEnds 0 "0") = some s ∧
      (∀ resource, s.store.get (lockKey (businessLockKey resource)) = none) ∧
      ∃ c' call, s.call c' = some call ∧ call.body ≠ .notCalled := by
  have hrun : (calls tokenOf).ReachableBy (Allowed tokenOf False)
      (((calls tokenOf).exec noCalls (contenders 0 1 ++ winnerEnds 0 "0")).get (by decide +kernel)) :=
    Machine.reachableBy_exec_get noCalls_init
      (Machine.admits_of_forall (by simp [contenders, winnerEnds, Allowed])) _
  have hall : ∀ c : Fin 3, ((((calls tokenOf).exec noCalls (contenders 0 1 ++ winnerEnds 0 "0")).get
      (by decide +kernel)).call c).all Call.isSettled = true := by decide +kernel
  obtain ⟨hfree, hran⟩ := settled_calls tokenOf_injective hrun fun c call hcall =>
    by simpa [hcall] using hall c
  exact ⟨_, (Option.some_get (by decide +kernel)).symm, hfree, hran 0 (by decide +kernel)⟩

/-- The refused call, while the other is running. -/
theorem settled_as_alone_refused :
    ∃ s call, (calls tokenOf).exec noCalls (contenders 0 1) = some s ∧ s.call 1 = some call ∧
      ∃ env : Environment Unit Unit,
        (∀ lock ∈ call.held, env.acquireLock lock.resource = .token lock.token) ∧
        runWithBusinessLocks env call.resources call.ttlSeconds call.options =
          ⟨call.issued, .error (.BusinessLockBusyError "r1")⟩ := by
  have hrun : (calls tokenOf).Reachable (((calls tokenOf).exec noCalls (contenders 0 1)).get
    (by decide +kernel)) :=
    Machine.reachableBy_exec_get noCalls_init (Machine.admits_true _ _) _
  exact ⟨_, _, (Option.some_get (by decide +kernel)).symm,
    (Option.some_get (by decide +kernel)).symm,
    settled_as_alone hrun (Option.some_get _).symm (by decide +kernel)⟩

end MibServer.Locks
