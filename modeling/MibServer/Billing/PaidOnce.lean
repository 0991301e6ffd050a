import MibServer.Billing.ConcurrentPayment

/-!
One PAID callback delivered any number of times at once: every run.

Two calls that have both read the order as PENDING cannot both return, since only one of them
commits into what it has read (`overlap_conflicts`). In the runs in which no two calls do
(`ReadsAlone`) one call performs the transition, the others find it done, and every call can go
on to its return.
-/

namespace MibServer.Billing

open MibServer.Lib MibServer.Prisma

section Runs

variable {platform : Platform} {dto : PaymentCallbackDto} {signature : Option String}
  {w w' : BillingWorld} {a : BillingAction}

/-- Any number of billing calls on a database in which the order has not been paid. -/
abbrev deliveryMachine (platform : Platform) (dto : PaymentCallbackDto) :
    Machine BillingWorld BillingAction :=
  (billingSystem platform).machine fun db => db.Unpaid dto

/-- Deliveries of the callback, none of them failed by the database. -/
def OnlyDelivers (dto : PaymentCallbackDto) (signature : Option String) : BillingAction → Prop
  | .spawn c => c = .handlePaymentCallback dto signature
  | .run _ env => env.Faultless
  | .abort _ => False

/-- The next statement of the call is the first read of its transaction. -/
def atFirstRead (th : BillingThread) : Bool := th.tx.any fun tx => tx.snapshot.isNone

/-- The order of the callback is PENDING. -/
def BillingDb.showsPending (db : BillingDb) (dto : PaymentCallbackDto) : Bool :=
  db.orders.rows.any fun o => o.isAt dto.orderNo .pending

/-- While the order is PENDING, no call makes its first read when another one is between its
first read and its end. -/
def ReadsAlone (dto : PaymentCallbackDto) (w : BillingWorld) : BillingAction → Prop
  | .run t _ => ∀ th ∈ w.threads[t]?, atFirstRead th = true → w.committed.showsPending dto = true →
      ∀ u ∈ w.threads, u.pinned.isNone = true
  | _ => True

instance (dto : PaymentCallbackDto) (w : BillingWorld) :
    (a : BillingAction) → Decidable (ReadsAlone dto w a)
  | .run t _ => inferInstanceAs (Decidable (∀ th ∈ w.threads[t]?, atFirstRead th = true →
      w.committed.showsPending dto = true → ∀ u ∈ w.threads, u.pinned.isNone = true))
  | .spawn _ | .abort _ => .isTrue trivial

theorem BillingDb.Unpaid.showsPending {db : BillingDb} (h : db.Unpaid dto) :
    db.showsPending dto = true := by
  obtain ⟨-, order, hmem, hno, hstatus, -⟩ := h
  exact List.any_eq_true.mpr ⟨order, hmem, by simp [Order.isAt, hno, hstatus]⟩

theorem BillingDb.Paid.not_showsPending {db : BillingDb} (h : db.Paid dto) :
    db.showsPending dto = false := by
  refine List.any_eq_false.mpr fun o ho hat => ?_
  exact h.not_pending ho (Order.isAt_orderNo hat) (Order.isAt_status hat)

/-! ### What deliveries do -/

/-- PENDING and no call has returned, or PAID and some call has. -/
def OnePaid (dto : PaymentCallbackDto) (w : BillingWorld) : Prop :=
  w.committed.Unpaid dto ∧ (∀ th ∈ w.threads, th.result? = none) ∨
    w.committed.Paid dto ∧ ∃ th ∈ w.threads, th.result?.isSome

/-- What has been returned is the PAID order. -/
def ReturnsPaid (dto : PaymentCallbackDto) (w : BillingWorld) : Prop :=
  ∀ (t : Nat) (th : BillingThread) response, w.threads[t]? = some th →
    th.result? = some response → IsPaidOrder w.committed dto response

/-- A call has not returned when it arrives. -/
theorem delivery_running {th : BillingThread} (hevent : dto.event = .paid)
    (hcall : th.call = .handlePaymentCallback dto signature)
    (hprog : th.prog = (billingSystem platform).program th.call) : th.result? = none := by
  obtain ⟨call, prog, tx⟩ := th
  obtain rfl : call = .handlePaymentCallback dto signature := hcall
  have hrunning : prog.result? = none := by
    rw [show prog = platform.handlePaymentCallback dto signature from hprog]
    simp only [Platform.handlePaymentCallback, hevent]
    split
    · unfold Platform.markOrderPaid Platform.callbackTime
      split <;> rfl
    · rfl
  cases tx with
  | some tx => rfl
  | none => exact hrunning

theorem delivery_step (hevent : dto.event = .paid)
    (hw : w.Inv billingClient.engine (deliveryContract dto signature))
    (ha : OnlyDelivers dto signature a) (hstep : w.step (billingSystem platform) a = some w') :
    w'.Inv billingClient.engine (deliveryContract dto signature) ∧
      World.Effect (billingSystem platform) (deliveryContract dto signature) w a w' := by
  refine step_contract (S := billingSystem platform) (fun c hc => ?_) hw ?_ hstep
  · obtain rfl : c = .handlePaymentCallback dto signature := hc
    exact delivery_safe hevent
  · cases a with
    | spawn c => exact ha
    | run _ _ | abort _ => trivial

/-- The transition belongs to the call that returns with it. -/
theorem OnePaid.step (hevent : dto.event = .paid)
    (hw' : w'.Inv billingClient.engine (deliveryContract dto signature))
    (heffect : World.Effect (billingSystem platform) (deliveryContract dto signature) w a w')
    (hstep : w.step (billingSystem platform) a = some w') (h : OnePaid dto w) : OnePaid dto w' := by
  -- A call that has returned is still there.
  have hkept : (∃ th ∈ w.threads, th.result?.isSome) → ∃ th ∈ w'.threads, th.result?.isSome := by
    rintro ⟨th, hth, hdone⟩
    obtain ⟨t, ht⟩ := List.mem_iff_getElem?.mp hth
    obtain ⟨th', hth', -, hsame⟩ := World.step_thread hstep ht
    exact ⟨th, List.mem_of_getElem? (hsame hdone ▸ hth'), hdone⟩
  cases heffect with
  | quiet committed results =>
      refine h.imp (fun ⟨hunpaid, hnone⟩ => ⟨committed ▸ hunpaid, fun th hth => ?_⟩)
        fun ⟨hpaid, hdone⟩ => ⟨committed ▸ hpaid, hkept hdone⟩
      by_contra hdone
      obtain ⟨t, ht⟩ := List.mem_iff_getElem?.mp hth
      rcases results t th ht (Option.ne_none_iff_isSome.mp hdone) with hold | hprog
      · exact hdone (hnone th (List.mem_of_getElem? hold))
      · exact hdone (delivery_running hevent (hw'.threads th hth).1 hprog)
  | commit t env th rest _ found _ threads commits =>
      obtain ⟨-, hwork, hresponse⟩ := commits.post
      have hmoved : { th with prog := rest, tx := none } ∈ w'.threads :=
        threads ▸ List.mem_set (List.getElem?_eq_some_iff.mp found).1 _
      rcases hwork with hsame | ⟨-, hpaid, response, hrest⟩
      · refine h.imp (fun ⟨hunpaid, hnone⟩ => ⟨?_, fun th' hth' => ?_⟩)
          fun ⟨hpaid, hdone⟩ => ⟨?_, hkept hdone⟩
        · exact (show w'.committed = w.committed from hsame) ▸ hunpaid
        · rw [threads] at hth'
          rcases List.mem_or_eq_of_mem_set hth' with hold | rfl
          · exact hnone th' hold
          · by_contra hdone
            -- A call that returns without the transition has found it done.
            obtain ⟨response, hrest⟩ := Option.ne_none_iff_exists'.mp hdone
            obtain ⟨order, hmem, hno, hsame', -⟩ := hresponse response (Prog.result?_eq_some.mp hrest)
            refine hunpaid.not_paid ⟨order, ?_, hno, hsame'⟩
            exact (show w'.committed = w.committed from hsame) ▸ hmem
        · exact (show w'.committed = w.committed from hsame) ▸ hpaid
      · refine Or.inr ⟨hpaid, _, hmoved, ?_⟩
        rw [show rest = .ret response from hrest]
        rfl

theorem ReturnsPaid.step (hevent : dto.event = .paid)
    (hw' : w'.Inv billingClient.engine (deliveryContract dto signature))
    (heffect : World.Effect (billingSystem platform) (deliveryContract dto signature) w a w')
    (h : ReturnsPaid dto w) : ReturnsPaid dto w' := by
  intro t th response hth hresult
  cases heffect with
  | quiet committed results =>
      rcases results t th hth (by rw [hresult]; rfl) with hold | hprog
      · exact committed ▸ h t th response hold hresult
      · have hnone := delivery_running hevent (hw'.threads th (List.mem_of_getElem? hth)).1 hprog
        simp [hnone] at hresult
  | commit u env tu rest _ found _ threads commits =>
      rw [threads] at hth
      rcases getElem?_set_cases hth with ⟨-, rfl⟩ | ⟨-, hold⟩
      · exact commits.post.2.2 response (Prog.result?_eq_some.mp hresult)
      · have hpaid := h t th response hold hresult
        rcases commits.evolves with hsame | ⟨hunpaid, -⟩
        · exact (show w'.committed = w.committed from hsame) ▸ hpaid
        · obtain ⟨order, hmem, hno, hsame, -⟩ := hpaid
          exact absurd ⟨order, hmem, hno, hsame⟩ hunpaid.not_paid

theorem delivery_of_reachable {ok : BillingWorld → BillingAction → Prop} (hevent : dto.event = .paid)
    (hok : ∀ w a, ok w a → OnlyDelivers dto signature a)
    (h : (deliveryMachine platform dto).ReachableBy ok w) :
    w.Inv billingClient.engine (deliveryContract dto signature) ∧ ReturnsPaid dto w ∧
      OnePaid dto w := by
  refine h.invariant (I := fun w => w.Inv billingClient.engine (deliveryContract dto signature) ∧
    ReturnsPaid dto w ∧ OnePaid dto w) ?_ ?_
  · rintro ⟨db, threads⟩ ⟨hdb, rfl⟩
    refine ⟨⟨Or.inl hdb, fun _ h => by cases h⟩, fun t th response hth => ?_,
      Or.inl ⟨hdb, fun _ h => by cases h⟩⟩
    cases hth
  · rintro w a w' ⟨hw, hreturned, hpaid⟩ ha hstep
    obtain ⟨hw', heffect⟩ := delivery_step hevent hw (hok w a ha) hstep
    exact ⟨hw', hreturned.step hevent hw' heffect, hpaid.step hevent hw' heffect hstep⟩

/-- The order stays as it is, or is paid. -/
theorem delivery_evolves
    (heffect : World.Effect (billingSystem platform) (deliveryContract dto signature) w a w') :
    w'.committed = w.committed ∨ w.committed.Unpaid dto ∧ w'.committed.Paid dto := by
  cases heffect with
  | quiet committed _ => exact Or.inl committed
  | commit _ _ _ _ _ _ _ _ commits => exact commits.evolves

/-- A program of a delivery ends with its commit. -/
theorem delivery_closes (dto : PaymentCallbackDto) (signature : Option String) (hevent : dto.event = .paid) :
    ((billingSystem platform).program (.handlePaymentCallback dto signature)).Closes := by
  have htransaction : ∀ paidAt : JsDate,
      (Prog.transaction .repeatableRead (markOrderPaidTx dto paidAt)).Closes :=
    fun paidAt => Prog.closes_transaction (markOrderPaidTx_plain dto paidAt)
  simp only [billingSystem, BillingCall.program, Platform.handlePaymentCallback, hevent]
  split
  · unfold Platform.markOrderPaid Platform.callbackTime
    split
    · exact htransaction _
    · exact fun now => htransaction (some now)
  · trivial

/-! ### Calls that do not overlap -/

/-- Every call comes to its end if it is left alone, and until the order is paid one call at
most has read it. -/
structure NoOverlap (dto : PaymentCallbackDto) (w : BillingWorld) : Prop where
  solo : ∀ th ∈ w.threads, th.Solo billingClient.engine Env.Faultless
    (fun db => db.Unpaid dto ∨ db.Paid dto) (ReturnsOrder dto) w.committed
  one : w.committed.Unpaid dto → ∀ (i j : Nat) (thi thj : BillingThread), w.threads[i]? = some thi →
    w.threads[j]? = some thj → thi.pinned ≠ none → thj.pinned ≠ none → i = j

/-- A call that has read has done so before, or was at its first read. -/
theorem atFirstRead_of_pinned {th th' : BillingThread} {db db' : BillingDb} {env : Env}
    (hrun : th.run billingClient.engine db env = some (th', db')) (hpinned : th'.pinned ≠ none)
    (hnone : th.pinned = none) : atFirstRead th = true := by
  obtain ⟨call, prog, tx⟩ := th
  cases tx with
  | some tx => simpa [atFirstRead, Thread.pinned] using hnone
  | none =>
      cases prog with
      | ret _ | throw _ | commit _ => cases hrun
      | stmt _ _ | start _ _ =>
          cases hrun
          exact absurd rfl hpinned

theorem NoOverlap.run (hw : NoOverlap dto w) (hinv : w.committed.Unpaid dto ∨ w.committed.Paid dto)
    {t : Nat} {env : Env} (henv : env.Faultless) (hreads : ReadsAlone dto w (.run t env))
    (hevolves : w'.committed = w.committed ∨ w.committed.Unpaid dto ∧ w'.committed.Paid dto)
    (hstep : w.step (billingSystem platform) (.run t env) = some w') : NoOverlap dto w' := by
  simp only [World.step] at hstep
  split at hstep
  · rename_i th hth
    obtain ⟨⟨th', db'⟩, hrun, heq⟩ := Option.map_eq_some_iff.mp hstep
    cases heq
    obtain ⟨hsolo', hmoves⟩ := (hw.solo th (List.mem_of_getElem? hth)).run hinv henv hrun
    have hrunning := atFirstRead_of_pinned hrun
    refine ⟨fun u hu => ?_, fun hunpaid i j thi thj hi hj hpi hpj => ?_⟩
    · obtain ⟨j, hj⟩ := List.mem_iff_getElem?.mp hu
      rcases getElem?_set_cases hj with ⟨-, rfl⟩ | ⟨hne, hold⟩
      · exact hsolo'
      · have hsolo := hw.solo u (List.mem_of_getElem? hold)
        rcases hevolves with hsame | ⟨hunpaid, -⟩
        · exact (show db' = w.committed from hsame) ▸ hsolo
        · rcases hmoves with rfl | hpinned
          · exact hsolo
          · refine hsolo.other ?_ fun response hgood => ?_
            -- The call that pays the order is the only one that has read it.
            · by_contra hother
              exact hne (hw.one hunpaid j t u th hold hth hother hpinned)
            · obtain ⟨_, -, hpaid⟩ := hgood
              exact absurd hpaid.paid hunpaid.not_paid
    · have hsame : db' = w.committed := by
        rcases hevolves with hsame | ⟨-, hpaid⟩
        · exact hsame
        · exact absurd hpaid hunpaid.not_paid
      have hunpaid' : w.committed.Unpaid dto := hsame ▸ hunpaid
      -- A call that has just made its first read is the only one.
      have hfirst : ∀ (k : Nat) (thk : BillingThread), k ≠ t → w.threads[k]? = some thk →
          thk.pinned ≠ none → th'.pinned ≠ none → False := by
        intro k thk hk hold hpinned hnew
        by_cases hbefore : th.pinned = none
        · have hnone := hreads th hth (hrunning hnew hbefore) hunpaid'.showsPending thk
            (List.mem_of_getElem? hold)
          exact hpinned (by simpa using hnone)
        · exact hk (hw.one hunpaid' k t thk th hold hth hpinned hbefore)
      rcases getElem?_set_cases hi with ⟨rfl, rfl⟩ | ⟨hni, hoi⟩
      · rcases getElem?_set_cases hj with ⟨rfl, -⟩ | ⟨hnj, hoj⟩
        · rfl
        · exact (hfirst j thj hnj hoj hpj hpi).elim
      · rcases getElem?_set_cases hj with ⟨rfl, rfl⟩ | ⟨-, hoj⟩
        · exact (hfirst i thi hni hoi hpi hpj).elim
        · exact hw.one hunpaid' i j thi thj hoi hoj hpi hpj
  · cases hstep

theorem NoOverlap.spawn (hw : NoOverlap dto w) {c : BillingCall}
    (hopens : ((billingSystem platform).program c).Opens billingClient.engine Env.Faultless
      (fun db => db.Unpaid dto ∨ db.Paid dto) (ReturnsOrder dto))
    (hstep : w.step (billingSystem platform) (.spawn c) = some w') : NoOverlap dto w' := by
  cases hstep
  refine ⟨fun th hth => ?_, fun hunpaid i j thi thj hi hj hpi hpj => ?_⟩
  · rcases List.mem_append.mp hth with hold | hnew
    · exact hw.solo th hold
    · obtain rfl := List.mem_singleton.mp hnew
      exact Or.inl (Or.inl ⟨rfl, hopens⟩)
  · rcases getElem?_concat_cases hi with hi | ⟨-, rfl⟩
    · rcases getElem?_concat_cases hj with hj | ⟨-, rfl⟩
      · exact hw.one hunpaid i j thi thj hi hj hpi hpj
      · exact absurd rfl hpj
    · exact absurd rfl hpi

theorem noOverlap_of_reachable (hevent : dto.event = .paid)
    (hverifies : platform.verifies dto signature = true)
    (hdate : ∀ text ∈ truthy dto.paidAt, (platform.newDate text).isSome)
    (h : (deliveryMachine platform dto).ReachableBy
      (fun w a => OnlyDelivers dto signature a ∧ ReadsAlone dto w a) w) : NoOverlap dto w := by
  refine h.induction ?_ fun w a w' hreach hw ha hstep => ?_
  · rintro ⟨db, threads⟩ ⟨-, rfl⟩
    refine ⟨fun th hth => (by cases hth), fun _ i _ _ _ hi => ?_⟩
    cases hi
  · have hdeliveries := (delivery_of_reachable hevent (fun _ _ h => h.1) hreach).1
    obtain ⟨-, heffect⟩ := delivery_step hevent hdeliveries ha.1 hstep
    cases a with
    | spawn c =>
        obtain rfl : c = .handlePaymentCallback dto signature := ha.1
        exact hw.spawn (delivery_opens hevent hverifies hdate) hstep
    | run t env => exact hw.run hdeliveries.committed ha.1 ha.2 (delivery_evolves heffect) hstep
    | abort t => exact ha.1.elim

/-! ### Every call can go on -/

/-- The calls can go on until each of them has returned the PAID order. -/
def CanReturn (platform : Platform) (dto : PaymentCallbackDto) (signature : Option String)
    (w : BillingWorld) : Prop :=
  ∃ w', Relation.ReflTransGen
      ((deliveryMachine platform dto).Next fun _ a => OnlyDelivers dto signature a) w w' ∧
    w'.threads.map Thread.call = w.threads.map Thread.call ∧
    ∀ th ∈ w'.threads, ∃ response, th.result? = some response ∧ IsPaidOrder w'.committed dto response

theorem paid_stays {ok : BillingWorld → BillingAction → Prop} (hevent : dto.event = .paid)
    (hok : ∀ w a, ok w a → OnlyDelivers dto signature a)
    (hw : w.Inv billingClient.engine (deliveryContract dto signature))
    (hrun : Relation.ReflTransGen ((deliveryMachine platform dto).Next ok) w w')
    (hpaid : w.committed.Paid dto) : w'.committed.Paid dto := by
  refine (Machine.run_related
    (I := fun w => w.Inv billingClient.engine (deliveryContract dto signature))
    (R := fun w w' => w.committed.Paid dto → w'.committed.Paid dto) hrun hw
    (fun _ h => h) (fun h h' hpaid => h' (h hpaid)) fun w a w' hw ha hstep => ?_).2 hpaid
  obtain ⟨hw', heffect⟩ := delivery_step hevent hw (hok w a ha) hstep
  refine ⟨hw', fun hpaid => ?_⟩
  rcases delivery_evolves heffect with hsame | ⟨-, hpaid'⟩
  · exact hsame ▸ hpaid
  · exact hpaid'

section Returns

variable (hevent : dto.event = .paid) (hverifies : platform.verifies dto signature = true)
  (hdate : ∀ text ∈ truthy dto.paidAt, (platform.newDate text).isSome)

include hevent hverifies hdate

/-- A call that is left alone returns: the order is PAID, or no other call has read it. -/
theorem returns_alone (h : (deliveryMachine platform dto).ReachableBy
      (fun w a => OnlyDelivers dto signature a ∧ ReadsAlone dto w a) w) {t : Nat} {th : BillingThread}
    (ht : w.threads[t]? = some th)
    (hfree : w.committed.Paid dto ∨
      ∀ (u : Nat) (tu : BillingThread), u ≠ t → w.threads[u]? = some tu → tu.pinned = none) :
    ∃ (db : BillingDb) (th' : BillingThread), Relation.ReflTransGen ((deliveryMachine platform dto).Next
        fun w a => OnlyDelivers dto signature a ∧ ReadsAlone dto w a) w
        { committed := db, threads := w.threads.set t th' } ∧
      th'.call = th.call ∧ th'.result?.isSome ∧ db.Paid dto := by
  have hw := (delivery_of_reachable hevent (fun _ _ h => h.1) h).1
  have hmem := List.mem_of_getElem? ht
  obtain ⟨view, hat, hgood⟩ :=
    ((noOverlap_of_reachable hevent hverifies hdate h).solo th hmem).settles hw.committed
  have hsafe := (hw.threads th hmem).2.safe_at hw.committed hat
  have hmay : World.MayRun (billingSystem platform) (fun db => db.Unpaid dto)
      (fun w a => OnlyDelivers dto signature a ∧ ReadsAlone dto w a) Env.Faultless w t := by
    intro w' hrun hothers env henv
    refine ⟨henv, fun th' hth' hfirst hpending u hu => ?_⟩
    rcases hfree with hpaid | hnone
    · rw [(paid_stays hevent (fun _ _ h => h.1) hw hrun hpaid).not_showsPending] at hpending
      cases hpending
    · obtain ⟨j, hj⟩ := List.mem_iff_getElem?.mp hu
      by_cases hjt : j = t
      · subst hjt
        cases hj.symm.trans hth'
        obtain ⟨tx, htx, hsnapshot⟩ := (Option.any_eq_true _ _).mp hfirst
        simpa [Thread.pinned, show th'.tx = some tx from htx] using hsnapshot
      · rw [hnone j u hjt (hothers j hjt ▸ hj)]
        rfl
  obtain ⟨response, hok, hpaid⟩ := hgood (fun _ => {}) fun _ => rfl
  obtain ⟨th', hrun, hcall, hends⟩ := World.runs_alone th.prog ht hat hsafe hw.committed hmay
    (fun _ => (rfl : ({} : Env).fault = false))
  have hresult : th'.result? = some response := by
    have hends' : th'.EndsWith (th.prog.alone billingClient.engine view (fun _ => {}) w.committed).1 := hends
    rw [hok] at hends'
    exact hends'
  exact ⟨_, th', hrun, hcall, by rw [hresult]; rfl, hpaid.paid⟩

/-- One call after another is left alone. -/
theorem calls_return (h : (deliveryMachine platform dto).ReachableBy
      (fun w a => OnlyDelivers dto signature a ∧ ReadsAlone dto w a) w)
    (hfree : w.committed.Paid dto ∨ ∀ th ∈ w.threads, th.pinned = none) (n : Nat)
    (hn : n ≤ w.threads.length) :
    ∃ w', Relation.ReflTransGen ((deliveryMachine platform dto).Next
        fun w a => OnlyDelivers dto signature a ∧ ReadsAlone dto w a) w w' ∧
      w'.threads.map Thread.call = w.threads.map Thread.call ∧
      (w'.committed.Paid dto ∨ ∀ th ∈ w'.threads, th.pinned = none) ∧
      ∀ i < n, ∀ th : BillingThread, w'.threads[i]? = some th → th.result?.isSome := by
  induction n with
  | zero => exact ⟨w, .refl, rfl, hfree, fun i hi => absurd hi (Nat.not_lt_zero i)⟩
  | succ n ih =>
      obtain ⟨w₁, hrun, hcalls, hfree₁, hreturned⟩ := ih (by omega)
      have hlength : w₁.threads.length = w.threads.length := by
        simpa using congrArg List.length hcalls
      have hlt : n < w₁.threads.length := by omega
      obtain ⟨db, th', hrun', hcall, hdone, hpaid⟩ :=
        returns_alone hevent hverifies hdate (h.run hrun) (List.getElem?_eq_getElem hlt)
          (hfree₁.imp id fun hnone u tu _ hu => hnone tu (List.mem_of_getElem? hu))
      refine ⟨_, hrun.trans hrun', ?_, Or.inl hpaid, fun i hi th hth => ?_⟩
      · rw [← hcalls, List.map_set, hcall, ← List.getElem_map Thread.call (h := by simpa using hlt),
          List.set_getElem_self]
      · rcases getElem?_set_cases hth with ⟨-, rfl⟩ | ⟨hne, hold⟩
        · exact hdone
        · exact hreturned i (by omega) th hold

theorem canReturn_of_reachable (h : (deliveryMachine platform dto).ReachableBy
      (fun w a => OnlyDelivers dto signature a ∧ ReadsAlone dto w a) w) :
    CanReturn platform dto signature w := by
  have hall : ∀ w₁, (deliveryMachine platform dto).ReachableBy
        (fun w a => OnlyDelivers dto signature a ∧ ReadsAlone dto w a) w₁ →
      (w₁.committed.Paid dto ∨ ∀ th ∈ w₁.threads, th.pinned = none) →
      CanReturn platform dto signature w₁ := by
    intro w₁ h₁ hfree
    obtain ⟨w', hrun, hcalls, -, hreturned⟩ :=
      calls_return hevent hverifies hdate h₁ hfree _ (Nat.le_refl _)
    have hlength : w'.threads.length = w₁.threads.length := by simpa using congrArg List.length hcalls
    obtain ⟨-, hpaid, -⟩ := delivery_of_reachable hevent (fun _ _ h => h.1) (h₁.run hrun)
    refine ⟨w', Machine.run_mono hrun fun _ _ ha => ha.1, hcalls, fun th hth => ?_⟩
    obtain ⟨i, hi⟩ := List.mem_iff_getElem?.mp hth
    have hlt := (List.getElem?_eq_some_iff.mp hi).1
    obtain ⟨response, hresponse⟩ := Option.isSome_iff_exists.mp (hreturned i (by omega) th hi)
    exact ⟨response, hresponse, hpaid i th response hi hresponse⟩
  have hw := (delivery_of_reachable hevent (fun _ _ h => h.1) h).1
  rcases hw.committed with hunpaid | hpaid
  · by_cases hread : ∃ (t : Nat) (th : BillingThread), w.threads[t]? = some th ∧ th.pinned ≠ none
    · -- The call that has read the order comes to its end first.
      obtain ⟨t, th, ht, hpinned⟩ := hread
      obtain ⟨db, th', hrun, hcall, -, hpaid⟩ := returns_alone hevent hverifies hdate h ht
        (Or.inr fun u tu hne hu => by_contra fun hother =>
          hne ((noOverlap_of_reachable hevent hverifies hdate h).one hunpaid u t tu th hu ht hother hpinned))
      obtain ⟨w', hrun', hcalls, hreturned⟩ := hall _ (h.run hrun) (Or.inl hpaid)
      have hlt := (List.getElem?_eq_some_iff.mp ht).1
      refine ⟨w', (Machine.run_mono hrun fun _ _ ha => ha.1).trans hrun',
        hcalls.trans ?_, hreturned⟩
      rw [List.map_set, hcall, ← (List.getElem?_eq_some_iff.mp ht).2,
        ← List.getElem_map Thread.call (h := by simpa using hlt), List.set_getElem_self]
    · refine hall w h (Or.inr fun th hth => ?_)
      obtain ⟨t, ht⟩ := List.mem_iff_getElem?.mp hth
      exact by_contra fun hpinned => hread ⟨t, th, ht, hpinned⟩
  · exact hall w h (Or.inl hpaid)

end Returns

/-! ### Calls that overlap -/

/-- Call `i` has read the order as PENDING and has not returned. -/
def HasReadPending (dto : PaymentCallbackDto) (w : BillingWorld) (i : Nat) : Prop :=
  ∃ th : BillingThread, w.threads[i]? = some th ∧ th.prog.Closes ∧ ∃ db ∈ th.pinned, db.Unpaid dto

/-- One of two calls that have read the order as PENDING has not returned, nor will it. -/
def Conflicting (dto : PaymentCallbackDto) (w : BillingWorld) : Prop :=
  (w.committed.Unpaid dto ∧ ∃ i j, i ≠ j ∧ HasReadPending dto w i ∧ HasReadPending dto w j) ∨
    (w.committed.Paid dto ∧ ∃ i, HasReadPending dto w i)

theorem HasReadPending.not_returned {i : Nat} (h : HasReadPending dto w i) :
    ∃ th ∈ w.threads, th.result? = none := by
  obtain ⟨th, hth, -, db, hpinned, -⟩ := h
  refine ⟨th, List.mem_of_getElem? hth, ?_⟩
  cases htx : th.tx with
  | none => simp [Thread.pinned, htx] at hpinned
  | some tx => simp [Thread.result?, htx]

/-- A call that has read the order as PENDING goes on seeing it so, or it pays the order. -/
theorem HasReadPending.run (hw : w.Inv billingClient.engine (deliveryContract dto signature)) {i t : Nat}
    {env : Env} (h : HasReadPending dto w i)
    (hstep : w.step (billingSystem platform) (.run t env) = some w') :
    HasReadPending dto w' i ∨ t = i ∧ w.committed.Unpaid dto ∧ w'.committed.Paid dto := by
  obtain ⟨th, hth, hcloses, db, hpinned, hunpaid⟩ := h
  simp only [World.step] at hstep
  split at hstep
  · rename_i tu htu
    obtain ⟨⟨th', db'⟩, hrun, heq⟩ := Option.map_eq_some_iff.mp hstep
    cases heq
    by_cases hti : t = i
    · subst hti
      cases hth.symm.trans htu
      rcases Thread.run_pinned_stays hcloses hpinned hrun with
        ⟨-, hpinned', hcloses'⟩ | ⟨response, -, htx, hret⟩
      · exact Or.inl ⟨th', getElem?_set_of_some htu, hcloses', db, hpinned', hunpaid⟩
      · -- It commits into the state it has read.
        have hresult : th'.result? = some response := by simp [Thread.result?, htx, hret, Prog.result?]
        obtain ⟨-, -, ⟨-, hnone⟩ | ⟨rest, hrest, hcommits⟩⟩ :=
          Thread.run_contract (hw.threads th (List.mem_of_getElem? htu)).2 hw.committed hrun
        · simp [hresult] at hnone
        · have hsnapshot : (th.pinned).getD w.committed = w.committed := hcommits.post.1
          rw [show th.pinned = some db from hpinned, Option.getD_some] at hsnapshot
          have hrestRet : rest = .ret response := by simpa [hrest] using hret
          exact Or.inr ⟨rfl, hsnapshot ▸ hunpaid, (hcommits.post.2.2 response hrestRet).paid⟩
    · refine Or.inl ⟨th, ?_, hcloses, db, hpinned, hunpaid⟩
      exact (List.getElem?_set_ne hti).trans hth
  · cases hstep

theorem Conflicting.step (hevent : dto.event = .paid)
    (hw : w.Inv billingClient.engine (deliveryContract dto signature)) (h : Conflicting dto w)
    (ha : OnlyDelivers dto signature a) (hstep : w.step (billingSystem platform) a = some w') :
    Conflicting dto w' := by
  have hevolves := delivery_evolves (delivery_step hevent hw ha hstep).2
  cases a with
  | abort t => exact ha.elim
  | spawn c =>
      cases hstep
      have hkept : ∀ i, HasReadPending dto w i → HasReadPending dto
          { w with threads := w.threads ++ [{ call := c, prog := (billingSystem platform).program c }] } i := by
        rintro i ⟨th, hth, hread⟩
        exact ⟨th, getElem?_concat_of_some hth, hread⟩
      exact h.imp (And.imp_right fun ⟨i, j, hne, hi, hj⟩ => ⟨i, j, hne, hkept i hi, hkept j hj⟩)
        (And.imp_right fun ⟨i, hi⟩ => ⟨i, hkept i hi⟩)
  | run t env =>
      rcases h with ⟨hunpaid, i, j, hne, hi, hj⟩ | ⟨hpaid, i, hi⟩
      · rcases hi.run hw hstep with hi' | ⟨rfl, -, hpaid⟩ <;>
          rcases hj.run hw hstep with hj' | ⟨rfl, -, hpaid'⟩
        · rcases hevolves with hsame | ⟨-, hpaid⟩
          · exact Or.inl ⟨hsame ▸ hunpaid, i, j, hne, hi', hj'⟩
          · exact Or.inr ⟨hpaid, i, hi'⟩
        · exact Or.inr ⟨hpaid', i, hi'⟩
        · exact Or.inr ⟨hpaid, j, hj'⟩
        · exact absurd rfl hne
      · rcases hi.run hw hstep with hi' | ⟨-, hunpaid, -⟩
        · refine Or.inr ⟨?_, i, hi'⟩
          rcases hevolves with hsame | ⟨-, hpaid'⟩
          · exact hsame ▸ hpaid
          · exact hpaid'
        · exact absurd hpaid hunpaid.not_paid

/-- **A conflict**: of two calls that have both read the order as PENDING one never returns. -/
theorem overlap_conflicts (hevent : dto.event = .paid)
    (hw : w.Inv billingClient.engine (deliveryContract dto signature)) (h : Conflicting dto w) :
    ¬ CanReturn platform dto signature w := by
  rintro ⟨w', hrun, -, hreturned⟩
  have hconflict : Conflicting dto w' :=
    (Machine.run_related
      (I := fun w => w.Inv billingClient.engine (deliveryContract dto signature))
      (R := fun w w' => Conflicting dto w → Conflicting dto w') hrun hw (fun _ h => h)
      (fun h h' hc => h' (h hc)) fun w a w' hw ha hstep =>
        ⟨(delivery_step hevent hw ha hstep).1, fun hc => hc.step hevent hw ha hstep⟩).2 h
  obtain ⟨i, hi⟩ : ∃ i, HasReadPending dto w' i := by
    rcases hconflict with ⟨-, i, -, -, hi, -⟩ | ⟨-, i, hi⟩ <;> exact ⟨i, hi⟩
  obtain ⟨th, hth, hnone⟩ := hi.not_returned
  obtain ⟨response, hresponse, -⟩ := hreturned th hth
  rw [hnone] at hresponse
  cases hresponse

/-- While the order is unpaid, a call that has read it has read it as PENDING. -/
theorem NoOverlap.hasReadPending (hno : NoOverlap dto w) (hunpaid : w.committed.Unpaid dto)
    {j : Nat} {u : BillingThread} (hj : w.threads[j]? = some u) {db : BillingDb}
    (hdb : u.pinned = some db) : HasReadPending dto w j := by
  rcases hno.solo u (List.mem_of_getElem? hj) with hwaiting | ⟨hreading, view, hat, -⟩ | ⟨_, htx, _⟩
  · rw [hwaiting.unpinned] at hdb
    cases hdb
  · refine ⟨u, hj, hreading.2, db, hdb, ?_⟩
    cases view with
    | none =>
        rw [Thread.pinned, show u.tx = none from hat] at hdb
        cases hdb
    | some v =>
        obtain ⟨tx', htx', hcurrent, -⟩ := hat
        rw [Thread.pinned, htx', Option.bind_some] at hdb
        exact (hcurrent db hdb) ▸ hunpaid
  · rw [Thread.pinned, htx] at hdb
    cases hdb

/-- With its first read a call has read the committed order. -/
theorem NoOverlap.firstRead (hno : NoOverlap dto w) (hunpaid : w.committed.Unpaid dto)
    {t : Nat} {env : Env} {th : BillingThread} (hth : w.threads[t]? = some th)
    (hfirst : atFirstRead th = true) (hstep : w.step (billingSystem platform) (.run t env) = some w') :
    w'.committed = w.committed ∧ HasReadPending dto w' t := by
  obtain ⟨tx, htx, hsnapshot⟩ := (Option.any_eq_true _ _).mp hfirst
  have hnone : th.pinned = none := by
    simpa [Thread.pinned, show th.tx = some tx from htx] using hsnapshot
  have hwaiting := (hno.solo th (List.mem_of_getElem? hth)).resolve_right <| by
    rintro (⟨hreading, -⟩ | ⟨_, htx', -⟩)
    · exact hreading.1 hnone
    · rw [htx] at htx'
      cases htx'
  simp only [World.step] at hstep
  split at hstep
  · rename_i th₀ hth₀
    cases hth.symm.trans hth₀
    obtain ⟨⟨th', db'⟩, hrun, heq⟩ := Option.map_eq_some_iff.mp hstep
    cases heq
    obtain ⟨rfl, hreading⟩ := hwaiting.reads (by simp [show th.tx = some tx from htx]) hrun
    obtain ⟨db₀, hdb₀⟩ := Option.ne_none_iff_exists'.mp hreading.1
    have hread : db₀ = w.committed := by
      rcases Thread.run_pinned hrun hdb₀ with hold | hsame
      · rw [hnone] at hold
        cases hold
      · exact hsame
    exact ⟨rfl, th', getElem?_set_of_some hth, hreading.2, db₀, hdb₀, hread ▸ hunpaid⟩
  · cases hstep

/-- A first read beside another call that has read the order as PENDING. -/
theorem conflicting_of_read (hw : w.Inv billingClient.engine (deliveryContract dto signature))
    (hno : NoOverlap dto w) (hreads : ¬ ReadsAlone dto w a)
    (hstep : w.step (billingSystem platform) a = some w') : Conflicting dto w' := by
  cases a with
  | spawn _ | abort _ => exact absurd trivial hreads
  | run t env =>
      simp only [ReadsAlone, not_forall] at hreads
      obtain ⟨th, hth, hfirst, hpending, u, hu, hpinned⟩ := hreads
      have hunpaid : w.committed.Unpaid dto := hw.committed.resolve_right fun hpaid => by
        rw [hpaid.not_showsPending] at hpending
        cases hpending
      obtain ⟨j, hj⟩ := List.mem_iff_getElem?.mp hu
      obtain ⟨db, hdb⟩ := Option.ne_none_iff_exists'.mp (by simpa using hpinned)
      have hne : t ≠ j := by
        rintro rfl
        cases hj.symm.trans hth
        obtain ⟨tx, htx, hsnapshot⟩ := (Option.any_eq_true _ _).mp hfirst
        rw [Thread.pinned, htx, Option.bind_some, Option.isNone_iff_eq_none.mp hsnapshot] at hdb
        cases hdb
      obtain ⟨hsame, hself⟩ := hno.firstRead hunpaid hth hfirst hstep
      have hother := hno.hasReadPending hunpaid hj hdb
      rcases hother.run hw hstep with hother' | ⟨rfl, -, -⟩
      · exact Or.inl ⟨hsame ▸ hunpaid, t, j, hne, hself, hother'⟩
      · exact absurd rfl hne

/-! ### One payment -/

/-- What concurrent deliveries of one callback leave behind. -/
structure PaidOnce (platform : Platform) (dto : PaymentCallbackDto) (signature : Option String)
    (w : BillingWorld) : Prop where
  /-- No call has failed. -/
  succeeds : ∀ th ∈ w.threads, ∀ e, th.prog ≠ .throw e
  /-- Every call that has returned has returned the PAID order. -/
  returned : ReturnsPaid dto w
  /-- Every call can go on to its return. -/
  returns : CanReturn platform dto signature w
  /-- The order is PAID as soon as a call has returned, and not before. -/
  paid : OnePaid dto w
  /-- Only the step from PENDING to PAID changes the orders, and the call whose step it is
  returns with it. -/
  transition : ∀ a w', w.step (billingSystem platform) a = some w' → w'.committed = w.committed ∨
    w.committed.Unpaid dto ∧ w'.committed.Paid dto ∧
      ∃ t env th, a = .run t env ∧ w'.threads[t]? = some th ∧ th.result?.isSome

theorem delivery_transition (hevent : dto.event = .paid)
    (hw : w.Inv billingClient.engine (deliveryContract dto signature))
    (hstep : w.step (billingSystem platform) a = some w') : w'.committed = w.committed ∨
    w.committed.Unpaid dto ∧ w'.committed.Paid dto ∧
      ∃ t env th, a = .run t env ∧ w'.threads[t]? = some th ∧ th.result?.isSome := by
  rcases World.step_committed hstep with hsame | ⟨t, env, rfl⟩
  · exact Or.inl hsame
  · obtain ⟨-, heffect⟩ := step_contract (S := billingSystem platform)
      (K := deliveryContract dto signature) (fun c hc => by
        obtain rfl : c = .handlePaymentCallback dto signature := hc
        exact delivery_safe hevent) hw (a := .run t env) trivial hstep
    cases heffect with
    | quiet committed _ => exact Or.inl committed
    | commit u env' th rest action found _ threads commits =>
        cases action
        rcases commits.post.2.1 with hsame | ⟨hunpaid, hpaid', response, hrest⟩
        · exact Or.inl hsame
        · refine Or.inr ⟨hunpaid, hpaid', t, env, { th with prog := rest, tx := none }, rfl, ?_, ?_⟩
          · rw [threads]
            exact List.getElem?_set_self (List.getElem?_eq_some_iff.mp found).1
          · rw [show rest = .ret response from hrest]
            rfl

theorem paidOnce_of_reachable (hevent : dto.event = .paid)
    (hverifies : platform.verifies dto signature = true)
    (hdate : ∀ text ∈ truthy dto.paidAt, (platform.newDate text).isSome)
    (h : (deliveryMachine platform dto).ReachableBy
      (fun w a => OnlyDelivers dto signature a ∧ ReadsAlone dto w a) w) :
    PaidOnce platform dto signature w := by
  obtain ⟨hw, hreturned, hpaid⟩ := delivery_of_reachable hevent (fun _ _ h => h.1) h
  refine ⟨fun th hth e hthrown => ?_, hreturned, canReturn_of_reachable hevent hverifies hdate h, hpaid,
    fun a w' hstep => delivery_transition hevent hw hstep⟩
  obtain ⟨view, -, hgood⟩ :=
    ((noOverlap_of_reachable hevent hverifies hdate h).solo th hth).settles hw.committed
  obtain ⟨response, hok, -⟩ := hgood (fun _ => {}) fun _ => rfl
  rw [hthrown, Prog.alone_throw] at hok
  cases hok

/-- **One transition, no conflict**, when no two calls read the order as PENDING at once. With
the first step that breaks the condition the calls can no longer all return. -/
theorem paid_once (platform : Platform) (dto : PaymentCallbackDto) (signature : Option String)
    (hevent : dto.event = .paid) (hverifies : platform.verifies dto signature = true)
    (hdate : ∀ text ∈ truthy dto.paidAt, (platform.newDate text).isSome) {w : BillingWorld}
    (h : (deliveryMachine platform dto).ReachableBy
      (fun w a => OnlyDelivers dto signature a ∧ ReadsAlone dto w a) w) :
    PaidOnce platform dto signature w ∧ ∀ a w', OnlyDelivers dto signature a →
      (deliveryMachine platform dto).step w a = some w' →
      (CanReturn platform dto signature w' ↔ ReadsAlone dto w a) := by
  have hw := (delivery_of_reachable hevent (fun _ _ h => h.1) h).1
  refine ⟨paidOnce_of_reachable hevent hverifies hdate h, fun a w' ha hstep => ⟨fun hreturns => ?_,
    fun hreads => canReturn_of_reachable hevent hverifies hdate (h.next ⟨ha, hreads⟩ hstep)⟩⟩
  by_contra hoverlap
  refine overlap_conflicts hevent (delivery_step hevent hw ha hstep).1 ?_ hreturns
  exact conflicting_of_read hw (noOverlap_of_reachable hevent hverifies hdate h) hoverlap hstep

end Runs

/-! ### Two deliveries -/

def pendingOrder : Order where
  id := "o1"
  tenantId := none
  orderNo := "ORD1716123456A1B2C3D4"
  studentId := none
  title := ""
  amountCents := 399900
  currency := DEFAULT_CURRENCY
  status := .pending
  paymentProvider := none
  providerTradeNo := none
  idempotencyKey := some "create-order-1"
  paidAt := none
  refundedAt := none

def onePendingOrder : BillingDb where
  student _ := none
  orders := ⟨[pendingOrder], by decide⟩

theorem onePendingOrder_unpaid :
    onePendingOrder.Unpaid PAYMENT_CALLBACK_PAID_REQUEST_EXAMPLE := by
  refine ⟨fun o ho => ?_, pendingOrder, List.mem_singleton_self _, rfl, rfl, fun o ho _ => ?_⟩
  · obtain rfl := List.mem_singleton.mp ho
    exact Order.IsNew.consistent ⟨rfl, rfl, rfl⟩
  · exact List.mem_singleton.mp ho

/-- Two deliveries; `first` and `second` tell how many steps the first call takes before
the second one starts, and how many the second one takes before the first one goes on. -/
def twoDeliveries (first second : Nat) : List BillingAction :=
  let call : BillingCall := .handlePaymentCallback PAYMENT_CALLBACK_PAID_REQUEST_EXAMPLE
    (some PAYMENT_SIGNATURE_EXAMPLE)
  [.spawn call, .spawn call] ++ List.replicate first (.run 0 {}) ++
    List.replicate second (.run 1 {}) ++ List.replicate (5 - first) (.run 0 {}) ++
    List.replicate (4 - second) (.run 1 {})

theorem twoDeliveries_delivers (first second : Nat) :
    (deliveryMachine examplePlatform PAYMENT_CALLBACK_PAID_REQUEST_EXAMPLE).Admits
      (fun _ a => OnlyDelivers PAYMENT_CALLBACK_PAID_REQUEST_EXAMPLE (some PAYMENT_SIGNATURE_EXAMPLE) a)
      { committed := onePendingOrder } (twoDeliveries first second) := by
  refine Machine.admits_of_forall fun a ha _ => ?_
  simp only [twoDeliveries, List.mem_append, List.mem_cons, List.mem_replicate] at ha
  rcases ha with (((((rfl | rfl | h) | ⟨_, rfl⟩) | ⟨_, rfl⟩) | ⟨_, rfl⟩) | ⟨_, rfl⟩) <;>
    first | rfl | cases h

/-- What the calls have returned or thrown. -/
def outcomes (w : BillingWorld) : List (Option OrderStatus × Option HttpException) :=
  w.threads.map fun th => (th.result?.map fun response => response.order.status,
    match th.prog with
    | .throw e => some e
    | _ => none)

/-- The second call reads the order after the first one has committed. -/
theorem paid_once_one_after_another :
    ∃ w, (deliveryMachine examplePlatform PAYMENT_CALLBACK_PAID_REQUEST_EXAMPLE).exec
        { committed := onePendingOrder } (twoDeliveries 5 1) = some w ∧
      outcomes w = [(some .paid, none), (some .paid, none)] ∧
      PaidOnce examplePlatform PAYMENT_CALLBACK_PAID_REQUEST_EXAMPLE (some PAYMENT_SIGNATURE_EXAMPLE) w ∧
      ∀ a w', OnlyDelivers PAYMENT_CALLBACK_PAID_REQUEST_EXAMPLE (some PAYMENT_SIGNATURE_EXAMPLE) a →
        (deliveryMachine examplePlatform PAYMENT_CALLBACK_PAID_REQUEST_EXAMPLE).step w a = some w' →
        (CanReturn examplePlatform PAYMENT_CALLBACK_PAID_REQUEST_EXAMPLE (some PAYMENT_SIGNATURE_EXAMPLE) w' ↔
          ReadsAlone PAYMENT_CALLBACK_PAID_REQUEST_EXAMPLE w a) := by
  have hrun : ((deliveryMachine examplePlatform PAYMENT_CALLBACK_PAID_REQUEST_EXAMPLE).exec
      { committed := onePendingOrder } (twoDeliveries 5 1)).map outcomes =
      some [(some .paid, none), (some .paid, none)] := by
    decide +kernel
  obtain ⟨w, hexec, houtcomes⟩ := Option.map_eq_some_iff.mp hrun
  refine ⟨w, hexec, houtcomes, ?_⟩
  exact paid_once examplePlatform PAYMENT_CALLBACK_PAID_REQUEST_EXAMPLE
    (some PAYMENT_SIGNATURE_EXAMPLE) rfl (by decide +kernel) (by decide +kernel)
    (Machine.reachableBy_exec (Machine.reachableBy_init (System.machine_init onePendingOrder_unpaid))
      ((twoDeliveries_delivers 5 1).and (by decide +kernel)) hexec)

/-- Both calls read the order before either commits: the second one fails. -/
theorem conflict_of_two_deliveries :
    ∃ w, (deliveryMachine examplePlatform PAYMENT_CALLBACK_PAID_REQUEST_EXAMPLE).ReachableBy
        (fun _ a =>
          OnlyDelivers PAYMENT_CALLBACK_PAID_REQUEST_EXAMPLE (some PAYMENT_SIGNATURE_EXAMPLE) a) w ∧
      outcomes w = [(some .paid, none), (none, some (.conflict "支付处理冲突，请重试"))] ∧
      ¬ PaidOnce examplePlatform PAYMENT_CALLBACK_PAID_REQUEST_EXAMPLE (some PAYMENT_SIGNATURE_EXAMPLE) w := by
  have hrun : ((deliveryMachine examplePlatform PAYMENT_CALLBACK_PAID_REQUEST_EXAMPLE).exec
      { committed := onePendingOrder } (twoDeliveries 2 2)).map outcomes =
      some [(some .paid, none), (none, some (.conflict "支付处理冲突，请重试"))] := by
    decide +kernel
  obtain ⟨w, hexec, houtcomes⟩ := Option.map_eq_some_iff.mp hrun
  refine ⟨w, Machine.reachableBy_exec
    (Machine.reachableBy_init (System.machine_init onePendingOrder_unpaid))
    (twoDeliveries_delivers 2 2) hexec, houtcomes, fun hclaim => ?_⟩
  have hthrown : (outcomes w)[1]? = some (none, some (.conflict "支付处理冲突，请重试")) := by
    rw [houtcomes]
    rfl
  obtain ⟨th, hth, heq⟩ := Option.map_eq_some_iff.mp (List.getElem?_map.symm.trans hthrown)
  have hprog := (Prod.mk.inj heq).2
  split at hprog
  · exact hclaim.succeeds th (List.mem_of_getElem? hth) _ ‹_›
  · cases hprog

end MibServer.Billing
