import MibServer.Billing.Lifecycle

/-!
`createOrder` under one idempotency key.

An insert is the last statement of its call, so every call that returns gives a row of
its key: the one it has found, the one it has inserted, or the one it has found after
the insert was refused. Nothing here changes a row, and the unique index allows one row
of a key.
-/

namespace MibServer.Billing

open MibServer.Lib MibServer.Prisma Relation

/-! ### One commit -/

abbrev BillingCommit := Commit BillingDb BillingCall (BillingProg SerializedOrder)

/-- The response is a row of the key. -/
def IsRowOf (db : BillingDb) (key : String) (response : SerializedOrder) : Prop :=
  ∃ row ∈ db.orders.rows, row.idempotencyKey = some key ∧ response = serializeOrder row

/-- What a statement of `createOrder` does. -/
inductive Creates (key : String) (m : BillingCommit) : Prop where
  | reads (same : m.work = m.base)
      (answers : ∀ response, m.rest = .ret response → IsRowOf m.base key response)
  | inserts (row : Order) (rowKey : row.idempotencyKey = some key)
      (rows : m.work.orders.rows = m.base.orders.rows ++ [row])
      (returns : m.rest = .ret (serializeOrder row))

/-- Rows stay as they are. -/
def BillingDb.Keeps (db db' : BillingDb) : Prop := ∀ o ∈ db.orders.rows, o ∈ db'.orders.rows

theorem IsRowOf.keeps {db db' : BillingDb} {key : String} {response : SerializedOrder}
    (h : IsRowOf db key response) (hkeeps : db.Keeps db') : IsRowOf db' key response := by
  obtain ⟨row, hrow, hkey, heq⟩ := h
  exact ⟨row, hkeeps row hrow, hkey, heq⟩

theorem Creates.keeps {key : String} {m : BillingCommit} (h : Creates key m) :
    m.base.Keeps m.work := by
  intro o ho
  cases h with
  | reads same _ => exact same ▸ ho
  | inserts row _ rows _ => exact rows ▸ List.mem_append_left _ ho

/-- What the call returns with this commit is a row of its key. -/
theorem Creates.answers {key : String} {m : BillingCommit} (h : Creates key m)
    {response : SerializedOrder} (hrest : m.rest = .ret response) : IsRowOf m.work key response := by
  cases h with
  | reads same answers => exact same ▸ answers response hrest
  | inserts row rowKey rows returns =>
      cases hrest.symm.trans returns
      exact ⟨row, rows ▸ List.mem_append_right _ (List.mem_singleton_self row), rowKey, rfl⟩

def BillingCall.CreatesOrder (c : BillingCall) : Prop := ∃ ambient dto key, c = .createOrder ambient dto key

/-- The contract of `createOrder` among calls of its kind. -/
def creationContract : Contract BillingDb BillingCall (BillingProg SerializedOrder) where
  inv _ := True
  evolves := BillingDb.Keeps
  refl _ _ ho := ho
  trans h h' o ho := h' o (h o ho)
  post m := ∀ ambient dto key, m.call = .createOrder ambient dto key → Creates key m
  calls := BillingCall.CreatesOrder

/-! ### The statements -/

section Statements

variable {ambient : Tenancy.Ambient} {dto : CreateOrderDto} {key : String}

/-- If the program has returned, then with a row of the key. -/
def Answers (db : BillingDb) (key : String) (p : BillingProg SerializedOrder) : Prop :=
  ∀ response, p = .ret response → IsRowOf db key response

theorem commits_creates {m : BillingCommit} (hcall : m.call = .createOrder ambient dto key)
    (h : Creates key m) : creationContract.Commits m := by
  refine ⟨trivial, h.keeps, fun ambient' dto' key' hcall' => ?_⟩
  cases hcall.symm.trans hcall'
  exact h

/-- A call of the key that goes on safely. -/
abbrev SafeFor (ambient : Tenancy.Ambient) (dto : CreateOrderDto) (key : String)
    (p : BillingProg SerializedOrder) : Prop :=
  p.Safe billingClient.engine creationContract (.createOrder ambient dto key) none

/-- A statement that leaves the rows alone. -/
theorem safe_of_quiet {q : BillingStmt} {k : q.Reply → BillingProg SerializedOrder}
    (hquiet : ∀ env (db : BillingDb), (billingClient.exec db env q).2 = db)
    (hanswers : ∀ env (db : BillingDb), Answers db key (k (billingClient.exec db env q).1))
    (h : ∀ reply, SafeFor ambient dto key (k reply)) : SafeFor ambient dto key (.stmt q k) := by
  intro env db _
  exact ⟨commits_creates rfl (.reads (hquiet env db) (hanswers env db)), h _⟩

theorem answers_stmt {db : BillingDb} {q : BillingStmt} {k : q.Reply → BillingProg SerializedOrder} :
    Answers db key (.stmt q k) := by
  intro response h
  cases h

theorem answers_throw {db : BillingDb} {e : HttpException} : Answers db key (.throw e) := by
  intro response h
  cases h

/-- A read, answered from the current rows. -/
theorem safeFor_find {r : BillingRead} {k : r.Row → BillingProg SerializedOrder}
    (hanswers : ∀ db : BillingDb, Answers db key (k (db.rows.find r)))
    (h : ∀ row, SafeFor ambient dto key (k row)) : SafeFor ambient dto key ((find r).bind k) := by
  refine safe_of_quiet (fun _ _ => rfl) (fun env db => ?_) fun reply => ?_
  · simp only [Client.exec]
    split
    · exact answers_throw
    · exact hanswers db
  · cases reply with
    | error _ => trivial
    | ok row => exact h row

theorem safeFor_orderTenant {studentId : Option String}
    {k : Option String → BillingProg SerializedOrder}
    (hanswers : ∀ db tenantId, Answers db key (k tenantId))
    (h : ∀ tenantId, SafeFor ambient dto key (k tenantId)) :
    SafeFor ambient dto key ((orderTenant ambient studentId).bind k) := by
  unfold orderTenant
  split
  · exact h none
  · rw [Prog.bind_eq, Prog.bind_assoc]
    refine safeFor_find (fun db => ?_) fun student => ?_
    · split
      · exact hanswers db _
      · exact answers_throw
    · cases student with
      | none => trivial
      | some tenantId => exact h tenantId

/-- The lookup by key: a row that is found is returned as it is. -/
theorem safeFor_lookup {scope : Option Tenancy.TenantWhereClause}
    {k : Option Order → BillingProg SerializedOrder}
    (hfound : ∀ row, k (some row) = .ret (serializeOrder row))
    (hnone : SafeFor ambient dto key (k none) ∧ ∀ db, Answers db key (k none)) :
    SafeFor ambient dto key ((find (.findByIdempotencyKey key scope)).bind k) := by
  refine safeFor_find (fun db => ?_) fun existing => ?_
  · cases hfind : db.rows.find (.findByIdempotencyKey key scope) with
    | none => exact hnone.2 db
    | some row =>
        intro response h
        have hkey := List.find?_some hfind
        simp only [Bool.and_eq_true, beq_iff_eq] at hkey
        cases (hfound row).symm.trans h
        exact ⟨row, List.mem_of_find?_eq_some hfind, hkey.1, rfl⟩
  · cases existing with
    | none => exact hnone.1
    | some row =>
        rw [hfound row]
        trivial

/-- The insert: the last statement where it succeeds. -/
theorem safeFor_insert {row : Order} {k : Except DbError Order → BillingProg SerializedOrder}
    (hkey : row.idempotencyKey = some key)
    (herror : ∀ error, SafeFor ambient dto key (k (.error error)) ∧
      ∀ db, Answers db key (k (.error error)))
    (hok : k (.ok row) = .ret (serializeOrder row)) :
    SafeFor ambient dto key (.stmt (.write (.createOrder row)) k) := by
  intro env db _
  have hexec : billingClient.engine.exec (.write (.createOrder row)) env db =
      if env.fault then (.error .other, db) else db.createOrder row := rfl
  rw [hexec]
  have hrefused : ∀ error, creationContract.Commits ⟨.createOrder ambient dto key,
      .stmt (.write (.createOrder row)) k, db, db, db, k (.error error)⟩ :=
    fun error => commits_creates rfl (.reads rfl ((herror error).2 db))
  cases env.fault with
  | true => exact ⟨hrefused .other, (herror .other).1⟩
  | false =>
      rcases BillingDb.createOrder_cases db row with ⟨error, hresult⟩ | ⟨orders, hrows, hresult⟩
      · simp only [Bool.false_eq_true, if_false, hresult]
        exact ⟨hrefused error, (herror error).1⟩
      · simp only [Bool.false_eq_true, if_false, hresult]
        refine ⟨commits_creates rfl (.inserts row hkey hrows hok), ?_⟩
        rw [hok]
        trivial

theorem createOrder_creates (ambient : Tenancy.Ambient) (dto : CreateOrderDto) (key : String) :
    SafeFor ambient dto key (createOrder ambient dto key) := by
  unfold createOrder generateOrderNo
  refine safeFor_orderTenant (fun db tenantId => answers_stmt) fun tenantId => ?_
  refine safeFor_lookup (fun _ => rfl) ⟨?_, fun _ => answers_stmt⟩
  -- The clock and the random bytes of the row.
  refine safe_of_quiet (fun _ _ => rfl) (fun _ _ => answers_stmt) fun now => ?_
  refine safe_of_quiet (fun _ _ => rfl) (fun _ _ => answers_stmt) fun suffix => ?_
  refine safe_of_quiet (fun _ _ => rfl) (fun _ _ => answers_stmt) fun id => ?_
  refine safeFor_insert rfl (fun error => ?_) rfl
  simp only [Prog.bind_eq, Prog.ret_bind]
  split
  · exact ⟨safeFor_lookup (fun _ => rfl) ⟨trivial, fun _ => answers_throw⟩, fun _ => answers_stmt⟩
  · exact ⟨trivial, fun _ => answers_throw⟩

/-- No call of `createOrder` starts a transaction. -/
theorem createOrder_plain (ambient : Tenancy.Ambient) (dto : CreateOrderDto) (key : String) :
    (createOrder ambient dto key).Plain := by
  unfold createOrder generateOrderNo
  refine Prog.Plain.bind ?_ fun tenantId => (plain_find _).bind fun existing => ?_
  · unfold orderTenant
    split
    · trivial
    · refine (plain_find _).bind fun student => ?_
      cases student <;> trivial
  · cases existing with
    | some existing => trivial
    | none =>
        intro now suffix id inserted
        cases inserted with
        | ok created => trivial
        | error error =>
            simp only [Prog.bind_eq, Prog.ret_bind]
            split
            · refine (plain_find _).bind fun winner => ?_
              cases winner <;> trivial
            · trivial

end Statements

/-! ### Every run -/

section Runs

variable {platform : Platform} {w w' : BillingWorld} {a : BillingAction}

/-- The calls that arrive create orders. -/
def OnlyCreates : BillingAction → Prop
  | .spawn c => c.CreatesOrder
  | _ => True

/-- Any number of calls on any orders. -/
abbrev creationMachine (platform : Platform) : Machine BillingWorld BillingAction :=
  (billingSystem platform).machine fun _ => True

/-- What has been returned for a key is its row. -/
def ReturnsRows (w : BillingWorld) : Prop :=
  ∀ (t : Nat) (th : BillingThread) ambient dto key response, w.threads[t]? = some th →
    th.call = .createOrder ambient dto key → th.result? = some response →
    IsRowOf w.committed key response

theorem program_creates (c : BillingCall) (hc : c.CreatesOrder) :
    (c.program platform).Safe billingClient.engine creationContract c none := by
  obtain ⟨ambient, dto, key, rfl⟩ := hc
  exact createOrder_creates ambient dto key

/-- A call has not returned when it arrives. -/
theorem program_running {th : BillingThread} (hc : th.call.CreatesOrder)
    (hprog : th.prog = (billingSystem platform).program th.call) : th.result? = none := by
  obtain ⟨call, prog, tx⟩ := th
  obtain ⟨ambient, dto, key, rfl⟩ := hc
  have hrunning : prog.result? = none := by
    rw [show prog = createOrder ambient dto key from hprog]
    unfold createOrder orderTenant
    split <;> rfl
  cases tx with
  | some tx => rfl
  | none => exact hrunning

theorem creation_of_reachable
    (h : (creationMachine platform).ReachableBy (fun _ a => OnlyCreates a) w) :
    w.Inv billingClient.engine creationContract ∧ ReturnsRows w := by
  refine System.reachable_contract (S := billingSystem platform) (K := creationContract)
    (J := ReturnsRows) program_creates (fun _ _ => trivial) (fun _ a ha => by cases a <;> exact ha)
    h ?_ ?_
  · rintro s - t th ambient dto key response hth
    cases hth
  · rintro w w' a hw hreturned - heffect t th ambient dto key response hth hcall hresult
    cases heffect with
    | quiet committed results =>
        rw [committed]
        rcases results t th hth (by rw [hresult]; rfl) with hold | hprog
        · exact hreturned t th ambient dto key response hold hcall hresult
        · have hnone := program_running ⟨ambient, dto, key, hcall⟩ hprog
          simp [hnone] at hresult
    | commit u env tu rest _ found _ threads commits =>
        rw [threads] at hth
        rcases getElem?_set_cases hth with ⟨-, rfl⟩ | ⟨-, hold⟩
        · have hcreates := commits.post ambient dto key hcall
          exact hcreates.answers (Prog.result?_eq_some.mp hresult)
        · exact (hreturned t th ambient dto key response hold hcall hresult).keeps commits.evolves

theorem plain_of_reachable
    (h : (creationMachine platform).ReachableBy (fun _ a => OnlyCreates a) w) :
    ∀ th ∈ w.threads, th.Plain := by
  refine h.invariant ?_ fun w a w' hw ha hstep => World.plain_step hw (fun c hspawn => ?_) hstep
  · rintro ⟨s, threads⟩ ⟨-, rfl⟩ th hth
    cases hth
  · subst hspawn
    obtain ⟨ambient, dto, key, rfl⟩ := ha
    exact createOrder_plain ambient dto key

/-- Call `t` has inserted a row of its key, and has returned it for good. -/
def Inserts (platform : Platform) (w w' : BillingWorld) (t : Nat) : Prop :=
  ∃ th ambient dto key row, w.threads[t]? = some th ∧ th.call = .createOrder ambient dto key ∧
    row.idempotencyKey = some key ∧ w'.committed.orders.rows = w.committed.orders.rows ++ [row] ∧
    ∃ th', th'.result? = some (serializeOrder row) ∧ ∀ w'',
      ReflTransGen ((creationMachine platform).Next fun _ _ => True) w' w'' →
        w''.threads[t]? = some th'

theorem inserted_of_step (h : (creationMachine platform).ReachableBy (fun _ a => OnlyCreates a) w)
    (hstep : w.step (billingSystem platform) a = some w') :
    w'.committed = w.committed ∨ ∃ t env, a = .run t env ∧ Inserts platform w w' t := by
  rcases World.step_committed hstep with hsame | ⟨t, env, rfl⟩
  · exact Or.inl hsame
  obtain ⟨-, heffect⟩ := step_contract (S := billingSystem platform) program_creates
    (creation_of_reachable h).1 (a := .run t env) trivial hstep
  cases heffect with
  | quiet committed _ => exact Or.inl committed
  | commit u env' th rest action found call threads commits =>
      cases action
      obtain ⟨ambient, dto, key, hcall⟩ := call
      cases commits.post ambient dto key hcall with
      | reads same _ => exact Or.inl same
      | inserts row rowKey rows returns =>
          have hfound : w'.threads[t]? = some { th with prog := .ret (serializeOrder row), tx := none } := by
            rw [threads, show rest = .ret (serializeOrder row) from returns]
            exact List.getElem?_set_self (List.getElem?_eq_some_iff.mp found).1
          exact Or.inr ⟨t, env, rfl, th, ambient, dto, key, row, found, hcall, rowKey, rows,
            { th with prog := .ret (serializeOrder row), tx := none }, rfl,
            fun w'' hrun => System.finished_stays hrun hfound rfl⟩

/-- What concurrent calls of `createOrder` leave behind. -/
structure CreatedOnce (platform : Platform) (w : BillingWorld) : Prop where
  /-- At most one order has a key. -/
  single : ∀ key, w.committed.orders.rows.countP (fun o => o.idempotencyKey == some key) ≤ 1
  /-- Every call that has returned has returned the order of its key. -/
  returned : ReturnsRows w
  /-- A step leaves the orders alone or inserts one row; the call that inserts it returns
  it with this step, and for good. -/
  inserted : ∀ a w', w.step (billingSystem platform) a = some w' → w'.committed = w.committed ∨
    ∃ t env, a = .run t env ∧ Inserts platform w w' t
  /-- A call that has neither returned nor thrown can go on. -/
  progress : ∀ t th, w.threads[t]? = some th → th.result?.isSome ∨ (∃ e, th.prog = .throw e) ∨
    ∀ env, (w.step (billingSystem platform) (.run t env)).isSome

/-- **One order for each key**, in every interleaving of any number of calls of
`createOrder`. -/
theorem created_once (platform : Platform) {w : BillingWorld}
    (h : (creationMachine platform).ReachableBy (fun _ a => OnlyCreates a) w) :
    CreatedOnce platform w := by
  obtain ⟨hw, hreturned⟩ := creation_of_reachable h
  refine ⟨fun key => ?_, hreturned, fun a w' hstep => ?_, fun t th hth => ?_⟩
  · refine w.committed.orders.unique.countP_le_one (k := .idempotencyKey key) fun o _ ho => ?_
    simp only [beq_iff_eq] at ho
    simp [Order.keys, ho]
  · exact inserted_of_step h hstep
  · rcases (plain_of_reachable h th (List.mem_of_getElem? hth)).progress with hdone | hthrown | hruns
    · exact Or.inl hdone
    · exact Or.inr (Or.inl hthrown)
    · refine Or.inr (Or.inr fun env => ?_)
      simp [World.step, hth, hruns]

end Runs

/-! ### Two calls of one key -/

/-- Both calls look the key up before either inserts. -/
def createdTwiceAtOnce : List BillingAction :=
  let unscoped : Tenancy.Ambient := { isTenantBypass := false, getAccessContext := none }
  let call (title : String) : BillingCall :=
    .createOrder unscoped { title, amountCents := 399900 } "create-order-1"
  [.spawn (call "first"), .spawn (call "second")] ++
    List.replicate 4 (.run 0 { now := 1716123456, random := "A1B2C3D4" }) ++
    List.replicate 5 (.run 1 { now := 1716123456, random := "E5F60718" }) ++
    [.run 0 {}, .run 0 {}]

/-- The second call inserts; the first is refused and returns the order of the second. -/
theorem created_once_at_once :
    ∃ w, (creationMachine examplePlatform).exec { committed := noOrders } createdTwiceAtOnce = some w ∧
      w.committed.orders.rows.map Order.title = ["second"] ∧
      w.threads.map (fun th => th.result?.map fun response => response.order.title) =
        [some "second", some "second"] ∧
      CreatedOnce examplePlatform w := by
  have hrun : ((creationMachine examplePlatform).exec { committed := noOrders }
      createdTwiceAtOnce).map (fun w => (w.committed.orders.rows.map Order.title,
        w.threads.map fun th => th.result?.map fun response => response.order.title)) =
      some (["second"], [some "second", some "second"]) := by
    decide +kernel
  obtain ⟨w, hexec, hw⟩ := Option.map_eq_some_iff.mp hrun
  obtain ⟨horders, hresults⟩ := Prod.mk.inj hw
  have hadmits : (creationMachine examplePlatform).Admits (fun _ a => OnlyCreates a)
      { committed := noOrders } createdTwiceAtOnce := by
    refine Machine.admits_of_forall fun a ha _ => ?_
    cases a with
    | spawn c =>
        simp [createdTwiceAtOnce] at ha
        rcases ha with rfl | rfl <;> exact ⟨_, _, _, rfl⟩
    | run _ _ | abort _ => trivial
  exact ⟨w, hexec, horders, hresults, created_once examplePlatform (Machine.reachableBy_exec
    (Machine.reachableBy_init (System.machine_init trivial)) hadmits hexec)⟩

end MibServer.Billing
