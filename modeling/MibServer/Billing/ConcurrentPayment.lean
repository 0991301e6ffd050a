import MibServer.Billing.Lifecycle

/-!
One PAID callback delivered any number of times at once.

The plain reads of a callback see the order as it was at its first read, and so does the
second read that is to resolve a lost race. A callback whose conditional update finds the
order already PAID therefore reads PENDING again and answers 409: only a callback that commits
into the state it has read returns (`delivery_safe`), and one that is left alone does
(`delivery_opens`).
-/

namespace MibServer.Billing

open MibServer.Lib MibServer.Prisma

/-! ### Before and after the payment -/

section Payment

variable {dto : PaymentCallbackDto} {db : BillingDb}

/-- The order of the callback is PENDING, and no other one has its trade number. -/
def BillingDb.Unpaid (db : BillingDb) (dto : PaymentCallbackDto) : Prop :=
  db.Consistent ∧ ∃ order ∈ db.orders.rows, order.orderNo = dto.orderNo ∧ order.status = .pending ∧
    ∀ o ∈ db.orders.rows, o.trade = some (dto.provider, dto.providerTradeNo) → o = order

/-- The order of the callback is PAID by it. -/
def BillingDb.Paid (db : BillingDb) (dto : PaymentCallbackDto) : Prop :=
  ∃ order ∈ db.orders.rows, order.orderNo = dto.orderNo ∧ isSamePaidCallback order dto = true

/-- The response is the PAID order. -/
def IsPaidOrder (db : BillingDb) (dto : PaymentCallbackDto) (response : SerializedOrder) : Prop :=
  ∃ order ∈ db.orders.rows, order.orderNo = dto.orderNo ∧ isSamePaidCallback order dto = true ∧
    response = serializeOrder order

theorem IsPaidOrder.paid {response : SerializedOrder} (h : IsPaidOrder db dto response) : db.Paid dto := by
  obtain ⟨order, hmem, hno, hsame, -⟩ := h
  exact ⟨order, hmem, hno, hsame⟩

theorem isSamePaidCallback_status {order : Order} (h : isSamePaidCallback order dto = true) :
    order.status = .paid := by
  simp only [isSamePaidCallback, Bool.and_eq_true, beq_iff_eq] at h
  exact h.1.1

/-- No order that is PENDING by its number has been paid. -/
theorem BillingDb.Paid.not_pending (h : db.Paid dto) {order : Order} (hmem : order ∈ db.orders.rows)
    (hno : order.orderNo = dto.orderNo) : order.status ≠ .pending := by
  obtain ⟨paid, hpaid, hpaidNo, hsame⟩ := h
  rw [db.order_eq hmem hpaid (hno.trans hpaidNo.symm), isSamePaidCallback_status hsame]
  simp

theorem BillingDb.Unpaid.not_paid (h : db.Unpaid dto) : ¬ db.Paid dto := by
  intro hpaid
  obtain ⟨-, order, hmem, hno, hstatus, -⟩ := h
  exact hpaid.not_pending hmem hno hstatus

/-- The lookups of an order find it. -/
theorem find_byOrderNo {order : Order} (hmem : order ∈ db.orders.rows) :
    db.rows.find (.findByOrderNo order.orderNo) = some order := by
  cases hfind : db.rows.find (.findByOrderNo order.orderNo) with
  | none =>
      have hmiss := List.find?_eq_none.mp hfind order hmem
      simp at hmiss
  | some found =>
      have hno : found.orderNo = order.orderNo := by simpa using List.find?_some hfind
      exact congrArg some (db.order_eq (List.mem_of_find?_eq_some hfind) hmem hno)

theorem BillingDb.order_eq_of_id {o o' : Order} (h : o ∈ db.orders.rows) (h' : o' ∈ db.orders.rows)
    (hid : o.id = o'.id) : o = o' :=
  db.orders.unique.eq_of_mem (k := .id o.id) h h' (by simp [Order.keys]) (by simp [Order.keys, hid])

theorem find_byId {order : Order} (hmem : order ∈ db.orders.rows) :
    db.rows.find (.findById order.id) = some order := by
  cases hfind : db.rows.find (.findById order.id) with
  | none =>
      have hmiss := List.find?_eq_none.mp hfind order hmem
      simp at hmiss
  | some found =>
      have hid : found.id = order.id := by simpa using List.find?_some hfind
      exact congrArg some (db.order_eq_of_id (List.mem_of_find?_eq_some hfind) hmem hid)

/-! ### The conditional update -/

/-- The columns a PAID callback sets. -/
abbrev PaymentCallbackDto.paidData (dto : PaymentCallbackDto) (paidAt : Int) : OrderData :=
  .paid dto.provider dto.providerTradeNo paidAt

theorem BillingDb.Unpaid.unused (h : db.Unpaid dto) :
    OrderKey.trade dto.provider dto.providerTradeNo ∉ db.orders.rows.flatMap Order.keys := by
  obtain ⟨hconsistent, order, hmem, -, hstatus, hothers⟩ := h
  intro hused
  obtain ⟨o, ho, hkey⟩ := List.mem_flatMap.mp hused
  have htrade : o.trade = some (dto.provider, dto.providerTradeNo) := by
    cases htrade : o.trade with
    | none => cases hkeys : o.idempotencyKey <;> simp [Order.keys, htrade, hkeys] at hkey
    | some trade =>
        cases hkeys : o.idempotencyKey <;>
          simp [Order.keys, htrade, hkeys] at hkey <;> simp [hkey]
  rw [hothers o ho htrade] at htrade
  -- A PENDING order has no trade number.
  have hpayment := (hconsistent order hmem).unpaid (Or.inl hstatus)
  have hnone : order.paymentProvider = none := congrArg Prod.fst hpayment
  simp [Order.trade, hnone] at htrade

theorem Order.keys_nodup (o : Order) : o.keys.Nodup := by
  cases hkey : o.idempotencyKey <;> cases htrade : o.trade <;> simp [Order.keys, hkey, htrade]

theorem keys_paid {o : Order} {paidAt : Int} {k : OrderKey}
    (h : k ∈ ((dto.paidData paidAt).apply o).keys) :
    k = .trade dto.provider dto.providerTradeNo ∨ k ∈ o.keys := by
  cases hkey : o.idempotencyKey <;> simp [Order.keys, Order.trade, OrderData.apply, hkey] at h ⊢ <;>
    tauto

/-- The update pays a PENDING order. -/
theorem BillingDb.Unpaid.update (h : db.Unpaid dto) (paidAt : Int) :
    ∃ order ∈ db.orders.rows, order.orderNo = dto.orderNo ∧ order.status = .pending ∧
      ∃ orders, orders.rows = (db.orders.rows.map fun o =>
          if o.orderNo = dto.orderNo then (dto.paidData paidAt).apply o else o) ∧
        db.updateManyOrders dto.orderNo .pending (dto.paidData paidAt) = (.ok 1, { db with orders }) := by
  have hunused := h.unused
  obtain ⟨-, order, hmem, hno, hstatus, -⟩ := h
  have hat : order.isAt dto.orderNo .pending = true := by simp [Order.isAt, hno, hstatus]
  have hunique : UniqueOn Order.keys (db.orders.rows.map fun o =>
      if o.isAt dto.orderNo .pending then (dto.paidData paidAt).apply o else o) :=
    db.orders.unique.map_of_free (e := .orderNo dto.orderNo)
      (fun o _ hat => Order.orderNo_mem_keys.mpr (Order.isAt_orderNo hat)) hunused
      (fun o _ => Order.keys_nodup _) fun o _ _ k => keys_paid
  have hupdate : db.orders.updateWhere? (fun o => o.isAt dto.orderNo .pending)
      (dto.paidData paidAt).apply = some ⟨_, hunique⟩ := dif_pos hunique
  rcases db.updateManyOrders_cases dto.orderNo .pending (dto.paidData paidAt) with
    herror | hzero | hone
  · simp [updateManyOrders, hupdate] at herror
  · have hcount : db.orders.rows.countP (fun o => o.isAt dto.orderNo .pending) = 0 := by
      simp only [updateManyOrders, hupdate, Prod.mk.injEq, Except.ok.injEq] at hzero
      exact hzero.1
    exact absurd hat (by simpa using List.countP_eq_zero.mp hcount order hmem)
  · exact hone

/-- What the update leaves behind. -/
structure PaysOrder (dto : PaymentCallbackDto) (db : BillingDb) (order : Order) (paidAt : Int)
    (db' : BillingDb) : Prop where
  mem : order ∈ db.orders.rows
  orderNo : order.orderNo = dto.orderNo
  status : order.status = .pending
  orders : ∃ orders, db' = { db with orders } ∧ orders.rows = db.orders.rows.map fun o =>
    if o.orderNo = dto.orderNo then (dto.paidData paidAt).apply o else o

section PaysOrder

variable {order : Order} {paidAt : Int} {db' : BillingDb}

theorem PaysOrder.mem_paid (h : PaysOrder dto db order paidAt db') :
    (dto.paidData paidAt).apply order ∈ db'.orders.rows := by
  obtain ⟨orders, rfl, hrows⟩ := h.orders
  exact hrows ▸ List.mem_map.mpr ⟨order, h.mem, if_pos h.orderNo⟩

theorem isSamePaidCallback_paid : isSamePaidCallback ((dto.paidData paidAt).apply order) dto = true := by
  simp [isSamePaidCallback, OrderData.apply]

theorem PaysOrder.paid (h : PaysOrder dto db order paidAt db') : db'.Paid dto :=
  ⟨_, h.mem_paid, h.orderNo, isSamePaidCallback_paid⟩

/-- The paying transaction reads its own update. -/
theorem PaysOrder.seen (h : PaysOrder dto db order paidAt db') :
    (billingClient.seen ((View.initial .repeatableRead db db).at db')).orders = db'.orders.rows := by
  obtain ⟨orders, rfl, hrows⟩ := h.orders
  have hoverlay : overlay Order.id db.orders.rows db.orders.rows (db.orders.rows.map
      fun o => if o.orderNo = dto.orderNo then (dto.paidData paidAt).apply o else o) = _ :=
    overlay_map (fun o _ => by split <;> rfl) fun o ho o' ho' => db.order_eq_of_id ho ho'
  rw [← hrows] at hoverlay
  exact hoverlay

theorem PaysOrder.find (h : PaysOrder dto db order paidAt db') :
    billingClient.find (billingClient.seen ((View.initial .repeatableRead db db).at db'))
      (.findByOrderNo dto.orderNo) = some ((dto.paidData paidAt).apply order) := by
  have hfind := find_byOrderNo h.mem_paid
  rw [show ((dto.paidData paidAt).apply order).orderNo = dto.orderNo from h.orderNo] at hfind
  rw [← hfind]
  simp only [billingClient, BillingRows.find, BillingDb.rows]
  rw [← h.seen]
  rfl

end PaysOrder

/-- A conditional update pays the order of the callback, or changes nothing. -/
theorem updateManyOrders_pays (db : BillingDb) (dto : PaymentCallbackDto) (paidAt : Int) :
    (∃ error, db.updateManyOrders dto.orderNo .pending (dto.paidData paidAt) = (.error error, db)) ∨
      db.updateManyOrders dto.orderNo .pending (dto.paidData paidAt) = (.ok 0, db) ∨
      ∃ order db', PaysOrder dto db order paidAt db' ∧
        db.updateManyOrders dto.orderNo .pending (dto.paidData paidAt) = (.ok 1, db') := by
  rcases db.updateManyOrders_cases dto.orderNo .pending (dto.paidData paidAt) with
    herror | hzero | ⟨order, hmem, hno, hstatus, orders, hrows, hresult⟩
  · exact Or.inl ⟨_, herror⟩
  · exact Or.inr (Or.inl hzero)
  · exact Or.inr (Or.inr ⟨order, _, ⟨hmem, hno, hstatus, orders, rfl, hrows⟩, hresult⟩)

end Payment

/-! ### The contract -/

/-- The contract of the deliveries of one callback. -/
def deliveryContract (dto : PaymentCallbackDto) (signature : Option String) :
    Contract BillingDb BillingCall (BillingProg SerializedOrder) where
  inv db := db.Unpaid dto ∨ db.Paid dto
  evolves db db' := db' = db ∨ db.Unpaid dto ∧ db'.Paid dto
  refl _ := Or.inl rfl
  trans h h' := by
    rcases h with rfl | ⟨hunpaid, hpaid⟩
    · exact h'
    · rcases h' with rfl | ⟨hunpaid', _⟩
      · exact Or.inr ⟨hunpaid, hpaid⟩
      · exact absurd hpaid hunpaid'.not_paid
  post m := m.snapshot = m.base ∧
    (m.work = m.base ∨ m.base.Unpaid dto ∧ m.work.Paid dto ∧ ∃ response, m.rest = .ret response) ∧
    ∀ response, m.rest = .ret response → IsPaidOrder m.work dto response
  calls c := c = .handlePaymentCallback dto signature

/-- What a transaction of a callback leaves behind when it returns. -/
def Delivered (dto : PaymentCallbackDto) (snapshot base : BillingDb) (response : SerializedOrder)
    (work : BillingDb) : Prop :=
  snapshot = base ∧ (work = base ∨ base.Unpaid dto ∧ work.Paid dto) ∧ IsPaidOrder work dto response

section Contract

variable {platform : Platform} {dto : PaymentCallbackDto} {signature : Option String}

/-- The order a callback reads first: PENDING, or PAID already and then for good. -/
theorem first_read {snapshot base : BillingDb}
    (hsnapshot : snapshot.Unpaid dto ∨ snapshot.Paid dto)
    (hevolves : base = snapshot ∨ snapshot.Unpaid dto ∧ base.Paid dto) :
    ∃ order ∈ snapshot.orders.rows, snapshot.rows.find (.findByOrderNo dto.orderNo) = some order ∧
      (snapshot.Unpaid dto ∧ order.status = .pending ∨
        base = snapshot ∧ order.orderNo = dto.orderNo ∧ isSamePaidCallback order dto = true) := by
  rcases hsnapshot with hunpaid | hpaid
  · obtain ⟨order, hmem, hno, hstatus, -⟩ := hunpaid.2
    exact ⟨order, hmem, hno ▸ find_byOrderNo hmem, Or.inl ⟨hunpaid, hstatus⟩⟩
  · have ⟨order, hmem, hno, hsame⟩ := hpaid
    refine ⟨order, hmem, hno ▸ find_byOrderNo hmem, Or.inr ⟨?_, hno, hsame⟩⟩
    rcases hevolves with heq | ⟨hunpaid, -⟩
    · exact heq
    · exact absurd hpaid hunpaid.not_paid

/-- A PENDING order is not paid by the callback. -/
theorem not_same_of_pending {order : Order} (h : order.status = .pending) :
    isSamePaidCallback order dto = false := by
  simp [isSamePaidCallback, h]

/-- Until it has been paid no order has the trade number. -/
theorem find_byTrade {db : BillingDb} (h : db.Unpaid dto) :
    db.rows.find (.findByTrade dto.provider dto.providerTradeNo) = none := by
  refine List.find?_eq_none.mpr fun o ho htrade => h.unused ?_
  simp only [Bool.and_eq_true, beq_iff_eq] at htrade
  refine List.mem_flatMap.mpr ⟨o, ho, ?_⟩
  simp [Order.keys, Order.trade, htrade.1, htrade.2]

theorem write_pays (dto : PaymentCallbackDto) (snapshot base : BillingDb) (t : Int) :
    billingClient.write (View.initial .repeatableRead snapshot base).work
      (.updateManyOrders dto.orderNo .pending (.paid dto.provider dto.providerTradeNo t)) =
      base.updateManyOrders dto.orderNo .pending (dto.paidData t) :=
  rfl

section Resolutions

variable {snapshot base : BillingDb} {post : SerializedOrder → BillingDb → Prop}

/-- After a lost race the callback reads the order of its snapshot again, and gives up. -/
theorem resolvePaidCallbackAfterRace_yields {order : Order} (hstatus : order.status = .pending)
    (hseen : billingClient.find
      (billingClient.seen (View.initial .repeatableRead snapshot base))
      (.findByOrderNo dto.orderNo) = some order) :
    (resolvePaidCallbackAfterRace dto).Yields billingClient.engine post
      (View.initial .repeatableRead snapshot base) := by
  unfold resolvePaidCallbackAfterRace
  refine yields_find ?_
  rw [hseen]
  simp only [Option.any_some, not_same_of_pending hstatus]
  trivial

/-- In its snapshot the trade number is unused. -/
theorem resolvePaidCallbackAfterUniqueConflict_yields (h : snapshot.Unpaid dto) :
    (resolvePaidCallbackAfterUniqueConflict dto).Yields billingClient.engine post
      (View.initial .repeatableRead snapshot base) := by
  unfold resolvePaidCallbackAfterUniqueConflict
  refine yields_find ?_
  rw [Client.seen_initial, show billingClient.find (billingClient.rows snapshot)
    (.findByTrade dto.provider dto.providerTradeNo) = none from find_byTrade h]
  trivial

end Resolutions

/-- The paying transaction has started from the state it commits into. -/
theorem base_eq_of_pays {snapshot base db' : BillingDb} {order : Order} {paidAt : Int}
    (hevolves : base = snapshot ∨ snapshot.Unpaid dto ∧ base.Paid dto)
    (h : PaysOrder dto base order paidAt db') : base = snapshot := by
  rcases hevolves with heq | ⟨-, hpaid⟩
  · exact heq
  · exact absurd h.status (hpaid.not_pending h.mem h.orderNo)

theorem markOrderPaidTx_delivers (paidAt : JsDate) {snapshot base : BillingDb}
    (hsnapshot : snapshot.Unpaid dto ∨ snapshot.Paid dto)
    (hevolves : base = snapshot ∨ snapshot.Unpaid dto ∧ base.Paid dto) :
    (markOrderPaidTx dto paidAt).Yields billingClient.engine (Delivered dto snapshot base)
      (View.initial .repeatableRead snapshot base) := by
  obtain ⟨order, hmem, hfind, hcase⟩ := first_read hsnapshot hevolves
  have hseen : billingClient.find
      (billingClient.seen (View.initial .repeatableRead snapshot base)) (.findByOrderNo dto.orderNo) =
      some order := by
    rw [Client.seen_initial]
    exact hfind
  unfold markOrderPaidTx
  refine yields_find ?_
  rw [hseen]
  rcases hcase with ⟨hunpaid, hstatus⟩ | ⟨rfl, hno, hsame⟩
  · simp only [not_same_of_pending hstatus, hstatus, Bool.false_eq_true, if_false, reduceCtorEq,
      or_self]
    refine yields_dateOrReject fun t => yields_write trivial ?_
    rw [write_pays]
    rcases updateManyOrders_pays base dto t with
      ⟨error, hresult⟩ | hresult | ⟨paid, db', hpays, hresult⟩
    · rw [hresult]
      simp only [Prog.ret_bind]
      split
      · exact resolvePaidCallbackAfterUniqueConflict_yields hunpaid
      · trivial
    · rw [hresult]
      exact resolvePaidCallbackAfterRace_yields hstatus hseen
    · rw [hresult]
      have hbase := base_eq_of_pays hevolves hpays
      subst hbase
      refine yields_find ?_
      rw [hpays.find]
      exact ⟨rfl, Or.inr ⟨hunpaid, hpays.paid⟩, _, hpays.mem_paid, hpays.orderNo,
        isSamePaidCallback_paid, rfl⟩
  · simp only [hsame, if_true]
    refine yields_find ?_
    rw [Client.seen_initial, show billingClient.find (billingClient.rows base)
      (.findById order.id) = some order from find_byId hmem]
    exact ⟨rfl, Or.inl rfl, order, hmem, hno, hsame, rfl⟩

theorem delivery_safe (hevent : dto.event = .paid) :
    ((billingSystem platform).program (.handlePaymentCallback dto signature)).Safe
      billingClient.engine (deliveryContract dto signature) (.handlePaymentCallback dto signature)
      none := by
  have htransaction : ∀ paidAt : JsDate, (Prog.transaction .repeatableRead (markOrderPaidTx dto paidAt)).Safe
      billingClient.engine (deliveryContract dto signature) (.handlePaymentCallback dto signature)
      none := by
    refine fun paidAt => Prog.Safe.transaction fun snapshot base hsnapshot hevolves hbase => ?_
    refine (markOrderPaidTx_delivers paidAt hsnapshot hevolves).mono ?_
    rintro response work ⟨hbase', hwork, hresponse⟩
    exact ⟨Or.inr hresponse.paid, hwork, hbase', hwork.imp id fun h => ⟨h.1, h.2, response, rfl⟩,
      fun _ hrest => by cases hrest; exact hresponse⟩
  simp only [billingSystem, BillingCall.program, Platform.handlePaymentCallback, hevent]
  split
  · unfold Platform.markOrderPaid Platform.callbackTime
    split
    · exact htransaction _
    · intro env db hdb
      exact ⟨⟨hdb, Or.inl rfl, rfl, Or.inl rfl, fun _ hrest => by cases hrest⟩, htransaction _⟩
  · trivial

/-! ### A call that is left alone -/

/-- Run on one state, the transaction pays the order or finds it paid. -/
theorem markOrderPaidTx_ensures (paidAt : Int) {db : BillingDb} (hdb : db.Unpaid dto ∨ db.Paid dto) :
    (markOrderPaidTx dto (some paidAt)).Ensures billingClient.engine Env.Faultless
      (fun response work => IsPaidOrder work dto response) (View.initial .repeatableRead db db) := by
  obtain ⟨order, hmem, hfind, hcase⟩ := first_read hdb (Or.inl rfl)
  unfold markOrderPaidTx
  refine ensures_find ?_
  rw [Client.seen_initial, show billingClient.find (billingClient.rows db)
    (.findByOrderNo dto.orderNo) = some order from hfind]
  rcases hcase with ⟨hunpaid, hstatus⟩ | ⟨-, hno, hsame⟩
  · simp only [not_same_of_pending hstatus, hstatus, Bool.false_eq_true, if_false, reduceCtorEq,
      or_self]
    refine ensures_write ?_
    rw [write_pays]
    obtain ⟨paid, hpaid, hpaidNo, hpaidStatus, orders, hrows, hresult⟩ := hunpaid.update paidAt
    have hpays : PaysOrder dto db paid paidAt { db with orders } :=
      ⟨hpaid, hpaidNo, hpaidStatus, orders, rfl, hrows⟩
    rw [hresult]
    refine ensures_find ?_
    rw [hpays.find]
    exact ⟨_, hpays.mem_paid, hpays.orderNo, isSamePaidCallback_paid, rfl⟩
  · simp only [hsame, if_true]
    refine ensures_find ?_
    rw [Client.seen_initial, show billingClient.find (billingClient.rows db)
      (.findById order.id) = some order from find_byId hmem]
    exact ⟨order, hmem, hno, hsame, rfl⟩

theorem markOrderPaidTx_plain (dto : PaymentCallbackDto) (paidAt : JsDate) :
    (markOrderPaidTx dto paidAt).Plain := by
  have hserialize : ∀ order : Option Order, (serializeOrThrow order).Plain := by
    intro order
    cases order <;> trivial
  unfold markOrderPaidTx
  refine (plain_find _).bind fun order => ?_
  split
  · trivial
  · split
    · exact (plain_find _).bind hserialize
    · split
      · trivial
      · split
        · trivial
        · refine Prog.Plain.bind ?_ fun paidAt reply => ?_
          · unfold dateOrReject
            split <;> trivial
          · cases reply with
            | ok count =>
                simp only [Prog.ret_bind]
                split
                · exact (plain_find _).bind hserialize
                · refine (plain_find _).bind fun again => ?_
                  split
                  · exact (plain_find _).bind hserialize
                  · trivial
            | error error =>
                simp only [Prog.ret_bind]
                split
                · refine (plain_find _).bind fun byTrade => ?_
                  split
                  · exact (plain_find _).bind hserialize
                  · trivial
                · trivial

/-- The call returns the PAID order. -/
def ReturnsOrder (dto : PaymentCallbackDto) (outcome : Except HttpException SerializedOrder × BillingDb) :
    Prop :=
  ∃ response, outcome.1 = .ok response ∧ IsPaidOrder outcome.2 dto response

/-- A correctly signed PAID callback whose date can be read. -/
theorem delivery_opens (hevent : dto.event = .paid) (hverifies : platform.verifies dto signature = true)
    (hdate : ∀ text ∈ truthy dto.paidAt, (platform.newDate text).isSome) :
    ((billingSystem platform).program (.handlePaymentCallback dto signature)).Opens
      billingClient.engine Env.Faultless (fun db => db.Unpaid dto ∨ db.Paid dto) (ReturnsOrder dto) := by
  have htransaction : ∀ paidAt : Int,
      (Prog.transaction .repeatableRead (markOrderPaidTx dto (some paidAt))).Opens billingClient.engine
        Env.Faultless (fun db => db.Unpaid dto ∨ db.Paid dto) (ReturnsOrder dto) := by
    intro paidAt
    refine Prog.opens_transaction rfl (markOrderPaidTx_plain dto (some paidAt)) fun db hdb => ?_
    exact (markOrderPaidTx_ensures paidAt hdb).mono fun response work h => ⟨response, rfl, h⟩
  simp only [billingSystem, BillingCall.program, Platform.handlePaymentCallback, hevent, hverifies,
    if_true]
  unfold Platform.markOrderPaid Platform.callbackTime
  split
  · rename_i text htext
    obtain ⟨paidAt, hpaidAt⟩ := Option.isSome_iff_exists.mp (hdate text htext)
    rw [hpaidAt]
    exact htransaction paidAt
  · exact ⟨fun env db => rfl, fun now => htransaction now⟩

end Contract

end MibServer.Billing
