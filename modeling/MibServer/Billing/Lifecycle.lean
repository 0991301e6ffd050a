import MibServer.Billing.Service

/-!
The life of an order: PENDING, PAID, REFUNDED.

`OrdersChange` lists what a commit of either call does to the orders, and
`program_safe` shows that no statement does anything else. A refund reads its order
from a snapshot that may be stale, but the payment columns of an order are fixed once
it has left PENDING (`Order.Evolves`), so the row its conditional update finds still
carries the trade number the callback was checked against.
-/

namespace MibServer.Billing

open MibServer.Lib MibServer.Prisma Relation

/-! ### Orders over time -/

/-- The transitions of the status. -/
inductive OrderStatus.Moves : OrderStatus → OrderStatus → Prop where
  | pay : Moves .pending .paid
  | refund : Moves .paid .refunded

theorem OrderStatus.Moves.ne_pending {s s' : OrderStatus} (h : ReflTransGen Moves s s')
    (hs : s ≠ .pending) : s' ≠ .pending := by
  cases h with
  | refl => exact hs
  | tail _ hmove => cases hmove <;> exact fun h => by cases h

/-- The columns set at payment. -/
def Order.payment (o : Order) : Option PaymentProvider × Option String × Option Int :=
  (o.paymentProvider, o.providerTradeNo, o.paidAt)

/-- The payment columns are set from PAID on, `refundedAt` is in REFUNDED. -/
structure Order.Consistent (o : Order) : Prop where
  unpaid : o.status = .pending ∨ o.status = .cancelled → o.payment = (none, none, none)
  paid : o.status = .paid ∨ o.status = .refunded →
    ∃ provider tradeNo paidAt, tradeNo ≠ "" ∧ o.payment = (some provider, some tradeNo, some paidAt)
  refunded : o.refundedAt.isSome ↔ o.status = .refunded

def BillingDb.Consistent (db : BillingDb) : Prop := ∀ o ∈ db.orders.rows, o.Consistent

/-- An order and a later state of it. -/
structure Order.Evolves (o o' : Order) : Prop where
  id : o'.id = o.id
  orderNo : o'.orderNo = o.orderNo
  status : ReflTransGen OrderStatus.Moves o.status o'.status
  payment : o.status ≠ .pending → o'.payment = o.payment

def BillingDb.Evolves (db db' : BillingDb) : Prop :=
  ∀ o ∈ db.orders.rows, ∃ o' ∈ db'.orders.rows, o.Evolves o'

theorem Order.Evolves.refl (o : Order) : o.Evolves o := ⟨rfl, rfl, .refl, fun _ => rfl⟩

theorem Order.Evolves.trans {o o' o'' : Order} (h : o.Evolves o') (h' : o'.Evolves o'') :
    o.Evolves o'' where
  id := h'.id.trans h.id
  orderNo := h'.orderNo.trans h.orderNo
  status := h.status.trans h'.status
  payment hne := (h'.payment (OrderStatus.Moves.ne_pending h.status hne)).trans (h.payment hne)

theorem BillingDb.Evolves.refl (db : BillingDb) : db.Evolves db :=
  fun o ho => ⟨o, ho, .refl o⟩

theorem BillingDb.Evolves.trans {db db' db'' : BillingDb} (h : db.Evolves db')
    (h' : db'.Evolves db'') : db.Evolves db'' := by
  intro o ho
  obtain ⟨o', ho', hevolves⟩ := h o ho
  obtain ⟨o'', ho'', hevolves'⟩ := h' o' ho'
  exact ⟨o'', ho'', hevolves.trans hevolves'⟩

/-! ### What a commit does -/

/-- The update a callback applies to an order. -/
inductive Order.Accepts (o : Order) (dto : PaymentCallbackDto) : OrderData → Prop where
  | paid (event : dto.event = .paid) (status : o.status = .pending) (paidAt : Int) :
      Accepts o dto (.paid dto.provider dto.providerTradeNo paidAt)
  | refunded (event : dto.event = .refunded) (status : o.status = .paid)
      (provider : o.paymentProvider = some dto.provider)
      (tradeNo : o.providerTradeNo = some dto.providerTradeNo) (refundedAt : Int) :
      Accepts o dto (.refunded refundedAt)

/-- An order as `createOrder` inserts it. -/
structure Order.IsNew (o : Order) : Prop where
  status : o.status = .pending
  payment : o.payment = (none, none, none)
  refundedAt : o.refundedAt = none

/-- What a commit of a call does to the orders. -/
inductive OrdersChange (c : BillingCall) (db db' : BillingDb) : Prop where
  | unchanged (same : db'.orders = db.orders)
  | created (order : Order) (call : ∃ ambient dto key, c = .createOrder ambient dto key)
      (new : order.IsNew) (rows : db'.orders.rows = db.orders.rows ++ [order])
  | updated (dto : PaymentCallbackDto) (signature : Option String) (order : Order) (data : OrderData)
      (call : c = .handlePaymentCallback dto signature) (mem : order ∈ db.orders.rows)
      (named : order.orderNo = dto.orderNo) (accepts : order.Accepts dto data)
      (rows : db'.orders.rows = db.orders.rows.map fun o =>
        if o.orderNo = dto.orderNo then data.apply o else o)

section Accepts

variable {o : Order} {dto : PaymentCallbackDto} {data : OrderData}

theorem Order.Accepts.consistent (h : o.Accepts dto data) (ho : o.Consistent) :
    (data.apply o).Consistent := by
  cases h with
  | paid _ status paidAt =>
      refine ⟨fun h => by simp [OrderData.apply] at h, fun _ => ?_, ?_⟩
      · exact ⟨dto.provider, dto.providerTradeNo, paidAt, dto.tradeNo_ne, rfl⟩
      · have hnone := mt ho.refunded.mp (by simp [status])
        simpa [OrderData.apply] using hnone
  | refunded _ status _ _ refundedAt =>
      exact ⟨fun h => by simp [OrderData.apply] at h, fun _ => ho.paid (Or.inl status), by
        simp [OrderData.apply]⟩

theorem Order.Accepts.evolves (h : o.Accepts dto data) : o.Evolves (data.apply o) := by
  cases h with
  | paid _ status paidAt =>
      exact ⟨rfl, rfl, status ▸ .single .pay, fun hne => absurd status hne⟩
  | refunded _ status _ _ refundedAt =>
      exact ⟨rfl, rfl, status ▸ .single .refund, fun _ => rfl⟩

theorem Order.IsNew.consistent (h : o.IsNew) : o.Consistent := by
  refine ⟨fun _ => h.payment, fun hpaid => ?_, ?_⟩
  · simp [h.status] at hpaid
  · simp [h.status, h.refundedAt]

end Accepts

namespace OrdersChange

variable {c : BillingCall} {db db' : BillingDb}

theorem consistent (h : OrdersChange c db db') (hdb : db.Consistent) : db'.Consistent := by
  intro o' ho'
  cases h with
  | unchanged same => exact hdb o' (same ▸ ho')
  | created order _ new rows =>
      rw [rows, List.mem_append, List.mem_singleton] at ho'
      rcases ho' with hold | rfl
      · exact hdb o' hold
      · exact new.consistent
  | updated dto _ order data _ mem named accepts rows =>
      rw [rows] at ho'
      obtain ⟨o, ho, rfl⟩ := List.mem_map.mp ho'
      split
      · rename_i hno
        rw [db.order_eq ho mem (hno.trans named.symm)]
        exact accepts.consistent (hdb order mem)
      · exact hdb o ho

theorem evolves (h : OrdersChange c db db') : db.Evolves db' := by
  intro o ho
  cases h with
  | unchanged same => exact ⟨o, same ▸ ho, .refl o⟩
  | created order _ _ rows => exact ⟨o, rows ▸ List.mem_append_left _ ho, .refl o⟩
  | updated dto _ order data _ mem named accepts rows =>
      refine ⟨_, rows ▸ List.mem_map.mpr ⟨o, ho, rfl⟩, ?_⟩
      split
      · rename_i hno
        rw [db.order_eq ho mem (hno.trans named.symm)]
        exact accepts.evolves
      · exact .refl o

end OrdersChange

/-! ### The contract -/

/-- A callback whose signature verifies, or a call that needs none. -/
def BillingCall.Authentic (platform : Platform) : BillingCall → Prop
  | .createOrder _ _ _ => True
  | .handlePaymentCallback dto signature => platform.verifies dto signature = true

/-- The contract of the billing calls. -/
def billingContract (platform : Platform) :
    Contract BillingDb BillingCall (BillingProg SerializedOrder) where
  inv := BillingDb.Consistent
  evolves := BillingDb.Evolves
  refl := .refl
  trans := .trans
  post m := m.call.Authentic platform ∧ OrdersChange m.call m.base m.work
  calls _ := True

section Calls

variable {platform : Platform}

theorem commits_of {m : Commit BillingDb BillingCall (BillingProg SerializedOrder)}
    (hcall : m.call.Authentic platform) (hbase : m.base.Consistent)
    (h : OrdersChange m.call m.base m.work) : (billingContract platform).Commits m :=
  ⟨h.consistent hbase, h.evolves, hcall, h⟩

theorem idle {c : BillingCall} (hc : c.Authentic platform) : (billingContract platform).Idle c :=
  fun _ _ _ _ _ => ⟨hc, .unchanged rfl⟩

/-! ### Creating an order -/

theorem safe_orderTenant {c : BillingCall} {ambient : Tenancy.Ambient} {studentId : Option String}
    {k : Option String → BillingProg SerializedOrder} (hc : c.Authentic platform)
    (h : ∀ tenantId, (k tenantId).Safe billingClient.engine (billingContract platform) c none) :
    ((orderTenant ambient studentId).bind k).Safe billingClient.engine (billingContract platform)
      c none := by
  unfold orderTenant
  split
  · exact h none
  · rw [Prog.bind_eq, Prog.bind_assoc]
    refine safe_find (idle hc) fun student => ?_
    cases student with
    | none => trivial
    | some tenantId => exact h tenantId

theorem createOrder_safe (ambient : Tenancy.Ambient) (dto : CreateOrderDto) (key : String) :
    (createOrder ambient dto key).Safe billingClient.engine (billingContract platform)
      (.createOrder ambient dto key) none := by
  have hc : (BillingCall.createOrder ambient dto key).Authentic platform := trivial
  unfold createOrder generateOrderNo
  refine safe_orderTenant hc fun tenantId => safe_find (idle hc) fun existing => ?_
  cases existing with
  | some _ => trivial
  | none =>
      refine safe_now (idle hc) fun now => safe_random (idle hc) fun suffix =>
        safe_random (idle hc) fun id => safe_write (idle hc) trivial fun db hdb => ?_
      rw [billingClient_write, BillingDb.write]
      rcases BillingDb.createOrder_cases db _ with ⟨error, hresult⟩ | ⟨orders, hrows, hresult⟩
      · rw [hresult]
        refine ⟨commits_of hc hdb (.unchanged rfl), ?_⟩
        simp only [Prog.bind_eq, Prog.ret_bind]
        split
        · refine safe_find (idle hc) fun winner => ?_
          cases winner <;> trivial
        · trivial
      · rw [hresult]
        exact ⟨commits_of hc hdb (.created _ ⟨_, _, _, rfl⟩ ⟨rfl, rfl, rfl⟩ hrows), trivial⟩

/-! ### Applying a callback -/

section Callback

variable {v : View BillingDb} {post : SerializedOrder → BillingDb → Prop}

/-- Reading an order back at the end of a transaction. -/
theorem findUniqueOrThrow_yields (orderNo : String) (h : ∀ response, post response v.work) :
    (findUniqueOrThrow orderNo).Yields billingClient.engine post v := by
  refine yields_find ?_
  cases billingClient.find (billingClient.seen v) (.findByOrderNo orderNo) with
  | none => trivial
  | some order => exact h _

theorem includeStudent_yields (id : String) (h : ∀ response, post response v.work) :
    (includeStudent id).Yields billingClient.engine post v := by
  refine yields_find ?_
  cases billingClient.find (billingClient.seen v) (.findById id) with
  | none => trivial
  | some order => exact h _

theorem yields_dateOrReject {date : JsDate} {k : Int → BillingProg SerializedOrder}
    (h : ∀ t, (k t).Yields billingClient.engine post v) :
    ((dateOrReject date).bind k).Yields billingClient.engine post v := by
  cases date with
  | none => trivial
  | some t => exact h t

/-- The conditional update either finds an order in the given status, or changes
nothing. -/
theorem yields_updateManyOrders {orderNo : String} {status : OrderStatus} {data : OrderData}
    {k : Except DbError Nat → BillingProg SerializedOrder}
    (herror : ∀ error, (k (.error error)).Yields billingClient.engine post v)
    (hnone : (k (.ok 0)).Yields billingClient.engine post v)
    (hone : ∀ order ∈ v.work.orders.rows, order.orderNo = orderNo → order.status = status →
      ∀ orders, orders.rows = (v.work.orders.rows.map fun o =>
        if o.orderNo = orderNo then data.apply o else o) →
      (k (.ok 1)).Yields billingClient.engine post (v.at { v.work with orders })) :
    (Prog.stmt (.write (.updateManyOrders orderNo status data)) k :
      BillingProg SerializedOrder).Yields billingClient.engine post v := by
  refine yields_write (herror _) ?_
  rw [billingClient_write, BillingDb.write]
  rcases v.work.updateManyOrders_cases orderNo status data with
    hresult | hresult | ⟨order, hmem, hno, hstatus, orders, hrows, hresult⟩
  · rw [hresult]
    exact herror _
  · rw [hresult]
    exact hnone
  · rw [hresult]
    exact hone order hmem hno hstatus orders hrows

end Callback

theorem markOrderPaidTx_yields {dto : PaymentCallbackDto} {signature : Option String}
    (hevent : dto.event = .paid) (paidAt : JsDate) (snapshot base : BillingDb) :
    (markOrderPaidTx dto paidAt).Yields billingClient.engine
      (fun _ db' => OrdersChange (.handlePaymentCallback dto signature) base db')
      (View.initial .repeatableRead snapshot base) := by
  have hsame : OrdersChange (.handlePaymentCallback dto signature) base base := .unchanged rfl
  unfold markOrderPaidTx
  refine yields_find ?_
  split
  · trivial
  · split
    · exact includeStudent_yields _ fun _ => hsame
    · split
      · trivial
      · split
        · trivial
        · refine yields_dateOrReject fun t => yields_updateManyOrders (fun error => ?_) ?_
            fun order hmem hno hstatus orders hrows => ?_
          · simp only [Prog.ret_bind]
            split
            · refine yields_find ?_
              split
              · exact findUniqueOrThrow_yields _ fun _ => hsame
              · trivial
            · trivial
          · refine yields_find ?_
            split
            · exact findUniqueOrThrow_yields _ fun _ => hsame
            · trivial
          · exact findUniqueOrThrow_yields _ fun _ =>
              .updated dto signature order _ rfl hmem hno (.paid hevent hstatus t) hrows

/-- The order a refund was checked against, as it is when the refund is applied. -/
theorem accepts_refund {dto : PaymentCallbackDto} {snapshot base : BillingDb} {seen order : Order}
    (hevent : dto.event = .refunded) (hsnapshot : snapshot.Consistent)
    (hevolves : snapshot.Evolves base) (hseen : seen ∈ snapshot.orders.rows)
    (hseenNo : seen.orderNo = dto.orderNo) (hpaid : seen.status = .paid)
    (hprovider : seen.paymentProvider = some dto.provider)
    (htrade : (truthy seen.providerTradeNo).any (· ≠ dto.providerTradeNo) = false)
    (hmem : order ∈ base.orders.rows) (hno : order.orderNo = dto.orderNo)
    (hstatus : order.status = .paid) (refundedAt : Int) :
    order.Accepts dto (.refunded refundedAt) := by
  obtain ⟨later, hlater, hsteps⟩ := hevolves seen hseen
  have hsame : later = order :=
    base.order_eq hlater hmem (hsteps.orderNo.trans (hseenNo.trans hno.symm))
  subst hsame
  have hpayment : later.payment = seen.payment := hsteps.payment (by simp [hpaid])
  obtain ⟨provider, tradeNo, paidAt, hne, hcolumns⟩ := (hsnapshot seen hseen).paid (Or.inl hpaid)
  have hseenTrade : seen.providerTradeNo = some tradeNo := congrArg (fun p => p.2.1) hcolumns
  have hmatch : tradeNo = dto.providerTradeNo := by
    simpa [hseenTrade, truthy, hne] using htrade
  refine .refunded hevent hstatus ?_ ?_ refundedAt
  · exact (congrArg (fun p => p.1) hpayment).trans hprovider
  · exact (congrArg (fun p => p.2.1) hpayment).trans (hseenTrade.trans (congrArg some hmatch))

theorem markOrderRefundedTx_yields {dto : PaymentCallbackDto} {signature : Option String}
    (hevent : dto.event = .refunded) (refundedAt : JsDate) {snapshot base : BillingDb}
    (hsnapshot : snapshot.Consistent) (hevolves : snapshot.Evolves base) :
    (markOrderRefundedTx dto refundedAt).Yields billingClient.engine
      (fun _ db' => OrdersChange (.handlePaymentCallback dto signature) base db')
      (View.initial .repeatableRead snapshot base) := by
  have hsame : OrdersChange (.handlePaymentCallback dto signature) base base := .unchanged rfl
  unfold markOrderRefundedTx
  refine yields_find ?_
  rw [Client.seen_initial]
  split
  · trivial
  · rename_i seen hfind
    have hseen : seen ∈ snapshot.orders.rows := List.mem_of_find?_eq_some hfind
    have hseenNo : seen.orderNo = dto.orderNo := by simpa using List.find?_some hfind
    split
    · split
      · exact findUniqueOrThrow_yields _ fun _ => hsame
      · trivial
    · split
      · trivial
      · rename_i hpaid
        split
        · trivial
        · rename_i hchecked
          simp only [not_or, not_not, Bool.not_eq_true] at hpaid hchecked
          refine yields_dateOrReject fun t => yields_updateManyOrders (fun error => trivial) ?_
            fun order hmem hno hstatus orders hrows => ?_
          · refine yields_find ?_
            split
            · exact findUniqueOrThrow_yields _ fun _ => hsame
            · trivial
          · exact findUniqueOrThrow_yields _ fun _ =>
              .updated dto signature order _ rfl hmem hno
                (accepts_refund hevent hsnapshot hevolves hseen hseenNo hpaid hchecked.1 hchecked.2
                  hmem hno hstatus t) hrows

/-! ### The two calls -/

theorem safe_callbackTime {c : BillingCall} {dto : PaymentCallbackDto}
    {k : JsDate → BillingProg SerializedOrder} (hc : c.Authentic platform)
    (h : ∀ date, (k date).Safe billingClient.engine (billingContract platform) c none) :
    ((platform.callbackTime dto).bind k).Safe billingClient.engine (billingContract platform)
      c none := by
  unfold Platform.callbackTime
  split
  · exact h _
  · exact safe_now (idle hc) fun now => h (some now)

theorem handlePaymentCallback_safe (dto : PaymentCallbackDto) (signature : Option String) :
    (platform.handlePaymentCallback dto signature).Safe billingClient.engine
      (billingContract platform) (.handlePaymentCallback dto signature) none := by
  unfold Platform.handlePaymentCallback
  split
  · rename_i hverifies
    have hc : (BillingCall.handlePaymentCallback dto signature).Authentic platform := hverifies
    split
    · rename_i hevent
      refine safe_callbackTime hc fun paidAt => Prog.Safe.transaction fun snapshot base _ _ hbase => ?_
      exact (markOrderPaidTx_yields hevent paidAt snapshot base).mono
        fun _ _ h => commits_of hc hbase h
    · rename_i hevent
      refine safe_callbackTime hc fun refundedAt =>
        Prog.Safe.transaction fun snapshot base hsnapshot hevolves hbase => ?_
      exact (markOrderRefundedTx_yields hevent refundedAt hsnapshot hevolves).mono
        fun _ _ h => commits_of hc hbase h
  · trivial

theorem program_safe (c : BillingCall) :
    (c.program platform).Safe billingClient.engine (billingContract platform) c none := by
  cases c with
  | createOrder ambient dto key => exact createOrder_safe ambient dto key
  | handlePaymentCallback dto signature => exact handlePaymentCallback_safe dto signature

end Calls

/-! ### The lifecycle -/

/-- What a step of the call `c` may do to an order. -/
structure Order.Step (c : BillingCall) (o o' : Order) : Prop where
  id : o'.id = o.id
  orderNo : o'.orderNo = o.orderNo
  status : o'.status = o.status ∨ OrderStatus.Moves o.status o'.status
  payment : o'.payment = o.payment ∨ o.status = .pending ∧ o'.status = .paid
  named : o' ≠ o → ∃ dto signature, c = .handlePaymentCallback dto signature ∧ o.orderNo = dto.orderNo
  pay : o.status = .pending → o'.status = .paid → ∃ dto signature paidAt,
    c = .handlePaymentCallback dto signature ∧ dto.event = .paid ∧
      o'.payment = (some dto.provider, some dto.providerTradeNo, some paidAt)
  refund : o.status = .paid → o'.status = .refunded → ∃ dto signature,
    c = .handlePaymentCallback dto signature ∧ dto.event = .refunded ∧
      o.paymentProvider = some dto.provider ∧ o.providerTradeNo = some dto.providerTradeNo

/-- What a step of the call `c` may do to the table: each order takes a step, and an
order that was not there is new. -/
structure OrdersStep (c : BillingCall) (db db' : BillingDb) : Prop where
  kept : ∀ o ∈ db.orders.rows, ∃ o' ∈ db'.orders.rows, o.Step c o'
  added : ∀ o' ∈ db'.orders.rows, (∃ o ∈ db.orders.rows, o.Step c o') ∨ o'.IsNew

theorem Order.Step.refl (c : BillingCall) (o : Order) : o.Step c o where
  id := rfl
  orderNo := rfl
  status := Or.inl rfl
  payment := Or.inl rfl
  named hne := absurd rfl hne
  pay hpending hpaid := by simp [hpending] at hpaid
  refund hpaid hrefunded := by simp [hpaid] at hrefunded

theorem Order.Accepts.step {o : Order} {dto : PaymentCallbackDto} {data : OrderData}
    (h : o.Accepts dto data) (signature : Option String) (hno : o.orderNo = dto.orderNo) :
    o.Step (.handlePaymentCallback dto signature) (data.apply o) := by
  cases h with
  | paid event status paidAt =>
      exact ⟨rfl, rfl, Or.inr (status ▸ .pay), Or.inr ⟨status, rfl⟩,
        fun _ => ⟨dto, signature, rfl, hno⟩, fun _ _ => ⟨dto, signature, paidAt, rfl, event, rfl⟩,
        fun hpaid => by simp [status] at hpaid⟩
  | refunded event status provider tradeNo refundedAt =>
      exact ⟨rfl, rfl, Or.inr (status ▸ .refund), Or.inl rfl,
        fun _ => ⟨dto, signature, rfl, hno⟩, fun hpending => by simp [status] at hpending,
        fun _ _ => ⟨dto, signature, rfl, event, provider, tradeNo⟩⟩

theorem OrdersChange.step {c : BillingCall} {db db' : BillingDb} (h : OrdersChange c db db') :
    OrdersStep c db db' := by
  cases h with
  | unchanged same =>
      exact ⟨fun o ho => ⟨o, same ▸ ho, .refl c o⟩, fun o' ho' => Or.inl ⟨o', same ▸ ho', .refl c o'⟩⟩
  | created order _ new rows =>
      refine ⟨fun o ho => ⟨o, rows ▸ List.mem_append_left _ ho, .refl c o⟩, fun o' ho' => ?_⟩
      rw [rows, List.mem_append, List.mem_singleton] at ho'
      rcases ho' with hold | rfl
      · exact Or.inl ⟨o', hold, .refl c o'⟩
      · exact Or.inr new
  | updated dto signature order data call mem named accepts rows =>
      have hstep : ∀ o ∈ db.orders.rows,
          o.Step c (if o.orderNo = dto.orderNo then data.apply o else o) := by
        intro o ho
        split
        · rename_i hno
          rw [db.order_eq ho mem (hno.trans named.symm), call]
          exact accepts.step signature named
        · exact .refl c o
      refine ⟨fun o ho => ⟨_, rows ▸ List.mem_map.mpr ⟨o, ho, rfl⟩, hstep o ho⟩, fun o' ho' => ?_⟩
      rw [rows] at ho'
      obtain ⟨o, ho, rfl⟩ := List.mem_map.mp ho'
      exact Or.inl ⟨o, ho, hstep o ho⟩

/-- Two orders with one trade are one order. -/
theorem BillingDb.order_eq_of_trade {db : BillingDb} {o o' : Order}
    {trade : PaymentProvider × String} (h : o ∈ db.orders.rows) (h' : o' ∈ db.orders.rows)
    (ht : o.trade = some trade) (ht' : o'.trade = some trade) : o = o' :=
  db.orders.unique.eq_of_mem (k := .trade trade.1 trade.2) h h' (by simp [Order.keys, ht])
    (by simp [Order.keys, ht'])

section Runs

variable {platform : Platform}

/-- The billing calls on a database whose orders are consistent. -/
abbrev billingMachine (platform : Platform) : Machine BillingWorld BillingAction :=
  (billingSystem platform).machine BillingDb.Consistent

theorem billing_step {w w' : BillingWorld} {a : BillingAction}
    (hw : w.Inv billingClient.engine (billingContract platform))
    (hstep : w.step (billingSystem platform) a = some w') :
    w'.Inv billingClient.engine (billingContract platform) ∧
      World.Effect (billingSystem platform) (billingContract platform) w a w' :=
  step_contract (S := billingSystem platform) (fun c _ => program_safe c) hw
    (by cases a <;> trivial) hstep

theorem billing_inv {w : BillingWorld} (h : (billingMachine platform).Reachable w) :
    w.Inv billingClient.engine (billingContract platform) := by
  refine h.invariant ?_ fun w a w' hw _ hstep => (billing_step hw hstep).1
  rintro ⟨db, threads⟩ ⟨hdb, rfl⟩
  exact ⟨hdb, fun _ h => by cases h⟩

/-- A call that has returned is authentic. -/
def ResultsAuthentic (platform : Platform) (w : BillingWorld) : Prop :=
  ∀ (t : Nat) (th : BillingThread), w.threads[t]? = some th → th.result?.isSome →
    th.call.Authentic platform

/-- A thread that has returned without a step. -/
theorem authentic_of_program {th : BillingThread}
    (hprogram : th.prog = (billingSystem platform).program th.call) (hresult : th.result?.isSome) :
    th.call.Authentic platform := by
  obtain ⟨call, prog, tx⟩ := th
  cases call with
  | createOrder _ _ _ => trivial
  | handlePaymentCallback dto signature =>
      cases hverifies : platform.verifies dto signature with
      | true => exact hverifies
      | false =>
          have hthrow : prog = .throw (.unauthorized "Invalid payment signature") := by
            rw [show prog = platform.handlePaymentCallback dto signature from hprogram,
              Platform.handlePaymentCallback, hverifies]
            rfl
          subst hthrow
          cases tx <;> cases hresult

/-- A callback returns only if its signature verifies: else its program is an error, and
every commit is of an authentic call. -/
theorem authentic_of_result {w : BillingWorld} (h : (billingMachine platform).Reachable w) :
    ResultsAuthentic platform w := by
  refine (System.reachable_contract (S := billingSystem platform) (J := ResultsAuthentic platform)
    (fun c _ => program_safe c) (fun _ h => h) (fun _ a _ => by cases a <;> trivial) h ?_ ?_).2
  · rintro s - t th hth
    simp at hth
  · rintro w w' a - hw - heffect t th hth hresult
    cases heffect with
    | quiet _ results =>
        rcases results t th hth hresult with hold | hprogram
        · exact hw t th hold hresult
        · exact authentic_of_program hprogram hresult
    | commit u env tu rest _ found _ threads commits =>
        rw [threads] at hth
        rcases getElem?_set_cases hth with ⟨-, rfl⟩ | ⟨-, hold⟩
        · exact commits.post.1
        · exact hw t th hold hresult

end Runs

/-- **The lifecycle of orders.** In every interleaving of any number of calls: the
columns of every order agree with its status, no two orders carry one trade, every step
takes each order along its lifecycle, and no order leaves it on the way. -/
theorem orders_follow_lifecycle (platform : Platform) {w : BillingWorld}
    (h : (billingMachine platform).Reachable w) :
    w.committed.Consistent ∧
      (∀ o ∈ w.committed.orders.rows, ∀ o' ∈ w.committed.orders.rows, ∀ trade,
        o.trade = some trade → o'.trade = some trade → o = o') ∧
      (∀ a w', w.step (billingSystem platform) a = some w' →
        w'.committed = w.committed ∨ ∃ t env th, a = .run t env ∧ w.threads[t]? = some th ∧
          OrdersStep th.call w.committed w'.committed) ∧
      ∀ w', ReflTransGen ((billingMachine platform).Next fun _ _ => True) w w' →
        w.committed.Evolves w'.committed := by
  have hw := billing_inv h
  refine ⟨hw.committed, fun o ho o' ho' trade ht ht' =>
    BillingDb.order_eq_of_trade ho ho' ht ht', fun a w' hstep => ?_, fun w' hrun => ?_⟩
  · cases (billing_step hw hstep).2 with
    | quiet committed _ => exact Or.inl committed
    | commit t env th rest action found _ _ commits =>
        exact Or.inr ⟨t, env, th, action, found, commits.post.2.step⟩
  · refine (Machine.run_related (I := fun w => w.Inv billingClient.engine (billingContract platform))
      (R := fun w w' : BillingWorld => w.committed.Evolves w'.committed)
      hrun hw (fun w => .refl w.committed) .trans fun w a w' hw _ hstep => ?_).2
    obtain ⟨hw', heffect⟩ := billing_step hw hstep
    refine ⟨hw', ?_⟩
    cases heffect with
    | quiet committed _ => exact committed ▸ .refl w.committed
    | commit t env th rest action found _ _ commits => exact commits.evolves

/-- Create the order of the documented example, pay it and refund it; the payment is
notified twice at once. -/
def exampleOrderRun : List BillingAction :=
  let env : Env := { now := 1716123456, random := "A1B2C3D4" }
  let unscoped : Tenancy.Ambient := { isTenantBypass := false, getAccessContext := none }
  let paid : BillingCall := .handlePaymentCallback PAYMENT_CALLBACK_PAID_REQUEST_EXAMPLE
    (some PAYMENT_SIGNATURE_EXAMPLE)
  let refunded : BillingCall := .handlePaymentCallback PAYMENT_CALLBACK_REFUNDED_REQUEST_EXAMPLE
    (some refundSignatureExample)
  [.spawn (.createOrder unscoped { title := "", amountCents := 399900 } "create-order-1")] ++
    List.replicate 5 (.run 0 env) ++ [.spawn paid, .spawn paid, .spawn refunded] ++
    List.replicate 2 (.run 1 env) ++ List.replicate 2 (.run 2 env) ++ List.replicate 3 (.run 1 env) ++
    [.abort 2] ++ List.replicate 5 (.run 3 env)

def noOrders : BillingDb where
  student _ := none
  orders := ∅

theorem noOrders_consistent : noOrders.Consistent := by
  simp [BillingDb.Consistent, noOrders]

theorem example_order_refunded :
    ∃ w, (billingMachine examplePlatform).exec { committed := noOrders } exampleOrderRun = some w ∧
      w.committed.orders.rows.map (fun o => (o.status, o.providerTradeNo, o.paidAt, o.refundedAt)) =
        [(.refunded, some "MOCK_TX_20260519120000", some 1779192000000, some 1779271200000)] ∧
      w.committed.Consistent := by
  have hresult : ((billingMachine examplePlatform).exec { committed := noOrders } exampleOrderRun).map
      (fun w => w.committed.orders.rows.map fun o =>
        (o.status, o.providerTradeNo, o.paidAt, o.refundedAt)) =
      some [(.refunded, some "MOCK_TX_20260519120000", some 1779192000000, some 1779271200000)] := by
    decide +kernel
  obtain ⟨w, hexec, horders⟩ := Option.map_eq_some_iff.mp hresult
  refine ⟨w, hexec, horders, ?_⟩
  exact (orders_follow_lifecycle examplePlatform (Machine.reachableBy_exec
    (Machine.reachableBy_init (System.machine_init noOrders_consistent)) (Machine.admits_true _ _)
    hexec)).1

end MibServer.Billing
