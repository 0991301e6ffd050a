import MibServer.Prisma
import MibServer.Tenancy.Extension

/-!
The orders table and the Prisma calls the billing service makes on it.
-/

namespace MibServer.Billing

open MibServer.Lib MibServer.Prisma MibServer.Tenancy

/-! ### Rows -/

inductive OrderStatus where
  | pending | paid | refunded | cancelled
deriving DecidableEq, Repr

inductive PaymentProvider where
  | mock | wechat | alipay
deriving DecidableEq, Repr

/-- A row of `Order`; the audit columns are left out. -/
structure Order where
  id : String
  tenantId : Option String
  orderNo : String
  studentId : Option String
  title : String
  amountCents : Int
  currency : String
  status : OrderStatus
  paymentProvider : Option PaymentProvider
  providerTradeNo : Option String
  idempotencyKey : Option String
  paidAt : Option Int
  refundedAt : Option Int
deriving DecidableEq, Repr

inductive OrderKey where
  | id (id : String)
  | orderNo (orderNo : String)
  | idempotencyKey (key : String)
  | trade (provider : PaymentProvider) (tradeNo : String)
deriving DecidableEq, Repr

/-- `paymentProvider` and `providerTradeNo` where neither is null. -/
def Order.trade (o : Order) : Option (PaymentProvider × String) :=
  o.paymentProvider.bind fun provider => o.providerTradeNo.map fun tradeNo => (provider, tradeNo)

/-- The primary key, the unique columns and
`@@unique([paymentProvider, providerTradeNo])`. -/
def Order.keys (o : Order) : List OrderKey :=
  [.id o.id, .orderNo o.orderNo] ++ (o.idempotencyKey.map OrderKey.idempotencyKey).toList ++
    (o.trade.map fun trade => OrderKey.trade trade.1 trade.2).toList

theorem Order.orderNo_mem_keys {o : Order} {orderNo : String} :
    OrderKey.orderNo orderNo ∈ o.keys ↔ o.orderNo = orderNo := by
  unfold Order.keys
  cases o.idempotencyKey <;> cases o.trade <;> simp [eq_comm]

/-- The database; a student is present with its `tenantId`. -/
structure BillingDb where
  student : String → Option (Option String)
  orders : Indexed Order OrderKey Order.keys

/-! ### Statements -/

/-- `scope` is the clause the tenant extension adds to the `where`. -/
inductive BillingRead where
  | findStudent (id : String) (scope : Option TenantWhereClause)
  | findByIdempotencyKey (key : String) (scope : Option TenantWhereClause)
  | findById (id : String)
  | findByOrderNo (orderNo : String)
  | findByTrade (provider : PaymentProvider) (tradeNo : String)

/-- The columns an `order.updateMany` sets. -/
inductive OrderData where
  | paid (provider : PaymentProvider) (tradeNo : String) (paidAt : Int)
  | refunded (refundedAt : Int)

inductive BillingWrite where
  | createOrder (order : Order)
  | updateManyOrders (orderNo : String) (status : OrderStatus) (data : OrderData)

@[reducible] def BillingRead.Row : BillingRead → Type
  | .findStudent _ _ => Option (Option String)
  | _ => Option Order

@[reducible] def BillingWrite.Row : BillingWrite → Type
  | .createOrder _ => Order
  | .updateManyOrders _ _ _ => Nat

instance (r : BillingRead) : DecidableEq r.Row := by
  cases r <;> exact inferInstance

instance (w : BillingWrite) : DecidableEq w.Row := by
  cases w <;> exact inferInstance

abbrev BillingStmt := Stmt BillingRead BillingWrite

abbrev BillingStmt.Reply : BillingStmt → Type := Stmt.Reply BillingRead.Row BillingWrite.Row

/-! ### Reads -/

structure BillingRows where
  student : String → Option (Option String)
  orders : List Order

def BillingDb.rows (db : BillingDb) : BillingRows where
  student := db.student
  orders := db.orders.rows

def BillingRows.find (rows : BillingRows) : (r : BillingRead) → r.Row
  | .findStudent id scope => (rows.student id).filter (inScope scope)
  | .findByIdempotencyKey key scope =>
      rows.orders.find? fun o => o.idempotencyKey == some key && inScope scope o.tenantId
  | .findById id => rows.orders.find? fun o => o.id == id
  | .findByOrderNo orderNo => rows.orders.find? fun o => o.orderNo == orderNo
  | .findByTrade provider tradeNo =>
      rows.orders.find? fun o =>
        o.paymentProvider == some provider && o.providerTradeNo == some tradeNo

/-- The rows a consistent read sees. -/
def BillingRows.visible (snapshot base work : BillingRows) : BillingRows where
  student := snapshot.student
  orders := overlay Order.id snapshot.orders base.orders work.orders

/-! ### Writes -/

def OrderData.apply (data : OrderData) (o : Order) : Order :=
  match data with
  | .paid provider tradeNo paidAt =>
      { o with
        status := .paid, paymentProvider := some provider, providerTradeNo := some tradeNo,
        paidAt := some paidAt }
  | .refunded refundedAt => { o with status := .refunded, refundedAt := some refundedAt }

/-- Selected by the `where` of the update. -/
def Order.isAt (o : Order) (orderNo : String) (status : OrderStatus) : Bool :=
  o.orderNo == orderNo && o.status == status

section

variable {o : Order} {orderNo : String} {status : OrderStatus}

theorem Order.isAt_orderNo (h : o.isAt orderNo status = true) : o.orderNo = orderNo := by
  simp only [Order.isAt, Bool.and_eq_true, beq_iff_eq] at h
  exact h.1

theorem Order.isAt_status (h : o.isAt orderNo status = true) : o.status = status := by
  simp only [Order.isAt, Bool.and_eq_true, beq_iff_eq] at h
  exact h.2

end

namespace BillingDb

def createOrder (db : BillingDb) (order : Order) : Except DbError Order × BillingDb :=
  if order.studentId.all fun id => (db.student id).isSome then
    match db.orders.insert? order with
    | some orders => (.ok order, { db with orders })
    | none => (.error .uniqueViolation, db)
  else (.error .other, db)

def updateManyOrders (db : BillingDb) (orderNo : String) (status : OrderStatus) (data : OrderData) :
    Except DbError Nat × BillingDb :=
  match db.orders.updateWhere? (fun o => o.isAt orderNo status) data.apply with
  | some orders => (.ok (db.orders.rows.countP fun o => o.isAt orderNo status), { db with orders })
  | none => (.error .uniqueViolation, db)

def write (db : BillingDb) : (w : BillingWrite) → Except DbError w.Row × BillingDb
  | .createOrder order => db.createOrder order
  | .updateManyOrders orderNo status data => db.updateManyOrders orderNo status data

end BillingDb

def billingClient :
    Client BillingDb BillingRows BillingRead BillingWrite BillingRead.Row BillingWrite.Row where
  rows := BillingDb.rows
  find := BillingRows.find
  visible := BillingRows.visible
  visible_self _ _ := by simp [BillingRows.visible]
  write := BillingDb.write

abbrev BillingProg := Prog BillingStmt BillingStmt.Reply HttpException

theorem billingClient_write (db : BillingDb) (w : BillingWrite) :
    billingClient.write db w = db.write w :=
  rfl

/-! ### What the statements do -/

namespace BillingDb

/-- Two orders with one number are one order. -/
theorem order_eq {db : BillingDb} {o o' : Order} (h : o ∈ db.orders.rows) (h' : o' ∈ db.orders.rows)
    (hno : o.orderNo = o'.orderNo) : o = o' :=
  db.orders.unique.eq_of_mem h h' (Order.orderNo_mem_keys.mpr rfl)
    (Order.orderNo_mem_keys.mpr hno.symm)

/-- An insert adds its row, or fails and leaves the rows alone. -/
theorem createOrder_cases (db : BillingDb) (order : Order) :
    (∃ error, db.createOrder order = (.error error, db)) ∨
      ∃ orders, orders.rows = db.orders.rows ++ [order] ∧
        db.createOrder order = (.ok order, { db with orders }) := by
  unfold createOrder
  split
  · split
    · rename_i orders hinsert
      exact Or.inr ⟨orders, Indexed.rows_insert? hinsert, rfl⟩
    · exact Or.inl ⟨_, rfl⟩
  · exact Or.inl ⟨_, rfl⟩

/-- An update by order number and status changes no order, or the one it selects. -/
theorem updateManyOrders_cases (db : BillingDb) (orderNo : String) (status : OrderStatus)
    (data : OrderData) :
    db.updateManyOrders orderNo status data = (.error .uniqueViolation, db) ∨
      db.updateManyOrders orderNo status data = (.ok 0, db) ∨
      ∃ order ∈ db.orders.rows, order.orderNo = orderNo ∧ order.status = status ∧
        ∃ orders, orders.rows = (db.orders.rows.map fun o =>
            if o.orderNo = orderNo then data.apply o else o) ∧
          db.updateManyOrders orderNo status data = (.ok 1, { db with orders }) := by
  unfold updateManyOrders
  split
  · rename_i orders hupdate
    have hrows : orders.rows = _ := Indexed.replace?_some (t := db.orders) hupdate
    rcases db.orders.unique.select_cases (k := .orderNo orderNo) (p := fun o => o.isAt orderNo status)
      fun o _ hat => Order.orderNo_mem_keys.mpr (Order.isAt_orderNo hat) with
      ⟨hnone, hcount⟩ | ⟨order, hmem, hat, hcount, hselects⟩
    · have hsame : orders = db.orders := Indexed.ext (hrows.trans
        ((List.map_congr_left (g := id) fun o ho => by simp [hnone o ho]).trans (List.map_id _)))
      exact Or.inr (Or.inl (by rw [hcount, hsame]))
    · refine Or.inr (Or.inr ⟨order, hmem, Order.isAt_orderNo hat, Order.isAt_status hat, orders, ?_,
        by rw [hcount]⟩)
      rw [hrows]
      refine List.map_congr_left fun o ho => if_congr ?_ rfl rfl
      rw [hselects o ho, Order.orderNo_mem_keys]
  · exact Or.inl rfl

end BillingDb

end MibServer.Billing
