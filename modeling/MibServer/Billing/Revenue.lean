import Mathlib.Algebra.Ring.Int.Defs
import MibServer.Billing.Lifecycle

/-!
`StatisticsService.revenueSummary`: the number of paid orders and the sum of their amounts.

The query has no condition on the status. It leans on `paidAt` being null for an order that
is not paid, and only a given bound compares `paidAt` at all: without bounds every order
counts, and with bounds the refunded ones do, which keep their `paidAt`.
`revenue_exact_iff` says on which orders the sums come out right all the same.
-/

namespace MibServer.Billing

open MibServer.Lib MibServer.Prisma MibServer.Tenancy

structure StatisticsDateRangeQueryDto where
  from? : Option String := none
  to? : Option String := none
deriving DecidableEq

/-- `where.paidAt`, with the dates as `new Date` gives them. -/
structure PaidAtFilter where
  gte : Option JsDate
  lte : Option JsDate
deriving DecidableEq

structure RevenueSummary where
  orderCount : Nat
  totalAmountCents : Int
  totalAmount : String
deriving DecidableEq, Repr

/-! ### The query -/

/-- A bound that is given must be a date, else Prisma rejects the query. -/
def validBound : Option JsDate → Except HttpException (Option Int)
  | none => .ok none
  | some (some t) => .ok (some t)
  | some none => .error .internal

/-- A column between two bounds; comparing `NULL` is not true. -/
def between (gte lte : Option Int) (column : Option Int) : Bool :=
  column.any fun t => gte.all (· ≤ t) && lte.all (t ≤ ·)

/-- `_count` and `_sum.amountCents` of an aggregate; a sum over no rows is null. -/
def aggregated (rows : List Order) : Nat × Option Int :=
  (rows.length, if rows = [] then none else some (rows.map Order.amountCents).sum)

/-- `order.aggregate`, under the clause of the tenant extension. -/
def aggregateOrders (scope : Option TenantWhereClause) (paidAt : Option PaidAtFilter)
    (orders : List Order) : Except HttpException (Nat × Option Int) :=
  match paidAt with
  | none => .ok (aggregated (orders.filter fun o => inScope scope o.tenantId))
  | some filter => do
      let gte ← validBound filter.gte
      let lte ← validBound filter.lte
      return aggregated (orders.filter fun o => inScope scope o.tenantId && between gte lte o.paidAt)

namespace Platform

variable (platform : Platform)

def paidAtFilter (params : StatisticsDateRangeQueryDto) : Option PaidAtFilter :=
  if (truthy params.from?).isSome || (truthy params.to?).isSome then
    some { gte := (truthy params.from?).map platform.newDate,
           lte := (truthy params.to?).map platform.newDate }
  else none

def revenueSummary (ambient : Ambient) (params : StatisticsDateRangeQueryDto) (db : BillingDb) :
    Except HttpException RevenueSummary := do
  let (orderCount, sum) ← aggregateOrders (resolveTenantWhere ambient)
    (platform.paidAtFilter params) db.orders.rows
  let totalCents := sum.getD 0
  return { orderCount, totalAmountCents := totalCents, totalAmount := formatAmountFromCents totalCents }

end Platform

/-! ### What it is for -/

/-- The bound a text gives: none if it is left out or empty. -/
def Platform.Bound (platform : Platform) (text : Option String) (bound : Option Int) : Prop :=
  validBound ((truthy text).map platform.newDate) = .ok bound

/-- Paid, at a time within the bounds. -/
def Order.paidWithin (gte lte : Option Int) (o : Order) : Bool :=
  o.status == .paid && between gte lte o.paidAt

/-- The number of orders, and their sum. -/
def summaryOf (orders : List Order) : RevenueSummary where
  orderCount := orders.length
  totalAmountCents := (orders.map Order.amountCents).sum
  totalAmount := formatAmountFromCents (orders.map Order.amountCents).sum

/-- The orders the caller may see. -/
def visibleOrders (ambient : Ambient) (db : BillingDb) : List Order :=
  db.orders.rows.filter fun o => inScope (resolveTenantWhere ambient) o.tenantId

/-- The summary is that of the orders paid within the bounds. -/
def RevenueExact (platform : Platform) (ambient : Ambient) (params : StatisticsDateRangeQueryDto)
    (db : BillingDb) : Prop :=
  ∃ gte lte, platform.Bound params.from? gte ∧ platform.Bound params.to? lte ∧
    platform.revenueSummary ambient params db =
      .ok (summaryOf ((visibleOrders ambient db).filter (Order.paidWithin gte lte)))

/-- Bounds that are dates, and orders the query does not miscount: without bounds all are
paid, with a bound none within the bounds is refunded. -/
def RevenueSound (platform : Platform) (ambient : Ambient) (params : StatisticsDateRangeQueryDto)
    (db : BillingDb) : Prop :=
  ∃ gte lte, platform.Bound params.from? gte ∧ platform.Bound params.to? lte ∧
    ∀ o ∈ visibleOrders ambient db,
      if gte = none ∧ lte = none then o.status = .paid
      else ¬ (o.status = .refunded ∧ between gte lte o.paidAt = true)

/-! ### What the query counts -/

/-- The orders the query counts under the bounds. -/
def counted (gte lte : Option Int) (o : Order) : Bool :=
  (gte.isNone && lte.isNone) || between gte lte o.paidAt

theorem validBound_isSome {date : Option JsDate} {bound : Option Int} (h : validBound date = .ok bound) :
    bound.isSome = date.isSome := by
  rcases date with _ | _ | t
  · cases h
    rfl
  · cases h
  · cases h
    rfl

theorem aggregated_sum (rows : List Order) :
    (aggregated rows).2.getD 0 = (rows.map Order.amountCents).sum := by
  cases rows with
  | nil => rfl
  | cons o rows => rfl

theorem revenueSummary_of_aggregate {platform : Platform} {ambient : Ambient}
    {params : StatisticsDateRangeQueryDto} {db : BillingDb} {rows : List Order}
    (h : aggregateOrders (resolveTenantWhere ambient) (platform.paidAtFilter params) db.orders.rows =
      .ok (aggregated rows)) :
    platform.revenueSummary ambient params db = .ok (summaryOf rows) := by
  unfold Platform.revenueSummary
  rw [h]
  have hsummary : (⟨rows.length, (aggregated rows).2.getD 0,
      formatAmountFromCents ((aggregated rows).2.getD 0)⟩ : RevenueSummary) = summaryOf rows := by
    rw [aggregated_sum]
    rfl
  exact congrArg Except.ok hsummary

theorem revenueSummary_eq {platform : Platform} {ambient : Ambient}
    {params : StatisticsDateRangeQueryDto} {gte lte : Option Int}
    (hgte : platform.Bound params.from? gte) (hlte : platform.Bound params.to? lte) (db : BillingDb) :
    platform.revenueSummary ambient params db =
      .ok (summaryOf ((visibleOrders ambient db).filter (counted gte lte))) := by
  refine revenueSummary_of_aggregate ?_
  have hfrom := validBound_isSome hgte
  have hto := validBound_isSome hlte
  rw [Option.isSome_map] at hfrom hto
  unfold Platform.paidAtFilter visibleOrders
  rw [List.filter_filter]
  by_cases hgiven : ((truthy params.from?).isSome || (truthy params.to?).isSome) = true
  · rw [if_pos hgiven]
    have hbounds : aggregateOrders (resolveTenantWhere ambient)
        (some ⟨(truthy params.from?).map platform.newDate, (truthy params.to?).map platform.newDate⟩)
        db.orders.rows = .ok (aggregated (db.orders.rows.filter fun o =>
          inScope (resolveTenantWhere ambient) o.tenantId && between gte lte o.paidAt)) := by
      unfold Platform.Bound at hgte hlte
      simp only [aggregateOrders, hgte, hlte]
      rfl
    rw [hbounds]
    refine congrArg (fun rows => Except.ok (aggregated rows)) (List.filter_congr fun o _ => ?_)
    rw [← hfrom, ← hto] at hgiven
    unfold counted
    rw [Bool.and_comm]
    cases gte <;> cases lte <;> simp_all
  · rw [if_neg hgiven]
    rw [← hfrom, ← hto] at hgiven
    refine congrArg (fun rows => Except.ok (aggregated rows)) (List.filter_congr fun o _ => ?_)
    unfold counted
    cases gte <;> cases lte <;> simp_all

/-! ### Which orders are miscounted -/

theorem between_isSome {gte lte column : Option Int} (h : between gte lte column = true) :
    column.isSome = true := by
  cases column with
  | none => cases h
  | some t => rfl

/-- The columns of an order that is not paid yet, and of one that has been paid. -/
theorem Order.Consistent.paidAt_isSome {o : Order} (ho : o.Consistent) :
    o.paidAt.isSome = true ↔ o.status = .paid ∨ o.status = .refunded := by
  constructor
  · intro hsome
    cases hstatus : o.status with
    | paid => exact Or.inl rfl
    | refunded => exact Or.inr rfl
    | pending =>
        have hpayment := ho.unpaid (Or.inl hstatus)
        simp only [Order.payment, Prod.mk.injEq] at hpayment
        rw [hpayment.2.2] at hsome
        cases hsome
    | cancelled =>
        have hpayment := ho.unpaid (Or.inr hstatus)
        simp only [Order.payment, Prod.mk.injEq] at hpayment
        rw [hpayment.2.2] at hsome
        cases hsome
  · intro hpaid
    obtain ⟨provider, tradeNo, paidAt, -, hpayment⟩ := ho.paid hpaid
    simp only [Order.payment, Prod.mk.injEq] at hpayment
    rw [hpayment.2.2]
    rfl

theorem counted_of_paidWithin {gte lte : Option Int} {o : Order} (h : o.paidWithin gte lte = true) :
    counted gte lte o = true := by
  simp only [Order.paidWithin, Bool.and_eq_true] at h
  simp [counted, h.2]

/-- An order is counted rightly when it is paid, or, with a bound, not refunded within the
bounds. -/
theorem counted_exact_iff {gte lte : Option Int} {o : Order} (ho : o.Consistent) :
    (counted gte lte o = true → o.paidWithin gte lte = true) ↔
      if gte = none ∧ lte = none then o.status = .paid
      else ¬ (o.status = .refunded ∧ between gte lte o.paidAt = true) := by
  by_cases hbounds : gte = none ∧ lte = none
  · obtain ⟨rfl, rfl⟩ := hbounds
    have hbetween : between none none o.paidAt = o.paidAt.isSome := by
      cases o.paidAt <;> rfl
    have hpaidAt := ho.paidAt_isSome
    rw [if_pos ⟨rfl, rfl⟩]
    simp only [counted, Order.paidWithin, hbetween, Option.isNone_none, Bool.and_true, Bool.true_or,
      forall_const, Bool.and_eq_true, beq_iff_eq]
    exact ⟨And.left, fun hpaid => ⟨hpaid, hpaidAt.mpr (Or.inl hpaid)⟩⟩
  · have hgiven : (gte.isNone && lte.isNone) = false := by
      cases gte <;> cases lte <;> simp_all
    rw [if_neg hbounds]
    simp only [counted, Order.paidWithin, hgiven, Bool.false_or, Bool.and_eq_true, beq_iff_eq]
    constructor
    · rintro hcounted ⟨hrefunded, hbetween⟩
      rw [(hcounted hbetween).1] at hrefunded
      cases hrefunded
    · intro hnone hbetween
      rcases ho.paidAt_isSome.mp (between_isSome hbetween) with hpaid | hrefunded
      · exact ⟨hpaid, hbetween⟩
      · exact absurd ⟨hrefunded, hbetween⟩ hnone

/-- Of two conditions one of which implies the other, as many elements meet the one as the
other only if they are the same. -/
theorem length_filter_eq_iff {α : Type} {l : List α} {p q : α → Bool} (himp : ∀ a, q a = true → p a = true) :
    (l.filter p).length = (l.filter q).length ↔ ∀ a ∈ l, p a = true → q a = true := by
  have hfilter : l.filter q = (l.filter p).filter q := by
    rw [List.filter_filter]
    refine List.filter_congr fun a _ => ?_
    cases hq : q a with
    | false => rfl
    | true => rw [himp a hq, Bool.and_self]
  rw [hfilter, eq_comm, List.length_filter_eq_length_iff]
  simp only [List.mem_filter, and_imp]

theorem summaryOf_filter_eq_iff {orders : List Order} {p q : Order → Bool}
    (himp : ∀ o, q o = true → p o = true) :
    summaryOf (orders.filter p) = summaryOf (orders.filter q) ↔
      ∀ o ∈ orders, p o = true → q o = true := by
  constructor
  · intro h
    exact (length_filter_eq_iff himp).mp (congrArg RevenueSummary.orderCount h)
  · intro h
    refine congrArg summaryOf (List.filter_congr fun o ho => Bool.eq_iff_iff.mpr ?_)
    exact ⟨h o ho, himp o⟩

/-- **When the revenue is right.** In every state reached by creating orders and by payment
callbacks, for every caller and every pair of bounds: the summary is that of the orders paid
within the bounds exactly if the bounds are dates and, without bounds, all the orders the
caller sees are paid, or else none of them that was paid within the bounds is refunded. -/
theorem revenue_exact_iff (platform : Platform) {w : BillingWorld}
    (h : (billingMachine platform).Reachable w) (ambient : Ambient)
    (params : StatisticsDateRangeQueryDto) :
    RevenueExact platform ambient params w.committed ↔
      RevenueSound platform ambient params w.committed := by
  have hconsistent : ∀ o ∈ visibleOrders ambient w.committed, o.Consistent :=
    fun o ho => (billing_inv h).committed o (List.mem_filter.mp ho).1
  refine exists_congr fun gte => exists_congr fun lte => and_congr_right fun hgte =>
    and_congr_right fun hlte => ?_
  rw [revenueSummary_eq hgte hlte, Except.ok.injEq,
    summaryOf_filter_eq_iff fun _ => counted_of_paidWithin]
  exact forall₂_congr fun o ho => counted_exact_iff (hconsistent o ho)

/-- The documented order is paid, and nobody has refunded it. -/
def paidOrderRun : List BillingAction := exampleOrderRun.take 17

theorem paidOrderRun_orders :
    ((billingMachine examplePlatform).exec { committed := noOrders } paidOrderRun).map
        (fun w => w.committed.orders.rows.map fun o => (o.status, o.amountCents, o.paidAt)) =
      some [(.paid, 399900, some 1779192000000)] := by
  decide +kernel

/-- A caller without tenant scope. -/
def headOffice : Ambient := { isTenantBypass := true, getAccessContext := none }

theorem revenue_exact_paidOrder :
    ∃ w, (billingMachine examplePlatform).exec { committed := noOrders } paidOrderRun = some w ∧
      RevenueExact examplePlatform headOffice { from? := some "2026-05-19T12:00:00.000Z" } w.committed := by
  obtain ⟨w, hexec, horders⟩ := Option.map_eq_some_iff.mp paidOrderRun_orders
  have hreach : (billingMachine examplePlatform).Reachable w := Machine.reachableBy_exec
    (Machine.reachableBy_init (System.machine_init noOrders_consistent)) (Machine.admits_true _ _) hexec
  refine ⟨w, hexec, (revenue_exact_iff examplePlatform hreach headOffice _).mpr ?_⟩
  refine ⟨some 1779192000000, none, by simp [Platform.Bound, truthy, examplePlatform, validBound], rfl, ?_⟩
  intro o ho
  rw [if_neg (by simp)]
  rintro ⟨hrefunded, -⟩
  have hmem := List.mem_map_of_mem (f := fun o => (o.status, o.amountCents, o.paidAt))
    (List.mem_filter.mp ho).1
  rw [horders, List.mem_singleton, hrefunded] at hmem
  cases (Prod.mk.inj hmem).1

/-- A summary of an order where none is paid. -/
theorem not_exact_of_unpaid {platform : Platform} {ambient : Ambient}
    {params : StatisticsDateRangeQueryDto} {db : BillingDb} {summary : RevenueSummary}
    (hsummary : (platform.revenueSummary ambient params db).toOption = some summary)
    (hcount : summary.orderCount ≠ 0) (hunpaid : ∀ o ∈ db.orders.rows, o.status ≠ .paid) :
    ¬ RevenueExact platform ambient params db := by
  rintro ⟨gte, lte, -, -, hexact⟩
  have hnone : (visibleOrders ambient db).filter (Order.paidWithin gte lte) = [] := by
    rw [List.filter_eq_nil_iff]
    intro o ho hpaid
    simp only [Order.paidWithin, Bool.and_eq_true, beq_iff_eq] at hpaid
    exact hunpaid o (List.mem_filter.mp ho).1 hpaid.1
  rw [hexact, hnone] at hsummary
  cases hsummary
  exact hcount rfl

/-- Without bounds an order counts that nobody has paid, and with a bound the refunded order
of the documented example does. -/
theorem unpaid_and_refunded_counted :
    (∃ w, (billingMachine examplePlatform).Reachable w ∧
      w.committed.orders.rows.map Order.status = [.pending] ∧
      (examplePlatform.revenueSummary headOffice {} w.committed).toOption =
        some ⟨1, 399900, "3999.00"⟩ ∧
      ¬ RevenueExact examplePlatform headOffice {} w.committed) ∧
    ∃ w, (billingMachine examplePlatform).Reachable w ∧
      w.committed.orders.rows.map Order.status = [.refunded] ∧
      (examplePlatform.revenueSummary headOffice { from? := some "2026-05-19T12:00:00.000Z" }
        w.committed).toOption = some ⟨1, 399900, "3999.00"⟩ ∧
      ¬ RevenueExact examplePlatform headOffice { from? := some "2026-05-19T12:00:00.000Z" }
        w.committed := by
  have hpending : ((billingMachine examplePlatform).exec { committed := noOrders }
      (exampleOrderRun.take 6)).map (fun w => (w.committed.orders.rows.map Order.status,
        (examplePlatform.revenueSummary headOffice {} w.committed).toOption)) =
      some ([.pending], some ⟨1, 399900, "3999.00"⟩) := by
    decide +kernel
  have hrefunded : ((billingMachine examplePlatform).exec { committed := noOrders }
      exampleOrderRun).map (fun w => (w.committed.orders.rows.map Order.status,
        (examplePlatform.revenueSummary headOffice { from? := some "2026-05-19T12:00:00.000Z" }
          w.committed).toOption)) =
      some ([.refunded], some ⟨1, 399900, "3999.00"⟩) := by
    decide +kernel
  have hreach : ∀ {w : BillingWorld} {run : List BillingAction},
      (billingMachine examplePlatform).exec { committed := noOrders } run = some w →
      (billingMachine examplePlatform).Reachable w := fun hexec => Machine.reachableBy_exec
    (Machine.reachableBy_init (System.machine_init noOrders_consistent)) (Machine.admits_true _ _) hexec
  have hunpaid : ∀ {w : BillingWorld} {status : OrderStatus},
      w.committed.orders.rows.map Order.status = [status] → status ≠ .paid →
      ∀ o ∈ w.committed.orders.rows, o.status ≠ .paid := by
    intro w status hrows hne o ho
    have hmem := List.mem_map_of_mem (f := Order.status) ho
    rw [hrows, List.mem_singleton] at hmem
    exact hmem ▸ hne
  constructor
  · obtain ⟨w, hexec, hresult⟩ := Option.map_eq_some_iff.mp hpending
    obtain ⟨hrows, hsummary⟩ := Prod.mk.inj hresult
    exact ⟨w, hreach hexec, hrows, hsummary, not_exact_of_unpaid hsummary Nat.one_ne_zero
      (hunpaid hrows (by decide))⟩
  · obtain ⟨w, hexec, hresult⟩ := Option.map_eq_some_iff.mp hrefunded
    obtain ⟨hrows, hsummary⟩ := Prod.mk.inj hresult
    exact ⟨w, hreach hexec, hrows, hsummary, not_exact_of_unpaid hsummary Nat.one_ne_zero
      (hunpaid hrows (by decide))⟩

end MibServer.Billing
