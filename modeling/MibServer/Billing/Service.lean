import MibServer.Billing.Signature
import MibServer.Tenancy.Stamping

/-!
`BillingService`: creating an order and applying a payment callback, as programs of
database statements, and the system of any number of such calls.

A callback runs without tenant scope. Its transaction is at MySQL's default isolation
level: the plain reads may be stale, the conditional update never is.
-/

namespace MibServer.Billing

open MibServer.Lib MibServer.Prisma MibServer.Tenancy

/-! ### Orders -/

def DEFAULT_CURRENCY : String := "CNY"

/-- Validated: the amount is an integer of at least 1. -/
structure CreateOrderDto where
  studentId : Option String := none
  title : String
  amountCents : Nat
  currency : Option String := none
deriving DecidableEq

/-- Minor units as a decimal with two places. -/
def formatAmountFromCents (amountCents : Int) : String :=
  let cents := amountCents.natAbs % 100
  (if amountCents < 0 then "-" else "") ++ toString (amountCents.natAbs / 100) ++ "." ++
    (if cents < 10 then "0" else "") ++ toString cents

/-- The response; the included student is left out. -/
structure SerializedOrder where
  order : Order
  amount : String
deriving DecidableEq, Repr

def serializeOrder (order : Order) : SerializedOrder where
  order := order
  amount := formatAmountFromCents order.amountCents

/-- `randomBytes` gives the suffix. -/
def generateOrderNo : BillingProg String := do
  let now ← query .now
  let suffix ← query .random
  return "ORD" ++ toString now ++ suffix

/-- The tenant of the student the order is for. -/
def orderTenant (ambient : Ambient) (studentId : Option String) : BillingProg (Option String) :=
  match truthy studentId with
  | none => .ret none
  | some id => do
      match ← find (BillingRead.findStudent id (resolveTenantWhere ambient)) with
      | some tenantId => return tenantId
      | none => .throw (.notFound "学员不存在")

/-- `createOrder`; the id is the `uuid()` default of the row. -/
def createOrder (ambient : Ambient) (dto : CreateOrderDto) (idempotencyKey : String) :
    BillingProg SerializedOrder := do
  let tenantId ← orderTenant ambient dto.studentId
  match ← find (BillingRead.findByIdempotencyKey idempotencyKey (resolveTenantWhere ambient)) with
  | some existing => return serializeOrder existing
  | none =>
    let orderNo ← generateOrderNo
    let id ← query .random
    match ← query (.write (.createOrder
      { id, tenantId := storedTenant ambient tenantId, orderNo, studentId := dto.studentId,
        title := dto.title, amountCents := dto.amountCents,
        currency := dto.currency.getD DEFAULT_CURRENCY, status := .pending,
        paymentProvider := none, providerTradeNo := none, idempotencyKey := some idempotencyKey,
        paidAt := none, refundedAt := none })) with
    | .ok created => return serializeOrder created
    | .error error =>
      if isPrismaUniqueViolation error then
        match ← find (BillingRead.findByIdempotencyKey idempotencyKey (resolveTenantWhere ambient)) with
        | some winner => return serializeOrder winner
        | none => .throw .internal
      else .throw .internal

/-! ### Payment callbacks -/

def isSamePaidCallback (order : Order) (dto : PaymentCallbackDto) : Bool :=
  order.status == .paid && order.paymentProvider == some dto.provider &&
    order.providerTradeNo == some dto.providerTradeNo

def isSameRefundCallback (order : Order) (dto : PaymentCallbackDto) : Bool :=
  order.status == .refunded && order.paymentProvider == some dto.provider &&
    order.providerTradeNo == some dto.providerTradeNo

/-- Serialize an order, or fail as `findUniqueOrThrow` does. -/
def serializeOrThrow : Option Order → BillingProg SerializedOrder
  | some order => .ret (serializeOrder order)
  | none => .throw .internal

def findUniqueOrThrow (orderNo : String) : BillingProg SerializedOrder := do
  serializeOrThrow (← find (BillingRead.findByOrderNo orderNo))

def includeStudent (orderId : String) : BillingProg SerializedOrder := do
  serializeOrThrow (← find (BillingRead.findById orderId))

def resolvePaidCallbackAfterUniqueConflict (dto : PaymentCallbackDto) :
    BillingProg SerializedOrder := do
  let byTrade ← find (BillingRead.findByTrade dto.provider dto.providerTradeNo)
  if byTrade.map Order.orderNo = some dto.orderNo then findUniqueOrThrow dto.orderNo
  else .throw (.conflict "支付交易号已被其他订单使用")

def resolvePaidCallbackAfterRace (dto : PaymentCallbackDto) : BillingProg SerializedOrder := do
  let again ← find (BillingRead.findByOrderNo dto.orderNo)
  if again.any fun order => isSamePaidCallback order dto then findUniqueOrThrow dto.orderNo
  else .throw (.conflict "支付处理冲突，请重试")

/-- The transaction body of `markOrderPaid`. -/
def markOrderPaidTx (dto : PaymentCallbackDto) (paidAt : JsDate) : BillingProg SerializedOrder := do
  match ← find (BillingRead.findByOrderNo dto.orderNo) with
  | none => .throw (.notFound "订单不存在")
  | some order =>
    if isSamePaidCallback order dto then includeStudent order.id
    else if order.status = .paid then .throw (.conflict "订单已支付")
    else if order.status = .refunded ∨ order.status = .cancelled then
      .throw (.badRequest "订单状态不允许支付")
    else
      let paidAt ← dateOrReject paidAt
      match ← query (.write (.updateManyOrders dto.orderNo .pending
        (.paid dto.provider dto.providerTradeNo paidAt))) with
      | .ok count =>
          if count = 1 then findUniqueOrThrow dto.orderNo else resolvePaidCallbackAfterRace dto
      | .error error =>
          if isPrismaUniqueViolation error then resolvePaidCallbackAfterUniqueConflict dto
          else .throw .internal

/-- The transaction body of `markOrderRefunded`. -/
def markOrderRefundedTx (dto : PaymentCallbackDto) (refundedAt : JsDate) :
    BillingProg SerializedOrder := do
  match ← find (BillingRead.findByOrderNo dto.orderNo) with
  | none => .throw (.notFound "订单不存在")
  | some order =>
    if order.status = .refunded then
      if isSameRefundCallback order dto then findUniqueOrThrow dto.orderNo
      else .throw (.conflict "订单已退款")
    else if order.status ≠ .paid then .throw (.badRequest "仅已支付订单可退款")
    else if order.paymentProvider ≠ some dto.provider ∨
        (truthy order.providerTradeNo).any (· ≠ dto.providerTradeNo) then
      .throw (.conflict "退款回调与支付交易不匹配")
    else
      let refundedAt ← dateOrReject refundedAt
      let count ← orRethrow (← query (.write (.updateManyOrders dto.orderNo .paid
        (.refunded refundedAt))))
      if count = 1 then findUniqueOrThrow dto.orderNo
      else
        let again ← find (BillingRead.findByOrderNo dto.orderNo)
        if again.any fun order => isSameRefundCallback order dto then findUniqueOrThrow dto.orderNo
        else .throw (.conflict "退款处理冲突，请重试")

namespace Platform

variable (platform : Platform)

/-- `dto.paidAt ? new Date(dto.paidAt) : new Date()` -/
def callbackTime (dto : PaymentCallbackDto) : BillingProg JsDate :=
  match truthy dto.paidAt with
  | some text => .ret (platform.newDate text)
  | none => do return some (← query .now)

def markOrderPaid (dto : PaymentCallbackDto) : BillingProg SerializedOrder := do
  let paidAt ← platform.callbackTime dto
  .transaction .repeatableRead (markOrderPaidTx dto paidAt)

def markOrderRefunded (dto : PaymentCallbackDto) : BillingProg SerializedOrder := do
  let refundedAt ← platform.callbackTime dto
  .transaction .repeatableRead (markOrderRefundedTx dto refundedAt)

/-- The third branch of the source, for any other event, is excluded by the type. -/
def handlePaymentCallback (dto : PaymentCallbackDto) (signature : Option String) :
    BillingProg SerializedOrder :=
  if platform.verifies dto signature then
    match dto.event with
    | .paid => platform.markOrderPaid dto
    | .refunded => platform.markOrderRefunded dto
  else .throw (.unauthorized "Invalid payment signature")

end Platform

/-! ### The system -/

inductive BillingCall where
  | createOrder (ambient : Ambient) (dto : CreateOrderDto) (idempotencyKey : String)
  | handlePaymentCallback (dto : PaymentCallbackDto) (signature : Option String)

def BillingCall.program (platform : Platform) : BillingCall → BillingProg SerializedOrder
  | .createOrder ambient dto idempotencyKey => Billing.createOrder ambient dto idempotencyKey
  | .handlePaymentCallback dto signature => platform.handlePaymentCallback dto signature

abbrev BillingSystem :=
  System BillingDb BillingStmt BillingStmt.Reply Env HttpException SerializedOrder BillingCall

abbrev BillingWorld :=
  World BillingDb BillingStmt BillingStmt.Reply Env HttpException SerializedOrder BillingCall

abbrev BillingThread :=
  Thread BillingDb BillingStmt BillingStmt.Reply Env HttpException SerializedOrder BillingCall

abbrev BillingAction := Action BillingCall Env

/-- Any number of calls, the statements of all of them interleaved in any order. -/
def billingSystem (platform : Platform) : BillingSystem where
  engine := billingClient.engine
  program := BillingCall.program platform
  aborted := .internal

/-! ### The documented example -/

/-- The callbacks of the API documentation, about one order. -/
def PAYMENT_CALLBACK_PAID_REQUEST_EXAMPLE : PaymentCallbackDto where
  orderNo := "ORD1716123456A1B2C3D4"
  provider := .mock
  providerTradeNo := "MOCK_TX_20260519120000"
  event := .paid
  paidAt := some "2026-05-19T12:00:00.000Z"

def PAYMENT_CALLBACK_REFUNDED_REQUEST_EXAMPLE : PaymentCallbackDto :=
  { PAYMENT_CALLBACK_PAID_REQUEST_EXAMPLE with
    event := .refunded, paidAt := some "2026-05-20T10:00:00.000Z" }

def PAYMENT_SIGNATURE_EXAMPLE : String :=
  "cf64de0a145b2aa45199d084d72ed369a63f2abbe02a298db8d78a47ac327f6d"

/-- The signature of the refund example. -/
def refundSignatureExample : String :=
  "5bc9bbb22f2301e435ab200a85d31922938256bda71219f63db019db1185df88"

/-- The development secret, and the digests and dates of the two examples. -/
def examplePlatform : Platform where
  hmacSha256 _ payload :=
    if payload = buildPaymentCallbackSignPayload PAYMENT_CALLBACK_PAID_REQUEST_EXAMPLE then
      PAYMENT_SIGNATURE_EXAMPLE
    else if payload = buildPaymentCallbackSignPayload PAYMENT_CALLBACK_REFUNDED_REQUEST_EXAMPLE then
      refundSignatureExample
    else ""
  newDate text :=
    if text = "2026-05-19T12:00:00.000Z" then some 1779192000000
    else if text = "2026-05-20T10:00:00.000Z" then some 1779271200000
    else none
  PAYMENT_WEBHOOK_SECRET := "dev_payment_webhook_secret_32_chars"

example : examplePlatform.verifies PAYMENT_CALLBACK_PAID_REQUEST_EXAMPLE
    (some ("sha256=" ++ PAYMENT_SIGNATURE_EXAMPLE)) = true := by
  decide +kernel

end MibServer.Billing
