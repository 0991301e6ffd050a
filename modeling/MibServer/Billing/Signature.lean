import MibServer.Billing.Store
import MibServer.Text

/-!
The payment callback: its DTO, the canonical payload and the HMAC check.

`createHmac` and `new Date` belong to the platform; `Platform` is what the service
uses of them and of its configuration.
-/

namespace MibServer.Billing

inductive PaymentCallbackEvent where
  | paid | refunded
deriving DecidableEq, Repr

/-- A validated callback; `MinLength(4)` keeps its trade number from being empty. -/
structure PaymentCallbackDto where
  orderNo : String
  provider : PaymentProvider
  providerTradeNo : String
  event : PaymentCallbackEvent
  paidAt : Option String := none
  tradeNo_ne : providerTradeNo ≠ "" := by decide
deriving DecidableEq

def PaymentProvider.text : PaymentProvider → String
  | .mock => "MOCK"
  | .wechat => "WECHAT"
  | .alipay => "ALIPAY"

def PaymentCallbackEvent.text : PaymentCallbackEvent → String
  | .paid => "paid"
  | .refunded => "refunded"

structure Platform where
  /-- The hex digest of `createHmac('sha256', secret).update(payload, 'utf8')`. -/
  hmacSha256 : String → String → String
  /-- `new Date(text)` -/
  newDate : String → JsDate
  PAYMENT_WEBHOOK_SECRET : String

def buildPaymentCallbackSignPayload (input : PaymentCallbackDto) : String :=
  "\n".intercalate [input.orderNo, input.provider.text, input.providerTradeNo, input.event.text,
    input.paidAt.getD ""]

def hexDigit? (c : Char) : Option Nat :=
  if '0' ≤ c ∧ c ≤ '9' then some (c.toNat - 48)
  else if 'a' ≤ c ∧ c ≤ 'f' then some (c.toNat - 87)
  else if 'A' ≤ c ∧ c ≤ 'F' then some (c.toNat - 55)
  else none

/-- `Buffer.from(text, 'hex')`, which stops at the first pair that is not
hexadecimal. -/
def bufferFromHex : List Char → List Nat
  | a :: b :: cs =>
      match hexDigit? a, hexDigit? b with
      | some x, some y => (16 * x + y) :: bufferFromHex cs
      | _, _ => []
  | _ => []

/-- `text.replace(/^sha256=/i, '')` -/
def stripScheme (text : List Char) : List Char :=
  if (text.take 7).map Char.toLower = ['s', 'h', 'a', '2', '5', '6', '='] then text.drop 7 else text

namespace Platform

variable (platform : Platform)

def signPaymentCallback (payload secret : String) : String := platform.hmacSha256 secret payload

def verifyPaymentCallbackSignature (payload : String) (signature : Option String)
    (secret : String) : Bool :=
  match signature with
  | none => false
  | some signature =>
      if trim signature = "" ∨ secret = "" then false
      else
        bufferFromHex (stripScheme (trim signature).toList) ==
          bufferFromHex (platform.signPaymentCallback payload secret).toList

/-- The signature header of a callback verifies against its own payload. -/
def verifies (dto : PaymentCallbackDto) (signature : Option String) : Bool :=
  platform.verifyPaymentCallbackSignature (buildPaymentCallbackSignPayload dto) signature
    platform.PAYMENT_WEBHOOK_SECRET

end Platform

end MibServer.Billing
