import Mathlib.Init

/-!
What the service code throws, and the two JavaScript notions every DTO goes
through: instants built by `new Date(text)` and falsy strings.
-/

namespace MibServer

/-- The exceptions of `@nestjs/common` the services raise, with their messages,
and any other error a library call lets through. -/
inductive HttpException where
  | badRequest (message : String)
  | unauthorized (message : String)
  | forbidden (message : String)
  | notFound (message : String)
  | requestTimeout (message : String)
  | conflict (message : String)
  | internal
deriving DecidableEq, Repr

/-- The status code Nest answers an exception with. -/
def HttpException.status : HttpException → Nat
  | .badRequest _ => 400
  | .unauthorized _ => 401
  | .forbidden _ => 403
  | .notFound _ => 404
  | .requestTimeout _ => 408
  | .conflict _ => 409
  | .internal => 500

/-! ### Sequencing -/

/-- A database call that throws where `x` is `none`. -/
def orThrow {α : Type} (x : Option α) : Except HttpException α :=
  match x with
  | some a => .ok a
  | none => .error .internal

/-- `if (!condition) throw e` -/
def require (condition : Bool) (e : HttpException) : Except HttpException Unit :=
  if condition then .ok () else .error e

theorem bind_ok {ε α β : Type} {x : Except ε α} {f : α → Except ε β} {b : β}
    (h : (x >>= f) = .ok b) : ∃ a, x = .ok a ∧ f a = .ok b := by
  cases x with
  | error e => cases h
  | ok a => exact ⟨a, rfl, h⟩

theorem orThrow_ok {α : Type} {x : Option α} {a : α} (h : orThrow x = .ok a) : x = some a := by
  cases x with
  | none => cases h
  | some a => cases h; rfl

theorem require_ok {condition : Bool} {e : HttpException} {u : Unit}
    (h : require condition e = .ok u) : condition = true := by
  cases condition with
  | false => cases h
  | true => rfl

/-! ### JavaScript values -/

/-- `new Date(text)`: milliseconds since the epoch, `none` for an Invalid Date. -/
abbrev JsDate := Option Int

/-- `a < b` on dates: comparing with an Invalid Date is false. -/
def JsDate.before : JsDate → JsDate → Bool
  | some a, some b => decide (a < b)
  | _, _ => false

/-- A string used as a condition: `undefined`, `null` and `""` are false. -/
def truthy : Option String → Option String
  | some s => if s = "" then none else some s
  | none => none

end MibServer
