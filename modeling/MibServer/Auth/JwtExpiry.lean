import MibServer.Lib.NumberText
import MibServer.Text
import Mathlib.Data.Rat.Floor

/-!
The lifetime of a token and of its blacklist entry, both read from `JWT_EXPIRES_IN`.

`getJwtExpiresIn` hands the value to `jsonwebtoken`, as a number of seconds where `Number`
reads it as one, else as a text for the `ms` package; `getJwtExpiresInSeconds` reads the
same value on its own. What is computed from the numbers read is taken as exact here.

`Timespan` is the grammar of the `ms` package. `ms` itself is a parameter, known by what it
does on the texts of that grammar.
-/

namespace MibServer.Auth

open MibServer.Lib

/-! ### The two readings of `JWT_EXPIRES_IN` -/

/-- `Number(text)`, where it is finite. -/
def finiteNumber (text : String) : Option ℚ :=
  (readNumeric (trim text).toList).bind fun q => (toNumber q).finite?

/-- What `sign` is given as `expiresIn`. -/
inductive ExpiresIn where
  | number (seconds : ℚ)
  | text (value : String)

@[irreducible] def getJwtExpiresIn (value : String) : ExpiresIn :=
  match finiteNumber value with
  | some numeric => if trim value ≠ "" then .number numeric else .text value
  | none => .text value

def unitSeconds (unit : Char) : Nat :=
  if unit = 's' then 1 else if unit = 'm' then 60 else if unit = 'h' then 3600 else 86400

/-- `/^(\d+)\s*([smhd])$/i` -/
def amountAndUnit (text : List Char) : Option (List Char × Char) :=
  let digits := text.takeWhile Char.isDigit
  if digits = [] then none
  else match (text.dropWhile Char.isDigit).dropWhile isJsSpace with
    | [unit] => if ['s', 'm', 'h', 'd'].contains unit.toLower then some (digits, unit) else none
    | _ => none

/-- JWT TTL in seconds, for the token blacklist. -/
def getJwtExpiresInSeconds (value : String) : Nat :=
  let value := trim value
  match (finiteNumber value).filter (0 < ·) with
  | some numeric => ⌊numeric⌋.toNat
  | none =>
      match amountAndUnit value.toList with
      | none => 7 * 24 * 3600
      | some (amount, unit) => decimalValue amount * unitSeconds unit.toLower

/-! ### The timespans of the `ms` package -/

inductive TimeUnit where
  | millisecond | second | minute | hour | day | week | year
deriving DecidableEq, Repr

namespace TimeUnit

def milliseconds : TimeUnit → Nat
  | millisecond => 1
  | second => 1000
  | minute => 60 * 1000
  | hour => 60 * 60 * 1000
  | day => 24 * 60 * 60 * 1000
  | week => 7 * 24 * 60 * 60 * 1000
  | year => 36525 * 24 * 60 * 60 * 10

/-- The names of a unit, in lower case. -/
def names : TimeUnit → List String
  | millisecond => ["milliseconds", "millisecond", "msecs", "msec", "ms"]
  | second => ["seconds", "second", "secs", "sec", "s"]
  | minute => ["minutes", "minute", "mins", "min", "m"]
  | hour => ["hours", "hour", "hrs", "hr", "h"]
  | day => ["days", "day", "d"]
  | week => ["weeks", "week", "w"]
  | year => ["years", "year", "yrs", "yr", "y"]

end TimeUnit

/-- `-?(\d+)?\.?\d+ *unit`: a decimal number, spaces, and a unit in either case. -/
structure Timespan where
  negative : Bool := false
  whole : List Char
  fraction : Option (List Char) := none
  spaces : Nat := 0
  unit : TimeUnit
  name : List Char
  whole_digits : whole.all Char.isDigit
  fraction_digits : ∀ f ∈ fraction, f ≠ [] ∧ f.all Char.isDigit
  number : fraction = none → whole ≠ []
  named : String.ofList (name.map Char.toLower) ∈ unit.names

namespace Timespan

variable (d : Timespan)

/-- The spaces and the unit. -/
def tail : List Char := List.replicate d.spaces ' ' ++ d.name

/-- What follows the digits of the whole part. -/
def rest : List Char :=
  match d.fraction with
  | none => d.tail
  | some f => '.' :: (f ++ d.tail)

def unsigned : List Char := d.whole ++ d.rest

def chars : List Char := if d.negative then '-' :: d.unsigned else d.unsigned

def text : String := String.ofList d.chars

/-- The decimal number. -/
def amount : ℚ :=
  let fraction := d.fraction.getD []
  let size : ℚ := decimalValue (d.whole ++ fraction) / 10 ^ fraction.length
  if d.negative then -size else size

def milliseconds : ℚ := d.amount * d.unit.milliseconds

end Timespan

/-- `ms` on the texts of its grammar; it rejects any of more than 100 characters. -/
def MsGrammar (ms : String → Option ℚ) : Prop :=
  ∀ d : Timespan, d.chars.length ≤ 100 → ms d.text = some d.milliseconds

/-- `exp - iat` of a token `jsonwebtoken` signs: a number must be an integer. -/
def tokenLifetime (ms : String → Option ℚ) : ExpiresIn → Option Int
  | .number seconds => if seconds.isInt then some ⌊seconds⌋ else none
  | .text value => (ms value).map fun milliseconds => ⌊milliseconds / 1000⌋

end MibServer.Auth
