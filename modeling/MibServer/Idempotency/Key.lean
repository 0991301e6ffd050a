import MibServer.Http
import MibServer.Text

/-!
The idempotency key of a request: from its `Idempotency-Key` header, or from fields
of its body.

The body is the parsed JSON, before any validation.
-/

namespace MibServer.Idempotency

/-- Parsed JSON; a number stands for the text `String` gives of it. -/
inductive Json where
  | null
  | bool (b : Bool)
  | number (text : String)
  | string (text : String)
  | array (items : List Json)
  | object (fields : List (String × Json))

mutual

/-- `String(value)` -/
def Json.toText : Json → String
  | .null => "null"
  | .bool b => if b then "true" else "false"
  | .number text => text
  | .string text => text
  | .array items => ",".intercalate (Json.itemTexts items)
  | .object _ => "[object Object]"

/-- The items of an array as `join` prints them. -/
def Json.itemTexts : List Json → List String
  | [] => []
  | .null :: items => "" :: Json.itemTexts items
  | item :: items => item.toText :: Json.itemTexts items

end

/-- `value[name]`; an array has none of the fields the routes name. -/
def Json.field (value : Json) (name : String) : Option Json :=
  match value with
  | .object fields => (fields.find? fun f => f.1 == name).map Prod.snd
  | _ => none

def IDEMPOTENCY_KEY_MIN_LENGTH : Nat := 8

def IDEMPOTENCY_KEY_MAX_LENGTH : Nat := 128

def normalizeIdempotencyClientKey (raw : Option String) : Option String :=
  match raw.map trim with
  | none => none
  | some key =>
      if key = "" then none
      else if jsLength key < IDEMPOTENCY_KEY_MIN_LENGTH ∨
          IDEMPOTENCY_KEY_MAX_LENGTH < jsLength key then none
      else some key

def buildScopedIdempotencyKey (scope clientKey : String) : String := scope ++ ":" ++ clientKey

/-- The path is split at its dots. -/
def getNestedBodyField (body : Json) (path : List String) : Option Json :=
  path.foldlM Json.field body

/-- A field as a part of the key, unless it is missing, null or `""`. -/
def keyPart (body : Json) (path : List String) : Option String :=
  match getNestedBodyField body path with
  | none | some .null | some (.string "") => none
  | some value => some value.toText

/-- The cut of a key that is too long. -/
def clampKey (derived : String) : Option String :=
  normalizeIdempotencyClientKey (some derived) <|>
    if 8 ≤ jsLength derived then some (slice derived IDEMPOTENCY_KEY_MAX_LENGTH) else none

def deriveIdempotencyKeyFromBody (body : Json) (fields : List (List String)) : Option String := do
  let parts ← fields.mapM (keyPart body)
  clampKey (":".intercalate parts)

/-- What the interceptor reads of the options of a route. -/
structure IdempotentOptions where
  scope : String
  required : Bool := true
  bodyKeyFields : List (List String) := []

/-- `resolveClientKey` -/
def resolveClientKey (options : IdempotentOptions) (header : Option String) (body : Json) :
    Option String :=
  normalizeIdempotencyClientKey header <|>
    if options.bodyKeyFields ≠ [] then deriveIdempotencyKeyFromBody body options.bodyKeyFields
    else none

/-- The scoped key of a request, `none` to skip the interceptor. -/
def IdempotentOptions.scopeKey (options : IdempotentOptions) (header : Option String) (body : Json) :
    Except HttpException (Option String) :=
  match resolveClientKey options header body with
  | some clientKey => .ok (some (buildScopedIdempotencyKey options.scope clientKey))
  | none =>
      if options.required then
        .error (.badRequest "Idempotency-Key header is required (8-128 characters)")
      else .ok none

example : deriveIdempotencyKeyFromBody
    (.object [("provider", .string "MOCK"), ("providerTradeNo", .string "TX_001"),
      ("event", .string "paid")])
    [["provider"], ["providerTradeNo"], ["event"]] = some "MOCK:TX_001:paid" := by
  decide +kernel

end MibServer.Idempotency
