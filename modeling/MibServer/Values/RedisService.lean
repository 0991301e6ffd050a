import MibServer.Lib.JsonText
import MibServer.Lib.Sequential
import MibServer.Redis

/-!
The values that `RedisService` stores, and what `RedisBusinessService` reads back.

Redis keeps texts. A text travels as UTF-8, which has no half of a surrogate pair; a key
past its expiry is gone at once.
-/

namespace MibServer.Values

open MibServer.Lib
open MibServer.Redis (Stored)

/-! ### Redis -/

/-- What is stored are texts. -/
abbrev Keyspace := Redis.Keyspace JsString

inductive Command where
  | get (key : String)
  | set (key : String) (payload : JsString) (ex : Option Nat) (nx : Bool)
  | del (keys : List String)
  /-- Time passes. -/
  | pass (milliseconds : Nat)

@[reducible] def Command.Reply : Command → Type
  | .get _ => Option JsString
  | .set _ _ _ _ => Bool
  | .del _ => Nat
  | .pass _ => Unit

instance : (c : Command) → DecidableEq c.Reply
  | .get _ => inferInstanceAs (DecidableEq (Option JsString))
  | .set _ _ _ _ => inferInstanceAs (DecidableEq Bool)
  | .del _ => inferInstanceAs (DecidableEq Nat)
  | .pass _ => inferInstanceAs (DecidableEq Unit)

/-- One command; a `SET` with `NX` replies nil where the key exists. -/
def Keyspace.exec (r : Keyspace) : (c : Command) → c.Reply × Keyspace
  | .get key => ((r.get? key).map Stored.value, r)
  | .set key payload ex nx =>
      if nx && (r.get? key).isSome then (false, r)
      else (true, r.put key (some (r.lasting (toWellFormed payload) ex)))
  | .del keys => r.del keys
  | .pass milliseconds => ((), { r with now := r.now + milliseconds })

/-- Every command is one of its own. -/
def engine : Engine Keyspace Command Command.Reply Unit where
  exec c _ r := r.exec c
  plainRead _ := false
  read c _ _ _ work := (work.exec c).1

/-- The only error of these calls is that of Redis itself. -/
abbrev ValueProg (α : Type) := Prog Command Command.Reply Unit α

def query (c : Command) : ValueProg c.Reply := .stmt c .ret

/-! ### `RedisService` -/

def serialize : Json Number → JsString
  | .string s => s
  | value => stringify value

def deserialize (value : JsString) : Json Number := (parse value).getD (.string value)

/-- `get`; the caller cannot tell a stored `null` from a key that does not exist. -/
def get (key : String) : ValueProg (Json Number) := do
  let value ← query (.get key)
  return (value.map deserialize).getD .null

/-- The time to live that is sent along, if any. -/
def expiry (ttlSeconds : Option Int) : Option Nat := (ttlSeconds.filter (0 < ·)).map Int.toNat

def set (key : String) (value : Json Number) (ttlSeconds : Option Int) : ValueProg Unit := do
  let _ ← query (.set key (serialize value) (expiry ttlSeconds) false)
  return ()

def setNx (key : String) (value : Json Number) (ttlSeconds : Option Int) : ValueProg Bool :=
  query (.set key (serialize value) (expiry ttlSeconds) true)

def del (keys : List String) : ValueProg Nat := if keys = [] then return 0 else query (.del keys)

/-! ### `RedisBusinessService` -/

def cacheKey (namespaceName id : String) : String := "cache:" ++ namespaceName ++ ":" ++ id

def getCache (namespaceName id : String) : ValueProg (Json Number) := get (cacheKey namespaceName id)

def setCache (namespaceName id : String) (value : Json Number) (ttlSeconds : Int) : ValueProg Unit :=
  set (cacheKey namespaceName id) value (some ttlSeconds)

def loginSessionKey (userId tokenId : String) : String := "auth:session:" ++ userId ++ ":" ++ tokenId

def saveLoginSession (userId tokenId : String) (payload : Json Number) (ttlSeconds : Int) : ValueProg Unit :=
  set (loginSessionKey userId tokenId) payload (some ttlSeconds)

def getLoginSession (userId tokenId : String) : ValueProg (Json Number) := get (loginSessionKey userId tokenId)

def verificationCodeKey (scene target : String) : String := "verify:" ++ scene ++ ":" ++ target

def setVerificationCode (scene target : String) (code : JsString) (ttlSeconds : Int) : ValueProg Unit :=
  set (verificationCodeKey scene target) (.string code) (some ttlSeconds)

/-- `cached === code` -/
def isCode (code : JsString) : Json Number → Bool
  | .string s => s = code
  | _ => false

def consumeVerificationCode (scene target : String) (code : JsString) : ValueProg Bool := do
  let cached ← get (verificationCodeKey scene target)
  if isCode code cached then
    let _ ← del [verificationCodeKey scene target]
    return true
  else return false

def idempotencyKey (businessKey : String) : String := "idempotency:" ++ businessKey

structure IdempotencyResult where
  repeated : Bool
  value : Json Number

/-- `markIdempotency`; `value` is `none` where the call gives none. -/
def markIdempotency (businessKey : String) (ttlSeconds : Int) (value : Option (Json Number)) :
    ValueProg IdempotencyResult := do
  let created ← setNx (idempotencyKey businessKey) (value.getD (.string (js "PENDING"))) (some ttlSeconds)
  if created then return { repeated := false, value := .null }
  else
    let existing ← get (idempotencyKey businessKey)
    return { repeated := true, value := existing }

def completeIdempotency (businessKey : String) (value : Json Number) (ttlSeconds : Int) : ValueProg Unit :=
  set (idempotencyKey businessKey) value (some ttlSeconds)

/-! ### One call after another -/

/-- A call that runs by itself: its reply and the keys it leaves. -/
def run {α : Type} (p : ValueProg α) (r : Keyspace) : Except Unit α × Keyspace :=
  p.alone engine none (fun _ => ()) r

/-- What a `SET` leaves under its key. -/
def stored (r : Keyspace) (value : Json Number) (ttlSeconds : Option Int) : Stored JsString Nat :=
  r.lasting (toWellFormed (serialize value)) (expiry ttlSeconds)

/-- Since `r` nothing has written the key, and it has not expired. -/
structure Kept (key : String) (r r' : Keyspace) : Prop where
  entries : r'.entries key = r.entries key
  live : ∀ v ∈ r'.entries key, v.live r'.now

variable {r r' : Keyspace} {key : String} {value : Json Number} {ttlSeconds : Option Int}

/-- What a `get` replies. -/
def Keyspace.read (r : Keyspace) (key : String) : Json Number :=
  (((r.get? key).map Stored.value).map deserialize).getD .null

theorem run_query_bind {α : Type} (c : Command) (f : c.Reply → ValueProg α) (r : Keyspace) :
    run ((query c).bind f) r = run (f (r.exec c).1) (r.exec c).2 := rfl

theorem run_get_bind {α : Type} (key : String) (f : Json Number → ValueProg α) (r : Keyspace) :
    run ((get key).bind f) r = run (f (r.read key)) r := rfl

theorem run_get (key : String) (r : Keyspace) : run (get key) r = (.ok (r.read key), r) := rfl

theorem run_set (key : String) (value : Json Number) (ttlSeconds : Option Int) (r : Keyspace) :
    run (set key value ttlSeconds) r = (.ok (), r.put key (some (stored r value ttlSeconds))) := by
  simp [run, set, query, Prog.alone, engine, Keyspace.exec, stored]

/-- A `SET` with `NX` that succeeds leaves what a plain one leaves. -/
theorem run_setNx (h : run (setNx key value ttlSeconds) r = (.ok true, r')) :
    r' = r.put key (some (stored r value ttlSeconds)) := by
  simp only [run, setNx, query, Prog.alone, engine, Keyspace.exec, Bool.true_and] at h
  split at h
  · cases h
  · cases h
    rfl

/-- A key that is kept is read as it was stored. -/
theorem Kept.read_eq {v : Stored JsString Nat} (h : Kept key r r') (hstored : r.entries key = some v) :
    r'.read key = deserialize v.value := by
  have hentry : r'.entries key = some v := h.entries.trans hstored
  rw [Keyspace.read, Redis.Keyspace.get?, hentry, Option.filter_some, if_pos (h.live v hentry)]
  rfl

theorem Kept.isSome {v : Stored JsString Nat} (h : Kept key (r.put key (some v)) r') :
    (r'.get? key).isSome := by
  have hentry : r'.entries key = some v := h.entries.trans (Redis.Keyspace.entries_put_self ..)
  rw [Redis.Keyspace.get?, hentry, Option.filter_some, if_pos (h.live v hentry)]
  rfl

/-! ### What is read back -/

/-- A string that is read as something else: the text of a JSON value is parsed, and half of
a surrogate pair is replaced on its way. -/
def Altered (value : Json Number) : Prop :=
  ∃ s, value = .string s ∧ ((parse s).isSome ∨ isWellFormed s = false)

theorem serialize_of_not_string (h : ∀ s, value ≠ .string s) : serialize value = stringify value := by
  cases value with
  | string s => exact absurd rfl (h s)
  | _ => rfl

/-- A text is never the text of itself as a string. -/
theorem deserialize_eq_string_iff {s text : JsString} (hlength : text.length = s.length) :
    deserialize text = .string s ↔ parse text = none ∧ text = s := by
  cases hparse : parse text with
  | none => simp [deserialize, hparse]
  | some v =>
      constructor
      · intro h
        rw [deserialize, hparse, Option.getD_some] at h
        rw [h] at hparse
        have hshorter := length_of_parse_string hparse
        omega
      · rintro ⟨⟨⟩, -⟩

theorem deserialize_stringify (h : Representable value) : deserialize (stringify value) = value := by
  rw [deserialize, parse_stringify h, Option.getD_some]

theorem deserialize_serialize (h : Representable value) (hsame : ¬ Altered value) :
    deserialize (serialize value) = value := by
  cases value with
  | string s =>
      refine (deserialize_eq_string_iff rfl).mpr ⟨?_, rfl⟩
      by_contra hparse
      exact hsame ⟨s, rfl, Or.inl (Option.isSome_iff_ne_none.mpr hparse)⟩
  | _ => exact deserialize_stringify h

/-- What the `GET` of a value makes of it. -/
theorem deserialize_sent_iff (h : Representable value) :
    deserialize (toWellFormed (serialize value)) = value ↔ ¬ Altered value := by
  by_cases hstring : ∃ s, value = .string s
  · obtain ⟨s, rfl⟩ := hstring
    rw [serialize, deserialize_eq_string_iff (length_toWellFormed s), toWellFormed_eq_self_iff]
    constructor
    · rintro ⟨hparse, hwell⟩ ⟨s', hs, hjson | hhalf⟩
      · cases hs
        rw [toWellFormed_eq_self_iff.mpr hwell] at hparse
        rw [hparse] at hjson
        cases hjson
      · cases hs
        rw [hwell] at hhalf
        cases hhalf
    · intro hsame
      have hwell : isWellFormed s := by
        by_contra hhalf
        exact hsame ⟨s, rfl, Or.inr (by simpa using hhalf)⟩
      refine ⟨?_, hwell⟩
      rw [toWellFormed_eq_self_iff.mpr hwell]
      by_contra hparse
      exact hsame ⟨s, rfl, Or.inl (Option.isSome_iff_ne_none.mpr hparse)⟩
  · have hother : ∀ s, value ≠ .string s := fun s hs => hstring ⟨s, hs⟩
    have hsame : ¬ Altered value := fun ⟨s, hs, _⟩ => hother s hs
    have hsent : toWellFormed (serialize value) = serialize value := by
      rw [serialize_of_not_string hother, toWellFormed_eq_self_iff]
      exact isWellFormed_stringify value
    rw [hsent]
    exact iff_of_true (deserialize_serialize h hsame) hsame

/-- What is stored comes back, through every function that reads it. -/
structure ReadBack (value : Json Number) : Prop where
  text : deserialize (serialize value) = value
  get_set : ∀ key ttlSeconds r r', Kept key (run (set key value ttlSeconds) r).2 r' →
    (run (get key) r').1 = .ok value
  get_setNx : ∀ key ttlSeconds r r' r'', run (setNx key value ttlSeconds) r = (.ok true, r') →
    Kept key r' r'' → (run (get key) r'').1 = .ok value
  getCache : ∀ namespaceName id ttlSeconds r r',
    Kept (cacheKey namespaceName id) (run (setCache namespaceName id value ttlSeconds) r).2 r' →
    (run (getCache namespaceName id) r').1 = .ok value
  getLoginSession : ∀ userId tokenId ttlSeconds r r',
    Kept (loginSessionKey userId tokenId) (run (saveLoginSession userId tokenId value ttlSeconds) r).2 r' →
    (run (getLoginSession userId tokenId) r').1 = .ok value
  consumeVerificationCode : ∀ code, value = .string code → ∀ scene target ttlSeconds r r',
    Kept (verificationCodeKey scene target) (run (setVerificationCode scene target code ttlSeconds) r).2 r' →
    (run (consumeVerificationCode scene target code) r').1 = .ok true
  markIdempotency : ∀ businessKey ttlSeconds ttlSeconds' again r r',
    Kept (idempotencyKey businessKey) (run (completeIdempotency businessKey value ttlSeconds) r).2 r' →
    (run (markIdempotency businessKey ttlSeconds' again) r').1 = .ok ⟨true, value⟩

theorem Kept.read_stored (h : Kept key (r.put key (some (stored r value ttlSeconds))) r') :
    r'.read key = deserialize (toWellFormed (serialize value)) :=
  h.read_eq (Redis.Keyspace.entries_put_self ..)

theorem run_consumeVerificationCode {scene target : String} {code : JsString}
    (h : r.read (verificationCodeKey scene target) = .string code) :
    (run (consumeVerificationCode scene target code) r).1 = .ok true := by
  have hcode : isCode code (.string code) = true := decide_eq_true rfl
  rw [consumeVerificationCode, Prog.bind_eq, run_get_bind, h, if_pos hcode]
  rfl

/-- A key that is taken is read. -/
theorem run_markIdempotency {businessKey : String} {again : Option (Json Number)} {ttlSeconds : Int}
    (h : (r.get? (idempotencyKey businessKey)).isSome) :
    (run (markIdempotency businessKey ttlSeconds again) r).1 =
      .ok ⟨true, r.read (idempotencyKey businessKey)⟩ := by
  have htaken : ∀ payload ex, r.exec (.set (idempotencyKey businessKey) payload ex true) = (false, r) := by
    intro payload ex
    rw [Keyspace.exec, h, Bool.and_self, if_pos rfl]
  rw [markIdempotency, Prog.bind_eq, setNx, run_query_bind, htaken]
  rfl

/-- **Reading back**: a value that JSON can represent comes back as it was stored if and only
if it is not a string that is the text of a JSON value or has half of a surrogate pair. -/
theorem readBack_iff (h : Representable value) : ReadBack value ↔ ¬ Altered value := by
  constructor
  · intro hback
    have hkept : Kept "k" (run (set "k" value none) { now := 0, entries := fun _ => none }).2
        (run (set "k" value none) { now := 0, entries := fun _ => none }).2 := by
      refine ⟨rfl, ?_⟩
      rw [run_set]
      intro v hv
      rw [Redis.Keyspace.entries_put_self] at hv
      cases hv
      rfl
    have hget := hback.get_set "k" none _ _ hkept
    rw [run_get] at hget
    rw [run_set] at hget hkept
    rw [hkept.read_stored] at hget
    exact (deserialize_sent_iff h).mp (Except.ok.inj hget)
  · intro hsame
    have hsent := (deserialize_sent_iff h).mpr hsame
    refine
      { text := deserialize_serialize h hsame
        get_set := ?_
        get_setNx := ?_
        getCache := ?_
        getLoginSession := ?_
        consumeVerificationCode := ?_
        markIdempotency := ?_ }
    · intro key ttlSeconds r r' hkept
      rw [run_set] at hkept
      rw [run_get, hkept.read_stored, hsent]
    · intro key ttlSeconds r r' r'' hset hkept
      rw [run_setNx hset] at hkept
      rw [run_get, hkept.read_stored, hsent]
    · intro namespaceName id ttlSeconds r r' hkept
      rw [setCache, run_set] at hkept
      rw [Values.getCache, run_get, hkept.read_stored, hsent]
    · intro userId tokenId ttlSeconds r r' hkept
      rw [saveLoginSession, run_set] at hkept
      rw [Values.getLoginSession, run_get, hkept.read_stored, hsent]
    · rintro code rfl scene target ttlSeconds r r' hkept
      rw [setVerificationCode, run_set] at hkept
      exact run_consumeVerificationCode (hkept.read_stored.trans hsent)
    · intro businessKey ttlSeconds ttlSeconds' again r r' hkept
      rw [completeIdempotency, run_set] at hkept
      rw [run_markIdempotency hkept.isSome, hkept.read_stored, hsent]

theorem representable_string (s : JsString) : Representable (.string s) := by
  rintro w ⟨⟩
  trivial

/-- A code of letters and digits that is no number comes back. -/
theorem readBack_code : ReadBack (.string (js "A1B2C3")) := by
  refine (readBack_iff (representable_string _)).mpr ?_
  rintro ⟨s, ⟨⟩, hjson | hhalf⟩
  · revert hjson
    decide +kernel
  · revert hhalf
    decide +kernel

/-- A code of six digits does not. -/
theorem not_readBack_digits : ¬ ∀ value, Representable value → ReadBack value := by
  intro h
  have hcode := (h _ (representable_string (js "123456"))).text
  rw [serialize, deserialize_eq_string_iff rfl] at hcode
  have hparse : (parse (js "123456")).isSome := by decide +kernel
  rw [hcode.1] at hparse
  cases hparse

end MibServer.Values
