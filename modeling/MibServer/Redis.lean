import Mathlib.Logic.Function.Basic

/-!
Redis as the services use it: values under string keys, some with a time to live, and the
commands on counters and flags.

The clock is part of the keyspace, in milliseconds; a key past its expiry is gone at once.
How `TTL` rounds the time that is left to seconds is a parameter.
-/

namespace MibServer.Redis

/-! ### Keys -/

/-- A value and its expiry, where it has one, of which `E` is what is kept. -/
structure Stored (V E : Type) where
  value : V
  expiresAt : Option E := none
deriving DecidableEq, Repr

abbrev Entries (V E : Type) := String → Option (Stored V E)

namespace Entries

variable {V E : Type} (s : Entries V E)

/-- The value under a key, whatever its expiry. -/
def get (key : String) : Option V := (s key).map Stored.value

@[simp] theorem get_update_self (key : String) (v : Option (Stored V E)) :
    Entries.get (Function.update s key v) key = v.map Stored.value := by
  simp [get]

theorem get_update_ne {key key' : String} (h : key' ≠ key) (v : Option (Stored V E)) :
    Entries.get (Function.update s key v) key' = s.get key' := by
  simp [get, Function.update_of_ne h]

end Entries

structure Keyspace (V : Type) where
  now : Nat
  entries : Entries V Nat

variable {V : Type}

def Stored.live (v : Stored V Nat) (now : Nat) : Bool := v.expiresAt.all (now < ·)

theorem Stored.live_of_le {v : Stored V Nat} {now now' : Nat} (hle : now ≤ now') (h : v.live now') :
    v.live now := by
  cases hexpires : v.expiresAt with
  | none => simp [Stored.live, hexpires]
  | some expiresAt =>
      simp only [Stored.live, hexpires, Option.all_some, decide_eq_true_eq] at h ⊢
      omega

namespace Keyspace

variable (r : Keyspace V)

/-- A value that is stored now, with a time to live where one is given. -/
def lasting (value : V) (seconds : Option Nat) : Stored V Nat :=
  ⟨value, seconds.map fun seconds => r.now + 1000 * seconds⟩

def get? (key : String) : Option (Stored V Nat) := (r.entries key).filter fun v => v.live r.now

def put (key : String) (v : Option (Stored V Nat)) : Keyspace V :=
  { r with entries := Function.update r.entries key v }

/-- `DEL`: how many of the keys there are, and what is left. -/
def del (keys : List String) : Nat × Keyspace V :=
  (keys.countP fun key => (r.get? key).isSome,
    { r with entries := fun key => if key ∈ keys then none else r.entries key })

/-- The key exists now. -/
def Live (key : String) : Prop := (r.get? key).isSome

instance (key : String) : Decidable (r.Live key) := inferInstanceAs (Decidable (_ = true))

@[simp] theorem put_now (key : String) (v : Option (Stored V Nat)) : (r.put key v).now = r.now := rfl

@[simp] theorem entries_put_self (key : String) (v : Option (Stored V Nat)) :
    (r.put key v).entries key = v := Function.update_self ..

theorem entries_put_ne {key key' : String} (h : key' ≠ key) (v : Option (Stored V Nat)) :
    (r.put key v).entries key' = r.entries key' := Function.update_of_ne h ..

end Keyspace

/-! ### Counters and flags -/

inductive Command where
  | ttl (key : String)
  | incr (key : String)
  | expire (key : String) (seconds : Nat)
  | set (key : String) (value : Nat) (seconds : Option Nat)
  | del (keys : List String)
  | exists (key : String)
deriving DecidableEq, Repr

@[reducible] def Command.Reply : Command → Type
  | .ttl _ => Int
  | .incr _ => Nat
  | .expire _ _ => Bool
  | .set _ _ _ => Unit
  | .del _ => Nat
  | .exists _ => Bool

instance : (c : Command) → DecidableEq c.Reply
  | .ttl _ => inferInstanceAs (DecidableEq Int)
  | .incr _ => inferInstanceAs (DecidableEq Nat)
  | .expire _ _ => inferInstanceAs (DecidableEq Bool)
  | .set _ _ _ => inferInstanceAs (DecidableEq Unit)
  | .del _ => inferInstanceAs (DecidableEq Nat)
  | .exists _ => inferInstanceAs (DecidableEq Bool)

/-- `TTL` of a key: -2 where there is none, -1 where it does not expire. -/
def Keyspace.ttl (seconds : Nat → Nat) (r : Keyspace Nat) (key : String) : Int :=
  match r.get? key with
  | none => -2
  | some ⟨_, none⟩ => -1
  | some ⟨_, some expiresAt⟩ => seconds (expiresAt - r.now)

/-- `INCR` keeps the time to live of the key. -/
def Keyspace.incr (r : Keyspace Nat) (key : String) : Stored Nat Nat :=
  match r.get? key with
  | none => { value := 1 }
  | some v => { v with value := v.value + 1 }

/-- One command; `seconds` is how `TTL` rounds milliseconds. -/
def Keyspace.exec (seconds : Nat → Nat) (r : Keyspace Nat) : (c : Command) → c.Reply × Keyspace Nat
  | .ttl key => (r.ttl seconds key, r)
  | .incr key => ((r.incr key).value, r.put key (some (r.incr key)))
  | .expire key ttl =>
      match r.get? key with
      | none => (false, r)
      | some v => (true, r.put key (some { v with expiresAt := some (r.now + 1000 * ttl) }))
  | .set key value ttl => ((), r.put key (some (r.lasting value ttl)))
  | .del keys => r.del keys
  | .exists key => ((r.get? key).isSome, r)

/-- The keys a command may write. -/
def Command.writes : Command → List String
  | .ttl _ | .exists _ => []
  | .incr key | .expire key _ | .set key _ _ => [key]
  | .del keys => keys

variable {seconds : Nat → Nat} {r : Keyspace Nat} {key : String}

@[simp] theorem exec_now (c : Command) : (r.exec seconds c).2.now = r.now := by
  cases c with
  | ttl _ | incr _ | set _ _ _ | del _ | «exists» _ => rfl
  | expire key ttl =>
      simp only [Keyspace.exec]
      split <;> rfl

/-- A command leaves the keys it does not write alone. -/
theorem exec_entries {c : Command} (h : key ∉ c.writes) :
    (r.exec seconds c).2.entries key = r.entries key := by
  cases c with
  | ttl _ | «exists» _ => rfl
  | incr key' | set key' _ _ => exact r.entries_put_ne (by simpa [Command.writes] using h) _
  | expire key' ttl =>
      simp only [Keyspace.exec]
      split
      · rfl
      · exact r.entries_put_ne (by simpa [Command.writes] using h) _
  | del keys => exact if_neg h

theorem ttl_congr {r' : Keyspace Nat} (hnow : r.now = r'.now) (h : r.entries key = r'.entries key) :
    r.ttl seconds key = r'.ttl seconds key := by
  simp only [Keyspace.ttl, Keyspace.get?, hnow, h]

theorem live_congr {r' : Keyspace Nat} (hnow : r.now = r'.now) (h : r.entries key = r'.entries key) :
    r.Live key ↔ r'.Live key := by
  simp only [Keyspace.Live, Keyspace.get?, hnow, h]

/-- What a command makes of a key depends on that key and the clock alone. -/
theorem exec_entries_congr {r' : Keyspace Nat} (hnow : r.now = r'.now) (h : r.entries key = r'.entries key)
    (c : Command) : (r.exec seconds c).2.entries key = (r'.exec seconds c).2.entries key := by
  by_cases hwrites : key ∈ c.writes
  · cases c with
    | ttl _ | «exists» _ => exact h
    | incr key' =>
        obtain rfl := List.mem_singleton.mp hwrites
        simp only [Keyspace.exec, Keyspace.entries_put_self, Keyspace.incr, Keyspace.get?, hnow, h]
    | expire key' ttl =>
        obtain rfl := List.mem_singleton.mp hwrites
        simp only [Keyspace.exec, Keyspace.get?, hnow, h]
        cases (r'.entries key).filter fun v => v.live r'.now with
        | none => exact h
        | some v => exact (Keyspace.entries_put_self ..).trans (Keyspace.entries_put_self ..).symm
    | set key' value ttl =>
        obtain rfl := List.mem_singleton.mp hwrites
        simp only [Keyspace.exec, Keyspace.entries_put_self, Keyspace.lasting, hnow]
    | del keys => exact (if_pos hwrites).trans (if_pos hwrites).symm
  · rw [exec_entries hwrites, exec_entries hwrites, h]

end MibServer.Redis
