import MibServer.Lib.Machine
import MibServer.Redis

/-!
`RedisService.acquireLock`, `renewLock` and `releaseLock`, and the machine of any number of
clients that call them on one Redis.

A command or a script is one step. A key with a time to live may expire at any moment, so
how long that time is plays no part; `EXPIRE` with a time that is not positive removes the
key at once.
-/

namespace MibServer.Locks

open MibServer.Lib MibServer.Redis

/-! ### Keys -/

/-- Of an expiry it is only kept that there is one. -/
abbrev Store := Entries String Unit

/-- `SET key payload NX`, with `EX` where a time is given. -/
def Store.setNX (s : Store) (key payload : String) (ex : Option Int) : Bool × Store :=
  match s key with
  | some _ => (false, s)
  | none => (true, Function.update s key (some ⟨payload, ex.map fun _ => ()⟩))

/-- `EXPIRE` of a key that exists. -/
def Store.expire (s : Store) (key : String) (seconds : Int) : Bool × Store :=
  match s key with
  | none => (false, s)
  | some v =>
      (true, Function.update s key (if 0 < seconds then some { v with expiresAt := some () } else none))

/-- `DEL` -/
def Store.del (s : Store) (key : String) : Bool × Store :=
  ((s key).isSome, Function.update s key none)

/-! ### `redis.service.ts` -/

/-- A value given to `serialize`: a string, or anything else with its JSON text. -/
inductive Value where
  | string (text : String)
  | json (text : String)

def serialize : Value → String
  | .string text => text
  | .json text => text

def setNx (s : Store) (key : String) (value : Value) (ttlSeconds : Int) : Bool × Store :=
  s.setNX key (serialize value) (if 0 < ttlSeconds then some ttlSeconds else none)

def lockKey (key : String) : String := "lock:" ++ key

theorem lockKey_inj {key key' : String} : lockKey key = lockKey key' ↔ key = key' := by
  simp [lockKey, ← String.toList_inj]

def acquireLock (s : Store) (key : String) (ttlSeconds : Int) (token : String) :
    Option String × Store :=
  let (locked, s') := setNx s (lockKey key) (.string token) ttlSeconds
  (if locked then some token else none, s')

/-- The script compares the stored value with the token as it is. -/
def renewLock (s : Store) (key token : String) (ttlSeconds : Int) : Bool × Store :=
  if s.get (lockKey key) = some token then s.expire (lockKey key) ttlSeconds else (false, s)

def releaseLock (s : Store) (key token : String) : Bool × Store :=
  if s.get (lockKey key) = some token then s.del (lockKey key) else (false, s)

/-! ### What a call does to the keys -/

theorem acquireLock_cases (s : Store) (key : String) (ttlSeconds : Int) (token : String) :
    (∃ held, s.get (lockKey key) = some held) ∧ acquireLock s key ttlSeconds token = (none, s) ∨
      s.get (lockKey key) = none ∧ ∃ expiresAt, acquireLock s key ttlSeconds token =
        (some token, Function.update s (lockKey key) (some ⟨token, expiresAt⟩)) := by
  unfold acquireLock setNx Store.setNX Entries.get
  cases s (lockKey key) with
  | none => exact Or.inr ⟨rfl, _, rfl⟩
  | some v => exact Or.inl ⟨⟨v.value, rfl⟩, rfl⟩

/-- A renewal leaves the value of every key, or removes a key of its own token. -/
theorem renewLock_cases (s : Store) (key token : String) (ttlSeconds : Int) :
    (renewLock s key token ttlSeconds).2.get = s.get ∨
      s.get (lockKey key) = some token ∧ ttlSeconds ≤ 0 ∧
        (renewLock s key token ttlSeconds).2 = Function.update s (lockKey key) none := by
  unfold renewLock
  split
  · rename_i hget
    unfold Store.expire
    split
    · exact Or.inl rfl
    · rename_i v hv
      by_cases hpos : 0 < ttlSeconds
      · refine Or.inl (funext fun key' => ?_)
        rw [if_pos hpos]
        by_cases hkey : key' = lockKey key
        · simp [hkey, Entries.get, hv]
        · exact s.get_update_ne hkey _
      · rw [if_neg hpos]
        exact Or.inr ⟨hget, by omega, rfl⟩
  · exact Or.inl rfl

theorem releaseLock_cases (s : Store) (key token : String) :
    (releaseLock s key token).2 = s ∨ s.get (lockKey key) = some token ∧
      (releaseLock s key token).2 = Function.update s (lockKey key) none := by
  unfold releaseLock
  split
  · rename_i hget
    exact Or.inr ⟨hget, rfl⟩
  · exact Or.inl rfl

/-! ### Clients -/

inductive Action (Client : Type) where
  | acquire (c : Client) (key : String) (ttlSeconds : Int)
  | renew (c : Client) (key : String) (ttlSeconds : Int)
  | release (c : Client) (key : String)
  /-- The time to live of a lock has run out. -/
  | expire (key : String)

/-- The keys, and the last client that has acquired each lock. -/
structure State (Client : Type) where
  store : Store
  lastAcquirer : String → Option Client

variable {Client : Type} (token : Client → String)

def step (s : State Client) : Action Client → Option (State Client)
  | .acquire c key ttlSeconds =>
      let (reply, store) := acquireLock s.store key ttlSeconds (token c)
      some { store
             lastAcquirer :=
              if reply.isSome then Function.update s.lastAcquirer key (some c) else s.lastAcquirer }
  | .renew c key ttlSeconds => some { s with store := (renewLock s.store key (token c) ttlSeconds).2 }
  | .release c key => some { s with store := (releaseLock s.store key (token c)).2 }
  | .expire key =>
      if (s.store (lockKey key)).any (fun v => v.expiresAt.isSome) then
        some { s with store := Function.update s.store (lockKey key) none }
      else none

/-- Any number of clients, their calls and the expiry of keys in any order. -/
def locks : Machine (State Client) (Action Client) where
  init s := s.store = (fun _ => none) ∧ s.lastAcquirer = fun _ => none
  step := step token

/-! ### Who holds a lock -/

/-- A lock is free or holds the token of its last acquirer. -/
def HeldByLast (s : State Client) : Prop :=
  ∀ key, s.store.get (lockKey key) = none ∨
    ∃ c, s.lastAcquirer key = some c ∧ s.store.get (lockKey key) = some (token c)

variable {token}

/-- Freeing a lock changes no other one. -/
theorem HeldByLast.free {s : State Client} (h : HeldByLast token s) (key : String) :
    HeldByLast token { s with store := Function.update s.store (lockKey key) none } := by
  intro key'
  by_cases hkey : key' = key
  · subst hkey
    exact Or.inl (by simp)
  · have hne : lockKey key' ≠ lockKey key := fun heq => hkey (lockKey_inj.mp heq)
    simp only [s.store.get_update_ne hne]
    exact h key'

theorem HeldByLast.step {s s' : State Client} {a : Action Client} (h : HeldByLast token s)
    (hstep : Locks.step token s a = some s') : HeldByLast token s' := by
  cases a with
  | acquire c key ttlSeconds =>
      rcases acquireLock_cases s.store key ttlSeconds (token c) with ⟨-, heq⟩ | ⟨-, expiresAt, heq⟩
      · simp only [Locks.step, heq] at hstep
        cases hstep
        exact h
      · simp only [Locks.step, heq] at hstep
        cases hstep
        intro key'
        by_cases hkey : key' = key
        · subst hkey
          exact Or.inr ⟨c, by simp, by simp⟩
        · have hne : lockKey key' ≠ lockKey key := fun heq => hkey (lockKey_inj.mp heq)
          simp only [s.store.get_update_ne hne, Option.isSome_some, if_true,
            Function.update_of_ne hkey]
          exact h key'
  | renew c key ttlSeconds =>
      cases hstep
      rcases renewLock_cases s.store key (token c) ttlSeconds with heq | ⟨-, -, heq⟩
      · intro key'
        simp only [heq]
        exact h key'
      · simp only [heq]
        exact h.free key
  | release c key =>
      cases hstep
      rcases releaseLock_cases s.store key (token c) with heq | ⟨-, heq⟩
      · simp only [heq]
        exact h
      · simp only [heq]
        exact h.free key
  | expire key =>
      simp only [Locks.step] at hstep
      split at hstep
      · cases hstep
        exact h.free key
      · cases hstep

/-- What may happen while client `c` keeps the lock: it does not release it, and the key
does not expire. -/
def Keeps (c : Client) (key : String) (_ : State Client) : Action Client → Prop
  | .acquire _ _ _ => True
  | .renew c' key' ttlSeconds => c' = c → key' = key → 0 < ttlSeconds
  | .release c' key' => c' = c → key' ≠ key
  | .expire key' => key' ≠ key

theorem held_step (hinj : Function.Injective token) {c : Client} {key : String} {s s' : State Client}
    {a : Action Client} (h : s.store.get (lockKey key) = some (token c)) (hok : Keeps c key s a)
    (hstep : Locks.step token s a = some s') : s'.store.get (lockKey key) = some (token c) := by
  -- A step that frees some lock frees another one.
  have hfree : ∀ key', key' ≠ key →
      Entries.get (Function.update s.store (lockKey key') none) (lockKey key) = some (token c) := by
    intro key' hne
    rw [s.store.get_update_ne fun heq => hne (lockKey_inj.mp heq).symm]
    exact h
  cases a with
  | acquire c' key' ttlSeconds =>
      rcases acquireLock_cases s.store key' ttlSeconds (token c') with ⟨-, heq⟩ | ⟨hfreeKey, expiresAt, heq⟩
      · simp only [Locks.step, heq] at hstep
        cases hstep
        exact h
      · simp only [Locks.step, heq] at hstep
        cases hstep
        have hne : lockKey key ≠ lockKey key' := by
          intro heq
          rw [← heq, h] at hfreeKey
          cases hfreeKey
        exact (s.store.get_update_ne hne _).trans h
  | renew c' key' ttlSeconds =>
      cases hstep
      rcases renewLock_cases s.store key' (token c') ttlSeconds with heq | ⟨hown, hexpired, heq⟩
      · simp only [heq]
        exact h
      · simp only [heq]
        refine hfree key' ?_
        rintro rfl
        obtain rfl : c = c' := hinj (by simpa [h] using hown)
        exact absurd (hok rfl rfl) (by omega)
  | release c' key' =>
      cases hstep
      rcases releaseLock_cases s.store key' (token c') with heq | ⟨hown, heq⟩
      · simp only [heq]
        exact h
      · simp only [heq]
        refine hfree key' ?_
        rintro rfl
        obtain rfl : c = c' := hinj (by simpa [h] using hown)
        exact hok rfl rfl
  | expire key' =>
      simp only [Locks.step] at hstep
      split at hstep
      · cases hstep
        exact hfree key' hok
      · cases hstep

/-- **Locks and their owners**, for clients with tokens of their own: a lock is free or
holds the token of its last acquirer; a renewal or release under another token changes no
key; and from an acquisition on, as long as the client does not release the lock and the
key does not expire, nobody acquires it. -/
theorem lock_exclusive (hinj : Function.Injective token) {s : State Client}
    (h : (locks token).Reachable s) :
    (∀ key, s.store.get (lockKey key) = none ∨
      ∃ c, s.lastAcquirer key = some c ∧ s.store.get (lockKey key) = some (token c)) ∧
    (∀ key held, s.store.get (lockKey key) = some held → ∀ c ttlSeconds, token c ≠ held →
      renewLock s.store key (token c) ttlSeconds = (false, s.store) ∧
      releaseLock s.store key (token c) = (false, s.store)) ∧
    ∀ c key ttlSeconds, (acquireLock s.store key ttlSeconds (token c)).1.isSome →
      ∀ s₁ s₂, step token s (.acquire c key ttlSeconds) = some s₁ →
        Relation.ReflTransGen ((locks token).Next (Keeps c key)) s₁ s₂ →
        ∀ c' ttlSeconds', (acquireLock s₂.store key ttlSeconds' (token c')).1 = none := by
  refine ⟨?_, ?_, ?_⟩
  · refine h.invariant (I := HeldByLast token) ?_ fun s a s' hs _ hstep => hs.step hstep
    rintro s ⟨hstore, -⟩ key
    exact Or.inl (by simp [hstore, Entries.get])
  · intro key held hheld c ttlSeconds hne
    have hother : ¬ s.store.get (lockKey key) = some (token c) := by
      rw [hheld]
      exact fun heq => hne (Option.some.inj heq).symm
    exact ⟨if_neg hother, if_neg hother⟩
  · intro c key ttlSeconds hacquired s₁ s₂ hstep hrun c' ttlSeconds'
    have hheld₁ : s₁.store.get (lockKey key) = some (token c) := by
      rcases acquireLock_cases s.store key ttlSeconds (token c) with ⟨-, heq⟩ | ⟨-, expiresAt, heq⟩
      · simp [heq] at hacquired
      · simp only [step, heq] at hstep
        cases hstep
        simp
    have hheld₂ : s₂.store.get (lockKey key) = some (token c) := by
      induction hrun with
      | refl => exact hheld₁
      | tail _ hnext ih =>
          obtain ⟨a, hok, hnext⟩ := hnext
          exact held_step hinj ih hok hnext
    rcases acquireLock_cases s₂.store key ttlSeconds' (token c') with ⟨-, heq⟩ | ⟨hfree, -⟩
    · rw [heq]
    · rw [hheld₂] at hfree
      cases hfree

/-- Three clients; the token of each is its number. -/
def tokenOf (c : Fin 3) : String := toString c.val

theorem tokenOf_injective : Function.Injective tokenOf := by
  intro c c' h
  revert c c'
  decide +kernel

/-- A client acquires a lock that has expired under another, which then releases late. -/
def lateRelease : List (Action (Fin 3)) :=
  [.acquire 0 "biz:r" 10, .expire "biz:r", .acquire 1 "biz:r" 10, .release 0 "biz:r"]

theorem lock_exclusive_lateRelease :
    ∃ s, (locks tokenOf).exec ⟨fun _ => none, fun _ => none⟩ lateRelease = some s ∧
      s.store.get (lockKey "biz:r") = some "1" ∧ s.lastAcquirer "biz:r" = some 1 ∧
      ∀ c ttlSeconds, tokenOf c ≠ "1" →
        renewLock s.store "biz:r" (tokenOf c) ttlSeconds = (false, s.store) ∧
        releaseLock s.store "biz:r" (tokenOf c) = (false, s.store) := by
  have hinit : (locks tokenOf).init ⟨fun _ => none, fun _ => none⟩ := ⟨rfl, rfl⟩
  refine ⟨_, (Option.some_get (by decide +kernel)).symm, by decide +kernel, by decide +kernel, ?_⟩
  exact (lock_exclusive tokenOf_injective (Machine.reachableBy_exec_get hinit
    (Machine.admits_true _ _) (by decide +kernel))).2.1 "biz:r" "1" (by decide +kernel)

end MibServer.Locks
