import Mathlib.Data.List.Dedup
import Mathlib.Data.List.Lex
import Mathlib.Data.List.Sort
import MibServer.Text

/-!
`RedisBusinessService.runWithBusinessLocks`: take several locks, run `fn` against a timer,
release the locks.

The environment says how each call it makes turns out, and a run leaves the releases it has
issued. The `finally` covers the race between `fn` and the timer. It does not cover the loop
that takes the locks, and the loop that releases them stops at the first release that
rejects. `released_iff_covered` says exactly when no lock is left behind. The renewal timer
issues no release and is left out.
-/

namespace MibServer.Locks

/-! ### The environment -/

/-- What `acquireLock` of a resource comes to; a token is never empty. -/
inductive Acquire where
  | token (token : String)
  | null
  | rejects
deriving DecidableEq, Repr

/-- How `fn` stands when the race is over. -/
inductive FnOutcome (T E : Type) where
  | resolves (value : T)
  | rejects (error : E)
  | outlives
deriving Repr

inductive LockFailure (E : Type) where
  /-- An error of Redis that nothing catches. -/
  | redis
  | BusinessLockBusyError (resource : String)
  /-- What `onBusy` throws. -/
  | onBusy (error : E)
  | LockOperationTimeoutError (resource : String) (timeoutMs : Int)
  | fn (error : E)
deriving DecidableEq, Repr

structure Environment (T E : Type) where
  acquireLock : String → Acquire
  fn : FnOutcome T E
  /-- `releaseLock` of the resource rejects. -/
  releaseRejects : String → Bool

structure RunOptions (E : Type) where
  operationTimeoutMs : Option Int := none
  onBusy : Option E := none

structure Held where
  resource : String
  token : String
deriving DecidableEq, Repr

/-- What a run leaves: the releases it has issued in order, and what it settles with. -/
structure Settled (T E : Type) where
  issued : List Held
  result : Except (LockFailure E) T

/-! ### `redis-business.service.ts` -/

/-- `[...new Set(resources)].sort()` -/
def sortedResources (resources : List String) : List String :=
  resources.dedup.insertionSort fun a b => codeUnits a ≤ codeUnits b

/-- The locks held when the loop ends, and why it ends early. -/
def acquireLocks (acquireLock : String → Acquire) :
    List String → List Held → List Held × Option (String × Acquire)
  | [], held => (held, none)
  | resource :: rest, held =>
      match acquireLock resource with
      | .token token => acquireLocks acquireLock rest (held ++ [⟨resource, token⟩])
      | failed => (held, some (resource, failed))

/-- The releases issued, and whether all of them have come back. -/
def releaseLoop (releaseRejects : String → Bool) : List Held → List Held × Bool
  | [] => ([], true)
  | lock :: rest =>
      if releaseRejects lock.resource then ([lock], false)
      else
        let (issued, done) := releaseLoop releaseRejects rest
        (lock :: issued, done)

def releaseHeldBusinessLocks (releaseRejects : String → Bool) (held : List Held) :
    List Held × Bool :=
  releaseLoop releaseRejects held.reverse

variable {T E : Type}

/-- A release that rejects takes the place of what the call would settle with. -/
def releaseThen (env : Environment T E) (held : List Held) (result : Except (LockFailure E) T) :
    Settled T E :=
  let (issued, done) := releaseHeldBusinessLocks env.releaseRejects held
  ⟨issued, if done then result else .error .redis⟩

def runWithBusinessLocks (env : Environment T E) (resources : List String) (ttlSeconds : Int)
    (options : RunOptions E) : Settled T E :=
  let sorted := sortedResources resources
  match acquireLocks env.acquireLock sorted [] with
  | (held, some (resource, .null)) =>
      releaseThen env held (.error (match options.onBusy with
        | some error => .onBusy error
        | none => .BusinessLockBusyError resource))
  | (_, some _) => ⟨[], .error .redis⟩
  | (held, none) =>
      let operationTimeoutMs := options.operationTimeoutMs.getD (max 1000 ((ttlSeconds - 1) * 1000))
      releaseThen env held (match env.fn with
        | .resolves value => .ok value
        | .rejects error => .error (.fn error)
        | .outlives => .error
            (.LockOperationTimeoutError (",".intercalate sorted) operationTimeoutMs))

/-! ### The locks that are taken -/

def Acquire.isToken : Acquire → Bool
  | .token _ => true
  | _ => false

/-- The resources whose locks the loop takes: those before the first it does not get. -/
def taken (acquireLock : String → Acquire) (sorted : List String) : List String :=
  sorted.takeWhile fun resource => (acquireLock resource).isToken

/-- The resource the loop stops at. -/
def refused (acquireLock : String → Acquire) (sorted : List String) : Option String :=
  sorted.find? fun resource => !(acquireLock resource).isToken

/-- The locks with their tokens. -/
def takenLocks (acquireLock : String → Acquire) (sorted : List String) : List Held :=
  (taken acquireLock sorted).filterMap fun resource =>
    match acquireLock resource with
    | .token token => some ⟨resource, token⟩
    | _ => none

/-- The loop takes these locks and stops at that resource. -/
theorem acquireLocks_eq (acquireLock : String → Acquire) (sorted : List String) (held : List Held) :
    acquireLocks acquireLock sorted held =
      (held ++ takenLocks acquireLock sorted,
        (refused acquireLock sorted).map fun r => (r, acquireLock r)) := by
  induction sorted generalizing held with
  | nil => simp [acquireLocks, takenLocks, taken, refused]
  | cons resource rest ih =>
      cases hacquire : acquireLock resource with
      | token token =>
          simp [acquireLocks, takenLocks, taken, refused, hacquire, Acquire.isToken, ih]
      | null | rejects =>
          simp [acquireLocks, takenLocks, taken, refused, hacquire, Acquire.isToken]

theorem takenLocks_resources (acquireLock : String → Acquire) (sorted : List String) :
    (takenLocks acquireLock sorted).map Held.resource = taken acquireLock sorted := by
  unfold takenLocks taken
  induction sorted with
  | nil => rfl
  | cons resource rest ih =>
      cases hacquire : acquireLock resource with
      | token token => simpa [hacquire, Acquire.isToken] using ih
      | null | rejects => simp [hacquire, Acquire.isToken]

/-! ### The locks that are released -/

/-- The release loop reaches every lock unless a release before the last one rejects. -/
theorem releaseLoop_all (releaseRejects : String → Bool) {locks : List Held} (hnodup : locks.Nodup) :
    (∀ lock ∈ locks, lock ∈ (releaseLoop releaseRejects locks).1) ↔
      ∀ lock ∈ locks.dropLast, releaseRejects lock.resource = false := by
  induction locks with
  | nil => simp [releaseLoop]
  | cons lock rest ih =>
      obtain ⟨hfresh, hrest⟩ := List.nodup_cons.mp hnodup
      have hne : ∀ l ∈ rest, l ≠ lock := fun l hl heq => hfresh (heq ▸ hl)
      cases rest with
      | nil => cases hrejects : releaseRejects lock.resource <;> simp [releaseLoop, hrejects]
      | cons next rest =>
          cases hrejects : releaseRejects lock.resource with
          | true =>
              -- The loop ends here, and `next` is never released.
              have hnext := hne next List.mem_cons_self
              simp [releaseLoop, hrejects, hnext]
          | false =>
              have hissued : (releaseLoop releaseRejects (lock :: next :: rest)).1 =
                  lock :: (releaseLoop releaseRejects (next :: rest)).1 := by
                rw [releaseLoop, if_neg (by simp [hrejects])]
              rw [hissued, List.dropLast_cons_of_ne_nil (List.cons_ne_nil _ _), List.forall_mem_cons
                (a := lock), List.forall_mem_cons (a := lock), ← ih hrest]
              refine and_congr (iff_of_true List.mem_cons_self hrejects) ?_
              refine forall₂_congr fun l hl => ?_
              rw [List.mem_cons]
              exact or_iff_right (hne l hl)

theorem sortedResources_nodup (resources : List String) : (sortedResources resources).Nodup :=
  (List.perm_insertionSort _ _).nodup_iff.mpr (List.nodup_dedup resources)

theorem takenLocks_nodup (acquireLock : String → Acquire) {sorted : List String}
    (h : sorted.Nodup) : (takenLocks acquireLock sorted).Nodup := by
  refine List.Nodup.of_map Held.resource ?_
  rw [takenLocks_resources]
  exact h.sublist (List.takeWhile_sublist _)

/-- The releases of every run that gets as far as releasing. -/
theorem releaseThen_all (env : Environment T E) {sorted : List String} (h : sorted.Nodup)
    (result : Except (LockFailure E) T) :
    (∀ lock ∈ takenLocks env.acquireLock sorted,
        lock ∈ (releaseThen env (takenLocks env.acquireLock sorted) result).issued) ↔
      ∀ resource ∈ (taken env.acquireLock sorted).tail, env.releaseRejects resource = false := by
  have hall := releaseLoop_all env.releaseRejects
    (List.nodup_reverse.mpr (takenLocks_nodup env.acquireLock h))
  simp only [List.mem_reverse, List.dropLast_reverse] at hall
  rw [← takenLocks_resources, ← List.map_tail, List.forall_mem_map]
  exact hall

/-- When no lock is left behind: `acquireLock` rejects only for the first resource, and
`releaseLock` only for the first lock taken, which is the last one released. -/
structure Covered (env : Environment T E) (sorted : List String) : Prop where
  acquire : ∀ resource ∈ refused env.acquireLock sorted,
    env.acquireLock resource = .rejects → taken env.acquireLock sorted = []
  release : ∀ resource ∈ (taken env.acquireLock sorted).tail, env.releaseRejects resource = false

instance (env : Environment T E) (sorted : List String) : Decidable (Covered env sorted) :=
  decidable_of_iff (_ ∧ _) ⟨fun h => Covered.mk h.1 h.2, fun h => ⟨h.acquire, h.release⟩⟩

/-- **A run releases every lock it has taken** exactly when it is covered. -/
theorem released_iff_covered (env : Environment T E) (resources : List String) (ttlSeconds : Int)
    (options : RunOptions E) :
    (∀ lock ∈ takenLocks env.acquireLock (sortedResources resources),
        lock ∈ (runWithBusinessLocks env resources ttlSeconds options).issued) ↔
      Covered env (sortedResources resources) := by
  have hnodup := sortedResources_nodup resources
  generalize hsorted : sortedResources resources = sorted at hnodup
  have hacquire := acquireLocks_eq env.acquireLock sorted []
  rw [List.nil_append] at hacquire
  unfold runWithBusinessLocks
  simp only [hsorted, hacquire]
  cases hstop : refused env.acquireLock sorted with
  | none =>
      simp only [Option.map_none]
      rw [releaseThen_all env hnodup]
      exact ⟨fun h => ⟨by simp [hstop], h⟩, Covered.release⟩
  | some resource =>
      simp only [Option.map_some]
      cases hfailed : env.acquireLock resource with
      | null =>
          rw [releaseThen_all env hnodup]
          exact ⟨fun h => ⟨by simp [hstop, hfailed], h⟩, Covered.release⟩
      | rejects =>
          have hresources := takenLocks_resources env.acquireLock sorted
          constructor
          · intro h
            have hnone : takenLocks env.acquireLock sorted = [] :=
              List.eq_nil_iff_forall_not_mem.mpr fun lock hlock => List.not_mem_nil (h lock hlock)
            have htaken : taken env.acquireLock sorted = [] := by
              rw [← hresources, hnone, List.map_nil]
            exact ⟨fun _ _ _ => htaken, by simp [htaken]⟩
          · intro h lock hlock
            have htaken := h.acquire resource (by simp [hstop]) hfailed
            rw [htaken, List.map_eq_nil_iff] at hresources
            rw [hresources] at hlock
            cases hlock
      | token token =>
          have hrefused := List.find?_some hstop
          simp [hfailed, Acquire.isToken] at hrefused

/-! ### Two locks -/

/-- Both locks are taken, and `fn` outlives the timer. -/
def outlived : Environment Unit Unit where
  acquireLock resource := .token resource
  fn := .outlives
  releaseRejects _ := false

theorem released_outlived :
    (∀ lock ∈ takenLocks outlived.acquireLock (sortedResources ["r2", "r1", "r2"]),
        lock ∈ (runWithBusinessLocks outlived ["r2", "r1", "r2"] 15 {}).issued) ∧
      (runWithBusinessLocks outlived ["r2", "r1", "r2"] 15 {}).issued =
        [⟨"r2", "r2"⟩, ⟨"r1", "r1"⟩] :=
  ⟨(released_iff_covered _ _ _ _).mpr (by decide +kernel), by decide +kernel⟩

/-- Redis fails when the second lock is asked for: the first is left behind. -/
theorem acquired_lock_left_behind :
    ¬ ∀ (T E : Type) (env : Environment T E) (resources : List String) (ttlSeconds : Int)
      (options : RunOptions E), ∀ lock ∈ takenLocks env.acquireLock (sortedResources resources),
        lock ∈ (runWithBusinessLocks env resources ttlSeconds options).issued := by
  intro h
  have hleft := h Unit Unit
    { outlived with acquireLock := fun resource => if resource = "r1" then .token "t" else .rejects }
    ["r1", "r2"] 15 {} ⟨"r1", "t"⟩ (by decide +kernel)
  exact absurd hleft (by decide +kernel)

end MibServer.Locks
