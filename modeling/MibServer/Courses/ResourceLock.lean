import MibServer.Http
import MibServer.Lib.Index
import Mathlib.Tactic.Ring

/-!
`schedule-resource-lock.ts`: the discrete slot locks behind coach and venue
bookings. A booking window takes one lock row for each 15-minute slot it meets,
once for its coach and once for its venue; the unique index on
`(resourceType, resourceId, timeSlotKey)` turns a second booking of a slot into
a conflict.

`slot_mem_buildTimeSlotKeys` is what makes the scheme work: a window holds the
key of the slot around each of its instants, so overlapping windows share a key.
-/

namespace MibServer.Courses

open MibServer.Lib

inductive ScheduleResourceType where
  | coach | venue
deriving DecidableEq, Repr

/-- Time slice granularity for resource locks (minutes). -/
def scheduleSlotMinutes : Int := 15

def slotMs : Int := scheduleSlotMinutes * 60 * 1000

theorem slotMs_pos : 0 < slotMs := by decide

/-- The `while (slotStartMs < endMs)` loop of `buildTimeSlotKeys`. -/
def slotKeysFrom (slotStartMs endMs : Int) : List String :=
  if slotStartMs < endMs then
    toString slotStartMs :: slotKeysFrom (slotStartMs + slotMs) endMs
  else []
termination_by (endMs - slotStartMs).toNat
decreasing_by have := slotMs_pos; omega

def buildTimeSlotKeys (startsAt endsAt : Int) : List String :=
  slotKeysFrom (startsAt / slotMs * slotMs) endsAt

/-- A row of `ScheduleResourceLock`. -/
structure ScheduleResourceLock where
  resourceType : ScheduleResourceType
  resourceId : String
  timeSlotKey : String
  scheduleId : String
deriving DecidableEq, Repr

/-- `@@unique([resourceType, resourceId, timeSlotKey])` -/
def ScheduleResourceLock.keys (row : ScheduleResourceLock) :
    List (ScheduleResourceType × String × String) :=
  [(row.resourceType, row.resourceId, row.timeSlotKey)]

abbrev LockTable := Indexed ScheduleResourceLock (ScheduleResourceType × String × String)
  ScheduleResourceLock.keys

def buildScheduleResourceLockRows (scheduleId coachId venueId : String)
    (startsAt endsAt : Int) : List ScheduleResourceLock :=
  (buildTimeSlotKeys startsAt endsAt).flatMap fun timeSlotKey =>
    [⟨.coach, coachId, timeSlotKey, scheduleId⟩, ⟨.venue, venueId, timeSlotKey, scheduleId⟩]

/-- The errors `insertScheduleResourceLocks` throws. -/
inductive LockError where
  | scheduleEmptyTimeRange
  | scheduleResourceConflict
deriving DecidableEq, Repr

/-- `createMany` inserts all rows or, on a unique violation, none. -/
def insertScheduleResourceLocks (locks : LockTable) (scheduleId coachId venueId : String)
    (startsAt endsAt : Int) : Except LockError LockTable :=
  let rows := buildScheduleResourceLockRows scheduleId coachId venueId startsAt endsAt
  if rows.length = 0 then
    .error .scheduleEmptyTimeRange
  else
    match locks.insertMany? rows with
    | some locks' => .ok locks'
    | none => .error .scheduleResourceConflict

def releaseScheduleResourceLocks (locks : LockTable) (scheduleId : String) : LockTable :=
  locks.deleteWhere fun row => row.scheduleId == scheduleId

/-! ### Slots -/

theorem mem_slotKeysFrom {slotStartMs endMs : Int} {key : String} :
    key ∈ slotKeysFrom slotStartMs endMs ↔
      ∃ i : Nat, slotStartMs + i * slotMs < endMs ∧ key = toString (slotStartMs + i * slotMs) := by
  induction slotStartMs using slotKeysFrom.induct endMs with
  | case1 slotStartMs hlt ih =>
      rw [slotKeysFrom, if_pos hlt, List.mem_cons, ih]
      constructor
      · rintro (rfl | ⟨i, hi, rfl⟩)
        · exact ⟨0, by simpa using hlt, by simp⟩
        · have hshift : slotStartMs + slotMs + i * slotMs = slotStartMs + (i + 1 : Nat) * slotMs := by
            push_cast
            ring
          exact ⟨i + 1, hshift ▸ hi, congrArg toString hshift⟩
      · rintro ⟨i, hi, rfl⟩
        cases i with
        | zero => exact Or.inl (by simp)
        | succ i =>
            have hshift : slotStartMs + (i + 1 : Nat) * slotMs = slotStartMs + slotMs + i * slotMs := by
              push_cast
              ring
            exact Or.inr ⟨i, hshift ▸ hi, congrArg toString hshift⟩
  | case2 slotStartMs hge =>
      rw [slotKeysFrom, if_neg hge]
      constructor
      · intro h
        cases h
      · rintro ⟨i, hi, -⟩
        have hnonneg : 0 ≤ (i : Int) * slotMs :=
          Int.mul_nonneg (Int.natCast_nonneg i) slotMs_pos.le
        omega

/-- A window holds the key of the slot around each of its instants. -/
theorem slot_mem_buildTimeSlotKeys {startsAt endsAt t : Int} (hs : startsAt ≤ t) (he : t < endsAt) :
    toString (t / slotMs * slotMs) ∈ buildTimeSlotKeys startsAt endsAt := by
  have hdiv : startsAt / slotMs ≤ t / slotMs := Int.ediv_le_ediv slotMs_pos hs
  have hslot : startsAt / slotMs * slotMs + (t / slotMs - startsAt / slotMs).toNat * slotMs
      = t / slotMs * slotMs := by
    rw [Int.toNat_of_nonneg (by omega)]
    ring
  have hle : t / slotMs * slotMs ≤ t := Int.ediv_mul_le t slotMs_pos.ne'
  refine mem_slotKeysFrom.mpr ⟨(t / slotMs - startsAt / slotMs).toNat, ?_, ?_⟩
  · rw [hslot]
    omega
  · rw [hslot]

theorem mem_buildScheduleResourceLockRows {scheduleId coachId venueId : String}
    {startsAt endsAt : Int} {row : ScheduleResourceLock} :
    row ∈ buildScheduleResourceLockRows scheduleId coachId venueId startsAt endsAt ↔
      row.timeSlotKey ∈ buildTimeSlotKeys startsAt endsAt ∧ row.scheduleId = scheduleId ∧
        (row.resourceType = .coach ∧ row.resourceId = coachId ∨
          row.resourceType = .venue ∧ row.resourceId = venueId) := by
  obtain ⟨resourceType, resourceId, timeSlotKey, owner⟩ := row
  simp only [buildScheduleResourceLockRows, List.mem_flatMap, List.mem_cons,
    ScheduleResourceLock.mk.injEq, List.not_mem_nil, or_false]
  constructor
  · rintro ⟨key, hkey, ⟨rfl, rfl, rfl, rfl⟩ | ⟨rfl, rfl, rfl, rfl⟩⟩
    · exact ⟨hkey, rfl, Or.inl ⟨rfl, rfl⟩⟩
    · exact ⟨hkey, rfl, Or.inr ⟨rfl, rfl⟩⟩
  · rintro ⟨hkey, rfl, ⟨rfl, rfl⟩ | ⟨rfl, rfl⟩⟩
    · exact ⟨_, hkey, Or.inl ⟨rfl, rfl, rfl, rfl⟩⟩
    · exact ⟨_, hkey, Or.inr ⟨rfl, rfl, rfl, rfl⟩⟩

/-- A successful insert adds exactly the rows built for the booking. -/
theorem mem_insertScheduleResourceLocks {locks locks' : LockTable}
    {scheduleId coachId venueId : String} {startsAt endsAt : Int}
    (h : insertScheduleResourceLocks locks scheduleId coachId venueId startsAt endsAt = .ok locks')
    {row : ScheduleResourceLock} :
    row ∈ locks'.rows ↔ row ∈ locks.rows ∨
      row ∈ buildScheduleResourceLockRows scheduleId coachId venueId startsAt endsAt := by
  simp only [insertScheduleResourceLocks] at h
  split at h
  · cases h
  · split at h
    · rename_i hinsert
      cases h
      exact Indexed.mem_insertMany? hinsert
    · cases h

theorem mem_releaseScheduleResourceLocks {locks : LockTable} {scheduleId : String}
    {row : ScheduleResourceLock} :
    row ∈ (releaseScheduleResourceLocks locks scheduleId).rows ↔
      row ∈ locks.rows ∧ row.scheduleId ≠ scheduleId := by
  simp [releaseScheduleResourceLocks, Indexed.mem_deleteWhere]

end MibServer.Courses
