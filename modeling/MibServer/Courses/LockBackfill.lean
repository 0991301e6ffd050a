import MibServer.Courses.DoubleBooking
import MibServer.Courses.SlotKeys

/-!
`scripts/backfill-schedule-resource-locks.mjs`: lock rows for the schedules of a table that
is older than the locks.

The script goes through the schedules that are not cancelled, in the order the query
returns them, and leaves alone each that owns a lock already. Its `createMany` passes over
the rows whose entry is taken (`skipDuplicates`), so it does not fail on a conflict and the
script never reports one: a schedule that gets some of its rows, or none, counts as locked.
`backfilled_iff` says when that does not happen.
-/

namespace MibServer.Courses

open MibServer.Lib

/-! ### The script -/

namespace Backfill

/-- `SLOT_MS` of the script. -/
def slotMs : Int := 15 * 60 * 1000

theorem slotMs_pos : 0 < slotMs := by decide

/-- The `while (slotStartMs < endMs)` loop of the script's `buildTimeSlotKeys`. -/
def slotKeysFrom (slotStartMs endMs : Int) : List String :=
  if slotStartMs < endMs then
    toString slotStartMs :: slotKeysFrom (slotStartMs + slotMs) endMs
  else []
termination_by (endMs - slotStartMs).toNat
decreasing_by have := slotMs_pos; omega

def buildTimeSlotKeys (startsAt endsAt : Int) : List String :=
  slotKeysFrom (startsAt / slotMs * slotMs) endsAt

def buildRows (scheduleId coachId venueId : String) (startsAt endsAt : Int) :
    List ScheduleResourceLock :=
  (buildTimeSlotKeys startsAt endsAt).flatMap fun timeSlotKey =>
    [⟨.coach, coachId, timeSlotKey, scheduleId⟩, ⟨.venue, venueId, timeSlotKey, scheduleId⟩]

/-- What the script does with a schedule: `inserted += 1`, `skipped += 1`, or the warning. -/
inductive Outcome where
  | inserted | skipped | conflict
deriving DecidableEq, Repr

/-- `createMany` with `skipDuplicates`, which has no row to fail on. -/
def createMany (locks : LockTable) (rows : List ScheduleResourceLock) : Option LockTable :=
  some (locks.insertFree rows)

/-- The loop body of `main`. -/
def backfillSchedule (locks : LockTable) (s : Schedule) : LockTable × Outcome :=
  let existing := locks.rows.countP fun row => row.scheduleId == s.id
  if existing > 0 then (locks, .skipped)
  else
    let rows := buildRows s.id s.coachId s.venueId s.startsAt s.endsAt
    match createMany locks rows with
    | some locks' => (locks', .inserted)
    | none => (locks, .conflict)

/-- The loop of `main` over the schedules found, with what it did with each. -/
def main (locks : LockTable) : List Schedule → LockTable × List (String × Outcome)
  | [] => (locks, [])
  | s :: schedules =>
      let (locks', outcome) := backfillSchedule locks s
      let (locks'', outcomes) := main locks' schedules
      (locks'', (s.id, outcome) :: outcomes)

/-- The result of `schedule.findMany`: the schedules that are not cancelled, in any order. -/
def Finds (db : ScheduleDb) (schedules : List Schedule) : Prop :=
  schedules.Perm (db.schedules.rows.filter fun s => s.status ≠ .cancelled)

/-! ### The second copy of the slot algorithm -/

theorem slotKeysFrom_eq (slotStartMs endMs : Int) :
    slotKeysFrom slotStartMs endMs = Courses.slotKeysFrom slotStartMs endMs := by
  induction slotStartMs using slotKeysFrom.induct endMs with
  | case1 slotStartMs hlt ih =>
      rw [slotKeysFrom, Courses.slotKeysFrom, if_pos hlt, if_pos hlt, ih]
      rfl
  | case2 slotStartMs hge =>
      rw [slotKeysFrom, Courses.slotKeysFrom, if_neg hge, if_neg hge]

/-- The script builds the rows the service builds. -/
theorem buildRows_eq (scheduleId coachId venueId : String) (startsAt endsAt : Int) :
    buildRows scheduleId coachId venueId startsAt endsAt =
      buildScheduleResourceLockRows scheduleId coachId venueId startsAt endsAt := by
  unfold buildRows buildScheduleResourceLockRows buildTimeSlotKeys Courses.buildTimeSlotKeys
  rw [slotKeysFrom_eq]
  rfl

/-! ### One schedule -/

/-- The schedule owns a lock. -/
def Owns (locks : LockTable) (s : Schedule) : Prop :=
  ∃ lock ∈ locks.rows, lock.scheduleId = s.id

theorem Owns.mono {locks locks' : LockTable} {s : Schedule} (h : Owns locks s)
    (hsub : ∀ lock ∈ locks.rows, lock ∈ locks'.rows) : Owns locks' s := by
  obtain ⟨lock, hlock, hid⟩ := h
  exact ⟨lock, hsub lock hlock, hid⟩

/-- A schedule with a lock is skipped; one without gets those of its rows whose entry is
free. Neither is a conflict. -/
theorem backfillSchedule_cases (locks : LockTable) (s : Schedule) :
    Owns locks s ∧ backfillSchedule locks s = (locks, .skipped) ∨
      ¬ Owns locks s ∧ backfillSchedule locks s = (locks.insertFree s.lockRows, .inserted) := by
  have hcount : (locks.rows.countP fun row => row.scheduleId == s.id) > 0 ↔ Owns locks s := by
    simp [Owns, List.countP_pos_iff]
  unfold backfillSchedule
  by_cases howns : Owns locks s
  · rw [if_pos (hcount.mpr howns)]
    exact Or.inl ⟨howns, rfl⟩
  · rw [if_neg (mt hcount.mp howns), buildRows_eq]
    exact Or.inr ⟨howns, rfl⟩

theorem mem_insertLockRows {locks : LockTable} {s : Schedule} {lock : ScheduleResourceLock} :
    lock ∈ (locks.insertFree s.lockRows).rows ↔
      lock ∈ locks.rows ∨ lock ∈ s.lockRows ∧ locks.Free lock :=
  Indexed.mem_insertFree (buildScheduleResourceLockRows_unique _ _ _ _ _)

theorem backfillSchedule_grows {locks : LockTable} {s : Schedule} {lock : ScheduleResourceLock}
    (h : lock ∈ locks.rows) : lock ∈ (backfillSchedule locks s).1.rows := by
  rcases backfillSchedule_cases locks s with ⟨-, hrun⟩ | ⟨-, hrun⟩
  · rw [hrun]
    exact h
  · rw [hrun]
    exact mem_insertLockRows.mpr (Or.inl h)

/-- A lock that appears is a row of the schedule, which owned none. -/
theorem backfillSchedule_origin {locks : LockTable} {s : Schedule} {lock : ScheduleResourceLock}
    (h : lock ∈ (backfillSchedule locks s).1.rows) :
    lock ∈ locks.rows ∨ ¬ Owns locks s ∧ lock ∈ s.lockRows := by
  rcases backfillSchedule_cases locks s with ⟨-, hrun⟩ | ⟨howns, hrun⟩
  · rw [hrun] at h
    exact Or.inl h
  · rw [hrun] at h
    exact (mem_insertLockRows.mp h).imp_right fun hnew => ⟨howns, hnew.1⟩

/-- No row of the schedule finds its entry free. -/
def Settled (locks : LockTable) (s : Schedule) : Prop :=
  ∀ row ∈ s.lockRows, ¬ locks.Free row

theorem Settled.mono {locks locks' : LockTable} {s : Schedule} (h : Settled locks s)
    (hsub : ∀ lock ∈ locks.rows, lock ∈ locks'.rows) : Settled locks' s :=
  fun row hrow hfree => h row hrow (hfree.mono hsub)

theorem free_iff {locks : LockTable} {row : ScheduleResourceLock} :
    locks.Free row ↔ ∀ lock ∈ locks.rows, lock.keys ≠ row.keys := by
  unfold Indexed.Free
  constructor
  · rintro ⟨-, hfree⟩ lock hlock heq
    refine hfree _ (List.mem_singleton_self _) (List.mem_flatMap.mpr ⟨lock, hlock, ?_⟩)
    rw [heq]
    exact List.mem_singleton_self _
  · intro hnone
    refine ⟨List.nodup_singleton _, fun key hkey hmem => ?_⟩
    obtain ⟨lock, hlock, hkey'⟩ := List.mem_flatMap.mp hmem
    refine hnone lock hlock ?_
    obtain rfl := List.mem_singleton.mp hkey
    unfold ScheduleResourceLock.keys at *
    rw [List.mem_singleton.mp hkey']

theorem backfillSchedule_settles (locks : LockTable) (s : Schedule) :
    Owns locks s ∨ Settled (backfillSchedule locks s).1 s := by
  rcases backfillSchedule_cases locks s with ⟨howns, -⟩ | ⟨-, hrun⟩
  · exact Or.inl howns
  · refine Or.inr fun row hrow hfree => ?_
    rw [hrun] at hfree
    by_cases hbefore : locks.Free row
    · exact free_iff.mp hfree row (mem_insertLockRows.mpr (Or.inr ⟨hrow, hbefore⟩)) rfl
    · exact hbefore (hfree.mono fun lock hlock => mem_insertLockRows.mpr (Or.inl hlock))

/-- A schedule that owns a lock, or that has no row left to insert, leaves the table alone. -/
theorem backfillSchedule_of_settled {locks : LockTable} {s : Schedule}
    (h : Owns locks s ∨ Settled locks s) : (backfillSchedule locks s).1 = locks := by
  rcases backfillSchedule_cases locks s with ⟨-, hrun⟩ | ⟨howns, hrun⟩
  · rw [hrun]
  · rw [hrun]
    exact Indexed.insertFree_of_not_free (h.resolve_left howns)

/-! ### The whole run -/

theorem main_cons (locks : LockTable) (s : Schedule) (schedules : List Schedule) :
    (main locks (s :: schedules)).1 = (main (backfillSchedule locks s).1 schedules).1 := rfl

theorem main_outcomes_cons (locks : LockTable) (s : Schedule) (schedules : List Schedule) :
    (main locks (s :: schedules)).2 =
      (s.id, (backfillSchedule locks s).2) :: (main (backfillSchedule locks s).1 schedules).2 := rfl

theorem main_grows {locks : LockTable} {schedules : List Schedule} {lock : ScheduleResourceLock}
    (h : lock ∈ locks.rows) : lock ∈ (main locks schedules).1.rows := by
  induction schedules generalizing locks with
  | nil => exact h
  | cons s schedules ih =>
      rw [main_cons]
      exact ih (backfillSchedule_grows h)

theorem main_origin {locks : LockTable} {schedules : List Schedule} {lock : ScheduleResourceLock}
    (h : lock ∈ (main locks schedules).1.rows) :
    lock ∈ locks.rows ∨ ∃ s ∈ schedules, ¬ Owns locks s ∧ lock ∈ s.lockRows := by
  induction schedules generalizing locks with
  | nil => exact Or.inl h
  | cons s schedules ih =>
      rw [main_cons] at h
      rcases ih h with hfirst | ⟨s', hs', howns, hrow⟩
      · refine (backfillSchedule_origin hfirst).imp_right ?_
        rintro ⟨howns, hrow⟩
        exact ⟨s, List.mem_cons_self, howns, hrow⟩
      · refine Or.inr ⟨s', List.mem_cons_of_mem _ hs', ?_, hrow⟩
        exact fun h => howns (h.mono fun lock => backfillSchedule_grows)

/-- After a run every schedule owned a lock before it, or has no row left to insert. -/
theorem main_settles {locks : LockTable} {schedules : List Schedule}
    (hids : schedules.Pairwise fun a b => a.id ≠ b.id) :
    ∀ s ∈ schedules, Owns locks s ∨ Settled (main locks schedules).1 s := by
  induction schedules generalizing locks with
  | nil =>
      intro s hs
      cases hs
  | cons head schedules ih =>
      obtain ⟨hhead, hrest⟩ := List.pairwise_cons.mp hids
      intro s hs
      rw [main_cons]
      rcases List.mem_cons.mp hs with rfl | hs
      · refine (backfillSchedule_settles locks s).imp_right fun h => ?_
        exact h.mono fun lock => main_grows
      · rcases ih hrest s hs with ⟨lock, hlock, hid⟩ | hsettled
        · rcases backfillSchedule_origin hlock with hold | ⟨-, hrow⟩
          · exact Or.inl ⟨lock, hold, hid⟩
          · have howner := (mem_buildScheduleResourceLockRows.mp hrow).2.1
            exact absurd (howner.symm.trans hid) (hhead s hs)
        · exact Or.inr hsettled

theorem main_of_settled {locks : LockTable} {schedules : List Schedule}
    (h : ∀ s ∈ schedules, Owns locks s ∨ Settled locks s) : (main locks schedules).1 = locks := by
  induction schedules with
  | nil => rfl
  | cons s schedules ih =>
      rw [main_cons, backfillSchedule_of_settled (h s List.mem_cons_self)]
      exact ih fun s' hs' => h s' (List.mem_cons_of_mem _ hs')

/-- The script reports no schedule. -/
theorem main_reports_none (locks : LockTable) (schedules : List Schedule) (id : String) :
    (id, Outcome.conflict) ∉ (main locks schedules).2 := by
  induction schedules generalizing locks with
  | nil => exact List.not_mem_nil
  | cons s schedules ih =>
      rw [main_outcomes_cons, List.mem_cons]
      rintro (heq | h)
      · have hconflict := (Prod.mk.inj heq).2
        rcases backfillSchedule_cases locks s with ⟨-, hrun⟩ | ⟨-, hrun⟩
        · rw [hrun] at hconflict
          cases hconflict
        · rw [hrun] at hconflict
          cases hconflict
      · exact ih _ h

/-! ### When it does what it is for -/

/-- Counted without a report: as locked, or as already locked. -/
def Counted (outcomes : List (String × Outcome)) (s : Schedule) : Prop :=
  (s.id, Outcome.inserted) ∈ outcomes ∨ (s.id, Outcome.skipped) ∈ outcomes

/-- What the script is for: each schedule owns its rows or is reported, no two that overlap
on a coach or a venue are both counted, and running it again changes nothing. -/
structure Backfilled (db : ScheduleDb) (schedules : List Schedule) : Prop where
  locked : ∀ s ∈ schedules,
    (∀ lock, lock ∈ (main db.locks schedules).1.rows ∧ lock.scheduleId = s.id ↔ lock ∈ s.lockRows) ∨
      (s.id, .conflict) ∈ (main db.locks schedules).2
  exclusive : ∀ a ∈ schedules, ∀ b ∈ schedules, a ≠ b → a.SharesResource b → a.Overlaps b →
    ¬ (Counted (main db.locks schedules).2 a ∧ Counted (main db.locks schedules).2 b)
  stable : ∀ again, Finds db again →
    (main (main db.locks schedules).1 again).1 = (main db.locks schedules).1

/-- A row of each of the schedules is for one entry. -/
def SharesSlot (a b : Schedule) : Prop :=
  ∃ row ∈ a.lockRows, ∃ row' ∈ b.lockRows, row.keys = row'.keys

/-- Tables the script can complete: a schedule that is not cancelled owns all its rows or
none, no entry of it is held by another schedule, and no two of them share a slot. -/
structure Backfillable (db : ScheduleDb) : Prop where
  allOrNone : ∀ s ∈ db.schedules.rows, s.Active → Owns db.locks s →
    ∀ lock, lock ∈ db.locks.rows ∧ lock.scheduleId = s.id ↔ lock ∈ s.lockRows
  unheld : ∀ s ∈ db.schedules.rows, s.Active → ∀ row ∈ s.lockRows, ∀ lock ∈ db.locks.rows,
    lock.keys = row.keys → lock.scheduleId = s.id
  disjoint : ∀ a ∈ db.schedules.rows, ∀ b ∈ db.schedules.rows, a.Active → b.Active → a ≠ b →
    ¬ SharesSlot a b

theorem Finds.mem_iff {db : ScheduleDb} {schedules : List Schedule} (h : Finds db schedules)
    {s : Schedule} : s ∈ schedules ↔ s ∈ db.schedules.rows ∧ s.Active := by
  rw [List.Perm.mem_iff h, List.mem_filter]
  simp [Schedule.Active]

theorem Finds.pairwise_id {db : ScheduleDb} {schedules : List Schedule} (h : Finds db schedules) :
    schedules.Pairwise fun a b => a.id ≠ b.id := by
  have hnodup : (db.schedules.rows.map fun s => s.id).Nodup := by
    rw [List.map_eq_flatMap]
    exact db.schedules.unique
  have hrows : db.schedules.rows.Pairwise fun a b => a.id ≠ b.id := List.pairwise_map.mp hnodup
  exact (hrows.filter _).perm h.symm fun hne => Ne.symm hne

/-- Of two rows of a table or of one schedule's rows for one entry, there is one. -/
theorem lock_eq_of_keys {locks : LockTable} {lock lock' : ScheduleResourceLock}
    (h : lock ∈ locks.rows) (h' : lock' ∈ locks.rows) (hkeys : lock.keys = lock'.keys) :
    lock = lock' :=
  locks.unique.eq_of_mem h h' (List.mem_singleton_self _) (hkeys ▸ List.mem_singleton_self _)

theorem lockRow_eq_of_keys {s : Schedule} {row row' : ScheduleResourceLock} (h : row ∈ s.lockRows)
    (h' : row' ∈ s.lockRows) (hkeys : row.keys = row'.keys) : row = row' :=
  (buildScheduleResourceLockRows_unique _ _ _ _ _).eq_of_mem h h' (List.mem_singleton_self _)
    (hkeys ▸ List.mem_singleton_self _)

/-- Overlapping bookings of one resource share a slot. -/
theorem sharesSlot_of_overlaps {a b : Schedule} (hshares : a.SharesResource b)
    (hoverlaps : a.Overlaps b) : SharesSlot a b := by
  obtain ⟨t, hsa, hea, hsb, heb⟩ := hoverlaps
  have hkey := slot_mem_buildTimeSlotKeys hsa hea
  have hkey' := slot_mem_buildTimeSlotKeys hsb heb
  rcases hshares with hcoach | hvenue
  · refine ⟨⟨.coach, a.coachId, _, a.id⟩,
      mem_buildScheduleResourceLockRows.mpr ⟨hkey, rfl, Or.inl ⟨rfl, rfl⟩⟩,
      ⟨.coach, b.coachId, _, b.id⟩,
      mem_buildScheduleResourceLockRows.mpr ⟨hkey', rfl, Or.inl ⟨rfl, rfl⟩⟩, ?_⟩
    simp [ScheduleResourceLock.keys, hcoach]
  · refine ⟨⟨.venue, a.venueId, _, a.id⟩,
      mem_buildScheduleResourceLockRows.mpr ⟨hkey, rfl, Or.inr ⟨rfl, rfl⟩⟩,
      ⟨.venue, b.venueId, _, b.id⟩,
      mem_buildScheduleResourceLockRows.mpr ⟨hkey', rfl, Or.inr ⟨rfl, rfl⟩⟩, ?_⟩
    simp [ScheduleResourceLock.keys, hvenue]

/-- A second run finds nothing to do. -/
theorem main_stable {db : ScheduleDb} {schedules again : List Schedule} (hfinds : Finds db schedules)
    (hagain : Finds db again) :
    (main (main db.locks schedules).1 again).1 = (main db.locks schedules).1 := by
  refine main_of_settled fun s hs => ?_
  have hmem := hfinds.mem_iff.mpr (hagain.mem_iff.mp hs)
  exact (main_settles hfinds.pairwise_id s hmem).imp_left fun h => h.mono fun lock => main_grows

/-- A schedule of completable tables owns its rows after the run. -/
theorem Backfillable.locked {db : ScheduleDb} {schedules : List Schedule} (h : Backfillable db)
    (hfinds : Finds db schedules) {s : Schedule} (hs : s ∈ schedules) (lock : ScheduleResourceLock) :
    lock ∈ (main db.locks schedules).1.rows ∧ lock.scheduleId = s.id ↔ lock ∈ s.lockRows := by
  obtain ⟨hrow, hactive⟩ := hfinds.mem_iff.mp hs
  -- Where a lock of `s` comes from: the table before the run, or `s` itself.
  have horigin : ∀ lock, lock ∈ (main db.locks schedules).1.rows → lock.scheduleId = s.id →
      lock ∈ db.locks.rows ∨ ¬ Owns db.locks s ∧ lock ∈ s.lockRows := by
    intro lock hlock hid
    refine (main_origin hlock).imp_right ?_
    rintro ⟨s', hs', howns, hnew⟩
    have howner := (mem_buildScheduleResourceLockRows.mp hnew).2.1
    have hsame : s' = s := db.schedules.unique.eq_of_mem (k := s.id) (hfinds.mem_iff.mp hs').1 hrow
      (by simp [Schedule.keys, ← hid, howner]) (by simp [Schedule.keys])
    exact hsame ▸ ⟨howns, hnew⟩
  by_cases howns : Owns db.locks s
  · rw [← h.allOrNone s hrow hactive howns lock]
    constructor
    · rintro ⟨hlock, hid⟩
      exact ⟨(horigin lock hlock hid).resolve_right fun hnew => hnew.1 howns, hid⟩
    · rintro ⟨hlock, hid⟩
      exact ⟨main_grows hlock, hid⟩
  · constructor
    · rintro ⟨hlock, hid⟩
      exact ((horigin lock hlock hid).resolve_left fun hold => howns ⟨lock, hold, hid⟩).2
    · intro hnew
      refine ⟨?_, (mem_buildScheduleResourceLockRows.mp hnew).2.1⟩
      have hsettled := (main_settles hfinds.pairwise_id s hs).resolve_left howns lock hnew
      rw [free_iff] at hsettled
      push Not at hsettled
      obtain ⟨other, hother, hkeys⟩ := hsettled
      rcases main_origin hother with hold | ⟨s', hs', -, hrow'⟩
      · exact absurd ⟨other, hold, h.unheld s hrow hactive lock hnew other hold hkeys⟩ howns
      · obtain ⟨hmem', hactive'⟩ := hfinds.mem_iff.mp hs'
        by_cases hsame : s' = s
        · subst hsame
          rwa [← lockRow_eq_of_keys hrow' hnew hkeys]
        · exact absurd ⟨other, hrow', lock, hnew, hkeys⟩
            (h.disjoint s' hmem' s hrow hactive' hactive hsame)

/-- **When the backfill does its work.** On completable tables, and on no others, every
schedule ends with exactly its rows or is reported, no two overlapping ones are both counted
as locked, and a second run changes nothing. -/
theorem backfilled_iff {db : ScheduleDb} {schedules : List Schedule} (hfinds : Finds db schedules) :
    Backfilled db schedules ↔ Backfillable db := by
  constructor
  · intro h
    have hexact : ∀ s ∈ schedules, ∀ lock,
        lock ∈ (main db.locks schedules).1.rows ∧ lock.scheduleId = s.id ↔ lock ∈ s.lockRows :=
      fun s hs => (h.locked s hs).resolve_right (main_reports_none _ _ _)
    refine ⟨?_, ?_, ?_⟩
    · intro s hrow hactive howns lock
      have hs := hfinds.mem_iff.mpr ⟨hrow, hactive⟩
      rw [← hexact s hs lock]
      constructor
      · rintro ⟨hlock, hid⟩
        exact ⟨main_grows hlock, hid⟩
      · rintro ⟨hlock, hid⟩
        refine ⟨(main_origin hlock).resolve_right ?_, hid⟩
        rintro ⟨s', hs', hunowned, hnew⟩
        have howner := (mem_buildScheduleResourceLockRows.mp hnew).2.1
        obtain ⟨other, hother, hsame⟩ := howns
        exact hunowned ⟨other, hother, hsame.trans (hid.symm.trans howner)⟩
    · intro s hrow hactive row hmem lock hlock hkeys
      have hs := hfinds.mem_iff.mpr ⟨hrow, hactive⟩
      obtain ⟨hrowAfter, hid⟩ := (hexact s hs row).mpr hmem
      rw [lock_eq_of_keys (main_grows hlock) hrowAfter hkeys]
      exact hid
    · rintro a ha b hb hactive hactive' hne ⟨row, hrow, row', hrow', hkeys⟩
      obtain ⟨hafter, hid⟩ := (hexact a (hfinds.mem_iff.mpr ⟨ha, hactive⟩) row).mpr hrow
      obtain ⟨hafter', hid'⟩ := (hexact b (hfinds.mem_iff.mpr ⟨hb, hactive'⟩) row').mpr hrow'
      have hsame := lock_eq_of_keys hafter hafter' hkeys
      refine hne (db.schedules.unique.eq_of_mem (k := a.id) ha hb (by simp [Schedule.keys]) ?_)
      simp [Schedule.keys, ← hid, ← hid', hsame]
  · intro h
    refine ⟨fun s hs => Or.inl (h.locked hfinds hs), ?_, fun again hagain =>
      main_stable hfinds hagain⟩
    rintro a ha b hb hne hshares hoverlaps -
    obtain ⟨hrow, hactive⟩ := hfinds.mem_iff.mp ha
    obtain ⟨hrow', hactive'⟩ := hfinds.mem_iff.mp hb
    exact h.disjoint a hrow b hrow' hactive hactive' hne (sharesSlot_of_overlaps hshares hoverlaps)

/-! ### Old tables -/

/-- A morning class from before the locks. -/
def morningClass : Schedule :=
  ⟨⟨"s1", "k1", "v1", "c1", 0, 900000, 15, .scheduled⟩, some "t1"⟩

/-- Another class of the same coach, at the given time. -/
def otherClass (startsAt endsAt : Int) : Schedule :=
  ⟨⟨"s2", "k2", "v2", "c1", startsAt, endsAt, 15, .scheduled⟩, some "t1"⟩

theorem sharesSlot_iff_bool {a b : Schedule} :
    SharesSlot a b ↔
      (a.lockRows.any fun row => b.lockRows.any fun row' => row.keys == row'.keys) = true := by
  simp [SharesSlot]

/-- Two classes of one coach that follow each other get their locks, whichever comes first. -/
theorem backfilled_iff_following :
    ∃ db : ScheduleDb, db.locks.rows = [] ∧ Finds db [otherClass 900000 1800000, morningClass] ∧
      Backfilled db [otherClass 900000 1800000, morningClass] := by
  have hfinds : Finds ⟨⟨[morningClass, otherClass 900000 1800000], by decide⟩, ∅⟩
      [otherClass 900000 1800000, morningClass] := by
    exact List.Perm.swap _ _ _
  refine ⟨_, rfl, hfinds, (backfilled_iff hfinds).mpr ⟨?_, ?_, ?_⟩⟩
  · rintro s - - ⟨lock, hlock, -⟩
    cases hlock
  · intro s _ _ row _ lock hlock
    cases hlock
  · intro a ha b hb _ _ hne
    rw [sharesSlot_iff_bool]
    rcases List.mem_pair.mp ha with rfl | rfl <;> rcases List.mem_pair.mp hb with rfl | rfl
    · exact absurd rfl hne
    · decide +kernel
    · decide +kernel
    · exact absurd rfl hne

/-- Two classes of one coach at one time: the second gets the rows of its venue only, and
both are counted as locked. -/
theorem overlap_counted :
    ∃ db : ScheduleDb, Finds db [morningClass, otherClass 0 900000] ∧
      morningClass.SharesResource (otherClass 0 900000) ∧
      morningClass.Overlaps (otherClass 0 900000) ∧
      (main db.locks [morningClass, otherClass 0 900000]).1.rows =
        [⟨.coach, "c1", "0", "s1"⟩, ⟨.venue, "v1", "0", "s1"⟩, ⟨.venue, "v2", "0", "s2"⟩] ∧
      (main db.locks [morningClass, otherClass 0 900000]).2 = [("s1", .inserted), ("s2", .inserted)] ∧
      ¬ Backfilled db [morningClass, otherClass 0 900000] := by
  have houtcomes : (main ∅ [morningClass, otherClass 0 900000]).2 =
      [("s1", .inserted), ("s2", .inserted)] := by
    decide +kernel
  refine ⟨⟨⟨[morningClass, otherClass 0 900000], by decide⟩, ∅⟩, List.Perm.refl _, Or.inl rfl,
    ⟨0, by decide⟩, by decide +kernel, houtcomes, ?_⟩
  intro h
  have hmorning : Counted (main ∅ [morningClass, otherClass 0 900000]).2 morningClass := by
    rw [houtcomes]
    exact Or.inl List.mem_cons_self
  have hother : Counted (main ∅ [morningClass, otherClass 0 900000]).2 (otherClass 0 900000) := by
    rw [houtcomes]
    exact Or.inl (List.mem_cons_of_mem _ List.mem_cons_self)
  exact h.exclusive _ List.mem_cons_self _ (List.mem_cons_of_mem _ List.mem_cons_self) (by decide)
    (Or.inl rfl) ⟨0, by decide⟩ ⟨hmorning, hother⟩

end Backfill

end MibServer.Courses
