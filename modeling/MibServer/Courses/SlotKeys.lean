import MibServer.Courses.ResourceLock
import MibServer.Lib.Grid
import Std.Data.String.ToInt

/-!
The keys of a booking window, exactly: the starts of the slots it meets, each once and in
order. So a table that holds the rows of one booking refuses the rows of every booking of
the same coach or venue whose window meets its window, and of no booking with other keys.
-/

namespace MibServer.Courses

open MibServer.Lib

/-! ### The slot starts behind the keys -/

/-- The numbers the loop of `buildTimeSlotKeys` turns into keys. -/
def slotStartsFrom (slotStartMs endMs : Int) : List Int :=
  if slotStartMs < endMs then
    slotStartMs :: slotStartsFrom (slotStartMs + slotMs) endMs
  else []
termination_by (endMs - slotStartMs).toNat
decreasing_by have := slotMs_pos; omega

theorem slotKeysFrom_eq_map (slotStartMs endMs : Int) :
    slotKeysFrom slotStartMs endMs = (slotStartsFrom slotStartMs endMs).map toString := by
  induction slotStartMs using slotStartsFrom.induct endMs with
  | case1 slotStartMs hlt ih =>
      rw [slotKeysFrom, slotStartsFrom, if_pos hlt, if_pos hlt, ih, List.map_cons]
  | case2 slotStartMs hge =>
      rw [slotKeysFrom, slotStartsFrom, if_neg hge, if_neg hge, List.map_nil]

theorem mem_slotStartsFrom {slotStartMs endMs k : Int} :
    k ∈ slotStartsFrom slotStartMs endMs ↔
      slotMs ∣ k - slotStartMs ∧ slotStartMs ≤ k ∧ k < endMs := by
  induction slotStartMs using slotStartsFrom.induct endMs with
  | case1 slotStartMs hlt ih =>
      have hpos := slotMs_pos
      rw [slotStartsFrom, if_pos hlt, List.mem_cons, ih]
      have hshift : slotMs ∣ k - (slotStartMs + slotMs) ↔ slotMs ∣ k - slotStartMs := by
        rw [← Int.sub_sub, dvd_sub_self_right]
      rw [hshift]
      constructor
      · rintro (rfl | ⟨hdvd, hle, hend⟩)
        · exact ⟨by simp, le_refl k, hlt⟩
        · exact ⟨hdvd, by omega, hend⟩
      · rintro ⟨hdvd, hle, hend⟩
        by_cases heq : k = slotStartMs
        · exact Or.inl heq
        · have hgap := Int.le_of_dvd (by omega) hdvd
          exact Or.inr ⟨hdvd, by omega, hend⟩
  | case2 slotStartMs hge =>
      rw [slotStartsFrom, if_neg hge]
      constructor
      · intro h
        cases h
      · rintro ⟨-, hle, hend⟩
        omega

theorem slotStartsFrom_sorted (slotStartMs endMs : Int) :
    (slotStartsFrom slotStartMs endMs).Pairwise (· < ·) := by
  induction slotStartMs using slotStartsFrom.induct endMs with
  | case1 slotStartMs hlt ih =>
      rw [slotStartsFrom, if_pos hlt, List.pairwise_cons]
      constructor
      · intro k hk
        have hpos := slotMs_pos
        have hle := (mem_slotStartsFrom.mp hk).2.1
        omega
      · exact ih
  | case2 slotStartMs hge =>
      rw [slotStartsFrom, if_neg hge]
      exact List.Pairwise.nil

/-- The starts of the slots that the window meets, in order. -/
def slotStarts (startsAt endsAt : Int) : List Int :=
  slotStartsFrom (startsAt / slotMs * slotMs) endsAt

theorem buildTimeSlotKeys_eq_map (startsAt endsAt : Int) :
    buildTimeSlotKeys startsAt endsAt = (slotStarts startsAt endsAt).map toString :=
  slotKeysFrom_eq_map _ _

theorem mem_slotStarts {startsAt endsAt k : Int} (hwindow : startsAt < endsAt) :
    k ∈ slotStarts startsAt endsAt ↔ IsSlot slotMs startsAt endsAt k := by
  have hpos := slotMs_pos
  have hboundary : slotMs ∣ startsAt / slotMs * slotMs := dvd_mul_left _ _
  have hfirst := (isSlot_iff hpos hwindow).mp (isSlot_of_instant hpos (le_refl startsAt) hwindow)
  have hle : startsAt / slotMs * slotMs ≤ startsAt := Int.ediv_mul_le startsAt hpos.ne'
  rw [slotStarts, mem_slotStartsFrom, isSlot_iff hpos hwindow, dvd_sub_left hboundary]
  constructor
  · rintro ⟨hdvd, hstart, hend⟩
    exact ⟨hdvd, by omega, hend⟩
  · rintro ⟨hdvd, hstart, hend⟩
    refine ⟨hdvd, ?_, hend⟩
    -- A boundary before the first slot would end its slot before the window.
    by_contra hbefore
    have hstep := add_le_of_dvd hdvd hboundary (by omega)
    omega

/-! ### The keys -/

theorem slotKey_injective : Function.Injective (toString : Int → String) :=
  fun _ _ h => Int.repr_injective h

theorem buildTimeSlotKeys_nodup (startsAt endsAt : Int) : (buildTimeSlotKeys startsAt endsAt).Nodup := by
  rw [buildTimeSlotKeys_eq_map]
  refine List.Nodup.map slotKey_injective ?_
  exact (slotStartsFrom_sorted _ _).imp fun h => h.ne

theorem mem_buildTimeSlotKeys {startsAt endsAt : Int} (hwindow : startsAt < endsAt) {key : String} :
    key ∈ buildTimeSlotKeys startsAt endsAt ↔
      ∃ k, IsSlot slotMs startsAt endsAt k ∧ key = toString k := by
  rw [buildTimeSlotKeys_eq_map, List.mem_map]
  constructor
  · rintro ⟨k, hk, rfl⟩
    exact ⟨k, (mem_slotStarts hwindow).mp hk, rfl⟩
  · rintro ⟨k, hk, rfl⟩
    exact ⟨k, (mem_slotStarts hwindow).mpr hk, rfl⟩

/-- The key lists of two windows are disjoint exactly when a slot boundary lies between the
windows. -/
theorem buildTimeSlotKeys_disjoint_iff {startsAt endsAt startsAt' endsAt' : Int}
    (hwindow : startsAt < endsAt) (hwindow' : startsAt' < endsAt') :
    (buildTimeSlotKeys startsAt endsAt).Disjoint (buildTimeSlotKeys startsAt' endsAt') ↔
      Parted slotMs startsAt endsAt startsAt' endsAt' := by
  rw [← no_common_slot_iff slotMs_pos hwindow hwindow']
  constructor
  · intro hdisjoint k hk hk'
    exact hdisjoint ((mem_buildTimeSlotKeys hwindow).mpr ⟨k, hk, rfl⟩)
      ((mem_buildTimeSlotKeys hwindow').mpr ⟨k, hk', rfl⟩)
  · intro hnone key hkey hkey'
    obtain ⟨k, hk, rfl⟩ := (mem_buildTimeSlotKeys hwindow).mp hkey
    obtain ⟨k', hk', heq⟩ := (mem_buildTimeSlotKeys hwindow').mp hkey'
    obtain rfl := slotKey_injective heq
    exact hnone k hk hk'

/-! ### The rows -/

theorem buildScheduleResourceLockRows_ne_nil {scheduleId coachId venueId : String}
    {startsAt endsAt : Int} (hwindow : startsAt < endsAt) :
    buildScheduleResourceLockRows scheduleId coachId venueId startsAt endsAt ≠ [] := by
  have hmem := slot_mem_buildTimeSlotKeys (le_refl startsAt) hwindow
  exact List.ne_nil_of_mem (mem_buildScheduleResourceLockRows.mpr
    ⟨hmem, rfl, Or.inl ⟨rfl, rfl⟩⟩ :
      (⟨.coach, coachId, _, scheduleId⟩ : ScheduleResourceLock) ∈ _)

/-- The rows of one booking occupy different entries of the unique index. -/
theorem buildScheduleResourceLockRows_unique (scheduleId coachId venueId : String)
    (startsAt endsAt : Int) :
    UniqueOn ScheduleResourceLock.keys
      (buildScheduleResourceLockRows scheduleId coachId venueId startsAt endsAt) := by
  have hkeys := buildTimeSlotKeys_nodup startsAt endsAt
  unfold UniqueOn buildScheduleResourceLockRows
  rw [List.flatMap_assoc, List.nodup_flatMap]
  constructor
  · intro key _
    simp [ScheduleResourceLock.keys]
  · refine hkeys.imp fun hne => ?_
    simp [Function.onFun, ScheduleResourceLock.keys, Ne.symm hne]

/-- A row of the new booking finds its entry taken by a row of the table. -/
def Clashes (locks : LockTable) (rows : List ScheduleResourceLock) : Prop :=
  ∃ row ∈ rows, ∃ lock ∈ locks.rows, lock.resourceType = row.resourceType ∧
    lock.resourceId = row.resourceId ∧ lock.timeSlotKey = row.timeSlotKey

theorem uniqueOn_append_iff {rows rows' : List ScheduleResourceLock}
    (h : UniqueOn ScheduleResourceLock.keys rows) (h' : UniqueOn ScheduleResourceLock.keys rows') :
    UniqueOn ScheduleResourceLock.keys (rows ++ rows') ↔
      ¬ ∃ row ∈ rows', ∃ lock ∈ rows, lock.resourceType = row.resourceType ∧
        lock.resourceId = row.resourceId ∧ lock.timeSlotKey = row.timeSlotKey := by
  unfold UniqueOn at *
  rw [List.flatMap_append, List.nodup_append']
  constructor
  · rintro ⟨-, -, hdisjoint⟩ ⟨row, hrow, lock, hlock, htype, hid, hkey⟩
    refine hdisjoint (List.mem_flatMap.mpr ⟨lock, hlock, List.mem_singleton_self _⟩)
      (List.mem_flatMap.mpr ⟨row, hrow, ?_⟩)
    simp [ScheduleResourceLock.keys, htype, hid, hkey]
  · intro hnone
    refine ⟨h, h', ?_⟩
    intro entry hentry hentry'
    obtain ⟨lock, hlock, hkey⟩ := List.mem_flatMap.mp hentry
    obtain ⟨row, hrow, hkey'⟩ := List.mem_flatMap.mp hentry'
    obtain rfl := List.mem_singleton.mp hkey
    have hsame := List.mem_singleton.mp hkey'
    simp only [Prod.mk.injEq] at hsame
    exact hnone ⟨row, hrow, lock, hlock, hsame⟩

/-- The insert of a booking fails exactly when one of its entries is taken, and then with the
conflict error. -/
theorem insertScheduleResourceLocks_conflict_iff {locks : LockTable}
    {scheduleId coachId venueId : String} {startsAt endsAt : Int} (hwindow : startsAt < endsAt) :
    insertScheduleResourceLocks locks scheduleId coachId venueId startsAt endsAt =
        .error .scheduleResourceConflict ↔
      Clashes locks (buildScheduleResourceLockRows scheduleId coachId venueId startsAt endsAt) := by
  have hne : (buildScheduleResourceLockRows scheduleId coachId venueId startsAt endsAt).length ≠ 0 :=
    fun h => buildScheduleResourceLockRows_ne_nil hwindow (List.length_eq_zero_iff.mp h)
  have happend := uniqueOn_append_iff locks.unique
    (buildScheduleResourceLockRows_unique scheduleId coachId venueId startsAt endsAt)
  unfold insertScheduleResourceLocks Indexed.insertMany? Indexed.replace? Clashes
  simp only [if_neg hne]
  by_cases hunique : UniqueOn ScheduleResourceLock.keys
      (locks.rows ++ buildScheduleResourceLockRows scheduleId coachId venueId startsAt endsAt)
  · rw [dif_pos hunique]
    refine iff_of_false (fun h => ?_) (happend.mp hunique)
    cases h
  · rw [dif_neg hunique]
    exact iff_of_true rfl (Classical.not_not.mp (mt happend.mpr hunique))

/-! ### Windows that meet -/

/-- A table that holds the rows of a booking has a clash for every booking of the same coach
or venue whose window meets its window. -/
theorem clashes_of_meet {locks : LockTable} {scheduleId coachId venueId scheduleId' coachId' venueId' : String}
    {startsAt endsAt startsAt' endsAt' : Int}
    (hheld : ∀ row ∈ buildScheduleResourceLockRows scheduleId coachId venueId startsAt endsAt,
      row ∈ locks.rows)
    (hresource : coachId = coachId' ∨ venueId = venueId')
    (hmeet : Meet startsAt endsAt startsAt' endsAt') :
    Clashes locks
      (buildScheduleResourceLockRows scheduleId' coachId' venueId' startsAt' endsAt') := by
  obtain ⟨t, ⟨hstart, hend⟩, hstart', hend'⟩ := hmeet
  have hkey := slot_mem_buildTimeSlotKeys hstart hend
  have hkey' := slot_mem_buildTimeSlotKeys hstart' hend'
  rcases hresource with rfl | rfl
  · exact ⟨⟨.coach, coachId, _, scheduleId'⟩,
      mem_buildScheduleResourceLockRows.mpr ⟨hkey', rfl, Or.inl ⟨rfl, rfl⟩⟩,
      ⟨.coach, coachId, _, scheduleId⟩,
      hheld _ (mem_buildScheduleResourceLockRows.mpr ⟨hkey, rfl, Or.inl ⟨rfl, rfl⟩⟩), rfl, rfl, rfl⟩
  · exact ⟨⟨.venue, venueId, _, scheduleId'⟩,
      mem_buildScheduleResourceLockRows.mpr ⟨hkey', rfl, Or.inr ⟨rfl, rfl⟩⟩,
      ⟨.venue, venueId, _, scheduleId⟩,
      hheld _ (mem_buildScheduleResourceLockRows.mpr ⟨hkey, rfl, Or.inr ⟨rfl, rfl⟩⟩), rfl, rfl, rfl⟩

/-- **The keys of a window are the starts of the slots it meets**, in order and each once;
so two windows that meet share a key, and a table that holds the rows of the one refuses the
rows of the other for the same coach or venue. -/
theorem buildTimeSlotKeys_exact {startsAt endsAt : Int} (hwindow : startsAt < endsAt) :
    (∃ slots : List Int, buildTimeSlotKeys startsAt endsAt = slots.map toString ∧
        slots.Pairwise (· < ·) ∧
        ∀ k, k ∈ slots ↔ slotMs ∣ k ∧ Meet k (k + slotMs) startsAt endsAt) ∧
      (buildTimeSlotKeys startsAt endsAt).Nodup ∧
      ∀ startsAt' endsAt', startsAt' < endsAt' → Meet startsAt endsAt startsAt' endsAt' →
        (∃ key ∈ buildTimeSlotKeys startsAt endsAt, key ∈ buildTimeSlotKeys startsAt' endsAt') ∧
        ∀ (locks : LockTable) (scheduleId coachId venueId scheduleId' coachId' venueId' : String),
          (∀ row ∈ buildScheduleResourceLockRows scheduleId coachId venueId startsAt endsAt,
            row ∈ locks.rows) →
          (coachId = coachId' ∨ venueId = venueId') →
          insertScheduleResourceLocks locks scheduleId' coachId' venueId' startsAt' endsAt' =
            .error .scheduleResourceConflict := by
  refine ⟨⟨slotStarts startsAt endsAt, buildTimeSlotKeys_eq_map _ _, slotStartsFrom_sorted _ _,
    fun k => mem_slotStarts hwindow⟩, buildTimeSlotKeys_nodup _ _, ?_⟩
  intro startsAt' endsAt' hwindow' hmeet
  constructor
  · obtain ⟨t, ⟨hstart, hend⟩, hstart', hend'⟩ := hmeet
    exact ⟨_, slot_mem_buildTimeSlotKeys hstart hend, slot_mem_buildTimeSlotKeys hstart' hend'⟩
  · intro locks scheduleId coachId venueId scheduleId' coachId' venueId' hheld hresource
    exact (insertScheduleResourceLocks_conflict_iff hwindow').mpr
      (clashes_of_meet hheld hresource hmeet)

/-- A coach booked across the epoch is not booked again from the last of its minutes on. -/
theorem buildTimeSlotKeys_exact_epoch :
    ∃ locks, (insertScheduleResourceLocks ∅ "s1" "c1" "v1" (-600000) 600000).toOption = some locks ∧
      locks.rows.map ScheduleResourceLock.timeSlotKey = ["-900000", "-900000", "0", "0"] ∧
      insertScheduleResourceLocks locks "s2" "c1" "v2" 540000 1200000 =
        .error .scheduleResourceConflict := by
  have hrows : ((insertScheduleResourceLocks ∅ "s1" "c1" "v1" (-600000) 600000).toOption.map
      fun locks => locks.rows) = some
        (buildScheduleResourceLockRows "s1" "c1" "v1" (-600000) 600000) := by
    decide +kernel
  obtain ⟨locks, hinsert, hlocks⟩ := Option.map_eq_some_iff.mp hrows
  refine ⟨locks, hinsert, ?_, ?_⟩
  · rw [hlocks]
    decide +kernel
  · exact ((buildTimeSlotKeys_exact (by decide)).2.2 540000 1200000 (by decide)
      ⟨540000, by simp [Set.mem_Ico]⟩).2 locks "s1" "c1" "v1" "s2" "c1" "v2"
      (fun row hrow => hlocks ▸ hrow) (Or.inl rfl)

end MibServer.Courses
