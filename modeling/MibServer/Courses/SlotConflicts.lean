import MibServer.Courses.SlotKeys
import MibServer.Courses.LockUpkeep

/-!
When a booking is refused. Conflicts are found on the slot grid: a call reports a coach or
a venue as already booked only if another booking of it has a slot in common with the new
window, that is, if no slot boundary lies between the two. Windows that are apart within
one slot of 15 minutes are refused as well (`back_to_back_refused`).

`Booked` is what makes a refusal point to a booking: the locks of a schedule are always
the rows of one window, the one its last create or update asked for.
-/

namespace MibServer.Courses

open MibServer.Lib

/-- The exception for a booking that finds a slot taken. -/
def alreadyBooked : HttpException :=
  .badRequest "coach or venue is already booked for this time slot"

/-- What a call asks the lock table for. -/
structure Booking where
  scheduleId : String
  coachId : String
  venueId : String
  startsAt : Int
  endsAt : Int

namespace Booking

def lockRows (b : Booking) : List ScheduleResourceLock :=
  buildScheduleResourceLockRows b.scheduleId b.coachId b.venueId b.startsAt b.endsAt

def SharesResource (a b : Booking) : Prop :=
  a.coachId = b.coachId ∨ a.venueId = b.venueId

/-- A slot boundary lies between the windows. -/
def Apart (a b : Booking) : Prop :=
  Parted slotMs a.startsAt a.endsAt b.startsAt b.endsAt

/-- The locks of the schedule are those of this booking. -/
def Holds (b : Booking) (locks : LockTable) : Prop :=
  b.startsAt < b.endsAt ∧
    ∀ lock, lock ∈ locks.rows ∧ lock.scheduleId = b.scheduleId ↔ lock ∈ b.lockRows

theorem lockRows_owner {b : Booking} {lock : ScheduleResourceLock} (h : lock ∈ b.lockRows) :
    lock.scheduleId = b.scheduleId :=
  (mem_buildScheduleResourceLockRows.mp h).2.1

theorem Holds.exists_lock {b : Booking} {locks : LockTable} (h : b.Holds locks) :
    ∃ lock ∈ locks.rows, lock.scheduleId = b.scheduleId := by
  have hne : b.lockRows ≠ [] := buildScheduleResourceLockRows_ne_nil h.1
  obtain ⟨lock, hlock⟩ := List.exists_mem_of_ne_nil _ hne
  obtain ⟨hmem, hid⟩ := (h.2 lock).mpr hlock
  exact ⟨lock, hmem, hid⟩

/-- Two bookings with rows for one entry share a resource and a slot. -/
theorem common_slot {a b : Booking} (ha : a.startsAt < a.endsAt) (hb : b.startsAt < b.endsAt)
    {lock row : ScheduleResourceLock} (hlock : lock ∈ a.lockRows) (hrow : row ∈ b.lockRows)
    (htype : lock.resourceType = row.resourceType) (hresource : lock.resourceId = row.resourceId)
    (hslot : lock.timeSlotKey = row.timeSlotKey) : a.SharesResource b ∧ ¬ a.Apart b := by
  obtain ⟨hkey, -, hcoach⟩ := mem_buildScheduleResourceLockRows.mp hlock
  obtain ⟨hkey', -, hcoach'⟩ := mem_buildScheduleResourceLockRows.mp hrow
  constructor
  · rw [htype, hresource] at hcoach
    rcases hcoach with ⟨hkind, hid⟩ | ⟨hkind, hid⟩ <;>
      rcases hcoach' with ⟨hkind', hid'⟩ | ⟨hkind', hid'⟩
    · exact Or.inl (hid.symm.trans hid')
    · rw [hkind] at hkind'
      cases hkind'
    · rw [hkind] at hkind'
      cases hkind'
    · exact Or.inr (hid.symm.trans hid')
  · intro hapart
    have hdisjoint := (buildTimeSlotKeys_disjoint_iff ha hb).mpr hapart
    exact hdisjoint hkey (hslot ▸ hkey')

end Booking

/-! ### Refusals point to bookings -/

/-- Every lock belongs to a booking, of the kind `P` says. -/
def Booked (P : Booking → Prop) (locks : LockTable) : Prop :=
  ∀ lock ∈ locks.rows, ∃ b : Booking, P b ∧ b.Holds locks ∧ lock.scheduleId = b.scheduleId

theorem applyResourceLocks_alreadyBooked {locks : LockTable} {new : Booking}
    (hwindow : new.startsAt < new.endsAt)
    (h : applyResourceLocks locks new.scheduleId new.coachId new.venueId new.startsAt new.endsAt =
      .error alreadyBooked) : Clashes locks new.lockRows := by
  refine (insertScheduleResourceLocks_conflict_iff hwindow).mp ?_
  unfold applyResourceLocks alreadyBooked at h
  split at h
  · cases h
  · assumption
  · simp at h

theorem Booked.refusal {P : Booking → Prop} {locks : LockTable} (hbooked : Booked P locks)
    (new : Booking) (hwindow : new.startsAt < new.endsAt)
    (h : applyResourceLocks locks new.scheduleId new.coachId new.venueId new.startsAt new.endsAt =
      .error alreadyBooked) :
    ∃ b : Booking, P b ∧ b.Holds locks ∧ b.SharesResource new ∧ ¬ b.Apart new := by
  obtain ⟨row, hrow, lock, hlock, hentry⟩ := applyResourceLocks_alreadyBooked hwindow h
  obtain ⟨b, hP, hholds, hid⟩ := hbooked lock hlock
  have hmem := (hholds.2 lock).mp ⟨hlock, hid⟩
  exact ⟨b, hP, hholds, b.common_slot hholds.1 hwindow hmem hrow hentry.1 hentry.2.1 hentry.2.2⟩

/-! ### What a refused call has passed -/

theorem bind_error {ε α β : Type} {x : Except ε α} {f : α → Except ε β} {e : ε}
    (h : (x >>= f) = .error e) : x = .error e ∨ ∃ a, x = .ok a ∧ f a = .error e := by
  cases x with
  | error e' =>
      cases h
      exact Or.inl rfl
  | ok a => exact Or.inr ⟨a, rfl, h⟩

theorem orThrow_ne_alreadyBooked {α : Type} (x : Option α) : orThrow x ≠ .error alreadyBooked := by
  cases x with
  | none => simp [orThrow, alreadyBooked]
  | some a => simp [orThrow]

theorem checkWindow_ne_alreadyBooked (startsAt endsAt : JsDate) :
    checkWindow startsAt endsAt ≠ .error alreadyBooked := by
  intro h
  unfold checkWindow at h
  split at h
  · split at h
    · cases h
    · simp [alreadyBooked] at h
  · simp [alreadyBooked] at h

theorem require_ne_alreadyBooked (condition : Bool) :
    require condition .internal ≠ .error alreadyBooked := by
  cases condition <;> simp [require, alreadyBooked]

theorem updateScheduleBegin_ne_alreadyBooked (db : ScheduleDb) (id : String) (dto : UpdateScheduleDto) :
    updateScheduleBegin db id dto ≠ .error alreadyBooked := by
  intro h
  rcases bind_error h with hcurrent | ⟨current, -, h⟩
  · unfold getSchedule at hcurrent
    split at hcurrent
    · cases hcurrent
    · simp [alreadyBooked] at hcurrent
  rcases bind_error h with hwindow | ⟨window, -, h⟩
  · exact checkWindow_ne_alreadyBooked _ _ hwindow
  · cases h

/-- A refused creation has asked for the locks of its window, under an id that no schedule
has. -/
theorem createSchedule_alreadyBooked {cat : Catalogue} {db : ScheduleDb} {id : String}
    {dto : CreateScheduleDto} (h : createSchedule cat db id dto = .error alreadyBooked) :
    (∀ s ∈ db.schedules.rows, s.id ≠ id) ∧
      ∃ startsAt endsAt, dto.startsAt = some startsAt ∧ dto.endsAt = some endsAt ∧
        startsAt < endsAt ∧
        applyResourceLocks db.locks id dto.coachId dto.venueId startsAt endsAt =
          .error alreadyBooked := by
  rcases bind_error h with hwindow | ⟨⟨startsAt, endsAt⟩, hwindow, h⟩
  · exact absurd hwindow (checkWindow_ne_alreadyBooked _ _)
  rcases bind_error h with htenant | ⟨tenantId, -, h⟩
  · exact absurd htenant (orThrow_ne_alreadyBooked _)
  rcases bind_error h with hadmits | ⟨-, -, h⟩
  · exact absurd hadmits (require_ne_alreadyBooked _)
  rcases bind_error h with hinsert | ⟨schedules, hinsert, h⟩
  · exact absurd hinsert (orThrow_ne_alreadyBooked _)
  obtain ⟨hstart, hend, hlt⟩ := checkWindow_ok hwindow
  rcases bind_error h with hlocks | ⟨locks, -, h⟩
  · exact ⟨insert_fresh (orThrow_ok hinsert), startsAt, endsAt, hstart, hend, hlt, hlocks⟩
  · cases h

/-- A refused update has asked for the locks of the window it checked. -/
theorem updateScheduleTx_alreadyBooked {cat : Catalogue} {db : ScheduleDb} {call : UpdateCall}
    (h : updateScheduleTx cat db call = .error alreadyBooked) :
    applyResourceLocks (releaseScheduleResourceLocks db.locks call.id) call.id call.coachId
      call.venueId call.startsAt call.endsAt = .error alreadyBooked := by
  rcases bind_error h with hrow | ⟨row, -, h⟩
  · exact absurd hrow (orThrow_ne_alreadyBooked _)
  rcases bind_error h with hadmits | ⟨-, -, h⟩
  · exact absurd hadmits (require_ne_alreadyBooked _)
  rcases bind_error h with hupdate | ⟨schedules, -, h⟩
  · exact absurd hupdate (orThrow_ne_alreadyBooked _)
  rcases bind_error h with hlocks | ⟨locks, -, h⟩
  · split at hlocks
    · exact hlocks
    · cases hlocks
  · cases h

/-! ### Every lock belongs to a booking -/

/-- Replacing the locks of one schedule by those of a booking, or by none. -/
theorem Booked.replace {P P' : Booking → Prop} {locks locks' : LockTable} (hbooked : Booked P locks)
    (scheduleId : String) (rows : List ScheduleResourceLock)
    (hlocks : ∀ lock, lock ∈ locks'.rows ↔
      lock ∈ locks.rows ∧ lock.scheduleId ≠ scheduleId ∨ lock ∈ rows)
    (hrows : rows = [] ∨ ∃ b : Booking, P' b ∧ b.scheduleId = scheduleId ∧
      b.startsAt < b.endsAt ∧ rows = b.lockRows)
    (hkept : ∀ b, P b → b.scheduleId ≠ scheduleId → P' b) : Booked P' locks' := by
  have howner : ∀ lock ∈ rows, lock.scheduleId = scheduleId := by
    intro lock hlock
    rcases hrows with rfl | ⟨b, -, rfl, -, rfl⟩
    · cases hlock
    · exact Booking.lockRows_owner hlock
  intro lock hlock
  rcases (hlocks lock).mp hlock with ⟨hold, hne⟩ | hnew
  · obtain ⟨b, hP, ⟨hwindow, hholds⟩, hid⟩ := hbooked lock hold
    refine ⟨b, hkept b hP (hid ▸ hne), ⟨hwindow, fun other => ?_⟩, hid⟩
    rw [hlocks other, ← hholds other]
    constructor
    · rintro ⟨⟨hother, -⟩ | hother, hsame⟩
      · exact ⟨hother, hsame⟩
      · exact absurd (hid.trans (hsame.symm.trans (howner other hother))) hne
    · rintro ⟨hother, hsame⟩
      exact ⟨Or.inl ⟨hother, fun heq => hne (hid.trans (hsame.symm.trans heq))⟩, hsame⟩
  · rcases hrows with rfl | ⟨b, hP, rfl, hwindow, rfl⟩
    · cases hnew
    · refine ⟨b, hP, ⟨hwindow, fun other => ?_⟩, howner lock hnew⟩
      rw [hlocks other]
      constructor
      · rintro ⟨⟨-, hne⟩ | hother, hsame⟩
        · exact absurd hsame hne
        · exact hother
      · exact fun hother => ⟨Or.inr hother, howner other hother⟩

theorem booked_empty (P : Booking → Prop) : Booked P ∅ := by
  intro lock hlock
  cases hlock

/-- The foreign key of the lock table, and the bookings behind the locks. -/
def BookedTables (db : ScheduleDb) : Prop :=
  (∀ lock ∈ db.locks.rows, ∃ schedule ∈ db.schedules.rows, schedule.id = lock.scheduleId) ∧
    Booked (fun _ => True) db.locks

theorem createSchedule_bookedTables {cat : Catalogue} {db db' : ScheduleDb} {id : String}
    {dto : CreateScheduleDto} {schedule : Schedule} (h : BookedTables db)
    (hcreate : createSchedule cat db id dto = .ok (db', schedule)) : BookedTables db' := by
  obtain ⟨hschedules, hlocks⟩ := createSchedule_ok hcreate
  obtain ⟨⟨startsAt, endsAt⟩, hwindow, hcreate⟩ := bind_ok hcreate
  obtain ⟨tenantId, -, hcreate⟩ := bind_ok hcreate
  obtain ⟨-, -, hcreate⟩ := bind_ok hcreate
  obtain ⟨schedules, hinsert, hcreate⟩ := bind_ok hcreate
  obtain ⟨locks, -, hcreate⟩ := bind_ok hcreate
  cases hcreate
  obtain ⟨howned, hbooked⟩ := h
  have hfresh := insert_fresh (orThrow_ok hinsert)
  constructor
  · intro lock hlock
    rcases (hlocks lock).mp hlock with hold | hnew
    · obtain ⟨s, hs, hid⟩ := howned lock hold
      exact ⟨s, (hschedules s).mpr (Or.inl hs), hid⟩
    · exact ⟨_, (hschedules _).mpr (Or.inr rfl), (lockRows_owner hnew).symm⟩
  · refine hbooked.replace id _ (fun lock => (hlocks lock).trans ?_)
      (Or.inr ⟨⟨id, dto.coachId, dto.venueId, startsAt, endsAt⟩, trivial, rfl,
        (checkWindow_ok hwindow).2.2, rfl⟩) (fun _ _ _ => trivial)
    refine or_congr_left ⟨fun hlock => ⟨hlock, ?_⟩, And.left⟩
    intro hid
    obtain ⟨s, hs, hsid⟩ := howned lock hlock
    exact hfresh s hs (hsid.trans hid)

theorem updateScheduleTx_bookedTables {cat : Catalogue} {db db' : ScheduleDb} {call : UpdateCall}
    {schedule : Schedule} (h : BookedTables db) (hwindow : call.startsAt < call.endsAt)
    (hupdate : updateScheduleTx cat db call = .ok (db', schedule)) : BookedTables db' := by
  have hlocks := (updateScheduleTx_ok hupdate).2.2
  obtain ⟨row, hfind, hupdate⟩ := bind_ok hupdate
  obtain ⟨-, -, hupdate⟩ := bind_ok hupdate
  obtain ⟨schedules, hrewrite, hupdate⟩ := bind_ok hupdate
  obtain ⟨locks, -, hupdate⟩ := bind_ok hupdate
  cases hupdate
  obtain ⟨howned, hbooked⟩ := h
  have hrow := List.mem_of_find?_eq_some (orThrow_ok hfind)
  have hrowid : row.id = call.id := by simpa using List.find?_some (orThrow_ok hfind)
  have hschedules := fun s => mem_rewrite (orThrow_ok hrewrite) (s := s)
  constructor
  · intro lock hlock
    rcases (hlocks lock).mp hlock with ⟨hold, hne⟩ | ⟨-, hnew⟩
    · obtain ⟨s, hs, hid⟩ := howned lock hold
      exact ⟨s, (hschedules s).mpr (Or.inl ⟨hs, hid ▸ hne⟩), hid⟩
    · refine ⟨call.dto.apply row, (hschedules _).mpr (Or.inr ⟨row, hrow, hrowid, rfl⟩), ?_⟩
      exact hrowid.trans (mem_buildScheduleResourceLockRows.mp hnew).2.1.symm
  · by_cases hactive : (call.dto.apply row).status ≠ .cancelled
    · refine hbooked.replace call.id _ (fun lock => (hlocks lock).trans ?_)
        (Or.inr ⟨⟨call.id, call.coachId, call.venueId, call.startsAt, call.endsAt⟩, trivial, rfl,
          hwindow, rfl⟩) (fun _ _ _ => trivial)
      exact or_congr_right (and_iff_right hactive)
    · refine hbooked.replace call.id [] (fun lock => (hlocks lock).trans ?_) (Or.inl rfl)
        (fun _ _ _ => trivial)
      exact or_congr_right (iff_of_false (fun hnew => hactive hnew.1) List.not_mem_nil)

theorem deleteScheduleTx_bookedTables {db db' : ScheduleDb} {id : String} (h : BookedTables db)
    (hdelete : deleteScheduleTx db id = .ok db') : BookedTables db' := by
  have hlocks := (deleteScheduleTx_ok hdelete).2
  obtain ⟨schedules, hrewrite, hdelete⟩ := bind_ok hdelete
  cases hdelete
  obtain ⟨howned, hbooked⟩ := h
  constructor
  · intro lock hlock
    obtain ⟨hold, hne⟩ := (hlocks lock).mp hlock
    obtain ⟨s, hs, hid⟩ := howned lock hold
    exact ⟨s, (mem_rewrite (orThrow_ok hrewrite)).mpr (Or.inl ⟨hs, hid ▸ hne⟩), hid⟩
  · refine hbooked.replace id [] (fun lock => (hlocks lock).trans ?_) (Or.inl rfl)
      (fun _ _ _ => trivial)
    exact ⟨Or.inl, fun hlock => hlock.resolve_right List.not_mem_nil⟩

/-- The invariant of the concurrent runs: open updates hold a window they have checked. -/
def BookedState (s : State) : Prop :=
  BookedTables s.db ∧
    ∀ c call, s.pending c = some (.updating call) → call.startsAt < call.endsAt

theorem setCall_checked {s : State} {c : Nat} {call : Option Call}
    (h : ∀ c call, s.pending c = some (.updating call) → call.startsAt < call.endsAt)
    (hnew : ∀ new, call = some (.updating new) → new.startsAt < new.endsAt) :
    ∀ c' call', (s.setCall c call).pending c' = some (.updating call') →
      call'.startsAt < call'.endsAt := by
  intro c' call' hcall
  simp only [State.setCall, Function.update_apply] at hcall
  split at hcall
  · exact hnew call' hcall
  · exact h c' call' hcall

theorem step_bookedState {cat : Catalogue} {s s' : State} {a : Action} (h : BookedState s)
    (hstep : step cat s a = some s') : BookedState s' := by
  obtain ⟨htables, hchecked⟩ := h
  cases a with
  | createSchedule id dto =>
      cases hstep
      refine ⟨committed_of_ok htables fun db' hcreate => ?_, hchecked⟩
      obtain ⟨schedule, hcreate⟩ := map_fst_ok hcreate
      exact createSchedule_bookedTables htables hcreate
  | updateBegin c id dto =>
      cases hstep
      refine ⟨htables, setCall_checked hchecked fun new hnew => ?_⟩
      cases hbegin : updateScheduleBegin s.db id dto with
      | error e =>
          rw [hbegin] at hnew
          cases hnew
      | ok call =>
          rw [hbegin] at hnew
          cases hnew
          obtain ⟨current, -, hbegin⟩ := bind_ok hbegin
          obtain ⟨window, hwindow, hbegin⟩ := bind_ok hbegin
          cases hbegin
          exact (checkWindow_ok hwindow).2.2
  | updateCommit c =>
      simp only [step] at hstep
      split at hstep
      · rename_i call hcall
        cases hstep
        refine ⟨committed_of_ok htables fun db' hupdate => ?_,
          setCall_checked hchecked fun new hnew => by cases hnew⟩
        obtain ⟨schedule, hupdate⟩ := map_fst_ok hupdate
        exact updateScheduleTx_bookedTables htables (hchecked c call hcall) hupdate
      · cases hstep
  | deleteBegin c id =>
      cases hstep
      refine ⟨htables, setCall_checked hchecked fun new hnew => ?_⟩
      simp at hnew
  | deleteCommit c =>
      simp only [step] at hstep
      split at hstep
      · cases hstep
        exact ⟨committed_of_ok htables fun db' hdelete =>
            deleteScheduleTx_bookedTables htables hdelete,
          setCall_checked hchecked fun new hnew => by cases hnew⟩
      · cases hstep
  | giveUp c =>
      cases hstep
      exact ⟨htables, setCall_checked hchecked fun new hnew => by cases hnew⟩

theorem reachable_bookedState {cat : Catalogue} {s : State} (h : (scheduling cat).Reachable s) :
    BookedState s := by
  refine h.invariant ?_ fun s a s' hI _ hstep => step_bookedState hI hstep
  rintro s rfl
  refine ⟨⟨?_, booked_empty _⟩, ?_⟩
  · intro lock hlock
    cases hlock
  · intro c call hcall
    cases hcall

/-! ### Calls one after another -/

def Schedule.booking (s : Schedule) : Booking :=
  ⟨s.id, s.coachId, s.venueId, s.startsAt, s.endsAt⟩

/-- What one call after another keeps, as long as no schedule is created as `CANCELLED`: the
locks of every schedule, and windows that end after they start. -/
def UpkeptTables (db : ScheduleDb) : Prop :=
  LocksMatch db ∧ ∀ s ∈ db.schedules.rows, s.startsAt < s.endsAt

/-- The booking of an active schedule. -/
def ofActive (db : ScheduleDb) (b : Booking) : Prop :=
  ∃ s ∈ db.schedules.rows, s.Active ∧ b = s.booking

theorem UpkeptTables.booked {db : ScheduleDb} (h : UpkeptTables db) : Booked (ofActive db) db.locks := by
  obtain ⟨hmatch, hwindows⟩ := h
  intro lock hlock
  obtain ⟨s, hs, hid⟩ := hmatch.owned lock hlock
  have hactive := ((hmatch.matched s hs lock).mp ⟨hlock, hid.symm⟩).1
  refine ⟨s.booking, ⟨s, hs, hactive, rfl⟩, ⟨hwindows s hs, fun other => ?_⟩, hid.symm⟩
  exact (hmatch.matched s hs other).trans (and_iff_right hactive)

theorem UpkeptTables.run {cat : Catalogue} {db db' : ScheduleDb} {call : ScheduleCall}
    (h : UpkeptTables db) (hok : CreatesActive db (some call)) (hrun : call.run cat db = .ok db') :
    UpkeptTables db' := by
  obtain ⟨hmatch, hwindows⟩ := h
  refine ⟨hmatch.run hok hrun, ?_⟩
  intro s hs
  cases call with
  | createSchedule id dto =>
      obtain ⟨schedule, hcreate⟩ := map_fst_ok hrun
      have hrows := (createSchedule_ok hcreate).1
      obtain ⟨window, hwindow, hcreate⟩ := bind_ok hcreate
      obtain ⟨tenantId, -, hcreate⟩ := bind_ok hcreate
      obtain ⟨-, -, hcreate⟩ := bind_ok hcreate
      obtain ⟨schedules, -, hcreate⟩ := bind_ok hcreate
      obtain ⟨locks, -, hcreate⟩ := bind_ok hcreate
      cases hcreate
      rcases (hrows s).mp hs with hold | rfl
      · exact hwindows s hold
      · exact (checkWindow_ok hwindow).2.2
  | updateSchedule id dto =>
      obtain ⟨schedule, hupdate⟩ := map_fst_ok hrun
      obtain ⟨call, hbegin, htx⟩ := bind_ok hupdate
      obtain ⟨rfl, rfl, hcurrent, hid, -⟩ := updateScheduleBegin_ok hbegin
      obtain ⟨hstart, hend, hlt⟩ := updateScheduleBegin_window hbegin
      rcases (updateScheduleTx_ok htx).2.1 s hs with ⟨hold, -⟩ | ⟨row, hrow, hrowid, rfl⟩
      · exact hwindows s hold
      · obtain rfl := schedule_eq hrow hcurrent (hrowid.trans hid.symm)
        omega
  | deleteSchedule id =>
      obtain ⟨current, -, hdelete⟩ := bind_ok hrun
      obtain ⟨schedules, hrewrite, hdelete⟩ := bind_ok hdelete
      cases hdelete
      rcases (mem_rewrite (orThrow_ok hrewrite)).mp hs with ⟨hold, -⟩ | ⟨row, hrow, -, rfl⟩
      · exact hwindows s hold
      · exact hwindows row hrow

/-- The tables of a school that has not booked anything. -/
def emptyTables : ScheduleDb := { schedules := ∅, locks := ∅ }

theorem reachable_upkept {cat : Catalogue} {db : ScheduleDb}
    (h : (sequential cat (· = emptyTables)).ReachableBy CreatesActive db) : UpkeptTables db := by
  refine h.invariant ?_ ?_
  · rintro db rfl
    refine ⟨locksMatch_empty, ?_⟩
    intro s hs
    cases hs
  · intro db call db' hdb hok hstep
    cases call with
    | none =>
        cases hstep
        exact hdb
    | some call =>
        cases hstep
        exact committed_of_ok hdb fun db' hrun => hdb.run hok hrun

/-! ### Refusals -/

/-- The tables as an update finds them when it asks for its locks. -/
theorem Booked.released {P : Booking → Prop} {locks : LockTable} (hbooked : Booked P locks)
    (scheduleId : String) :
    Booked (fun b => P b ∧ b.Holds locks ∧ b.scheduleId ≠ scheduleId)
      (releaseScheduleResourceLocks locks scheduleId) := by
  intro lock hlock
  obtain ⟨hold, hne⟩ := mem_releaseScheduleResourceLocks.mp hlock
  obtain ⟨b, hP, hholds, hid⟩ := hbooked lock hold
  have hother : b.scheduleId ≠ scheduleId := fun heq => hne (hid.trans heq)
  refine ⟨b, ⟨hP, hholds, hother⟩, ⟨hholds.1, fun other => ?_⟩, hid⟩
  rw [mem_releaseScheduleResourceLocks, ← hholds.2 other]
  constructor
  · rintro ⟨⟨hmem, -⟩, hsame⟩
    exact ⟨hmem, hsame⟩
  · rintro ⟨hmem, hsame⟩
    exact ⟨⟨hmem, hsame ▸ hother⟩, hsame⟩

/-- A refused creation meets another booking in a slot. -/
theorem createSchedule_refusal {P : Booking → Prop} {cat : Catalogue} {db : ScheduleDb} {id : String}
    {dto : CreateScheduleDto} (hbooked : Booked P db.locks)
    (howned : ∀ lock ∈ db.locks.rows, ∃ s ∈ db.schedules.rows, s.id = lock.scheduleId)
    (h : createSchedule cat db id dto = .error alreadyBooked) :
    ∃ startsAt endsAt, dto.startsAt = some startsAt ∧ dto.endsAt = some endsAt ∧
      ∃ b : Booking, P b ∧ b.Holds db.locks ∧ b.scheduleId ≠ id ∧
        (b.coachId = dto.coachId ∨ b.venueId = dto.venueId) ∧
        ¬ Parted slotMs b.startsAt b.endsAt startsAt endsAt := by
  obtain ⟨hfresh, startsAt, endsAt, hstart, hend, hwindow, hlocks⟩ := createSchedule_alreadyBooked h
  obtain ⟨b, hP, hholds, hshares, hapart⟩ :=
    hbooked.refusal ⟨id, dto.coachId, dto.venueId, startsAt, endsAt⟩ hwindow hlocks
  refine ⟨startsAt, endsAt, hstart, hend, b, hP, hholds, ?_, hshares, hapart⟩
  intro hid
  obtain ⟨lock, hmem, howner⟩ := hholds.exists_lock
  obtain ⟨s, hs, hsid⟩ := howned lock hmem
  exact hfresh s hs (hsid.trans (howner.trans hid))

/-- A refused update meets another booking in a slot. -/
theorem updateScheduleTx_refusal {P : Booking → Prop} {cat : Catalogue} {db : ScheduleDb}
    {call : UpdateCall} (hbooked : Booked P db.locks) (hwindow : call.startsAt < call.endsAt)
    (h : updateScheduleTx cat db call = .error alreadyBooked) :
    ∃ b : Booking, P b ∧ b.Holds db.locks ∧ b.scheduleId ≠ call.id ∧
      (b.coachId = call.coachId ∨ b.venueId = call.venueId) ∧
      ¬ Parted slotMs b.startsAt b.endsAt call.startsAt call.endsAt := by
  obtain ⟨b, ⟨hP, hholds, hother⟩, -, hshares, hapart⟩ := (hbooked.released call.id).refusal
    ⟨call.id, call.coachId, call.venueId, call.startsAt, call.endsAt⟩ hwindow
    (updateScheduleTx_alreadyBooked h)
  exact ⟨b, hP, hholds, hother, hshares, hapart⟩

/-- **Conflicts are found on the slot grid.** The key lists of two windows are disjoint
exactly when a slot boundary lies between the windows. Whatever calls run beside it, a call
that reports a coach or venue as already booked meets another booking that holds locks for
that coach or venue, in a common slot; when calls run one after another and none creates a
cancelled schedule, that booking is an active schedule of the table. -/
theorem refused_only_in_common_slot (cat : Catalogue) :
    (∀ startsAt endsAt startsAt' endsAt', startsAt < endsAt → startsAt' < endsAt' →
      ((buildTimeSlotKeys startsAt endsAt).Disjoint (buildTimeSlotKeys startsAt' endsAt') ↔
        Parted slotMs startsAt endsAt startsAt' endsAt')) ∧
    (∀ s, (scheduling cat).Reachable s →
      (∀ id dto, createSchedule cat s.db id dto = .error alreadyBooked →
        ∃ startsAt endsAt, dto.startsAt = some startsAt ∧ dto.endsAt = some endsAt ∧
          ∃ b : Booking, b.Holds s.db.locks ∧ b.scheduleId ≠ id ∧
            (b.coachId = dto.coachId ∨ b.venueId = dto.venueId) ∧
            ¬ Parted slotMs b.startsAt b.endsAt startsAt endsAt) ∧
      ∀ c call, s.pending c = some (.updating call) →
        updateScheduleTx cat s.db call = .error alreadyBooked →
        ∃ b : Booking, b.Holds s.db.locks ∧ b.scheduleId ≠ call.id ∧
          (b.coachId = call.coachId ∨ b.venueId = call.venueId) ∧
          ¬ Parted slotMs b.startsAt b.endsAt call.startsAt call.endsAt) ∧
    ∀ db, (sequential cat (· = emptyTables)).ReachableBy CreatesActive db →
      (∀ id dto, createSchedule cat db id dto = .error alreadyBooked →
        ∃ startsAt endsAt, dto.startsAt = some startsAt ∧ dto.endsAt = some endsAt ∧
          ∃ s ∈ db.schedules.rows, s.Active ∧ s.id ≠ id ∧
            (s.coachId = dto.coachId ∨ s.venueId = dto.venueId) ∧
            ¬ Parted slotMs s.startsAt s.endsAt startsAt endsAt) ∧
      ∀ id dto, updateSchedule cat db id dto = .error alreadyBooked →
        ∃ current ∈ db.schedules.rows, current.id = id ∧
          ∃ s ∈ db.schedules.rows, s.Active ∧ s.id ≠ id ∧
            (s.coachId = (dto.apply current).coachId ∨ s.venueId = (dto.apply current).venueId) ∧
            ¬ Parted slotMs s.startsAt s.endsAt (dto.apply current).startsAt
              (dto.apply current).endsAt := by
  refine ⟨fun _ _ _ _ => buildTimeSlotKeys_disjoint_iff, fun s hreach => ⟨?_, ?_⟩,
    fun db hreach => ⟨?_, ?_⟩⟩
  · intro id dto h
    obtain ⟨⟨howned, hbooked⟩, -⟩ := reachable_bookedState hreach
    obtain ⟨startsAt, endsAt, hstart, hend, b, -, hb⟩ := createSchedule_refusal hbooked howned h
    exact ⟨startsAt, endsAt, hstart, hend, b, hb⟩
  · intro c call hcall h
    obtain ⟨⟨-, hbooked⟩, hchecked⟩ := reachable_bookedState hreach
    obtain ⟨b, -, hb⟩ := updateScheduleTx_refusal hbooked (hchecked c call hcall) h
    exact ⟨b, hb⟩
  · intro id dto h
    have hupkept := reachable_upkept hreach
    obtain ⟨startsAt, endsAt, hstart, hend, b, ⟨s, hs, hactive, rfl⟩, -, hother, hshares, hapart⟩ :=
      createSchedule_refusal hupkept.booked hupkept.1.owned h
    exact ⟨startsAt, endsAt, hstart, hend, s, hs, hactive, hother, hshares, hapart⟩
  · intro id dto h
    have hupkept := reachable_upkept hreach
    rcases bind_error h with hbegin | ⟨call, hbegin, htx⟩
    · exact absurd hbegin (updateScheduleBegin_ne_alreadyBooked _ _ _)
    obtain ⟨hstart, hend, hwindow⟩ := updateScheduleBegin_window hbegin
    obtain ⟨rfl, rfl, hcurrent, hid, -⟩ := updateScheduleBegin_ok hbegin
    obtain ⟨b, ⟨s, hs, hactive, rfl⟩, -, hother, hshares, hapart⟩ :=
      updateScheduleTx_refusal hupkept.booked hwindow htx
    refine ⟨call.current, hcurrent, hid, s, hs, hactive, hother, hshares, ?_⟩
    rw [hstart, hend]
    exact hapart

theorem map_snd_error {α β ε : Type} {x : Except ε (α × β)} {e : ε}
    (h : x.map Prod.snd = .error e) : x = .error e := by
  cases x with
  | error _ => cases h; rfl
  | ok p => cases h

/-- A class in the first ten minutes of a slot. -/
def tenMinutes : List (Option ScheduleCall) :=
  [some (.createSchedule "s1" ⟨"k1", "v1", "c1", some 0, some 600000, none, none⟩)]

/-- The class its coach would give in the next ten. -/
def nextTenMinutes : CreateScheduleDto := ⟨"k1", "v2", "c1", some 600000, some 1200000, none, none⟩

theorem tenMinutes_rows :
    ((sequential smallCatalogue (· = emptyTables)).exec emptyTables tenMinutes).map
        (fun db => db.schedules.rows) =
          some [⟨⟨"s1", "k1", "v1", "c1", 0, 600000, 15, .scheduled⟩, some "t1"⟩] ∧
      ((sequential smallCatalogue (· = emptyTables)).exec emptyTables tenMinutes).map
        (fun db => (createSchedule smallCatalogue db "s2" nextTenMinutes).map Prod.snd) =
          some (.error alreadyBooked) := by
  constructor
  · decide +kernel
  · decide +kernel

theorem refused_only_in_common_slot_tenMinutes :
    (buildTimeSlotKeys 0 900000).Disjoint (buildTimeSlotKeys 900000 1800000) ∧
      ∃ db, (sequential smallCatalogue (· = emptyTables)).exec emptyTables tenMinutes = some db ∧
        createSchedule smallCatalogue db "s2" nextTenMinutes = .error alreadyBooked ∧
        ∃ s ∈ db.schedules.rows, s.Active ∧ s.id ≠ "s2" ∧ (s.coachId = "c1" ∨ s.venueId = "v2") ∧
          ¬ Parted slotMs s.startsAt s.endsAt 600000 1200000 := by
  constructor
  · refine ((refused_only_in_common_slot smallCatalogue).1 0 900000 900000 1800000 (by decide)
      (by decide)).mpr ?_
    exact ⟨900000, by decide, Or.inl ⟨le_refl _, le_refl _⟩⟩
  · obtain ⟨db, hexec, -⟩ := Option.map_eq_some_iff.mp tenMinutes_rows.1
    have hrefused := tenMinutes_rows.2
    rw [hexec, Option.map_some, Option.some_inj] at hrefused
    have hcreate := map_snd_error hrefused
    have hreach : (sequential smallCatalogue (· = emptyTables)).ReachableBy CreatesActive db :=
      Machine.reachableBy_exec (Machine.reachableBy_init rfl) (by decide +kernel) hexec
    obtain ⟨startsAt, endsAt, hstart, hend, hmeets⟩ :=
      ((refused_only_in_common_slot smallCatalogue).2.2 db hreach).1 "s2" nextTenMinutes hcreate
    cases hstart
    cases hend
    exact ⟨db, hexec, hcreate, hmeets⟩

/-- Back to back within one slot, and refused. -/
theorem back_to_back_refused :
    ¬ Meet (0 : Int) 600000 600000 1200000 ∧
      ¬ (buildTimeSlotKeys 0 600000).Disjoint (buildTimeSlotKeys 600000 1200000) ∧
      ∃ db, (sequential smallCatalogue (· = emptyTables)).Reachable db ∧
        createSchedule smallCatalogue db "s2" nextTenMinutes = .error alreadyBooked ∧
        ∀ s ∈ db.schedules.rows, ¬ Meet s.startsAt s.endsAt 600000 1200000 := by
  have hapart : ¬ Meet (0 : Int) 600000 600000 1200000 := by
    rw [meet_iff (by decide) (by decide)]
    decide
  refine ⟨hapart, ?_, ?_⟩
  · intro hdisjoint
    have hkey := (slot_mem_buildTimeSlotKeys (le_refl _) (by decide) :
      toString (0 / slotMs * slotMs) ∈ buildTimeSlotKeys 0 600000)
    exact hdisjoint hkey (slot_mem_buildTimeSlotKeys (t := 600000) (le_refl _) (by decide))
  · obtain ⟨db, hexec, hrows⟩ := Option.map_eq_some_iff.mp tenMinutes_rows.1
    have hrefused := tenMinutes_rows.2
    rw [hexec, Option.map_some, Option.some_inj] at hrefused
    refine ⟨db, Machine.reachableBy_exec (Machine.reachableBy_init rfl)
      (Machine.admits_true _ _) hexec, map_snd_error hrefused, ?_⟩
    intro s hs
    rw [hrows, List.mem_singleton] at hs
    rw [hs]
    exact hapart

end MibServer.Courses
