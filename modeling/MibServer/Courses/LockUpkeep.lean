import MibServer.Courses.DoubleBooking

/-!
The lock table as derived data: calls that run one after another keep it equal to the
rows the schedules call for.

A call is here one step, its transaction run on the tables it has read; a call that fails
for whatever reason leaves them as they are. Only a schedule that is created as `CANCELLED`
takes locks it does not call for: `createSchedule` does not look at the status where
`updateSchedule` does.
-/

namespace MibServer.Courses

open MibServer.Lib

/-! ### Calls run to their end -/

def updateSchedule (cat : Catalogue) (db : ScheduleDb) (id : String) (dto : UpdateScheduleDto) :
    Except HttpException (ScheduleDb × Schedule) := do
  let call ← updateScheduleBegin db id dto
  updateScheduleTx cat db call

def deleteSchedule (db : ScheduleDb) (id : String) : Except HttpException ScheduleDb := do
  let _ ← getSchedule db id
  deleteScheduleTx db id

inductive ScheduleCall where
  | createSchedule (id : String) (dto : CreateScheduleDto)
  | updateSchedule (id : String) (dto : UpdateScheduleDto)
  | deleteSchedule (id : String)

/-- What the call returns, with the tables it leaves. -/
def ScheduleCall.run (cat : Catalogue) (db : ScheduleDb) : ScheduleCall → Except HttpException ScheduleDb
  | .createSchedule id dto => (Courses.createSchedule cat db id dto).map Prod.fst
  | .updateSchedule id dto => (Courses.updateSchedule cat db id dto).map Prod.fst
  | .deleteSchedule id => Courses.deleteSchedule db id

/-- Calls one after another; `none` is a call that fails for a reason outside the tables. -/
def sequential (cat : Catalogue) (init : ScheduleDb → Prop) : Machine ScheduleDb (Option ScheduleCall) where
  init := init
  step db
    | some call => some (committed db (call.run cat db))
    | none => some db

/-! ### The locks of the schedules -/

/-- The locks of a schedule are those it calls for. -/
def Schedule.LocksExact (db : ScheduleDb) (s : Schedule) : Prop :=
  ∀ lock, lock ∈ db.locks.rows ∧ lock.scheduleId = s.id ↔ s.Active ∧ lock ∈ s.lockRows

/-- The foreign key of the lock table, and the locks of every schedule. -/
structure LocksMatch (db : ScheduleDb) : Prop where
  owned : ∀ lock ∈ db.locks.rows, ∃ s ∈ db.schedules.rows, s.id = lock.scheduleId
  matched : ∀ s ∈ db.schedules.rows, s.LocksExact db

theorem schedule_eq {db : ScheduleDb} {s s' : Schedule} (h : s ∈ db.schedules.rows)
    (h' : s' ∈ db.schedules.rows) (hid : s.id = s'.id) : s = s' :=
  db.schedules.unique.eq_of_mem (k := s.id) h h' (by simp [Schedule.keys])
    (by simp [Schedule.keys, hid])

/-- Rewriting the row of one id. -/
theorem mem_rewrite {schedules schedules' : ScheduleTable} {id : String}
    {f : Schedule → Schedule} (h : schedules.updateWhere? (fun s => s.id == id) f = some schedules')
    {s : Schedule} :
    s ∈ schedules'.rows ↔ s ∈ schedules.rows ∧ s.id ≠ id ∨
      ∃ row ∈ schedules.rows, row.id = id ∧ s = f row := by
  rw [Indexed.mem_updateWhere? h]
  constructor
  · rintro ⟨row, hrow, rfl⟩
    by_cases hid : row.id = id
    · exact Or.inr ⟨row, hrow, hid, by simp [hid]⟩
    · exact Or.inl (by simpa [hid] using hrow)
  · rintro (⟨hs, hid⟩ | ⟨row, hrow, hid, rfl⟩)
    · exact ⟨s, hs, by simp [hid]⟩
    · exact ⟨row, hrow, by simp [hid]⟩

/-! ### What a call does to the tables -/

/-- The schedule of one id is replaced together with its locks, or it is new. -/
structure Replaces (db db' : ScheduleDb) (s : Schedule) (locks : List ScheduleResourceLock) :
    Prop where
  schedules : ∀ s', s' ∈ db'.schedules.rows ↔ s' ∈ db.schedules.rows ∧ s'.id ≠ s.id ∨ s' = s
  locks : ∀ lock, lock ∈ db'.locks.rows ↔
    lock ∈ db.locks.rows ∧ lock.scheduleId ≠ s.id ∨ lock ∈ locks

theorem lockRows_owner {s : Schedule} {lock : ScheduleResourceLock} (h : lock ∈ s.lockRows) :
    lock.scheduleId = s.id :=
  (mem_buildScheduleResourceLockRows.mp h).2.1

/-- The tables match again when the schedule gets the locks it calls for. -/
theorem LocksMatch.replaces {db db' : ScheduleDb} {s : Schedule} {locks : List ScheduleResourceLock}
    (h : LocksMatch db) (hreplaces : Replaces db db' s locks)
    (hlocks : ∀ lock, lock ∈ locks ↔ s.Active ∧ lock ∈ s.lockRows) : LocksMatch db' := by
  have howner : ∀ lock ∈ locks, lock.scheduleId = s.id :=
    fun lock hlock => lockRows_owner ((hlocks lock).mp hlock).2
  refine ⟨fun lock hlock => ?_, fun s' hs' lock => ?_⟩
  · rcases (hreplaces.locks lock).mp hlock with ⟨hold, hne⟩ | hnew
    · obtain ⟨s', hs', hid⟩ := h.owned lock hold
      exact ⟨s', (hreplaces.schedules s').mpr (Or.inl ⟨hs', hid ▸ hne⟩), hid⟩
    · exact ⟨s, (hreplaces.schedules s).mpr (Or.inr rfl), (howner lock hnew).symm⟩
  · rw [hreplaces.locks lock]
    rcases (hreplaces.schedules s').mp hs' with ⟨hold, hne⟩ | rfl
    · rw [← h.matched s' hold lock]
      constructor
      · rintro ⟨⟨hlock, -⟩ | hnew, hid⟩
        · exact ⟨hlock, hid⟩
        · exact absurd (hid.symm.trans (howner lock hnew)) hne
      · rintro ⟨hlock, hid⟩
        exact ⟨Or.inl ⟨hlock, fun heq => hne (hid.symm.trans heq)⟩, hid⟩
    · rw [← hlocks lock]
      constructor
      · rintro ⟨⟨-, hne⟩ | hnew, hid⟩
        · exact absurd hid hne
        · exact hnew
      · exact fun hnew => ⟨Or.inr hnew, howner lock hnew⟩

/-- A schedule joins the table under an id that no other has. -/
theorem insert_fresh {schedules schedules' : ScheduleTable} {new : Schedule}
    (h : schedules.insert? new = some schedules') : ∀ s ∈ schedules.rows, s.id ≠ new.id := by
  intro s hs hid
  have hunique := schedules'.unique
  rw [Indexed.rows_insert? h] at hunique
  have hkeys := (uniqueOn_append_singleton.mp hunique).2.2 new.id (by simp [Schedule.keys])
  exact hkeys (List.mem_flatMap.mpr ⟨s, hs, by simp [Schedule.keys, hid]⟩)

/-- A created schedule takes the locks of its window, whatever its status is. -/
theorem createSchedule_replaces {cat : Catalogue} {db db' : ScheduleDb} {id : String}
    {dto : CreateScheduleDto} {schedule : Schedule} (hmatch : LocksMatch db)
    (h : createSchedule cat db id dto = .ok (db', schedule)) :
    Replaces db db' schedule schedule.lockRows ∧ schedule.status = dto.status.getD .scheduled := by
  have hrows := createSchedule_ok h
  obtain ⟨⟨startsAt, endsAt⟩, -, h⟩ := bind_ok h
  obtain ⟨tenantId, -, h⟩ := bind_ok h
  obtain ⟨-, -, h⟩ := bind_ok h
  obtain ⟨schedules, hinsert, h⟩ := bind_ok h
  obtain ⟨locks, -, h⟩ := bind_ok h
  cases h
  -- No schedule has the new id, so no lock is owned by it.
  have hfresh := insert_fresh (orThrow_ok hinsert)
  have hunowned : ∀ lock ∈ db.locks.rows, lock.scheduleId ≠ id := by
    intro lock hlock hid
    obtain ⟨s, hs, hsid⟩ := hmatch.owned lock hlock
    exact hfresh s hs (hsid.trans hid)
  refine ⟨⟨fun s => (hrows.1 s).trans ?_, fun lock => (hrows.2 lock).trans ?_⟩, rfl⟩
  · exact or_congr_left ⟨fun hs => ⟨hs, hfresh s hs⟩, And.left⟩
  · exact or_congr_left ⟨fun hlock => ⟨hlock, hunowned lock hlock⟩, And.left⟩

/-- The window an update has checked is the one of the row it writes. -/
theorem updateScheduleBegin_window {db : ScheduleDb} {id : String} {dto : UpdateScheduleDto}
    {call : UpdateCall} (h : updateScheduleBegin db id dto = .ok call) :
    (dto.apply call.current).startsAt = call.startsAt ∧
      (dto.apply call.current).endsAt = call.endsAt ∧ call.startsAt < call.endsAt := by
  obtain ⟨current, -, h⟩ := bind_ok h
  obtain ⟨⟨startsAt, endsAt⟩, hwindow, h⟩ := bind_ok h
  cases h
  obtain ⟨hstart, hend, hlt⟩ := checkWindow_ok hwindow
  have hdate : ∀ {x : Option JsDate} {a b : Int}, x.getD (some a) = some b → x.join.getD a = b := by
    rintro (_ | _ | _) a b h <;> simp_all
  exact ⟨hdate hstart, hdate hend, hlt⟩

theorem updateScheduleBegin_ok {db : ScheduleDb} {id : String} {dto : UpdateScheduleDto}
    {call : UpdateCall} (h : updateScheduleBegin db id dto = .ok call) :
    call.id = id ∧ call.dto = dto ∧ call.current ∈ db.schedules.rows ∧ call.current.id = id ∧
      (dto.apply call.current).lockRows = buildScheduleResourceLockRows id call.coachId call.venueId
        call.startsAt call.endsAt := by
  obtain ⟨hstart, hend, -⟩ := updateScheduleBegin_window h
  obtain ⟨current, hcurrent, h⟩ := bind_ok h
  obtain ⟨⟨startsAt, endsAt⟩, -, h⟩ := bind_ok h
  cases h
  obtain ⟨hmem, hid⟩ := getSchedule_ok hcurrent
  refine ⟨rfl, rfl, hmem, hid, ?_⟩
  unfold Schedule.lockRows
  rw [hstart, hend]
  simp only [UpdateScheduleDto.apply, hid]
  rfl

/-- An update that runs on the row it has read takes locks only for a schedule that is
not cancelled. -/
theorem updateSchedule_replaces {cat : Catalogue} {db db' : ScheduleDb} {id : String}
    {dto : UpdateScheduleDto} {schedule : Schedule}
    (h : updateSchedule cat db id dto = .ok (db', schedule)) :
    Replaces db db' schedule (if schedule.Active then schedule.lockRows else []) := by
  obtain ⟨call, hbegin, htx⟩ := bind_ok h
  obtain ⟨rfl, rfl, hcurrent, hid, hlockRows⟩ := updateScheduleBegin_ok hbegin
  have hlocks := (updateScheduleTx_ok htx).2.2
  obtain ⟨row, hfind, htx⟩ := bind_ok htx
  have hrow := List.mem_of_find?_eq_some (orThrow_ok hfind)
  have hrowid : row.id = call.id := by simpa using List.find?_some (orThrow_ok hfind)
  obtain rfl : call.current = row := schedule_eq hcurrent hrow (hid.trans hrowid.symm)
  obtain ⟨-, -, htx⟩ := bind_ok htx
  obtain ⟨schedules, hupdate, htx⟩ := bind_ok htx
  obtain ⟨locks, -, htx⟩ := bind_ok htx
  cases htx
  have hsid : (call.dto.apply call.current).id = call.id := hid
  refine ⟨fun s => ?_, fun lock => ?_⟩
  · rw [mem_rewrite (orThrow_ok hupdate), hsid]
    refine or_congr_right ⟨?_, ?_⟩
    · rintro ⟨row, hrow, hrowid, rfl⟩
      rw [schedule_eq hrow hcurrent (hrowid.trans hid.symm)]
    · rintro rfl
      exact ⟨_, hcurrent, hid, rfl⟩
  · rw [hlocks lock, hsid, hlockRows]
    refine or_congr_right ?_
    by_cases hactive : (call.dto.apply call.current).Active
    · rw [if_pos hactive]
      exact and_iff_right hactive
    · rw [if_neg hactive]
      exact iff_of_false (fun h => hactive h.1) List.not_mem_nil

theorem deleteSchedule_replaces {db db' : ScheduleDb} {id : String}
    (h : deleteSchedule db id = .ok db') :
    ∃ schedule : Schedule, schedule.status = .cancelled ∧ Replaces db db' schedule [] := by
  obtain ⟨current, hcurrent, h⟩ := bind_ok h
  obtain ⟨hmem, rfl⟩ := getSchedule_ok hcurrent
  have hlocks := (deleteScheduleTx_ok h).2
  obtain ⟨schedules, hupdate, h⟩ := bind_ok h
  cases h
  refine ⟨{ current with status := .cancelled }, rfl, fun s => ?_, fun lock => ?_⟩
  · rw [mem_rewrite (orThrow_ok hupdate)]
    refine or_congr_right ⟨?_, ?_⟩
    · rintro ⟨row, hrow, hid, rfl⟩
      rw [schedule_eq hrow hmem hid]
    · rintro rfl
      exact ⟨current, hmem, rfl, rfl⟩
  · rw [hlocks lock]
    exact ⟨Or.inl, fun h => h.resolve_right List.not_mem_nil⟩

/-! ### Runs -/

/-- The run condition: no schedule is created as `CANCELLED`. -/
def CreatesActive (_ : ScheduleDb) : Option ScheduleCall → Prop
  | some (.createSchedule _ dto) => dto.status ≠ some .cancelled
  | _ => True

instance (db : ScheduleDb) : ∀ call, Decidable (CreatesActive db call)
  | some (.createSchedule _ dto) => inferInstanceAs (Decidable (dto.status ≠ some .cancelled))
  | some (.updateSchedule _ _) | some (.deleteSchedule _) | none => .isTrue trivial

theorem LocksMatch.run {cat : Catalogue} {db db' : ScheduleDb} {call : ScheduleCall} (h : LocksMatch db)
    (hok : CreatesActive db (some call)) (hrun : call.run cat db = .ok db') : LocksMatch db' := by
  cases call with
  | createSchedule id dto =>
      obtain ⟨schedule, hcreate⟩ := map_fst_ok hrun
      obtain ⟨hreplaces, hstatus⟩ := createSchedule_replaces h hcreate
      refine h.replaces hreplaces fun lock => (and_iff_right ?_).symm
      intro hcancelled
      rw [hstatus] at hcancelled
      cases hdto : dto.status with
      | none => simp [hdto] at hcancelled
      | some status => exact hok (by simpa [hdto] using hcancelled)
  | updateSchedule id dto =>
      obtain ⟨schedule, hupdate⟩ := map_fst_ok hrun
      refine h.replaces (updateSchedule_replaces hupdate) fun lock => ?_
      by_cases hactive : schedule.Active <;> simp [hactive]
  | deleteSchedule id =>
      obtain ⟨schedule, hcancelled, hreplaces⟩ := deleteSchedule_replaces hrun
      exact h.replaces hreplaces fun lock => by simp [Schedule.Active, hcancelled]

/-- **The locks are those the schedules call for** after every call of a run in which no
schedule is created as `CANCELLED`. -/
theorem locks_exact_of_createsActive (cat : Catalogue) {db : ScheduleDb}
    (h : (sequential cat LocksMatch).ReachableBy CreatesActive db) :
    ∀ s ∈ db.schedules.rows, ∀ lock : ScheduleResourceLock,
      lock ∈ db.locks.rows ∧ lock.scheduleId = s.id ↔ s.status ≠ .cancelled ∧
        lock ∈ buildScheduleResourceLockRows s.id s.coachId s.venueId s.startsAt s.endsAt := by
  refine (h.invariant (I := LocksMatch) (fun _ h => h) ?_).matched
  intro db call db' hdb hok hstep
  cases call with
  | none =>
      cases hstep
      exact hdb
  | some call =>
      cases hstep
      exact committed_of_ok hdb fun db' hrun => hdb.run hok hrun

theorem locksMatch_empty : LocksMatch { schedules := ∅, locks := ∅ } where
  owned _ h := by cases h
  matched _ h := by cases h

/-- A class is booked, moved, cancelled and booked again. -/
def bookMoveCancel : List (Option ScheduleCall) :=
  [some (.createSchedule "s1" ⟨"k1", "v1", "c1", some 0, some 900000, none, none⟩),
    some (.updateSchedule "s1" { startsAt := some (some 1800000), endsAt := some (some 2700000) }),
    some (.updateSchedule "s1" { status := some .cancelled }),
    some (.createSchedule "s2" ⟨"k1", "v1", "c1", some 1800000, some 2700000, none, none⟩)]

theorem locks_exact_bookMoveCancel :
    ∃ db, (sequential smallCatalogue LocksMatch).exec { schedules := ∅, locks := ∅ } bookMoveCancel =
        some db ∧ db.locks.rows.map ScheduleResourceLock.scheduleId = ["s2", "s2"] ∧
      ∀ s ∈ db.schedules.rows, ∀ lock : ScheduleResourceLock,
        lock ∈ db.locks.rows ∧ lock.scheduleId = s.id ↔ s.status ≠ .cancelled ∧
          lock ∈ buildScheduleResourceLockRows s.id s.coachId s.venueId s.startsAt s.endsAt := by
  refine ⟨_, (Option.some_get (by decide +kernel)).symm, by decide +kernel, ?_⟩
  exact locks_exact_of_createsActive smallCatalogue
    (Machine.reachableBy_exec_get locksMatch_empty (by decide +kernel) (by decide +kernel))

/-- A class created as cancelled holds its coach and its venue. -/
theorem cancelled_creation_locks :
    ¬ ∀ (cat : Catalogue) (db : ScheduleDb), (sequential cat LocksMatch).Reachable db →
      ∀ s ∈ db.schedules.rows, ∀ lock : ScheduleResourceLock,
        lock ∈ db.locks.rows ∧ lock.scheduleId = s.id ↔ s.status ≠ .cancelled ∧
          lock ∈ buildScheduleResourceLockRows s.id s.coachId s.venueId s.startsAt s.endsAt := by
  intro h
  have hresult : ((sequential smallCatalogue LocksMatch).exec { schedules := ∅, locks := ∅ }
      [some (.createSchedule "s1" ⟨"k1", "v1", "c1", some 0, some 900000, none, some .cancelled⟩)]).map
        (fun db => (db.schedules.rows, db.locks.rows)) =
      some ([⟨⟨"s1", "k1", "v1", "c1", 0, 900000, 15, .cancelled⟩, some "t1"⟩],
        [⟨.coach, "c1", "0", "s1"⟩, ⟨.venue, "v1", "0", "s1"⟩]) := by
    decide +kernel
  obtain ⟨db, hexec, hrows⟩ := Option.map_eq_some_iff.mp hresult
  rw [Prod.mk.injEq] at hrows
  have hexact := h smallCatalogue db (Machine.reachableBy_exec
    (Machine.reachableBy_init locksMatch_empty) (Machine.admits_true _ _) hexec)
  rw [hrows.1, hrows.2] at hexact
  have hlock := (hexact _ List.mem_cons_self _).mp ⟨List.mem_cons_self, rfl⟩
  exact hlock.1 rfl

end MibServer.Courses
