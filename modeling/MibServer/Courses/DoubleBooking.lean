import MibServer.Courses.ScheduleService

/-!
No double booking: two schedules that are not cancelled and share a coach or a
venue never overlap in time.

The argument is `LocksHeld`: every such schedule owns the lock rows of its own
window, coach and venue. Overlapping windows share a slot
(`slot_mem_buildTimeSlotKeys`), so two bookings of one resource would own one
entry of the unique index. Creation and deletion keep `LocksHeld`; an update
keeps it when the locks it takes, computed from the row `getSchedule` read before
the transaction, cover the row it writes (`UpdateCall.Covers`). A partial update
whose columns another update has changed in between takes the wrong locks, and
`double_booking_reachable` is a run in which that books a coach twice.
-/

namespace MibServer.Courses

open MibServer.Lib

/-- Holds its resources: any status but `CANCELLED`. -/
def Schedule.Active (s : Schedule) : Prop := s.status ≠ .cancelled

instance (s : Schedule) : Decidable s.Active := inferInstanceAs (Decidable (_ ≠ _))

/-- The intervals `[startsAt, endsAt)` meet. -/
def Schedule.Overlaps (a b : Schedule) : Prop :=
  ∃ t, a.startsAt ≤ t ∧ t < a.endsAt ∧ b.startsAt ≤ t ∧ t < b.endsAt

def Schedule.SharesResource (a b : Schedule) : Prop :=
  a.coachId = b.coachId ∨ a.venueId = b.venueId

/-- No coach and no venue is booked twice at one time. -/
def NoDoubleBooking (db : ScheduleDb) : Prop :=
  ∀ a ∈ db.schedules.rows, ∀ b ∈ db.schedules.rows, a ≠ b → a.Active → b.Active →
    a.SharesResource b → ¬ a.Overlaps b

/-- Every active schedule owns the lock rows of its window, coach and venue. -/
def LocksHeld (db : ScheduleDb) : Prop :=
  ∀ s ∈ db.schedules.rows, s.Active → ∀ lock ∈ s.lockRows, lock ∈ db.locks.rows

/-- Two schedules that own a lock row for one slot of one resource are one
schedule. -/
theorem eq_of_shared_slot {db : ScheduleDb} {a b : Schedule} (ha : a ∈ db.schedules.rows)
    (hb : b ∈ db.schedules.rows) {kind : ScheduleResourceType} {resource slot : String}
    (hla : ⟨kind, resource, slot, a.id⟩ ∈ db.locks.rows)
    (hlb : ⟨kind, resource, slot, b.id⟩ ∈ db.locks.rows) : a = b := by
  have hlock : (⟨kind, resource, slot, a.id⟩ : ScheduleResourceLock) = ⟨kind, resource, slot, b.id⟩ :=
    db.locks.unique.eq_of_mem (k := (kind, resource, slot)) hla hlb
      (by simp [ScheduleResourceLock.keys]) (by simp [ScheduleResourceLock.keys])
  have hid : a.id = b.id := by simpa using hlock
  exact db.schedules.unique.eq_of_mem (k := a.id) ha hb (by simp [Schedule.keys])
    (by simp [Schedule.keys, hid])

/-- An active schedule owns the slot around each of its instants, for its coach
and for its venue. -/
theorem LocksHeld.slot {db : ScheduleDb} (h : LocksHeld db) {s : Schedule} {t : Int}
    (hs : s ∈ db.schedules.rows) (hactive : s.Active) (hstart : s.startsAt ≤ t)
    (hend : t < s.endsAt) :
    ⟨.coach, s.coachId, toString (t / slotMs * slotMs), s.id⟩ ∈ db.locks.rows ∧
      ⟨.venue, s.venueId, toString (t / slotMs * slotMs), s.id⟩ ∈ db.locks.rows := by
  have hslot := slot_mem_buildTimeSlotKeys hstart hend
  constructor
  · exact h s hs hactive _ (mem_buildScheduleResourceLockRows.mpr
      ⟨hslot, rfl, Or.inl ⟨rfl, rfl⟩⟩)
  · exact h s hs hactive _ (mem_buildScheduleResourceLockRows.mpr
      ⟨hslot, rfl, Or.inr ⟨rfl, rfl⟩⟩)

/-- The unique index excludes double bookings while every active schedule owns
its locks. -/
theorem LocksHeld.noDoubleBooking {db : ScheduleDb} (h : LocksHeld db) : NoDoubleBooking db := by
  rintro a ha b hb hne hactive hactive' hshares ⟨t, hsa, hea, hsb, heb⟩
  obtain ⟨hcoachA, hvenueA⟩ := h.slot ha hactive hsa hea
  obtain ⟨hcoachB, hvenueB⟩ := h.slot hb hactive' hsb heb
  rcases hshares with hcoach | hvenue
  · exact hne (eq_of_shared_slot ha hb hcoachA (hcoach ▸ hcoachB))
  · exact hne (eq_of_shared_slot ha hb hvenueA (hvenue ▸ hvenueB))

/-! ### What each transaction keeps -/

theorem createSchedule_locksHeld {cat : Catalogue} {db db' : ScheduleDb} {id : String}
    {dto : CreateScheduleDto} {schedule : Schedule}
    (h : createSchedule cat db id dto = .ok (db', schedule)) (hheld : LocksHeld db) :
    LocksHeld db' := by
  obtain ⟨hrows, hlocks⟩ := createSchedule_ok h
  intro s hs hactive lock hlock
  rcases (hrows s).mp hs with hold | rfl
  · exact (hlocks lock).mpr (Or.inl (hheld s hold hactive lock hlock))
  · exact (hlocks lock).mpr (Or.inr hlock)

theorem deleteScheduleTx_locksHeld {db db' : ScheduleDb} {id : String}
    (h : deleteScheduleTx db id = .ok db') (hheld : LocksHeld db) : LocksHeld db' := by
  obtain ⟨hrows, hlocks⟩ := deleteScheduleTx_ok h
  intro s hs hactive lock hlock
  rcases hrows s hs with ⟨hold, hid⟩ | hcancelled
  · have howner := (mem_buildScheduleResourceLockRows.mp hlock).2.1
    exact (hlocks lock).mpr ⟨hheld s hold hactive lock hlock, howner ▸ hid⟩
  · exact absurd hcancelled hactive

/-- The locks an update takes cover the row it leaves behind, given the row that
is stored when its transaction runs: it cancels the schedule, or the row still
has the coach and venue `getSchedule` read where the DTO leaves them out, and the
slots of the row's new window are among those of the window computed from that
read. -/
def UpdateCall.Covers (call : UpdateCall) (row : Schedule) : Prop :=
  call.dto.status.getD row.status = .cancelled ∨
    (call.dto.coachId = none → row.coachId = call.current.coachId) ∧
    (call.dto.venueId = none → row.venueId = call.current.venueId) ∧
    buildTimeSlotKeys (call.dto.startsAt.join.getD row.startsAt)
        (call.dto.endsAt.join.getD row.endsAt) ⊆
      buildTimeSlotKeys call.startsAt call.endsAt

instance (call : UpdateCall) (row : Schedule) : Decidable (call.Covers row) :=
  inferInstanceAs (Decidable (_ ∨ _))

theorem getD_eq_of_agree {α : Type} {x : Option α} {a b : α} (h : x = none → a = b) :
    x.getD a = x.getD b := by
  cases x with
  | none => exact h rfl
  | some _ => rfl

/-- Under `Covers`, the locks an update asks for include those its row calls for. -/
theorem UpdateCall.Covers.lockRows {call : UpdateCall} {row : Schedule} (h : call.Covers row)
    (hid : row.id = call.id) (hactive : (call.dto.apply row).Active) :
    ∀ lock ∈ (call.dto.apply row).lockRows, lock ∈ buildScheduleResourceLockRows call.id
      call.coachId call.venueId call.startsAt call.endsAt := by
  rcases h with hcancelled | ⟨hcoach, hvenue, hslots⟩
  · exact absurd hcancelled hactive
  · intro lock hlock
    obtain ⟨hslot, howner, hresource⟩ := mem_buildScheduleResourceLockRows.mp hlock
    have hcoach' : (call.dto.apply row).coachId = call.coachId := getD_eq_of_agree hcoach
    have hvenue' : (call.dto.apply row).venueId = call.venueId := getD_eq_of_agree hvenue
    rw [hcoach', hvenue'] at hresource
    exact mem_buildScheduleResourceLockRows.mpr ⟨hslots hslot, howner.trans hid, hresource⟩

theorem updateScheduleTx_locksHeld {cat : Catalogue} {db db' : ScheduleDb} {call : UpdateCall}
    {schedule : Schedule} (h : updateScheduleTx cat db call = .ok (db', schedule))
    (hcovers : ∀ row ∈ db.schedules.rows, row.id = call.id → call.Covers row)
    (hheld : LocksHeld db) : LocksHeld db' := by
  obtain ⟨⟨row₀, hrow₀, hid₀, rfl⟩, hrows, hlocks⟩ := updateScheduleTx_ok h
  intro s hs hactive lock hlock
  rcases hrows s hs with ⟨hold, hid⟩ | ⟨row, hrow, hid, rfl⟩
  · have howner := (mem_buildScheduleResourceLockRows.mp hlock).2.1
    exact (hlocks lock).mpr (Or.inl ⟨hheld s hold hactive lock hlock, howner ▸ hid⟩)
  · have hsame : row = row₀ := db.schedules.unique.eq_of_mem (k := call.id) hrow hrow₀
      (by simp [Schedule.keys, hid]) (by simp [Schedule.keys, hid₀])
    subst hsame
    exact (hlocks lock).mpr
      (Or.inr ⟨hactive, (hcovers row hrow hid).lockRows hid hactive lock hlock⟩)

/-! ### Runs -/

theorem committed_of_ok {P : ScheduleDb → Prop} {db : ScheduleDb}
    {outcome : Except HttpException ScheduleDb} (h : P db)
    (hok : ∀ db', outcome = .ok db' → P db') : P (committed db outcome) := by
  cases outcome with
  | error _ => exact h
  | ok db' => exact hok db' rfl

theorem map_fst_ok {α β ε : Type} {x : Except ε (α × β)} {a : α}
    (h : x.map Prod.fst = .ok a) : ∃ b, x = .ok (a, b) := by
  cases x with
  | error _ => cases h
  | ok p => cases h; exact ⟨p.2, rfl⟩

/-- The update that call `c` is about to commit. -/
def State.updating? (s : State) (c : Nat) : Option UpdateCall :=
  match s.pending c with
  | some (.updating call) => some call
  | _ => none

/-- The run condition: every update that commits takes locks that cover the row
it leaves behind. Of a transaction that is refused it asks nothing. -/
def UpdateCovered (cat : Catalogue) (s : State) : Action → Prop
  | .updateCommit c =>
      ∀ call ∈ s.updating? c, (updateScheduleTx cat s.db call).isOk = true →
        ∀ row ∈ s.db.schedules.rows, row.id = call.id → call.Covers row
  | _ => True

instance (cat : Catalogue) (s : State) : ∀ a, Decidable (UpdateCovered cat s a)
  | .updateCommit c =>
      inferInstanceAs (Decidable (∀ call ∈ s.updating? c,
        (updateScheduleTx cat s.db call).isOk = true → ∀ row ∈ s.db.schedules.rows, _))
  | .createSchedule _ _ | .updateBegin _ _ _ | .deleteBegin _ _ | .deleteCommit _ | .giveUp _ =>
      .isTrue trivial

theorem step_locksHeld {cat : Catalogue} {s s' : State} {a : Action} (hheld : LocksHeld s.db)
    (hok : UpdateCovered cat s a) (hstep : step cat s a = some s') : LocksHeld s'.db := by
  cases a with
  | createSchedule id dto =>
      cases hstep
      refine committed_of_ok hheld fun db' h => ?_
      obtain ⟨schedule, hcreate⟩ := map_fst_ok h
      exact createSchedule_locksHeld hcreate hheld
  | updateBegin c id dto => cases hstep; exact hheld
  | updateCommit c =>
      simp only [step] at hstep
      split at hstep
      · rename_i call hcall
        cases hstep
        refine committed_of_ok hheld fun db' h => ?_
        obtain ⟨schedule, hupdate⟩ := map_fst_ok h
        have hcovers := hok call (by simp [State.updating?, hcall]) (by rw [hupdate]; rfl)
        exact updateScheduleTx_locksHeld hupdate hcovers hheld
      · cases hstep
  | deleteBegin c id => cases hstep; exact hheld
  | deleteCommit c =>
      simp only [step] at hstep
      split at hstep
      · cases hstep
        exact committed_of_ok hheld fun db' h => deleteScheduleTx_locksHeld h hheld
      · cases hstep
  | giveUp c => cases hstep; exact hheld

/-- **No double booking**, in every state reached by a run whose updates all take
locks that cover the row they write. -/
theorem noDoubleBooking_of_updateCovered {cat : Catalogue} {s : State}
    (h : (scheduling cat).ReachableBy (UpdateCovered cat) s) : NoDoubleBooking s.db := by
  refine LocksHeld.noDoubleBooking (h.invariant (I := fun s => LocksHeld s.db) ?_ ?_)
  · rintro s rfl row hrow
    cases hrow
  · exact fun s a s' hheld hok hstep => step_locksHeld hheld hok hstep

/-- A morning class given once by `c1` in `v1`, moved in one update and handed to
`c2` in another; both updates read the row before either commits. The update of
the window then takes its locks for `c1`, and `c2` can be booked again. -/
def racingUpdates : List Action :=
  [.createSchedule "s1" ⟨"k1", "v1", "c1", some 0, some 900000, none, none⟩,
    .updateBegin 0 "s1" { startsAt := some (some 1800000), endsAt := some (some 2700000) },
    .updateBegin 1 "s1" { coachId := some "c2" },
    .updateCommit 1,
    .updateCommit 0,
    .createSchedule "s2" ⟨"k1", "v2", "c2", some 1800000, some 2700000, none, none⟩]

/-- A school with one class and every venue and coach asked for. -/
def smallCatalogue : Catalogue where
  classTenant := fun id => if id = "k1" then some (some "t1") else none
  hasVenue := fun _ => true
  hasCoach := fun _ => true

theorem racingUpdates_rows :
    ((scheduling smallCatalogue).exec start racingUpdates).map (fun s => s.db.schedules.rows) =
      some [⟨⟨"s1", "k1", "v1", "c2", 1800000, 2700000, 15, .scheduled⟩, some "t1"⟩,
        ⟨⟨"s2", "k1", "v2", "c2", 1800000, 2700000, 15, .scheduled⟩, some "t1"⟩] := by
  decide +kernel

theorem double_booking_reachable :
    ¬ ∀ (cat : Catalogue) (s : State), (scheduling cat).Reachable s → NoDoubleBooking s.db := by
  intro h
  obtain ⟨s, hexec, hrows⟩ := Option.map_eq_some_iff.mp racingUpdates_rows
  have hsafe := h smallCatalogue s
    (Machine.reachableBy_exec (Machine.reachableBy_init rfl) (Machine.admits_true _ _) hexec)
  simp only [NoDoubleBooking, hrows] at hsafe
  exact hsafe _ List.mem_cons_self _ (List.mem_cons_of_mem _ List.mem_cons_self) (by decide)
    (by decide) (by decide) (Or.inl rfl) ⟨1800000, by decide⟩

/-- The two updates one after the other take covering locks, and the second
booking of `c2` is refused. -/
theorem noDoubleBooking_sequential_updates :
    ∃ s, (scheduling smallCatalogue).exec start
        [.createSchedule "s1" ⟨"k1", "v1", "c1", some 0, some 900000, none, none⟩,
          .updateBegin 1 "s1" { coachId := some "c2" }, .updateCommit 1,
          .updateBegin 0 "s1" { startsAt := some (some 1800000), endsAt := some (some 2700000) },
          .updateCommit 0,
          .createSchedule "s2" ⟨"k1", "v2", "c2", some 1800000, some 2700000, none, none⟩] = some s ∧
      s.db.schedules.rows.length = 1 ∧ NoDoubleBooking s.db := by
  refine ⟨_, (Option.some_get (by decide +kernel)).symm, by decide +kernel, ?_⟩
  exact noDoubleBooking_of_updateCovered
    (Machine.reachableBy_exec_get rfl (by decide +kernel) (by decide +kernel))

end MibServer.Courses
