import MibServer.Lessons.StaleChecks

/-!
Repeated check-ins of one student to one schedule.

Here calls come one after another. The upsert of a check-in writes what the clock and the
leave say now, whatever the record says already, so a record stays as it is only along the
runs in which each further scan of an attended lesson is refused, or comes while the
first one's status still stands, in the same millisecond.
-/

namespace MibServer.Lessons

open MibServer.Lib MibServer.Prisma MibServer.Courses MibServer.Tenancy

/-! ### Records that stay -/

def AttendanceStatus.attended : AttendanceStatus → Bool
  | .present | .late => true
  | .absent | .leave => false

/-- The record is attended as it was, no later, and has its `checkInAt`. -/
structure AttendanceRecord.Stays (r r' : AttendanceRecord) : Prop where
  student : r'.studentId = r.studentId
  schedule : r'.scheduleId = r.scheduleId
  status : r'.status = .present ∨ r.status = .late ∧ r'.status = .late
  checkInAt : r'.checkInAt = r.checkInAt

theorem AttendanceRecord.Stays.attended {r r' : AttendanceRecord} (h : r.Stays r') :
    r'.status.attended = true := by
  rcases h.status with hstatus | ⟨-, hstatus⟩ <;> rw [hstatus] <;> rfl

theorem AttendanceRecord.Stays.refl {r : AttendanceRecord} (h : r.status.attended = true) : r.Stays r := by
  refine ⟨rfl, rfl, ?_, rfl⟩
  cases hstatus : r.status with
  | present => exact Or.inl rfl
  | late => exact Or.inr ⟨rfl, rfl⟩
  | absent | leave => simp [hstatus, AttendanceStatus.attended] at h

theorem AttendanceRecord.Stays.trans {r r' r'' : AttendanceRecord} (h : r.Stays r') (h' : r'.Stays r'') :
    r.Stays r'' where
  student := h'.student.trans h.student
  schedule := h'.schedule.trans h.schedule
  status := by
    rcases h'.status with hpresent | ⟨hlate, hlate'⟩
    · exact Or.inl hpresent
    · rcases h.status with hpresent | ⟨hbefore, -⟩
      · rw [hlate] at hpresent
        cases hpresent
      · exact Or.inr ⟨hbefore, hlate'⟩
  checkInAt := h'.checkInAt.trans h.checkInAt

/-- Every attended record stays. -/
def AttendedStays (db db' : LessonDb) : Prop :=
  ∀ r ∈ db.attendance.rows, r.status.attended = true → ∃ r' ∈ db'.attendance.rows, r.Stays r'

/-- Every lesson that a check-in has deducted is attended. -/
def DeductedAttended (db : LessonDb) : Prop :=
  ∀ row ∈ db.transactions.rows, row.reason = CHECKIN_DEDUCT_REASON → ∀ scheduleId ∈ row.scheduleId,
    ∃ r ∈ db.attendance.rows, r.isFor row.studentId scheduleId = true ∧ r.status.attended = true

instance (db : LessonDb) : Decidable (DeductedAttended db) :=
  inferInstanceAs (Decidable (∀ row ∈ db.transactions.rows, _))

theorem AttendedStays.refl (db : LessonDb) : AttendedStays db db :=
  fun r hr hattended => ⟨r, hr, .refl hattended⟩

theorem AttendedStays.trans {a b c : LessonDb} (h : AttendedStays a b) (h' : AttendedStays b c) :
    AttendedStays a c := by
  intro r hr hattended
  obtain ⟨r', hr', hstays⟩ := h r hr hattended
  obtain ⟨r'', hr'', hstays'⟩ := h' r' hr' hstays.attended
  exact ⟨r'', hr'', hstays.trans hstays'⟩

/-! ### What a check-in does alone -/

/-- The QR code or the position is in order. -/
def proven (outside : Geofence) (school : School) (dto : CheckInDto) (venue : Venue) (now : Int) : Bool :=
  match dto.method with
  | .manual => true
  | .qr => (truthy dto.qrToken).any fun token => (school.qrTokens.find? fun t =>
      t.scheduleId == dto.scheduleId && t.token == token && decide (now < t.expiresAt)).isSome
  | .gps =>
      match venue.latitude, venue.longitude, venue.geofenceRadiusM.filter (· ≠ 0), dto.latitude,
        dto.longitude with
      | some lat, some lng, some radius, some latitude, some longitude =>
          !outside latitude longitude lat lng radius
      | _, _, _, _, _ => false

def ScheduleDetails.graceEnd (schedule : ScheduleDetails) : Int :=
  schedule.startsAt + schedule.lateGraceMinutes * 60 * 1000

/-- The call is not refused. -/
def accepts (outside : Geofence) (ambient : Ambient) (school : School) (dto : CheckInDto)
    (now : Int) : Bool :=
  (school.findSchedule dto.scheduleId (resolveTenantWhere ambient)).any fun schedule =>
    decide (schedule.status ≠ .cancelled) && school.enrolled schedule.classId dto.studentId &&
      (decide (school.leave dto.studentId dto.scheduleId = some .approved) ||
        decide (schedule.endsAt < now) || proven outside school dto schedule.venue now)

/-- What a check-in that is not refused writes, and whether it goes on to deduct. -/
inductive Writes (school : School) (dto : CheckInDto) (now : Int) (params : AttendanceParams) : Prop where
  | onLeave (leave : school.leave dto.studentId dto.scheduleId = some .approved)
      (skip : params.skipDeduct = true)
  | ended (schedule : ScheduleDetails) (found : school.schedule dto.scheduleId = some schedule)
      (late : schedule.endsAt < now) (skip : params.skipDeduct = true)
  | taken (schedule : ScheduleDetails) (found : school.schedule dto.scheduleId = some schedule)
      (status : params.status = if schedule.graceEnd < now then .late else .present)
      (checkInAt : params.checkInAt = some now)

/-- The row of the upsert. -/
def AttendanceParams.row (params : AttendanceParams) (dto : CheckInDto) : AttendanceRecord where
  studentId := dto.studentId
  scheduleId := dto.scheduleId
  status := params.status
  method := params.method
  checkInAt := params.checkInAt
  checkInLat := params.checkInLat
  checkInLng := params.checkInLng

/-- What the transaction leaves: the record, and the deduction if there is one. -/
structure Upserted (dto : CheckInDto) (params : AttendanceParams) (db db' : LessonDb) : Prop where
  school : db'.school = db.school
  attendance : db'.attendance = (db.upsertAttendance (params.row dto)).2.attendance
  written : ∃ record, (db.upsertAttendance (params.row dto)).1 = .ok record
  ledger : SameLedger db db' ∨ params.skipDeduct = false ∧ ∃ card deductAmount,
    Booked db db' card
      (checkInTransaction dto.studentId dto.scheduleId card.id deductAmount card.remainingLessons) 0

theorem school_of_upsert (db : LessonDb) (row : AttendanceRecord) :
    (db.upsertAttendance row).2.school = db.school :=
  school_of_exec (.write (.upsertAttendance row)) {} db

theorem upsertAttendanceTx_recorded {v : View LessonDb} (hv : v.isolation = .serializable)
    (scope : Option TenantWhereClause) (dto : CheckInDto) (params : AttendanceParams) :
    (upsertAttendanceTx scope dto.studentId dto.scheduleId params).Yields lessonClient.engine
      (fun _ db' => Upserted dto params v.work db') v := by
  unfold upsertAttendanceTx
  simp only [Prog.bind_eq, Prog.pure_eq]
  refine yields_write trivial ?_
  simp only [lessonClient_write, LessonDb.write]
  show Prog.Yields _ _ (v.at (v.work.upsertAttendance (params.row dto)).2)
    ((orRethrow (v.work.upsertAttendance (params.row dto)).1).bind _)
  have hsame := upsertAttendance_sameLedger v.work (params.row dto)
  have hschool := school_of_upsert v.work (params.row dto)
  cases hreply : (v.work.upsertAttendance (params.row dto)).1 with
  | error _ => trivial
  | ok record =>
      simp only [orRethrow, Prog.ret_bind]
      split
      · rename_i deductAmount hamount
        have hskip : params.skipDeduct = false := by
          cases h : params.skipDeduct with
          | false => rfl
          | true => simp [AttendanceParams.amountToDeduct, h] at hamount
        have honly := deductLessonsForCheckIn_only scope dto.studentId dto.scheduleId deductAmount
        have hdeduct := deductLessonsForCheckIn_yields
          (v := v.at (v.work.upsertAttendance (params.row dto)).2) hv scope dto.studentId
          dto.scheduleId deductAmount
        have hattendance := honly.yields (E := lessonClient.engine) (g := LessonDb.attendance)
          (v := v.at (v.work.upsertAttendance (params.row dto)).2)
          fun q hq env db => attendance_of_exec hq env db
        have hkeeps := honly.yields (E := lessonClient.engine) (g := LessonDb.school)
          (v := v.at (v.work.upsertAttendance (params.row dto)).2)
          fun q _ env db => school_of_exec q env db
        refine Prog.Yields.bind ((hdeduct.and (hattendance.and hkeeps)).mono ?_)
        rintro outcome db' ⟨hdeducted, hrecord, hschool'⟩
        refine ⟨hschool'.trans hschool, hrecord, ⟨record, hreply⟩, ?_⟩
        rcases hdeducted with ⟨-, rfl⟩ | ⟨-, card, -, hbooked⟩
        · exact Or.inl hsame
        · exact Or.inr ⟨hskip, card, deductAmount, hbooked.of_sameLedger hsame⟩
      · exact ⟨hschool, rfl, ⟨record, hreply⟩, Or.inl hsame⟩

/-- What a check-in leaves that has been run alone. -/
def Scanned (outside : Geofence) (ambient : Ambient) (dto : CheckInDto) (now : Int)
    (db db' : LessonDb) : Prop :=
  db' = db ∨ accepts outside ambient db.school dto now = true ∧
    ∃ params, Writes db.school dto now params ∧ Upserted dto params db db'

section Alone

variable {outside : Geofence} {ambient : Ambient} {dto : CheckInDto} {now : Int} {db : LessonDb}

theorem upsertAttendance_alone {params : AttendanceParams}
    (haccepts : accepts outside ambient db.school dto now = true)
    (hwrites : Writes db.school dto now params) (supply : Nat → Env) :
    Scanned outside ambient dto now db ((upsertAttendance ambient dto.studentId dto.scheduleId
      params).alone lessonClient.engine none supply db).2 := by
  rcases Prog.alone_transaction .serializable (s := db)
    (upsertAttendanceTx_recorded rfl _ dto params) supply with ⟨e, heq⟩ | ⟨a, work, hrecorded, heq⟩
  · exact Or.inl (congrArg Prod.snd heq)
  · have hwork : ((upsertAttendance ambient dto.studentId dto.scheduleId params).alone
        lessonClient.engine none supply db).2 = work := congrArg Prod.snd heq
    exact hwork ▸ Or.inr ⟨haccepts, params, hwrites, hrecorded⟩

/-- A method check that lets the call go on has found its proof. -/
theorem checkMethod_alone {venue : Venue} {k : Unit → LessonProg LessonResult} {supply : Nat → Env}
    (h : proven outside db.school dto venue now = true → ∀ supply,
      Scanned outside ambient dto now db ((k ()).alone lessonClient.engine none supply db).2) :
    Scanned outside ambient dto now db
      (((checkMethod outside dto venue now).bind k).alone lessonClient.engine none supply db).2 := by
  unfold checkMethod
  unfold proven at h
  cases hmethod : dto.method with
  | manual =>
      simp only [hmethod] at h ⊢
      exact h trivial supply
  | qr =>
      simp only [hmethod] at h ⊢
      cases htoken : truthy dto.qrToken with
      | none => exact Or.inl rfl
      | some token =>
          simp only [htoken, Option.any_some] at h ⊢
          rw [Prog.bind_eq, Prog.bind_assoc, alone_find]
          split
          · exact Or.inl rfl
          · split
            · rename_i hfound
              exact h hfound _
            · exact Or.inl rfl
  | gps =>
      simp only [hmethod] at h ⊢
      split
      · rename_i lat lng radius hlat hlng hradius
        split
        · rename_i latitude longitude hlatitude hlongitude
          simp only [hlat, hlng, hradius, hlatitude, hlongitude] at h
          split
          · exact Or.inl rfl
          · rename_i hinside
            exact h (by simpa using hinside) supply
        · exact Or.inl rfl
      · exact Or.inl rfl

theorem checkIn_alone (outside : Geofence) (ambient : Ambient) (dto : CheckInDto) (db : LessonDb)
    (supply : Nat → Env) : Scanned outside ambient dto (supply 3).now db
      ((checkIn outside ambient dto).alone lessonClient.engine none supply db).2 := by
  unfold checkIn
  rw [Prog.bind_eq, alone_find]
  split
  · exact Or.inl rfl
  · split
    · exact Or.inl rfl
    · rename_i schedule hschedule
      split
      · exact Or.inl rfl
      · rename_i hstatus
        rw [Prog.bind_eq, alone_find]
        split
        · exact Or.inl rfl
        · split
          · exact Or.inl rfl
          · rename_i henrolled
            rw [Prog.bind_eq, alone_find]
            split
            · exact Or.inl rfl
            · have hvisible : db.school.findSchedule dto.scheduleId (resolveTenantWhere ambient) =
                  some schedule := hschedule
              have hfound : db.school.schedule dto.scheduleId = some schedule :=
                (Option.filter_eq_some_iff.mp hvisible).1
              have hjoined : db.school.enrolled schedule.classId dto.studentId = true := by
                simp only [Bool.not_eq_true', Bool.not_eq_false] at henrolled
                exact henrolled
              have haccepts : (db.school.leave dto.studentId dto.scheduleId = some .approved ∨
                  schedule.endsAt < (supply 3).now) ∨
                  proven outside db.school dto schedule.venue (supply 3).now = true →
                  accepts outside ambient db.school dto (supply 3).now = true := by
                intro hreason
                simpa [accepts, hvisible, hstatus, hjoined, or_assoc] using hreason
              show Scanned outside ambient dto (supply 3).now db (Prod.snd (Prog.alone lessonClient.engine none
                (if _ then _ else _) _ db))
              split
              · rename_i hleave
                exact upsertAttendance_alone (haccepts (Or.inl (Or.inl hleave))) (.onLeave hleave rfl) _
              · split
                · rename_i hended
                  exact upsertAttendance_alone (haccepts (Or.inl (Or.inr hended)))
                    (.ended schedule hfound hended rfl) _
                · exact checkMethod_alone fun hproven supply' =>
                    upsertAttendance_alone (haccepts (Or.inr hproven))
                      (.taken schedule hfound rfl rfl) supply'

end Alone

/-! ### Scans one after another -/

inductive Scan where
  | checkIn (ambient : Ambient) (dto : CheckInDto) (supply : Nat → Env)
  | createLeaveRequest (studentId scheduleId : String)

/-- A request that is answered from its idempotency record runs no call and is no step. -/
def scans (outside : Geofence) : Machine LessonDb Scan where
  init _ := True
  step db
    | .checkIn ambient dto supply =>
        some ((checkIn outside ambient dto).alone lessonClient.engine none supply db).2
    | .createLeaveRequest studentId scheduleId =>
        some { db with school := (SchoolChange.createLeaveRequest studentId scheduleId).apply db.school }

/-- The run condition: a check-in to a lesson that is attended already is refused, or there
is no approved leave, the lesson has not ended, its record has this very `checkInAt`, and
the grace period is not over or the record is `LATE`. The clock is the fourth statement of
the call. -/
def SparesAttended (outside : Geofence) (db : LessonDb) : Scan → Prop
  | .checkIn ambient dto supply => accepts outside ambient db.school dto (supply 3).now = true →
      ∀ r ∈ db.attendance.rows, r.isFor dto.studentId dto.scheduleId = true → r.status.attended = true →
        db.school.leave dto.studentId dto.scheduleId ≠ some .approved ∧
        r.checkInAt = some (supply 3).now ∧
        ∀ schedule ∈ db.school.schedule dto.scheduleId, (supply 3).now ≤ schedule.endsAt ∧
          (r.status = .late ∨ (supply 3).now ≤ schedule.graceEnd)
  | .createLeaveRequest _ _ => True

instance (outside : Geofence) (db : LessonDb) : ∀ a, Decidable (SparesAttended outside db a)
  | .checkIn _ _ _ => inferInstanceAs (Decidable (_ → ∀ r ∈ db.attendance.rows, _))
  | .createLeaveRequest _ _ => .isTrue trivial

/-- An upsert overwrites the record of its key, or adds it, and leaves the others alone. -/
theorem upsertAttendance_rows {db : LessonDb} {row record : AttendanceRecord}
    (h : (db.upsertAttendance row).1 = .ok record) :
    (∀ r ∈ db.attendance.rows, r.isFor row.studentId row.scheduleId = false →
      r ∈ (db.upsertAttendance row).2.attendance.rows) ∧
    (∀ r ∈ db.attendance.rows, r.isFor row.studentId row.scheduleId = true →
      row.overwrite r ∈ (db.upsertAttendance row).2.attendance.rows) ∧
    ∃ r ∈ (db.upsertAttendance row).2.attendance.rows,
      r.isFor row.studentId row.scheduleId = true ∧ r.status = row.status := by
  unfold LessonDb.upsertAttendance at h ⊢
  split
  · rename_i old hold
    have hmem := List.mem_of_find?_eq_some hold
    have hfor : old.isFor row.studentId row.scheduleId = true := by simpa using List.find?_some hold
    have hrow : ∀ r ∈ db.attendance.rows, r.isFor row.studentId row.scheduleId = true →
        row.overwrite r ∈ db.attendance.rows.map fun r =>
          if r.isFor row.studentId row.scheduleId then row.overwrite r else r := by
      intro r hr hfor
      exact List.mem_map.mpr ⟨r, hr, by simp [hfor]⟩
    refine ⟨fun r hr hother => List.mem_map.mpr ⟨r, hr, by simp [hother]⟩, hrow, ?_⟩
    exact ⟨row.overwrite old, hrow old hmem hfor, hfor, rfl⟩
  · rename_i hnone
    have hother := List.find?_eq_none.mp hnone
    split
    · rename_i attendance hinsert
      have hrows := Indexed.rows_insert? hinsert
      rw [hrows]
      refine ⟨fun r hr _ => List.mem_append_left _ hr, fun r hr hfor => absurd hfor (hother r hr), ?_⟩
      exact ⟨row, List.mem_append_right _ (List.mem_singleton.mpr rfl), by simp [AttendanceRecord.isFor], rfl⟩
    · rename_i hnot
      simp [hnone, hnot] at h

section Steps

variable {outside : Geofence} {dto : CheckInDto} {now : Int} {params : AttendanceParams} {db db' : LessonDb}

/-- A check-in under the condition overwrites no attended record with another. -/
theorem Upserted.attendedStays (h : Upserted dto params db db') (hwrites : Writes db.school dto now params)
    (hspares : ∀ r ∈ db.attendance.rows, r.isFor dto.studentId dto.scheduleId = true →
      r.status.attended = true → db.school.leave dto.studentId dto.scheduleId ≠ some .approved ∧
        r.checkInAt = some now ∧ ∀ schedule ∈ db.school.schedule dto.scheduleId,
          now ≤ schedule.endsAt ∧ (r.status = .late ∨ now ≤ schedule.graceEnd)) :
    AttendedStays db db' := by
  intro r hr hattended
  obtain ⟨record, hwritten⟩ := h.written
  obtain ⟨hothers, hown, -⟩ := upsertAttendance_rows hwritten
  rw [h.attendance]
  by_cases hfor : r.isFor dto.studentId dto.scheduleId = true
  · obtain ⟨hleave, hcheckInAt, hschedule⟩ := hspares r hr hfor hattended
    refine ⟨(params.row dto).overwrite r, hown r hr hfor, rfl, rfl, ?_, ?_⟩
    · cases hwrites with
      | onLeave leave _ => exact absurd leave hleave
      | ended schedule found late _ =>
          have hends := (hschedule schedule found).1
          omega
      | taken schedule found status _ =>
          show params.status = .present ∨ r.status = .late ∧ params.status = .late
          rw [status]
          split
          · rename_i hgrace
            refine Or.inr ⟨(hschedule schedule found).2.resolve_right ?_, rfl⟩
            omega
          · exact Or.inl rfl
    · cases hwrites with
      | onLeave leave _ => exact absurd leave hleave
      | ended schedule found late _ =>
          have hends := (hschedule schedule found).1
          omega
      | taken _ _ _ checkInAt => exact checkInAt.trans hcheckInAt.symm
  · exact ⟨r, hothers r hr (Bool.not_eq_true _ ▸ hfor), .refl hattended⟩

/-- What is deducted is attended, before the call or by it. -/
theorem Upserted.deductedAttended (h : Upserted dto params db db')
    (hwrites : Writes db.school dto now params) (hstays : AttendedStays db db')
    (hdeducted : DeductedAttended db) : DeductedAttended db' := by
  have hold : ∀ row ∈ db.transactions.rows, row.reason = CHECKIN_DEDUCT_REASON →
      ∀ scheduleId ∈ row.scheduleId, ∃ r ∈ db'.attendance.rows,
        r.isFor row.studentId scheduleId = true ∧ r.status.attended = true := by
    intro row hrow hreason scheduleId hschedule
    obtain ⟨r, hr, hfor, hattended⟩ := hdeducted row hrow hreason scheduleId hschedule
    obtain ⟨r', hr', hstay⟩ := hstays r hr hattended
    refine ⟨r', hr', ?_, hstay.attended⟩
    rw [AttendanceRecord.isFor, hstay.student, hstay.schedule]
    exact hfor
  rcases h.ledger with hsame | ⟨hskip, card, deductAmount, hbooked⟩
  · rw [DeductedAttended, hsame.transactions]
    exact hold
  · intro row hrow hreason scheduleId hschedule
    rw [hbooked.transactions] at hrow
    rcases List.mem_append.mp hrow with hrow | hnew
    · exact hold row hrow hreason scheduleId hschedule
    · rw [List.mem_singleton.mp hnew] at hschedule ⊢
      obtain rfl : dto.scheduleId = scheduleId := by simpa [checkInTransaction] using hschedule
      obtain ⟨record, hwritten⟩ := h.written
      obtain ⟨-, -, r, hr, hfor, hstatus⟩ := upsertAttendance_rows hwritten
      refine ⟨r, h.attendance ▸ hr, hfor, ?_⟩
      rw [hstatus]
      cases hwrites with
      | onLeave _ skip => rw [hskip] at skip; cases skip
      | ended _ _ _ skip => rw [hskip] at skip; cases skip
      | taken schedule _ status _ =>
          show params.status.attended = true
          rw [status]
          split <;> rfl

theorem scans_step {a : Scan} (hok : SparesAttended outside db a)
    (hstep : (scans outside).step db a = some db') :
    AttendedStays db db' ∧ (DeductedAttended db → DeductedAttended db') := by
  cases a with
  | checkIn ambient dto supply =>
      cases hstep
      rcases checkIn_alone outside ambient dto db supply with hsame | ⟨haccepts, params, hwrites, hrecorded⟩
      · rw [hsame]
        exact ⟨.refl db, id⟩
      · have hstays := hrecorded.attendedStays hwrites (hok haccepts)
        exact ⟨hstays, hrecorded.deductedAttended hwrites hstays⟩
  | createLeaveRequest studentId scheduleId =>
      cases hstep
      exact ⟨fun r hr hattended => ⟨r, hr, .refl hattended⟩, id⟩

end Steps

/-- **An attended lesson stays attended**, no later and with its `checkInAt`, and what a
check-in has deducted stays attended, in every run whose steps meet the condition. -/
theorem attended_stays (outside : Geofence) {db db' : LessonDb}
    (hrun : Relation.ReflTransGen ((scans outside).Next (SparesAttended outside)) db db') :
    AttendedStays db db' ∧ (DeductedAttended db → DeductedAttended db') := by
  refine (Machine.run_related (I := fun _ => True)
    (R := fun db db' => AttendedStays db db' ∧ (DeductedAttended db → DeductedAttended db'))
    hrun trivial (fun db => ⟨.refl db, id⟩) (fun h h' => ⟨h.1.trans h'.1, h'.2 ∘ h.2⟩) ?_).2
  intro db a db' _ hok hstep
  exact ⟨trivial, scans_step hok hstep⟩

def scanAt (now : Int) (dto : CheckInDto) : Scan := .checkIn administrator dto fun _ => { now }

def manualScan : CheckInDto := { studentId := "st1", scheduleId := "s1", method := .manual }

/-- After a lesson has been deducted, a scan in the same millisecond and one that lacks its
QR code. -/
theorem attended_stays_rescanned :
    ∃ db, (scans nowhere).exec oneCardDb [scanAt 1000 manualScan, .createLeaveRequest "st1" "s2",
        scanAt 1000 manualScan, scanAt 2000 { manualScan with method := .qr }] = some db ∧
      db.transactions.rows.length = 1 ∧
      (AttendedStays oneCardDb db ∧ (DeductedAttended oneCardDb → DeductedAttended db)) := by
  refine ⟨_, (Option.some_get (by decide +kernel)).symm, by decide +kernel, ?_⟩
  exact attended_stays nowhere
    (Machine.run_exec (by decide +kernel) (Option.some_get (by decide +kernel)).symm)

theorem not_attendedStays {db db' : LessonDb} (h : ∃ r ∈ db.attendance.rows, r.status.attended = true)
    (hnone : ∀ r' ∈ db'.attendance.rows, r'.status.attended = false) : ¬ AttendedStays db db' := by
  intro hstays
  obtain ⟨r, hr, hattended⟩ := h
  obtain ⟨r', hr', hstay⟩ := hstays r hr hattended
  exact absurd hstay.attended (by rw [hnone r' hr']; decide)

/-- A second scan after the end of the lesson makes the deducted lesson `ABSENT`. -/
theorem deducted_lesson_absent :
    ∃ db db', (scans nowhere).exec oneCardDb [scanAt 1000 manualScan] = some db ∧
      Relation.ReflTransGen ((scans nowhere).Next fun _ _ => True) db db' ∧
      ¬ AttendedStays db db' ∧ DeductedAttended db ∧ ¬ DeductedAttended db' := by
  have hrun : ∀ (db : LessonDb) (h : ((scans nowhere).exec db [scanAt 4000000 manualScan]).isSome),
      Relation.ReflTransGen ((scans nowhere).Next fun _ _ => True) db (Option.get _ h) :=
    fun db h => Machine.run_exec (Machine.admits_true _ _) (Option.some_get h).symm
  exact ⟨_, _, (Option.some_get (by decide +kernel)).symm, hrun _ (by decide +kernel),
    not_attendedStays (by decide +kernel) (by decide +kernel), by decide +kernel, by decide +kernel⟩

/-! ### Scans are calls of the desk -/

theorem desk_exec_lesson (outside : Geofence) (init : LessonDb → Prop) (w : LessonWorld)
    (as : List LessonAction) : (desk outside).exec w (as.map .lesson) =
      ((lessonSystem outside).machine init).exec w as := by
  induction as generalizing w with
  | nil => rfl
  | cons a as ih =>
      simp only [List.map_cons, Machine.exec]
      exact congrArg (Option.bind _) (funext ih)

/-- Each scan is a run of the desk: a check-in arrives and takes all of its steps, or the
leave is given. -/
theorem scan_simulated (outside : Geofence) {w : LessonWorld} {a : Scan} {db' : LessonDb}
    (h : (scans outside).step w.committed a = some db') :
    ∃ as w', (desk outside).exec w as = some w' ∧ w'.committed = db' := by
  cases a with
  | checkIn ambient dto supply =>
      cases h
      obtain ⟨as, w', hexec, hleft⟩ : ∃ as w',
          ((lessonSystem outside).machine fun _ => True).exec w as = some w' ∧ _ :=
        World.call_alone (K := ledgerContract fun _ => True) (c := .checkIn ambient dto)
          (checkIn_safe outside ambient dto).1 trivial supply
      exact ⟨as.map .lesson, w', (desk_exec_lesson outside _ w as).trans hexec, hleft⟩
  | createLeaveRequest studentId scheduleId =>
      cases h
      exact ⟨[.school (.createLeaveRequest studentId scheduleId)], _, rfl, rfl⟩

end MibServer.Lessons
