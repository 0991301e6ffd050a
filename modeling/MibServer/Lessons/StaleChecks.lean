import MibServer.Lessons.Conservation

/-!
Check-ins beside the operations that take their ground away.

A check-in looks at the schedule, the enrolment and the leave before its transaction, and
nothing in the transaction looks again. `desk` runs the lesson calls beside
`deleteSchedule`, `updateSchedule`, `createLeaveRequest` and `unenrollStudent`, each of
which takes effect in one step. A deduction is admitted when it commits along the runs in
which none of the four takes the ground from a check-in that is past its first check.
-/

namespace MibServer.Lessons

open MibServer.Lib MibServer.Prisma MibServer.Courses MibServer.Tenancy

/-! ### Changes of the school -/

/-- What an update of a schedule changes: a new venue and the course type of a new class come
with their ids. -/
structure SchedulePatch where
  classId : Option String := none
  coachId : Option String := none
  startsAt : Option Int := none
  endsAt : Option Int := none
  lateGraceMinutes : Option Int := none
  status : Option ScheduleStatus := none
  venue : Option Venue := none
  courseType : Option CourseType := none

def SchedulePatch.apply (patch : SchedulePatch) (s : ScheduleDetails) : ScheduleDetails :=
  { s with
    classId := patch.classId.getD s.classId
    venueId := (patch.venue.map Venue.id).getD s.venueId
    coachId := patch.coachId.getD s.coachId
    startsAt := patch.startsAt.getD s.startsAt
    endsAt := patch.endsAt.getD s.endsAt
    lateGraceMinutes := patch.lateGraceMinutes.getD s.lateGraceMinutes
    status := patch.status.getD s.status
    venue := patch.venue.getD s.venue
    courseType := patch.courseType.getD s.courseType }

inductive SchoolChange where
  | deleteSchedule (id : String)
  | updateSchedule (id : String) (patch : SchedulePatch)
  | createLeaveRequest (studentId scheduleId : String)
  | unenrollStudent (classId studentId : String)

/-- Rewrite the schedule of one id, if there is one. -/
def School.modifySchedule (school : School) (id : String)
    (f : ScheduleDetails → ScheduleDetails) : School :=
  { school with
    schedule := fun id' => if id' = id then (school.schedule id').map f else school.schedule id' }

/-- The commit of an operation; one that is refused changes nothing. -/
def SchoolChange.apply (school : School) : SchoolChange → School
  | .deleteSchedule id => school.modifySchedule id fun s => { s with status := .cancelled }
  | .updateSchedule id patch => school.modifySchedule id patch.apply
  | .createLeaveRequest studentId scheduleId =>
      if (school.student studentId).isSome && (school.schedule scheduleId).isSome then
        { school with
          leave := fun st sc =>
            if st = studentId ∧ sc = scheduleId then some .approved else school.leave st sc }
      else school
  | .unenrollStudent classId studentId =>
      { school with
        enrolled := fun k st => if k = classId ∧ st = studentId then false else school.enrolled k st }

/-- None of the four enrols a student. -/
theorem enrolled_of_apply {school : School} {change : SchoolChange} {classId studentId : String}
    (h : (change.apply school).enrolled classId studentId = true) :
    school.enrolled classId studentId = true := by
  cases change with
  | deleteSchedule _ | updateSchedule _ _ => exact h
  | createLeaveRequest _ _ =>
      simp only [SchoolChange.apply] at h
      split at h <;> exact h
  | unenrollStudent _ _ =>
      simp only [SchoolChange.apply] at h
      split at h
      · cases h
      · exact h

/-- None of the four takes an approved leave back. -/
theorem leave_of_apply {school : School} {change : SchoolChange} {studentId scheduleId : String}
    (h : (change.apply school).leave studentId scheduleId ≠ some .approved) :
    school.leave studentId scheduleId ≠ some .approved := by
  cases change with
  | deleteSchedule _ | updateSchedule _ _ | unenrollStudent _ _ => exact h
  | createLeaveRequest _ _ =>
      intro happroved
      refine h ?_
      simp only [SchoolChange.apply]
      split
      · show (if _ then _ else _) = _
        split
        · rfl
        · exact happroved
      · exact happroved

/-! ### What a check-in stands on -/

/-- The three admission checks hold. -/
def Admitted (school : School) (dto : CheckInDto) : Prop :=
  ∃ schedule, school.schedule dto.scheduleId = some schedule ∧ schedule.status ≠ .cancelled ∧
    school.enrolled schedule.classId dto.studentId = true ∧
    school.leave dto.studentId dto.scheduleId ≠ some .approved

instance (school : School) (dto : CheckInDto) : Decidable (Admitted school dto) :=
  match h : school.schedule dto.scheduleId with
  | none => .isFalse fun ⟨_, hschedule, _⟩ => by simp [h] at hschedule
  | some schedule =>
      decidable_of_iff (schedule.status ≠ .cancelled ∧
        school.enrolled schedule.classId dto.studentId = true ∧
        school.leave dto.studentId dto.scheduleId ≠ some .approved)
        ⟨fun hrest => ⟨schedule, h, hrest⟩, fun ⟨s, hs, hrest⟩ => by
          rw [h] at hs
          cases hs
          exact hrest⟩

/-- A reply that admits is true of the school. -/
def Truthful (school : School) : (q : LessonStmt) → q.Reply → Prop
  | .read (.findClassStudent classId studentId), .ok enrolled =>
      enrolled = true → school.enrolled classId studentId = true
  | .read (.findLeaveRequest studentId scheduleId), .ok leave =>
      leave ≠ some .approved → school.leave studentId scheduleId ≠ some .approved
  | _, _ => True

theorem truthful_exec (db : LessonDb) (env : Env) (q : LessonStmt) :
    Truthful db.school q (lessonClient.exec db env q).1 := by
  rcases q with _ | _ | r | w
  · trivial
  · trivial
  · simp only [Client.exec]
    cases env.fault with
    | true => cases r <;> trivial
    | false => cases r <;> first | trivial | exact id
  · trivial

/-- No run of the program deducts. -/
def NeverDeducts : LessonProg LessonResult → Prop
  | .ret a => isDeducted (.ret a) = false
  | .throw _ => True
  | .stmt _ k => ∀ reply, NeverDeducts (k reply)
  | .start _ p | .commit p => NeverDeducts p

/-- Past its look at the schedule, the program deducts only if `A` holds, as long as the
replies it gets are truthful. -/
def Grounded (school : School) (A : Prop) : LessonProg LessonResult → Prop
  | .ret a => isDeducted (.ret a) = true → A
  | .throw _ => True
  | .stmt q k => (∀ id scope, q ≠ .read (.findSchedule id scope)) ∧
      ∀ reply, Truthful school q reply → Grounded school A (k reply)
  | .start _ p | .commit p => A ∨ NeverDeducts p

/-- A change that leaves `A` in place leaves the program on its ground. -/
theorem Grounded.apply {school : School} {change : SchoolChange} {A A' : Prop} (himp : A → A')
    {p : LessonProg LessonResult} (h : Grounded school A p) : Grounded (change.apply school) A' p := by
  induction p with
  | ret a => exact fun hdeducted => himp (h hdeducted)
  | throw e => trivial
  | stmt q k ih =>
      refine ⟨h.1, fun reply htruthful => ih reply (h.2 reply ?_)⟩
      rcases q with _ | _ | r | w
      · trivial
      · trivial
      · cases r with
        | findClassStudent classId studentId =>
            cases reply with
            | error e => trivial
            | ok enrolled => exact fun henrolled => enrolled_of_apply (htruthful henrolled)
        | findLeaveRequest studentId scheduleId =>
            cases reply with
            | error e => trivial
            | ok leave => exact fun hleave => leave_of_apply (htruthful hleave)
        | _ => cases reply <;> trivial
      · trivial
  | start _ p | commit p => exact h.imp_left himp

section Grounded

variable {school : School} {A : Prop}

theorem grounded_find {r : LessonRead} {k : r.Row → LessonProg LessonResult}
    (hr : ∀ id scope, r ≠ .findSchedule id scope)
    (h : ∀ row, Truthful school (.read r) (.ok row) → Grounded school A (k row)) :
    Grounded school A ((find r).bind k) := by
  refine ⟨fun id scope heq => hr id scope (by simpa using heq), fun reply htruthful => ?_⟩
  cases reply with
  | error _ => trivial
  | ok row => exact h row htruthful

theorem grounded_checkMethod {outside : Geofence} {dto : CheckInDto} {venue : Venue} {now : Int}
    {k : Unit → LessonProg LessonResult} (h : Grounded school A (k ())) :
    Grounded school A ((checkMethod outside dto venue now).bind k) := by
  unfold checkMethod
  split
  · exact h
  · split
    · trivial
    · rw [Prog.bind_eq, Prog.bind_assoc]
      refine grounded_find (by simp) fun record _ => ?_
      split
      · exact h
      · trivial
  · split
    · split
      · split
        · trivial
        · exact h
      · trivial
    · trivial

/-- A record that is not to be paid for is never deducted. -/
theorem neverDeducts_upsertAttendance (ambient : Ambient) {studentId scheduleId : String}
    {params : AttendanceParams} (h : params.skipDeduct = true) :
    NeverDeducts (upsertAttendance ambient studentId scheduleId params) := by
  have hamount : params.amountToDeduct = none := by simp [AttendanceParams.amountToDeduct, h]
  intro reply
  cases reply with
  | error _ => trivial
  | ok record =>
      simp only [hamount]
      rfl

/-- A check-in looks at its schedule, and stands on the three checks from there on. -/
theorem checkIn_grounded (outside : Geofence) (ambient : Ambient) (dto : CheckInDto)
    (school : School) (env : Env) (db : LessonDb) (hdb : db.school = school) :
    ∃ k, checkIn outside ambient dto =
        .stmt (.read (.findSchedule dto.scheduleId (resolveTenantWhere ambient))) k ∧
      Grounded school (Admitted school dto) (k (lessonClient.exec db env
        (.read (.findSchedule dto.scheduleId (resolveTenantWhere ambient)))).1) := by
  refine ⟨_, rfl, ?_⟩
  simp only [Client.exec]
  generalize hscope : resolveTenantWhere ambient = scope
  cases env.fault with
  | true => trivial
  | false =>
      have hfound : lessonClient.find (lessonClient.rows db) (.findSchedule dto.scheduleId scope) =
          school.findSchedule dto.scheduleId scope := hdb ▸ rfl
      simp only [Bool.false_eq_true, if_false, hfound]
      show Grounded school _ ((orRethrow (.ok (school.findSchedule dto.scheduleId scope))).bind _)
      simp only [orRethrow, Prog.ret_bind]
      split
      · trivial
      · rename_i schedule hvisible
        have hschedule := (Option.filter_eq_some_iff.mp hvisible).1
        split
        · trivial
        · rename_i hstatus
          refine grounded_find (by simp) fun enrolled henrolled => ?_
          split
          · trivial
          · rename_i hnot
            refine grounded_find (by simp) fun leave hleave => ⟨by simp, fun now _ => ?_⟩
            simp only [Prog.ret_bind]
            split
            · exact Or.inr (neverDeducts_upsertAttendance ambient rfl)
            · rename_i happroved
              split
              · exact Or.inr (neverDeducts_upsertAttendance ambient rfl)
              · refine grounded_checkMethod (Or.inl ?_)
                exact ⟨schedule, hschedule, hstatus, henrolled (by simpa using hnot), hleave happroved⟩

end Grounded

/-! ### The desk -/

/-- The check-in a thread runs. -/
def checkInOf (th : LessonThread) : Option CheckInDto :=
  match th.call with
  | .checkIn _ dto => some dto
  | _ => none

/-- Past the read of the schedule, and not at its end. -/
def underWay (th : LessonThread) : Bool :=
  th.tx.isSome ||
    match th.prog with
    | .stmt (.read (.findSchedule _ _)) _ | .ret _ | .throw _ => false
    | _ => true

inductive DeskAction where
  | lesson (a : LessonAction)
  | school (change : SchoolChange)

def deskStep (outside : Geofence) (w : LessonWorld) : DeskAction → Option LessonWorld
  | .lesson a => w.step (lessonSystem outside) a
  | .school change =>
      some { w with committed := { w.committed with school := change.apply w.committed.school } }

/-- The lesson calls and the four operations on the school, in any order. -/
def desk (outside : Geofence) : Machine LessonWorld DeskAction where
  init w := w.threads = []
  step := deskStep outside

/-- The run condition: an operation on the school leaves every check-in that is under way
admitted, if it was. -/
def SparesCheckIns (w : LessonWorld) : DeskAction → Prop
  | .lesson _ => True
  | .school change => ∀ th ∈ w.threads, underWay th = true → ∀ dto ∈ checkInOf th,
      Admitted w.committed.school dto → Admitted (change.apply w.committed.school) dto

instance (w : LessonWorld) : ∀ a, Decidable (SparesCheckIns w a)
  | .lesson _ => .isTrue trivial
  | .school _ => inferInstanceAs (Decidable (∀ th ∈ w.threads, _))

/-- Where a check-in stands while the school is as it is: at its start, at its end, on its
ground, or in a transaction that deducts only if it is admitted. -/
structure Standing (outside : Geofence) (school : School) (th : LessonThread) (dto : CheckInDto) :
    Prop where
  closes : th.prog.Closes
  ground : match th.tx with
    | some _ => Admitted school dto ∨ NeverDeducts th.prog
    | none => (∃ ambient, th.prog = checkIn outside ambient dto) ∨ th.prog.result?.isSome ∨
        th.prog.error?.isSome ∨ Grounded school (Admitted school dto) th.prog

def StandingWorld (outside : Geofence) (w : LessonWorld) : Prop :=
  ∀ th ∈ w.threads, ∀ dto ∈ checkInOf th, Standing outside w.committed.school th dto

/-- A deduction that a check-in commits in this step is one it is admitted to. -/
def DeductsAdmitted (w : LessonWorld) (a : DeskAction) (w' : LessonWorld) : Prop :=
  ∀ t env, a = .lesson (.run t env) → ∀ th ∈ w.threads[t]?, ∀ dto ∈ checkInOf th,
    w'.committed.transactions ≠ w.committed.transactions → Admitted w'.committed.school dto

theorem checkInOf_eq {th : LessonThread} {dto : CheckInDto} :
    checkInOf th = some dto ↔ ∃ ambient, th.call = .checkIn ambient dto := by
  obtain ⟨call, prog, tx⟩ := th
  cases call <;> simp [checkInOf]

/-! ### The lesson calls leave the school alone -/

theorem school_of_exec (q : LessonStmt) (env : Env) (db : LessonDb) :
    (lessonClient.engine.exec q env db).2.school = db.school := by
  rcases q with _ | _ | r | w
  · rfl
  · rfl
  · rfl
  · show (if env.fault then (.error .other, db) else db.write w : _ × _).2.school = _
    split
    · rfl
    · cases w with
      | createCard card =>
          simp only [LessonDb.write, LessonDb.createCard]
          split
          · split <;> rfl
          · rfl
      | updateCard id scope data =>
          simp only [LessonDb.write, LessonDb.updateCard]
          split
          · split <;> rfl
          · rfl
      | updateManyCards u => rfl
      | createTransaction row =>
          simp only [LessonDb.write, LessonDb.createTransaction]
          split
          · split <;> rfl
          · rfl
      | upsertAttendance row =>
          simp only [LessonDb.write, LessonDb.upsertAttendance]
          split
          · rfl
          · split <;> rfl

/-! ### A check-in ends with its transaction -/

theorem upsertAttendance_closes (ambient : Ambient) (studentId scheduleId : String)
    (params : AttendanceParams) : (upsertAttendance ambient studentId scheduleId params).Closes := by
  refine Prog.closes_transaction fun reply => ?_
  cases reply with
  | error _ => trivial
  | ok record =>
      dsimp only
      split
      · exact (deductLessonsForCheckIn_only _ studentId scheduleId _).plain.bind fun _ => trivial
      · trivial

theorem checkMethod_plain (outside : Geofence) (dto : CheckInDto) (venue : Venue) (now : Int) :
    (checkMethod outside dto venue now).Plain := by
  unfold checkMethod
  split
  · trivial
  · split
    · trivial
    · refine (plain_find _).bind fun record => ?_
      split <;> trivial
  · split
    · split
      · split <;> trivial
      · trivial
    · trivial

theorem checkIn_closes (outside : Geofence) (ambient : Ambient) (dto : CheckInDto) :
    (checkIn outside ambient dto).Closes := by
  refine (plain_find _).bind_closes fun schedule => ?_
  split
  · trivial
  · split
    · trivial
    · refine (plain_find _).bind_closes fun enrolled => ?_
      split
      · trivial
      · refine (plain_find _).bind_closes fun leave now => ?_
        simp only [Prog.ret_bind]
        split
        · exact upsertAttendance_closes _ _ _ _
        · split
          · exact upsertAttendance_closes _ _ _ _
          · exact (checkMethod_plain outside dto _ now).bind_closes fun _ =>
              upsertAttendance_closes _ _ _ _

/-! ### Standing is kept -/

section Standing

variable {outside : Geofence}

/-- An operation on the school that leaves a check-in under way admitted. -/
theorem Standing.apply {school : School} {th : LessonThread} {dto : CheckInDto} {change : SchoolChange}
    (h : Standing outside school th dto)
    (hspares : underWay th = true → Admitted school dto → Admitted (change.apply school) dto) :
    Standing outside (change.apply school) th dto := by
  obtain ⟨call, prog, tx⟩ := th
  refine ⟨h.closes, ?_⟩
  have hground := h.ground
  cases tx with
  | some tx => exact hground.imp_left (hspares rfl)
  | none =>
      rcases hground with hstart | hdone | hfailed | hgrounded
      · exact Or.inl hstart
      · exact Or.inr (Or.inl hdone)
      · exact Or.inr (Or.inr (Or.inl hfailed))
      · cases prog with
        | ret a => exact Or.inr (Or.inl rfl)
        | throw e => exact Or.inr (Or.inr (Or.inl rfl))
        | stmt q k =>
            have hway : underWay (⟨call, .stmt q k, none⟩ : LessonThread) = true := by
              simp only [underWay, Option.isSome_none, Bool.false_or]
              split
              · rename_i id scope _ heq
                cases heq
                exact absurd rfl (hgrounded.1 id scope)
              · rename_i heq
                cases heq
              · rename_i heq
                cases heq
              · rfl
            exact Or.inr (Or.inr (Or.inr (hgrounded.apply (hspares hway))))
        | start isolation p => exact Or.inr (Or.inr (Or.inr (hgrounded.apply (hspares rfl))))
        | commit p => exact Or.inr (Or.inr (Or.inr (hgrounded.apply (hspares rfl))))

/-- A check-in goes on standing, and what it comes to return as deducted it is admitted
to. -/
theorem Standing.run {th th' : LessonThread} {dto : CheckInDto} {db db' : LessonDb} {env : Env}
    (h : Standing outside db.school th dto)
    (hrun : th.run lessonClient.engine db env = some (th', db')) :
    Standing outside db.school th' dto ∧
      (th'.tx = none → isDeducted th'.prog = true → Admitted db.school dto) := by
  obtain ⟨call, prog, tx⟩ := th
  obtain ⟨hcloses, hground⟩ := h
  cases tx with
  | none =>
      cases prog with
      | ret _ | throw _ | commit _ => cases hrun
      | stmt q k =>
          cases hrun
          have hgrounded : Grounded db.school (Admitted db.school dto)
              (k (lessonClient.engine.exec q env db).1) := by
            rcases hground with ⟨ambient, hstart⟩ | hdone | hfailed | hgrounded
            · obtain ⟨k', hk', hrest⟩ := checkIn_grounded outside ambient dto db.school env db rfl
              cases hstart.trans hk'
              exact hrest
            · cases hdone
            · cases hfailed
            · exact hgrounded.2 _ (truthful_exec db env q)
          refine ⟨⟨hcloses _, Or.inr (Or.inr (Or.inr hgrounded))⟩, fun _ hdeducted => ?_⟩
          revert hgrounded hdeducted
          cases k (lessonClient.engine.exec q env db).1 with
          | ret a => exact fun hgrounded hdeducted => hgrounded hdeducted
          | _ => exact fun _ hdeducted => by cases hdeducted
      | start isolation p =>
          cases hrun
          rcases hground with ⟨ambient, hstart⟩ | hdone | hfailed | hgrounded
          · cases hstart
          · cases hdone
          · cases hfailed
          · exact ⟨⟨hcloses, hgrounded⟩, fun hnone => by cases hnone⟩
  | some tx =>
      cases prog with
      | ret _ | throw _ | start _ _ => cases hrun
      | stmt q k =>
          obtain ⟨work, -, heq⟩ := Option.map_eq_some_iff.mp hrun
          cases heq
          exact ⟨⟨hcloses _, hground.imp_right fun hnever => hnever _⟩, fun hnone => by cases hnone⟩
      | commit p =>
          obtain ⟨work, -, heq⟩ := Option.map_eq_some_iff.mp hrun
          cases heq
          obtain ⟨a, rfl⟩ := hcloses
          refine ⟨⟨trivial, Or.inr (Or.inl rfl)⟩, fun _ hdeducted => ?_⟩
          rcases hground with hadmitted | hnever
          · exact hadmitted
          · rw [show isDeducted (.ret a) = false from hnever] at hdeducted
            cases hdeducted

/-- A lesson step keeps every check-in standing. -/
theorem StandingWorld.lesson {w w' : LessonWorld} {a : LessonAction} (h : StandingWorld outside w)
    (hstep : w.step (lessonSystem outside) a = some w') : StandingWorld outside w' := by
  have hschool : w'.committed.school = w.committed.school :=
    World.step_keeps (f := LessonDb.school) school_of_exec hstep
  intro th hth dto hdto
  rw [hschool]
  cases a with
  | spawn c =>
      cases hstep
      rcases List.mem_append.mp hth with hold | hnew
      · exact h th hold dto hdto
      · obtain rfl := List.mem_singleton.mp hnew
        obtain ⟨ambient, hcall⟩ := checkInOf_eq.mp hdto
        obtain rfl : c = .checkIn ambient dto := hcall
        exact ⟨checkIn_closes outside ambient dto, Or.inl ⟨ambient, rfl⟩⟩
  | run t env =>
      simp only [World.step] at hstep
      split at hstep
      · rename_i tu hu
        obtain ⟨⟨tu', db'⟩, hrun, heq⟩ := Option.map_eq_some_iff.mp hstep
        cases heq
        rcases List.mem_or_eq_of_mem_set hth with hold | rfl
        · exact h th hold dto hdto
        · obtain ⟨ambient, hcall'⟩ := checkInOf_eq.mp hdto
          have hcall := (Thread.run_call hrun).symm.trans hcall'
          exact ((h tu (List.mem_of_getElem? hu) dto (checkInOf_eq.mpr ⟨ambient, hcall⟩)).run hrun).1
      · cases hstep
  | abort t =>
      simp only [World.step] at hstep
      split at hstep
      · split at hstep
        · cases hstep
        · cases hstep
          rcases List.mem_or_eq_of_mem_set hth with hold | rfl
          · exact h th hold dto hdto
          · exact ⟨trivial, Or.inr (Or.inr (Or.inl rfl))⟩
      · cases hstep

/-- A step that books a deduction is the commit of a check-in that returns it. -/
theorem deductsAdmitted_of_effect {w w' : LessonWorld} {a : LessonAction}
    (h : StandingWorld outside w) (hstep : w.step (lessonSystem outside) a = some w')
    (heffect : World.Effect (lessonSystem outside) (ledgerContract fun _ => True) w a w') :
    DeductsAdmitted w (.lesson a) w' := by
  intro t env haction th hth dto hdto hchanged
  obtain rfl : a = .run t env := by cases haction; rfl
  cases heffect with
  | quiet committed _ => exact absurd (congrArg LessonDb.transactions committed) hchanged
  | commit u env' tu rest action found _ threads commits =>
      cases action
      cases found.symm.trans hth
      obtain ⟨ambient, hcall⟩ := checkInOf_eq.mp hdto
      have hschool : w'.committed.school = w.committed.school :=
        World.step_keeps (f := LessonDb.school) school_of_exec hstep
      have hlt := (List.getElem?_eq_some_iff.mp hth).1
      simp only [World.step, Option.mem_def.mp hth] at hstep
      obtain ⟨⟨th', db'⟩, hrun, heq⟩ := Option.map_eq_some_iff.mp hstep
      cases heq
      obtain rfl : th' = { th with prog := rest, tx := none } := by
        have hsame := congrArg (fun ths => ths[t]?) threads
        simpa [List.getElem?_set_self hlt] using hsame
      have hstanding := (h th (List.mem_of_getElem? hth) dto hdto).run hrun
      rw [hschool]
      cases commits.post with
      | unchanged same _ => exact absurd same.transactions hchanged
      | checkedIn _ _ _ _ _ _ _ result => exact hstanding.2 rfl result
      | adjusted _ _ _ _ _ _ call _ _ _ _ _ _ _ => cases hcall.symm.trans call
      | created _ _ _ call _ _ _ _ _ => cases hcall.symm.trans call
      | patched _ _ _ _ call _ _ _ _ _ _ _ => cases hcall.symm.trans call

end Standing

/-! ### Deductions are admitted -/

/-- What holds of every world of the desk. -/
def DeskInv (outside : Geofence) (w : LessonWorld) : Prop :=
  StandingWorld outside w ∧ w.Inv lessonClient.engine (ledgerContract fun _ => True)

theorem desk_step {outside : Geofence} {w w' : LessonWorld} {a : DeskAction} (h : DeskInv outside w)
    (hok : SparesCheckIns w a) (hstep : (desk outside).step w a = some w') :
    DeskInv outside w' ∧ DeductsAdmitted w a w' := by
  obtain ⟨hstanding, hinv⟩ := h
  cases a with
  | lesson a =>
      have hadmits : (ledgerContract fun _ => True).Admits a := by
        cases a <;> trivial
      obtain ⟨hinv', heffect⟩ := step_contract (fun c _ => (program_safe outside c).1) hinv hadmits hstep
      exact ⟨⟨hstanding.lesson hstep, hinv'⟩, deductsAdmitted_of_effect hstanding hstep heffect⟩
  | school change =>
      cases hstep
      refine ⟨⟨fun th hth dto hdto => ?_, ⟨trivial, fun th hth => ?_⟩⟩, fun t env haction => by cases haction⟩
      · exact (hstanding th hth dto hdto).apply fun hway => hok th hth hway dto hdto
      · obtain ⟨hcall, hthread⟩ := hinv.threads th hth
        exact ⟨hcall, hthread.evolve trivial⟩

/-- **A deduction is admitted when it commits**, in every run of lesson calls beside the
four operations in which none of these takes the admission from a check-in that has read
its schedule and has not ended. -/
theorem deducted_while_admitted (outside : Geofence) {w w' : LessonWorld} {a : DeskAction}
    (h : (desk outside).ReachableBy SparesCheckIns w) (hok : SparesCheckIns w a)
    (hstep : (desk outside).step w a = some w') : DeductsAdmitted w a w' := by
  have hw : DeskInv outside w := by
    refine h.invariant (fun w hinit => ?_) fun w a w' hw hok hstep => (desk_step hw hok hstep).1
    have hempty : w.threads = [] := hinit
    exact ⟨fun th hth => by simp [hempty] at hth, ⟨trivial, fun th hth => by simp [hempty] at hth⟩⟩
  exact (desk_step hw hok hstep).2

/-- A check-in of the student to the schedule, four statements of it, an operation on the
school, and all of the transaction but its commit. -/
def checkInAround (change : SchoolChange) : List DeskAction :=
  [.lesson (.spawn (.checkIn administrator
    { studentId := "st1", scheduleId := "s1", method := .manual }))] ++
  (steps 0 4).map .lesson ++ [.school change] ++ (steps 0 7).map .lesson

/-- The grace period is prolonged while the check-in is under way. -/
theorem deducted_while_admitted_prolonged :
    ∃ w w', (desk nowhere).exec { committed := oneCardDb } (checkInAround
        (.updateSchedule "s1" { lateGraceMinutes := some 30 })) = some w ∧
      (desk nowhere).step w (.lesson (.run 0 {})) = some w' ∧
      w'.committed.transactions.rows.length = 1 ∧ DeductsAdmitted w (.lesson (.run 0 {})) w' := by
  refine ⟨_, _, (Option.some_get (by decide +kernel)).symm, (Option.some_get (by decide +kernel)).symm,
    by decide +kernel, ?_⟩
  exact deducted_while_admitted nowhere
    (Machine.reachableBy_exec_get rfl (by decide +kernel) (by decide +kernel)) trivial
    (Option.some_get (by decide +kernel)).symm

theorem not_deductsAdmitted {w w' : LessonWorld} {t : Nat} {env : Env} {dto : CheckInDto}
    (hcall : w.threads[t]?.bind checkInOf = some dto)
    (hbooked : w'.committed.transactions.rows.length ≠ w.committed.transactions.rows.length)
    (hnot : ¬ Admitted w'.committed.school dto) : ¬ DeductsAdmitted w (.lesson (.run t env)) w' := by
  intro h
  obtain ⟨th, hth, hdto⟩ := Option.bind_eq_some_iff.mp hcall
  exact hnot (h t env rfl th hth dto hdto fun heq => hbooked (by rw [heq]))

/-- With `change` between the checks and the transaction of a check-in, a deduction that is
not admitted commits. -/
def DeductsThough (change : SchoolChange) : Prop :=
  ∃ w w', (desk nowhere).exec { committed := oneCardDb } (checkInAround change) = some w ∧
    (desk nowhere).Reachable w ∧ (desk nowhere).step w (.lesson (.run 0 {})) = some w' ∧
      ¬ DeductsAdmitted w (.lesson (.run 0 {})) w'

theorem deducted_though_undercut :
    DeductsThough (.deleteSchedule "s1") ∧ DeductsThough (.unenrollStudent "k1" "st1") ∧
      DeductsThough (.createLeaveRequest "st1" "s1") := by
  have hrun : ∀ {change} (h : ((desk nowhere).exec { committed := oneCardDb } (checkInAround change)).isSome),
      (desk nowhere).Reachable (Option.get _ h) :=
    fun h => Machine.reachableBy_exec_get rfl (Machine.admits_true _ _) h
  refine ⟨?_, ?_, ?_⟩
  all_goals
    exact ⟨_, _, (Option.some_get (by decide +kernel)).symm, hrun (by decide +kernel),
      (Option.some_get (by decide +kernel)).symm,
      not_deductsAdmitted (Option.some_get (by decide +kernel)).symm (by decide +kernel)
        (by decide +kernel)⟩

end MibServer.Lessons
