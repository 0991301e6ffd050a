import MibServer.Courses.References

/-!
Rows and the rows they refer to, of one tenant.

`TenantsAgree` is kept by a write exactly when the ids it takes from its DTO lead to rows of
the tenant its row has (`write_agrees_iff`). Three of the nine calls see to that themselves:
a venue and a course type refer to nothing, and a card is for a student its user may see and
gets that student's tenant. The other six check at most one of the rows they name.
-/

namespace MibServer.Courses

open MibServer.Lib MibServer.Tenancy

/-! ### Agreement -/

def Schedule.Agrees (roster : Roster) (db : CourseDb) (s : Schedule) : Prop :=
  db.klass s.classId = some s.tenantId ∧ roster.coach s.coachId = some s.tenantId ∧
    db.venue s.venueId = some s.tenantId

def ClassStudent.Agrees (roster : Roster) (db : CourseDb) (e : ClassStudent) : Prop :=
  ∃ t, db.klass e.classId = some t ∧ roster.student e.studentId = some t

def Class.Agrees (roster : Roster) (db : CourseDb) (k : Class) : Prop :=
  db.courseType k.courseTypeId = some k.tenantId ∧
    ∀ coachId ∈ k.coachId, roster.coach coachId = some k.tenantId

/-- The card has its student's tenant. -/
def CardAgrees (roster : Roster) (m : Lessons.MembershipCard) : Prop :=
  roster.student m.studentId = some m.tenantId

/-- Every row has one tenant with the rows it refers to. -/
structure TenantsAgree (roster : Roster) (db : CourseDb) : Prop where
  schedules : ∀ s ∈ db.scheduling.schedules.rows, s.Agrees roster db
  enrolments : ∀ e ∈ db.classStudents.rows, e.Agrees roster db
  classes : ∀ k ∈ db.classes.rows, k.Agrees roster db
  cards : ∀ m ∈ db.cards.rows, CardAgrees roster m

/-- Every row keeps its tenant. -/
structure Keeps (db db' : CourseDb) : Prop where
  courseType : ∀ id t, db.courseType id = some t → db'.courseType id = some t
  venue : ∀ id t, db.venue id = some t → db'.venue id = some t
  klass : ∀ id t, db.klass id = some t → db'.klass id = some t

theorem Keeps.refl (db : CourseDb) : Keeps db db := ⟨fun _ _ => id, fun _ _ => id, fun _ _ => id⟩

/-- A row with foreign keys that a write stores, if it stores one. -/
inductive Stored where
  | nothing
  | schedule (s : Schedule)
  | enrolment (e : ClassStudent)
  | klass (k : Class)
  | card (m : Lessons.MembershipCard)

def Stored.Agrees (roster : Roster) (db : CourseDb) : Stored → Prop
  | .nothing => True
  | .schedule s => s.Agrees roster db
  | .enrolment e => e.Agrees roster db
  | .klass k => k.Agrees roster db
  | .card m => CardAgrees roster m

/-- The row is in its table. -/
def Stored.In (db : CourseDb) : Stored → Prop
  | .nothing => True
  | .schedule s => s ∈ db.scheduling.schedules.rows
  | .enrolment e => e ∈ db.classStudents.rows
  | .klass k => k ∈ db.classes.rows
  | .card m => m ∈ db.cards.rows

/-- What a write leaves: the rows that were there, and the one it stores. -/
structure Stores (db db' : CourseDb) (row : Stored) : Prop where
  keeps : Keeps db db'
  schedules : ∀ s ∈ db'.scheduling.schedules.rows, s ∈ db.scheduling.schedules.rows ∨ row = .schedule s
  enrolments : ∀ e ∈ db'.classStudents.rows, e ∈ db.classStudents.rows ∨ row = .enrolment e
  classes : ∀ k ∈ db'.classes.rows, k ∈ db.classes.rows ∨ row = .klass k
  cards : ∀ m ∈ db'.cards.rows, m ∈ db.cards.rows ∨ row = .card m
  stored : row.In db'

/-- **Only the stored row matters**: the tables agree after a write exactly when the row it
stores does. -/
theorem TenantsAgree.stores_iff {roster : Roster} {db db' : CourseDb} {row : Stored}
    (h : TenantsAgree roster db) (hstores : Stores db db' row) :
    TenantsAgree roster db' ↔ row.Agrees roster db' := by
  have hkeeps := hstores.keeps
  constructor
  · intro h'
    have hrow := hstores.stored
    cases row with
    | nothing => trivial
    | schedule s => exact h'.schedules s hrow
    | enrolment e => exact h'.enrolments e hrow
    | klass k => exact h'.classes k hrow
    | card m => exact h'.cards m hrow
  · intro hrow
    refine ⟨fun s hs => ?_, fun e he => ?_, fun k hk => ?_, fun m hm => ?_⟩
    · rcases hstores.schedules s hs with hold | rfl
      · obtain ⟨hclass, hcoach, hvenue⟩ := h.schedules s hold
        exact ⟨hkeeps.klass _ _ hclass, hcoach, hkeeps.venue _ _ hvenue⟩
      · exact hrow
    · rcases hstores.enrolments e he with hold | rfl
      · obtain ⟨t, hclass, hstudent⟩ := h.enrolments e hold
        exact ⟨t, hkeeps.klass _ _ hclass, hstudent⟩
      · exact hrow
    · rcases hstores.classes k hk with hold | rfl
      · obtain ⟨htype, hcoach⟩ := h.classes k hold
        exact ⟨hkeeps.courseType _ _ htype, hcoach⟩
      · exact hrow
    · rcases hstores.cards m hm with hold | rfl
      · exact h.cards m hold
      · exact hrow

/-! ### The condition on a write -/

/-- The row of this id, if there is one, is of tenant `t`. -/
def Of (tenantOf : String → Option (Option String)) (t : Option String) (id : String) : Prop :=
  ∀ t' ∈ tenantOf id, t' = t

instance (tenantOf : String → Option (Option String)) (t : Option String) (id : String) :
    Decidable (Of tenantOf t id) := inferInstanceAs (Decidable (∀ t' ∈ tenantOf id, _))

theorem of_iff {tenantOf : String → Option (Option String)} {t : Option String} {id : String}
    (h : (tenantOf id).isSome = true) : tenantOf id = some t ↔ Of tenantOf t id := by
  obtain ⟨t', ht'⟩ := Option.isSome_iff_exists.mp h
  simp [Of, ht']

/-- The ids the request takes from its DTO are of rows of the tenant that its row has: the
one the extension stores it with, that of its class, or its own. -/
def Checked.RefersWithin (ambient : Ambient) (roster : Roster) (db : CourseDb) : Checked → Prop
  | .createCourseType _ _ | .createVenue _ _ | .createMembership _ _ _ => True
  | .createClass _ dto =>
      Of db.courseType (storedTenant ambient none) dto.courseTypeId ∧
        ∀ coachId ∈ dto.coachId, Of roster.coach (storedTenant ambient none) coachId
  | .updateClass id dto => ∀ t ∈ db.klass id,
      (∀ courseTypeId ∈ dto.courseTypeId, Of db.courseType t courseTypeId) ∧
        ∀ coachId ∈ dto.coachId.join, Of roster.coach t coachId
  | .enrollStudent classId studentId => ∀ t ∈ db.klass classId, Of roster.student t studentId
  | .createSchedule _ dto => ∀ t ∈ db.klass dto.classId,
      storedTenant ambient t = t ∧ Of roster.coach t dto.coachId ∧ Of db.venue t dto.venueId
  | .updateSchedule call => ∀ t ∈ db.schedule call.id,
      (∀ classId ∈ call.dto.classId, Of db.klass t classId) ∧
        (∀ coachId ∈ call.dto.coachId, Of roster.coach t coachId) ∧
        ∀ venueId ∈ call.dto.venueId, Of db.venue t venueId
  | .updateMembership id dto => ∀ t ∈ db.card id,
      ∀ studentId ∈ dto.studentId, Of roster.student t studentId

/-- What the checks have read still holds when the write runs: no call changes a student. -/
def Checked.Current (ambient : Ambient) (roster : Roster) : Checked → Prop
  | .createMembership _ dto tenantId =>
      roster.student dto.studentId = some tenantId ∧ Admitted ambient tenantId
  | _ => True

/-- A tenant the filter has admitted is stored as it is. -/
theorem storedTenant_of_admitted {ambient : Ambient} {t : Option String} (h : Admitted ambient t) :
    storedTenant ambient t = t := by
  cases hstamp : stamp ambient with
  | none => simp [storedTenant, hstamp]
  | some pair =>
      obtain ⟨tenant, htenant, -⟩ := Option.bind_eq_some_iff.mp hstamp
      have hadmits := h tenant htenant
      cases t with
      | none => cases tenant <;> cases hadmits
      | some t => rfl

/-! ### What each write stores -/

section Writes

variable {ambient : Ambient} {roster : Roster} {db db' : CourseDb}

theorem createCourseType_stores {id : String} {dto : CreateCourseTypeDto}
    (h : createCourseType ambient db id dto = .ok db') : Stores db db' .nothing := by
  obtain ⟨courseTypes, hinsert, h⟩ := bind_ok h
  cases h
  refine ⟨{ Keeps.refl db with courseType := fun id t ht => ?_ }, fun _ => Or.inl, fun _ => Or.inl,
    fun _ => Or.inl, fun _ => Or.inl, trivial⟩
  exact Indexed.labelOf_insert? (orThrow_ok hinsert) ht

theorem createVenue_stores {id : String} {dto : CreateVenueDto}
    (h : createVenue ambient db id dto = .ok db') : Stores db db' .nothing := by
  obtain ⟨venues, hinsert, h⟩ := bind_ok h
  cases h
  refine ⟨{ Keeps.refl db with venue := fun id t ht => ?_ }, fun _ => Or.inl, fun _ => Or.inl,
    fun _ => Or.inl, fun _ => Or.inl, trivial⟩
  exact Indexed.labelOf_insert? (orThrow_ok hinsert) ht

theorem stores_klass {classes : ClassTable} {k : Class} (hk : k ∈ classes.rows)
    (hrows : ∀ k' ∈ classes.rows, k' ∈ db.classes.rows ∨ k' = k)
    (hkeeps : ∀ id t, db.klass id = some t → classes.labelOf Class.tenantId id = some t) :
    Stores db { db with classes } (.klass k) := by
  refine ⟨{ Keeps.refl db with klass := hkeeps }, fun _ => Or.inl, fun _ => Or.inl, fun k' hk' => ?_,
    fun _ => Or.inl, hk⟩
  exact (hrows k' hk').imp_right fun heq => by rw [heq]

theorem stores_schedule {scheduling : ScheduleDb} {s : Schedule} (hs : s ∈ scheduling.schedules.rows)
    (hrows : ∀ s' ∈ scheduling.schedules.rows, s' ∈ db.scheduling.schedules.rows ∨ s' = s) :
    Stores db { db with scheduling } (.schedule s) := by
  refine ⟨{ Keeps.refl db with }, fun s' hs' => ?_, fun _ => Or.inl, fun _ => Or.inl, fun _ => Or.inl, hs⟩
  exact (hrows s' hs').imp_right fun heq => by rw [heq]

theorem stores_enrolment {classStudents : ClassStudentTable}
    {e : ClassStudent} (he : e ∈ classStudents.rows)
    (hrows : ∀ e' ∈ classStudents.rows, e' ∈ db.classStudents.rows ∨ e' = e) :
    Stores db { db with classStudents } (.enrolment e) := by
  refine ⟨{ Keeps.refl db with }, fun _ => Or.inl, fun e' he' => ?_, fun _ => Or.inl, fun _ => Or.inl, he⟩
  exact (hrows e' he').imp_right fun heq => by rw [heq]

theorem stores_card {cards : Indexed Lessons.MembershipCard String Lessons.MembershipCard.keys}
    {m : Lessons.MembershipCard} (hm : m ∈ cards.rows)
    (hrows : ∀ m' ∈ cards.rows, m' ∈ db.cards.rows ∨ m' = m) :
    Stores db { db with cards } (.card m) := by
  refine ⟨{ Keeps.refl db with }, fun _ => Or.inl, fun _ => Or.inl, fun _ => Or.inl, fun m' hm' => ?_, hm⟩
  exact (hrows m' hm').imp_right fun heq => by rw [heq]

/-- A class row whose foreign keys hold agrees when they lead to its own tenant. -/
theorem Class.agrees_iff {k : Class} (h : k.references roster db = true) :
    k.Agrees roster db ↔ Of db.courseType k.tenantId k.courseTypeId ∧
      ∀ coachId ∈ k.coachId, Of roster.coach k.tenantId coachId := by
  obtain ⟨htype, hcoach⟩ := Bool.and_eq_true_iff.mp h
  refine and_congr (of_iff htype) (forall₂_congr fun coachId hmem => of_iff ?_)
  rw [Option.mem_def.mp hmem] at hcoach
  exact hcoach

theorem createClass_agrees_iff {id : String} {dto : CreateClassDto} (hagree : TenantsAgree roster db)
    (h : createClass ambient roster db id dto = .ok db') :
    TenantsAgree roster db' ↔ (Checked.createClass id dto).RefersWithin ambient roster db := by
  obtain ⟨_, hreferences, h⟩ := bind_ok h
  obtain ⟨classes, hinsert, h⟩ := bind_ok h
  cases h
  have hmem := fun k => Indexed.mem_insert? (orThrow_ok hinsert) (r := k)
  have hstores := stores_klass ((hmem _).mpr (Or.inr rfl)) (fun k => (hmem k).mp)
    fun _ _ => Indexed.labelOf_insert? (orThrow_ok hinsert)
  exact (hagree.stores_iff hstores).trans (Class.agrees_iff (require_ok hreferences))

theorem findVisible_some {R : Type} {keys : R → List String} {table : Indexed R String keys}
    {tenantId : R → Option String} {id : String} {r : R}
    (h : findVisible ambient table tenantId id = some r) : r ∈ table.rows ∧ id ∈ keys r := by
  unfold findVisible at h
  have hselected := List.find?_some h
  rw [Bool.and_eq_true] at hselected
  exact ⟨List.mem_of_find?_eq_some h, of_decide_eq_true hselected.1⟩

/-- An update of columns with foreign keys, on a row that has been in order. -/
theorem forall_getD_iff {P : String → Prop} {x : Option String} {old : String} (hold : P old) :
    P (x.getD old) ↔ ∀ new ∈ x, P new := by
  cases x with
  | none => simp [hold]
  | some new => simp

theorem updateClass_agrees_iff {id : String} {dto : UpdateClassDto} (hagree : TenantsAgree roster db)
    (h : updateClass ambient roster db id dto = .ok db') :
    TenantsAgree roster db' ↔ (Checked.updateClass id dto).RefersWithin ambient roster db := by
  obtain ⟨k, hfind, h⟩ := bind_ok h
  obtain ⟨_, hreferences, h⟩ := bind_ok h
  obtain ⟨classes, hupdate, h⟩ := bind_ok h
  cases h
  obtain ⟨hk, hid⟩ := findVisible_some (orThrow_ok hfind)
  have hselects : ∀ k : Class, (k.id == id) = true ↔ id ∈ k.keys := by
    intro k
    rw [beq_iff_eq, Class.keys, List.mem_singleton]
    exact eq_comm
  obtain ⟨hnew, hrows⟩ := Indexed.mem_updateWhere?_of_entry (orThrow_ok hupdate)
    (fun k => (hselects k).mp) hk ((hselects k).mpr hid)
  have hlabel : ∀ i, classes.labelOf Class.tenantId i = db.klass i :=
    Indexed.labelOf_updateWhere? (orThrow_ok hupdate) (fun _ => rfl) (fun _ => rfl)
  have hstores := stores_klass hnew hrows fun i t ht => (hlabel i).trans ht
  have htenant : db.klass id = some k.tenantId := Indexed.labelOf_of_mem hk hid
  obtain ⟨htype, hcoach⟩ := hagree.classes k hk
  refine (hagree.stores_iff hstores).trans ((Class.agrees_iff (require_ok hreferences)).trans ?_)
  simp only [Checked.RefersWithin, htenant, Option.mem_some_iff, forall_eq']
  refine and_congr (forall_getD_iff ((of_iff (by simp [htype])).mp htype)) ?_
  cases hdto : dto.coachId with
  | none =>
      refine iff_of_true (fun coachId hmem => ?_) (by simp)
      have hcoachId : coachId ∈ k.coachId := by simpa [UpdateClassDto.apply, hdto] using hmem
      exact (of_iff (by simp [hcoach coachId hcoachId])).mp (hcoach coachId hcoachId)
  | some coachId => simp [UpdateClassDto.apply, hdto]

theorem enrollStudent_agrees_iff {classId studentId : String} (hagree : TenantsAgree roster db)
    (h : enrollStudent roster db classId studentId = .ok db') :
    TenantsAgree roster db' ↔
      (Checked.enrollStudent classId studentId).RefersWithin ambient roster db := by
  obtain ⟨_, hreferences, h⟩ := bind_ok h
  obtain ⟨hclass, hstudent⟩ := Bool.and_eq_true_iff.mp (require_ok hreferences)
  split at h
  · rename_i classStudents hinsert
    cases h
    have hmem := fun e => Indexed.mem_insert? hinsert (r := e)
    have hstores := stores_enrolment ((hmem _).mpr (Or.inr rfl)) (fun e => (hmem e).mp)
    obtain ⟨t, ht⟩ := Option.isSome_iff_exists.mp hclass
    refine (hagree.stores_iff hstores).trans ?_
    have hagrees : (Stored.enrolment ⟨classId, studentId⟩).Agrees roster { db with classStudents } ↔
        roster.student studentId = some t := by
      show (∃ t', db.klass classId = some t' ∧ _) ↔ _
      simp [ht]
    rw [hagrees, of_iff hstudent]
    simp [Checked.RefersWithin, ht]
  · cases h

/-- The row of a created schedule. -/
theorem createSchedule_row {cat : Catalogue} {tables tables' : ScheduleDb} {id : String}
    {dto : CreateScheduleDto} {s : Schedule} (h : createSchedule cat tables id dto = .ok (tables', s)) :
    cat.classTenant dto.classId = some s.tenantId ∧ s.classId = dto.classId ∧
      s.coachId = dto.coachId ∧ s.venueId = dto.venueId ∧ cat.admits s = true := by
  obtain ⟨⟨startsAt, endsAt⟩, -, h⟩ := bind_ok h
  obtain ⟨tenantId, htenant, h⟩ := bind_ok h
  obtain ⟨_, hadmits, h⟩ := bind_ok h
  obtain ⟨schedules, -, h⟩ := bind_ok h
  obtain ⟨locks, -, h⟩ := bind_ok h
  cases h
  exact ⟨orThrow_ok htenant, rfl, rfl, rfl, require_ok hadmits⟩

theorem updateScheduleTx_admits {cat : Catalogue} {tables tables' : ScheduleDb} {call : UpdateCall}
    {s : Schedule} (h : updateScheduleTx cat tables call = .ok (tables', s)) :
    s ∈ tables'.schedules.rows ∧ cat.admits s = true := by
  obtain ⟨row, hfind, h⟩ := bind_ok h
  obtain ⟨_, hadmits, h⟩ := bind_ok h
  obtain ⟨schedules, hupdate, h⟩ := bind_ok h
  obtain ⟨locks, -, h⟩ := bind_ok h
  cases h
  have hrow := orThrow_ok hfind
  have hselected := List.find?_some hrow
  refine ⟨(Indexed.mem_updateWhere? (orThrow_ok hupdate)).mpr ⟨row, ?_, if_pos hselected⟩,
    require_ok hadmits⟩
  exact List.mem_of_find?_eq_some hrow

theorem createSchedule_agrees_iff {id : String} {dto : CreateScheduleDto}
    (hagree : TenantsAgree roster db) (h : createScheduleCall ambient roster db id dto = .ok db') :
    TenantsAgree roster db' ↔ (Checked.createSchedule id dto).RefersWithin ambient roster db := by
  obtain ⟨⟨scheduling, s⟩, hcreate, h⟩ := bind_ok h
  cases h
  have hrows := (createSchedule_ok hcreate).1
  have hstores := stores_schedule ((hrows s).mpr (Or.inr rfl)) (fun s' => (hrows s').mp)
  obtain ⟨htenant, hclassId, hcoachId, hvenueId, hadmits⟩ := createSchedule_row hcreate
  obtain ⟨t, ht, hstored⟩ := Option.map_eq_some_iff.mp htenant
  simp only [Catalogue.admits, catalogue, Bool.and_eq_true] at hadmits
  refine (hagree.stores_iff hstores).trans ?_
  show (db.klass s.classId = some s.tenantId ∧ roster.coach s.coachId = some s.tenantId ∧
    db.venue s.venueId = some s.tenantId) ↔ _
  rw [of_iff hadmits.2, of_iff hadmits.1.2, hclassId, hcoachId, hvenueId, ht, ← hstored]
  simp only [Checked.RefersWithin, ht, Option.mem_some_iff, forall_eq', Option.some.injEq]
  constructor
  · rintro ⟨heq, hrest⟩
    rw [← heq] at hrest
    exact ⟨heq.symm, hrest⟩
  · rintro ⟨heq, hrest⟩
    rw [heq]
    exact ⟨rfl, hrest⟩

theorem updateSchedule_agrees_iff {call : UpdateCall} (hagree : TenantsAgree roster db)
    (h : updateScheduleCall ambient roster db call = .ok db') :
    TenantsAgree roster db' ↔ (Checked.updateSchedule call).RefersWithin ambient roster db := by
  obtain ⟨⟨scheduling, s⟩, hupdate, h⟩ := bind_ok h
  cases h
  obtain ⟨⟨row, hrow, hid, rfl⟩, hrows, -⟩ := updateScheduleTx_ok hupdate
  obtain ⟨hnew, hadmits⟩ := updateScheduleTx_admits hupdate
  simp only [Catalogue.admits, catalogue, Bool.and_eq_true, Option.isSome_map] at hadmits
  have hone : ∀ row' ∈ db.scheduling.schedules.rows, row'.id = call.id → row' = row := by
    intro row' hrow' hid'
    exact db.scheduling.schedules.unique.eq_of_mem (k := call.id) hrow' hrow
      (by simp [Schedule.keys, hid']) (by simp [Schedule.keys, hid])
  have hstores := stores_schedule hnew fun s' hs' => by
    rcases hrows s' hs' with ⟨hold, -⟩ | ⟨row', hrow', hid', rfl⟩
    · exact Or.inl hold
    · rw [hone row' hrow' hid']
      exact Or.inr rfl
  have htenant : db.schedule call.id = some row.tenantId :=
    Indexed.labelOf_of_mem hrow (by simp [Schedule.keys, hid])
  obtain ⟨hclass, hcoach, hvenue⟩ := hagree.schedules row hrow
  refine (hagree.stores_iff hstores).trans ?_
  refine (and_congr (of_iff hadmits.1.1) (and_congr (of_iff hadmits.2) (of_iff hadmits.1.2))).trans ?_
  simp only [Checked.RefersWithin, htenant, Option.mem_some_iff, forall_eq']
  refine and_congr (forall_getD_iff ?_) (and_congr (forall_getD_iff ?_) (forall_getD_iff ?_))
  · exact (of_iff (by simp [hclass])).mp hclass
  · exact (of_iff (by simp [hcoach])).mp hcoach
  · exact (of_iff (by simp [hvenue])).mp hvenue

/-- A card is created for the tenant its student has. -/
theorem createMembership_agrees {id : String} {dto : CreateMembershipDto} {tenantId : Option String}
    (hagree : TenantsAgree roster db)
    (hcurrent : (Checked.createMembership id dto tenantId).Current ambient roster)
    (h : createMembership ambient roster db id dto tenantId = .ok db') : TenantsAgree roster db' := by
  obtain ⟨validFrom, -, h⟩ := bind_ok h
  obtain ⟨validTo, -, h⟩ := bind_ok h
  obtain ⟨_, -, h⟩ := bind_ok h
  obtain ⟨cards, hinsert, h⟩ := bind_ok h
  cases h
  have hmem := fun m => Indexed.mem_insert? (orThrow_ok hinsert) (r := m)
  have hstores := stores_card ((hmem _).mpr (Or.inr rfl)) (fun m => (hmem m).mp)
  refine (hagree.stores_iff hstores).mpr ?_
  obtain ⟨hstudent, hadmitted⟩ := hcurrent
  show roster.student dto.studentId = some (storedTenant ambient tenantId)
  rw [storedTenant_of_admitted hadmitted, hstudent]

theorem updateMembership_agrees_iff {id : String} {dto : UpdateMembershipDto}
    (hagree : TenantsAgree roster db) (h : updateMembership ambient roster db id dto = .ok db') :
    TenantsAgree roster db' ↔ (Checked.updateMembership id dto).RefersWithin ambient roster db := by
  obtain ⟨m, hfind, h⟩ := bind_ok h
  obtain ⟨_, hrequired, h⟩ := bind_ok h
  obtain ⟨cards, hupdate, h⟩ := bind_ok h
  cases h
  obtain ⟨hm, hid⟩ := findVisible_some (orThrow_ok hfind)
  have hstudent := (Bool.and_eq_true_iff.mp (require_ok hrequired)).2
  have hselects : ∀ m : Lessons.MembershipCard, (m.id == id) = true ↔ id ∈ m.keys := by
    intro m
    rw [beq_iff_eq, Lessons.MembershipCard.keys, List.mem_singleton]
    exact eq_comm
  obtain ⟨hnew, hrows⟩ := Indexed.mem_updateWhere?_of_entry (orThrow_ok hupdate)
    (fun m => (hselects m).mp) hm ((hselects m).mpr hid)
  have htenant : db.card id = some m.tenantId := Indexed.labelOf_of_mem hm hid
  have hold : roster.student m.studentId = some m.tenantId := hagree.cards m hm
  refine (hagree.stores_iff (stores_card hnew hrows)).trans ((of_iff hstudent).trans ?_)
  simp only [Checked.RefersWithin, htenant, Option.mem_some_iff, forall_eq']
  exact forall_getD_iff ((of_iff (by simp [hold])).mp hold)

/-- **A write keeps the tenants in agreement** exactly when the ids it takes from its DTO are
of rows of its own row's tenant. -/
theorem write_agrees_iff {checked : Checked} (hagree : TenantsAgree roster db)
    (hcurrent : checked.Current ambient roster) (h : checked.write ambient roster db = .ok db') :
    TenantsAgree roster db' ↔ checked.RefersWithin ambient roster db := by
  cases checked with
  | createCourseType id dto =>
      exact hagree.stores_iff (createCourseType_stores h)
  | createVenue id dto => exact hagree.stores_iff (createVenue_stores h)
  | createClass id dto => exact createClass_agrees_iff hagree h
  | updateClass id dto => exact updateClass_agrees_iff hagree h
  | enrollStudent classId studentId => exact enrollStudent_agrees_iff hagree h
  | createSchedule id dto => exact createSchedule_agrees_iff hagree h
  | updateSchedule call => exact updateSchedule_agrees_iff hagree h
  | createMembership id dto tenantId =>
      exact iff_of_true (createMembership_agrees hagree hcurrent h) trivial
  | updateMembership id dto => exact updateMembership_agrees_iff hagree h

end Writes

/-! ### Runs -/

theorem check_current {ambient : Ambient} {roster : Roster} {db : CourseDb} {request : Request}
    {checked : Checked} (h : request.check ambient roster db = .ok checked) :
    checked.Current ambient roster := by
  cases request with
  | createCourseType | createVenue | createClass | createSchedule =>
      cases h
      trivial
  | updateClass | enrollStudent | updateSchedule =>
      obtain ⟨_, -, h⟩ := bind_ok h
      cases h
      trivial
  | createMembership id dto =>
      simp only [Request.check] at h
      split at h
      · rename_i tenantId hfind
        cases h
        obtain ⟨hstudent, hadmitted⟩ := Option.filter_eq_some_iff.mp hfind
        exact ⟨hstudent, of_decide_eq_true hadmitted⟩
      · cases h
  | updateMembership id dto =>
      simp only [Request.check] at h
      split at h
      · cases h
        trivial
      · cases h

/-- The nine calls, from tables that agree. -/
def schooling (roster : Roster) : Machine School SchoolAction where
  init s := TenantsAgree roster s.db ∧ s.pending = fun _ => none
  step := School.step roster

/-- The run condition: every write that goes through takes ids of rows of its own row's tenant. -/
def WritesWithin (roster : Roster) (s : School) : SchoolAction → Prop
  | .write c => ∀ p ∈ s.pending c, (p.2.write (authenticated p.1) roster s.db).isOk = true →
      p.2.RefersWithin (authenticated p.1) roster s.db
  | .check _ _ _ | .giveUp _ => True

structure School.Inv (roster : Roster) (s : School) : Prop where
  agree : TenantsAgree roster s.db
  current : ∀ c, ∀ p ∈ s.pending c, p.2.Current (authenticated p.1) roster

theorem School.Inv.setCall {roster : Roster} {s : School} (h : s.Inv roster) {db : CourseDb} {c : Nat}
    {call : Option (AccessContext × Checked)} (hdb : TenantsAgree roster db)
    (hcall : ∀ p ∈ call, p.2.Current (authenticated p.1) roster) :
    School.Inv roster { s.setCall c call with db } := by
  refine ⟨hdb, fun c' p hp => ?_⟩
  by_cases hc : c' = c
  · subst hc
    exact hcall p (by simpa [School.setCall] using hp)
  · exact h.current c' p (by simpa [School.setCall, hc] using hp)

theorem School.Inv.step {roster : Roster} {s s' : School} {a : SchoolAction} (h : s.Inv roster)
    (hok : WritesWithin roster s a) (hstep : s.step roster a = some s') : s'.Inv roster := by
  cases a with
  | check c access request =>
      cases hstep
      refine h.setCall h.agree fun p hp => ?_
      obtain ⟨checked, hchecked, rfl⟩ := Option.map_eq_some_iff.mp hp
      cases hcheck : request.check (authenticated access) roster s.db with
      | error e =>
          rw [hcheck] at hchecked
          cases hchecked
      | ok checked' =>
          rw [hcheck] at hchecked
          cases hchecked
          exact check_current hcheck
  | write c =>
      simp only [School.step] at hstep
      split at hstep
      · rename_i access checked hpending
        split at hstep
        · rename_i db hwrite
          cases hstep
          have hcurrent := h.current c _ hpending
          have hwithin := hok _ hpending (by rw [hwrite]; rfl)
          exact h.setCall ((write_agrees_iff h.agree hcurrent hwrite).mpr hwithin) (by simp)
        · cases hstep
          exact h.setCall h.agree (by simp)
      · cases hstep
  | giveUp c =>
      cases hstep
      exact h.setCall h.agree (by simp)

/-- **References stay within one tenant** in every run whose writes, those that go through, take
ids of rows of their own row's tenant. -/
theorem references_within_tenant (roster : Roster) {s : School}
    (h : (schooling roster).ReachableBy (WritesWithin roster) s) : TenantsAgree roster s.db := by
  refine (h.invariant (I := School.Inv roster) ?_ ?_).agree
  · rintro s ⟨hagree, hpending⟩
    exact ⟨hagree, fun c p hp => by rw [hpending] at hp; cases hp⟩
  · exact fun s a s' hinv hok hstep => hinv.step hok hstep

/-! ### A school beside another -/

instance (ambient : Ambient) (roster : Roster) (db : CourseDb) :
    ∀ checked : Checked, Decidable (checked.RefersWithin ambient roster db)
  | .createCourseType _ _ | .createVenue _ _ | .createMembership _ _ _ => .isTrue trivial
  | .createClass _ _ => inferInstanceAs (Decidable (_ ∧ _))
  | .updateClass id dto => inferInstanceAs (Decidable (∀ t ∈ db.klass id,
      (∀ courseTypeId ∈ dto.courseTypeId, Of db.courseType t courseTypeId) ∧
        ∀ coachId ∈ dto.coachId.join, Of roster.coach t coachId))
  | .enrollStudent classId studentId =>
      inferInstanceAs (Decidable (∀ t ∈ db.klass classId, Of roster.student t studentId))
  | .createSchedule _ dto => inferInstanceAs (Decidable (∀ t ∈ db.klass dto.classId,
      storedTenant ambient t = t ∧ Of roster.coach t dto.coachId ∧ Of db.venue t dto.venueId))
  | .updateSchedule call => inferInstanceAs (Decidable (∀ t ∈ db.schedule call.id,
      (∀ classId ∈ call.dto.classId, Of db.klass t classId) ∧
        (∀ coachId ∈ call.dto.coachId, Of roster.coach t coachId) ∧
          ∀ venueId ∈ call.dto.venueId, Of db.venue t venueId))
  | .updateMembership id dto => inferInstanceAs (Decidable (∀ t ∈ db.card id,
      ∀ studentId ∈ dto.studentId, Of roster.student t studentId))

instance (roster : Roster) (s : School) : ∀ a, Decidable (WritesWithin roster s a)
  | .write c => inferInstanceAs (Decidable (∀ p ∈ s.pending c, _))
  | .check _ _ _ | .giveUp _ => .isTrue trivial

/-- A coach and a student of `t1`. -/
def smallRoster : Roster where
  coach id := if id = "c1" then some (some "t1") else none
  student id := if id = "st1" then some (some "t1") else none

/-- Each of two tenants has a venue; `t1` has a class. -/
def twoVenues : CourseDb where
  courseTypes := ⟨[⟨"ct1", some "t1", .GROUP, "yoga", 1⟩], by decide⟩
  venues := ⟨[⟨"v1", some "t1", "hall", none, none, none, none⟩,
    ⟨"v2", some "t2", "studio", none, none, none, none⟩], by decide⟩
  classes := ⟨[⟨"k1", some "t1", "ct1", "monday", some "c1", none⟩], by decide⟩
  classStudents := ∅
  scheduling := { schedules := ∅, locks := ∅ }
  cards := ∅

def beginning : School := { db := twoVenues, pending := fun _ => none }

theorem beginning_agrees : (schooling smallRoster).init beginning := by
  refine ⟨⟨fun s hs => ?_, fun e he => ?_, fun k hk => ?_, fun m hm => ?_⟩, rfl⟩
  · cases hs
  · cases he
  · obtain rfl := List.mem_singleton.mp hk
    exact ⟨by decide +kernel, fun coachId hcoach => by cases hcoach; decide +kernel⟩
  · cases hm

/-- A member of `t1` sets up a second class, enrols a student, sells a card and books. -/
def secondClass : List SchoolAction :=
  [.check 0 member (.createCourseType "ct2" ⟨.PRIVATE, "one to one", none⟩), .write 0,
    .check 0 member (.createClass "k2" ⟨"ct2", "tuesday", none, some 1⟩),
    .check 1 member (.createVenue "v3" ⟨"annex", none, none, none, none⟩), .write 1, .write 0,
    .check 0 member (.enrollStudent "k2" "st1"), .write 0,
    .check 0 member (.createMembership "m1" ⟨"st1", "ten", 10, 10, some 0, some 1, none⟩), .write 0,
    .check 0 member (.createSchedule "s1" ⟨"k2", "v3", "c1", some 0, some 900000, none, none⟩), .write 0,
    .check 0 member (.updateSchedule "s1" { venueId := some "v1" }), .write 0]

theorem references_secondClass :
    ∃ s, (schooling smallRoster).exec beginning secondClass = some s ∧
      s.db.scheduling.schedules.rows.map (fun r => (r.tenantId, r.venueId)) = [(some "t1", "v1")] ∧
      TenantsAgree smallRoster s.db := by
  refine ⟨_, (Option.some_get (by decide +kernel)).symm, by decide +kernel, ?_⟩
  exact references_within_tenant smallRoster
    (Machine.reachableBy_exec_get beginning_agrees (by decide +kernel) (by decide +kernel))

/-- The member books the other tenant's venue. -/
def foreignVenue : List SchoolAction :=
  [.check 0 member (.createSchedule "s1" ⟨"k1", "v2", "c1", some 0, some 900000, none, none⟩), .write 0]

theorem schedule_in_foreign_venue :
    ¬ ∀ (roster : Roster) (s : School), (schooling roster).Reachable s → TenantsAgree roster s.db := by
  intro h
  have hresult : ((schooling smallRoster).exec beginning foreignVenue).map
      (fun s => (s.db.scheduling.schedules.rows, s.db.venue "v2")) =
        some ([⟨⟨"s1", "k1", "v2", "c1", 0, 900000, 15, .scheduled⟩, some "t1"⟩], some (some "t2")) := by
    decide +kernel
  obtain ⟨s, hexec, hrows⟩ := Option.map_eq_some_iff.mp hresult
  rw [Prod.mk.injEq] at hrows
  have hagree := h smallRoster s (Machine.reachableBy_exec (Machine.reachableBy_init beginning_agrees)
    (Machine.admits_true _ _) hexec)
  obtain ⟨-, -, hvenue⟩ := hagree.schedules _ (hrows.1 ▸ List.mem_cons_self)
  rw [hrows.2] at hvenue
  exact absurd hvenue (by decide)

end MibServer.Courses
