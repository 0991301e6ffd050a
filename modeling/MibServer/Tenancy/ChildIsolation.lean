import Mathlib.Algebra.BigOperators.Group.List.Basic
import MibServer.Lib.Noninterference
import MibServer.Tenancy.ChildRows

/-!
Who can tell what of the child rows of another tenant.

A row is in view of a context when it, or something it refers to, belongs to a tenant of the
context. `ChildCall.Isolated` is isolation of one call: in every database that shows the same
rows it replies the same, and it changes no row of a student or schedule that is not the
context's. No path of these services checks a parent, so a call is isolated exactly when its
arguments already name rows of the context (`NamesOwn`, `isolated_iff_namesOwn`): the other direction
builds, for every call that names none, a database the context cannot tell from the given one
and in which the call replies differently.
-/

namespace MibServer.Tenancy

open MibServer.Lib MibServer.Billing

/-! ### What a context sees -/

/-- The row belongs to a tenant of the context. -/
def Own (access : AccessContext) (r : StoredRow) : Prop :=
  ∃ clause ∈ access.tenantWhere, clause.admits r.tenantId = true

/-- The ambient values of a request of this user. -/
def AccessContext.ambient (access : AccessContext) : Ambient := ⟨false, some access⟩

abbrev Database.InView (db : Database) (access : AccessContext) (r : StoredRow) : Prop :=
  Indexed.InView StoredRow.parents (Own access) db r

abbrev Database.SeenAt (db : Database) (access : AccessContext) (e : Entry) : Prop :=
  Indexed.SeenAt StoredRow.parents (Own access) db e

/-- The databases show the context the same rows. -/
abbrev Database.Alike (access : AccessContext) (db db' : Database) : Prop :=
  Indexed.Agree StoredRow.parents (Own access) db db'

abbrev Database.Closed (db : Database) : Prop := Indexed.Closed StoredRow.parents db

/-- The row under the entry belongs to a tenant of the context. -/
def Database.OwnAt (db : Database) (access : AccessContext) (e : Entry) : Prop :=
  ∃ r ∈ db.rows, e ∈ r.entries ∧ Own access r

def Entry.isOwner : Entry → Bool
  | .student _ | .schedule _ => true
  | _ => false

/-- The student and the schedule of a row. -/
def StoredRow.owners (r : StoredRow) : List Entry :=
  r.parents.filter Entry.isOwner

/-- The row belongs to a student or a schedule that is not the context's. -/
def Database.Foreign (db : Database) (access : AccessContext) (r : StoredRow) : Prop :=
  ∃ e ∈ r.owners, ∃ p ∈ db.rows, e ∈ p.entries ∧ ¬ Own access p

/-! ### Isolation -/

/-- A call of a user of this context on this database is isolated from what the context does
not see: nothing of it shows in the reply, and none of it is changed. -/
structure ChildCall.Isolated (access : AccessContext) (env : CallEnv) (db : Database)
    (call : ChildCall) : Prop where
  reply : ∀ db' : Database, db'.Closed → db.Alike access db' →
    (call.run access.ambient env db').1 = (call.run access.ambient env db).1
  others : ∀ r, db.Foreign access r → (r ∈ (call.run access.ambient env db).2.rows ↔ r ∈ db.rows)

/-- The dates of a query let no time through. -/
def NoTime (newDate : String → JsDate) (params : StatisticsDateRangeQueryDto) : Prop :=
  ∀ gte lte, bounds newDate params = .ok (gte, lte) → ∀ t, between gte lte (some t) = false

/-- The schedules of a student's records are in view, or the query does not look at them. -/
def Database.SchedulesSeen (db : Database) (access : AccessContext) (studentId : String)
    (params : AttendanceStatisticsQueryDto) : Prop :=
  (truthy params.from? = none ∧ truthy params.to? = none ∧ truthy params.classId = none) ∨
    ∀ record, .attendance record ∈ db.rows → record.studentId = studentId →
      db.SeenAt access (.schedule record.scheduleId)

/-- The arguments of the call name rows of the context, or there is nothing for it to do. -/
def ChildCall.NamesOwn (access : AccessContext) (env : CallEnv) (db : Database) : ChildCall → Prop
  | .attendanceSummary params =>
      NoTime env.newDate params.toStatisticsDateRangeQueryDto ∨
        (∃ classId ∈ truthy params.classId, db.SeenAt access (.klass classId)) ∨
        ∃ studentId ∈ truthy params.studentId, db.SeenAt access (.student studentId) ∧
          db.SchedulesSeen access studentId params
  | .lessonConsumption params =>
      NoTime env.newDate params.toStatisticsDateRangeQueryDto ∨
        ∃ studentId ∈ truthy params.studentId, db.SeenAt access (.student studentId)
  | .checkOut studentId scheduleId =>
      (db.OwnAt access (.student studentId) ∧ db.OwnAt access (.schedule scheduleId)) ∨
        ((db.SeenAt access (.student studentId) ∨ db.SeenAt access (.schedule scheduleId)) ∧
          ∀ record, .attendance record ∈ db.rows → record.studentId = studentId →
            record.scheduleId = scheduleId → record.checkOutAt = some env.now)
  | .createLeaveRequest studentId scheduleId =>
      (db.OwnAt access (.student studentId) ∧ db.OwnAt access (.schedule scheduleId)) ∨
        ((db.SeenAt access (.student studentId) ∨ db.SeenAt access (.schedule scheduleId)) ∧
          ∃ request, .leave request ∈ db.rows ∧ request.studentId = studentId ∧
            request.scheduleId = scheduleId ∧ request.status = .approved)
  | .unenrollStudent classId studentId =>
      db.OwnAt access (.student studentId) ∨
        (db.SeenAt access (.klass classId) ∧ ¬ db.Has (.classStudent classId studentId))
  | .removeTag studentId _ | .removeGroup studentId _ => db.OwnAt access (.student studentId)

/-! ### Rows that link two others -/

/-- What the row under the entry refers to, where the entry says it. -/
def Entry.refs : Entry → List Entry
  | .attendance studentId scheduleId | .leave studentId scheduleId =>
    [.student studentId, .schedule scheduleId]
  | .classStudent classId studentId => [.klass classId, .student studentId]
  | .studentTag studentId tagId => [.student studentId, .tag tagId]
  | .studentGroup studentId groupId => [.student studentId, .group groupId]
  | _ => []

/-- The entry of a row that links two others. -/
def Entry.IsLink (e : Entry) : Prop := e.refs ≠ []

section Links

variable {e k : Entry} {r x : StoredRow}

theorem entries_of_link (hlink : e.IsLink) (he : e ∈ r.entries) : r.entries = [e] := by
  cases r with
  | ledger entry =>
      obtain ⟨key, -, rfl⟩ := List.mem_map.mp he
      exact absurd rfl hlink
  | _ => simp_all [StoredRow.entries]

theorem parents_of_link (hlink : e.IsLink) (he : e ∈ r.entries) : r.parents = e.refs := by
  cases r with
  | ledger entry =>
      obtain ⟨key, -, rfl⟩ := List.mem_map.mp he
      exact absurd rfl hlink
  | _ => obtain rfl := List.mem_singleton.mp he; first | rfl | exact absurd rfl hlink

theorem refs_of_mem_parents (x : StoredRow) : ∀ k ∈ x.parents, k.refs = [] := by
  cases x <;> simp [StoredRow.parents, Entry.refs]

/-- No row refers to a row that links two others. -/
theorem not_mem_parents_of_link (hlink : e.IsLink) (he : e ∈ r.entries) (hk : k ∈ r.entries) :
    k ∉ x.parents := by
  rw [entries_of_link hlink he, List.mem_singleton] at hk
  exact fun hparent => hlink (hk ▸ refs_of_mem_parents x k hparent)

/-- A row that links two others has no `tenantId`. -/
theorem not_own_of_link {access : AccessContext} (hlink : e.IsLink) (he : e ∈ r.entries) :
    ¬ Own access r := by
  have htenant : r.tenantId = none := by
    cases r with
    | student | klass | schedule | card => exact absurd rfl (List.mem_singleton.mp he ▸ hlink)
    | _ => rfl
  rintro ⟨clause, -, hadmits⟩
  rw [htenant] at hadmits
  cases clause <;> cases hadmits

theorem inView_of_link {access : AccessContext} {db : Database} (hlink : e.IsLink)
    (he : e ∈ r.entries) :
    db.InView access r ↔ ∃ k ∈ e.refs, db.SeenAt access k := by
  rw [Database.InView, Indexed.inView_iff, parents_of_link hlink he]
  exact or_iff_right (not_own_of_link hlink he)

end Links

/-! ### What a call does to the row under its entry -/

/-- The entry of the row a call writes. -/
def ChildCall.target? : ChildCall → Option Entry
  | .attendanceSummary _ | .lessonConsumption _ => none
  | .checkOut studentId scheduleId => some (.attendance studentId scheduleId)
  | .createLeaveRequest studentId scheduleId => some (.leave studentId scheduleId)
  | .unenrollStudent classId studentId => some (.classStudent classId studentId)
  | .removeTag studentId tagId => some (.studentTag studentId tagId)
  | .removeGroup studentId groupId => some (.studentGroup studentId groupId)

/-- The reply of a call and the row it leaves under its entry, by the row that is there; `refs`
says whether the rows that one refers to are there. -/
def ChildCall.effect (env : CallEnv) (refs : Prop) [Decidable refs] (row : Option StoredRow) :
    ChildCall → Except HttpException Reply × Option StoredRow
  | .checkOut _ _ =>
      match row with
      | some (.attendance record) =>
          (.ok (.attendance { record with checkOutAt := some env.now }),
            some (.attendance { record with checkOutAt := some env.now }))
      | row => (.error (.notFound "无签到记录"), row)
  | .createLeaveRequest studentId scheduleId =>
      let request : LeaveRequest := { id := env.id, studentId, scheduleId, status := .approved }
      match row with
      | some (.leave request) =>
          (.ok (.leave { request with status := .approved }),
            some (.leave { request with status := .approved }))
      | row => if refs then (.ok (.leave request), some (.leave request)) else (.error .internal, row)
  | _ =>
      match row with
      | some _ => (.ok .ok, none)
      | none => (.error .internal, none)

/-- The databases have the same rows, those under the entry apart. -/
def Database.SameBut (e : Entry) (db db' : Database) : Prop :=
  ∀ r, e ∉ r.entries → (r ∈ db.rows ↔ r ∈ db'.rows)

/-- What the row under the entry refers to is there. -/
def Database.HasRefs (db : Database) (e : Entry) : Prop := ∀ k ∈ e.refs, db.Has k

section Calls

variable {db db' : Database} {e : Entry} {r : StoredRow}

theorem row?_eq_none_iff_not_has : db.row? e = none ↔ ¬ db.Has e := by
  simp [Indexed.row?_eq_none_iff, Indexed.Has]

instance (db : Database) (e : Entry) : Decidable (db.Has e) :=
  decidable_of_iff (∃ r ∈ db.rows, e ∈ r.entries) Iff.rfl

instance (db : Database) (e : Entry) : Decidable (db.HasRefs e) :=
  inferInstanceAs (Decidable (∀ k ∈ e.refs, db.Has k))

theorem find?_of_unscoped {model : Model} (hmodel : model ∉ TENANT_SCOPED_MODELS) (ambient : Ambient)
    (operation : Operation) : db.find? ambient model operation e = db.row? e := by
  unfold Database.find?
  rw [sent_of_unscoped hmodel]
  rfl

theorem sameBut_deleteWhere : db.SameBut e (db.deleteWhere fun r => decide (e ∈ r.entries)) := by
  intro r he
  simp [Indexed.mem_deleteWhere, he]

theorem row?_deleteWhere : (db.deleteWhere fun r => decide (e ∈ r.entries)).row? e = none := by
  rw [Indexed.row?_eq_none_iff]
  intro r hr
  simpa using (Indexed.mem_deleteWhere.mp hr).2

section Modify

variable {f : StoredRow → StoredRow} (hf : ∀ r, (f r).entries = r.entries)

theorem sameBut_modify : db.SameBut e (db.modify (fun r => decide (e ∈ r.entries)) f hf) := by
  intro r he
  rw [Indexed.mem_modify]
  constructor
  · exact fun hr => ⟨r, hr, by simp [he]⟩
  · rintro ⟨r₀, hr₀, rfl⟩
    by_cases he₀ : e ∈ r₀.entries
    · simp [he₀, hf] at he
    · simpa [he₀] using hr₀

theorem row?_modify (hr : db.row? e = some r) :
    (db.modify (fun r => decide (e ∈ r.entries)) f hf).row? e = some (f r) := by
  obtain ⟨hmem, he⟩ := Indexed.row?_eq_some_iff.mp hr
  refine Indexed.row?_eq_some_iff.mpr ⟨Indexed.mem_modify.mpr ⟨r, hmem, by simp [he]⟩, ?_⟩
  rwa [hf]

end Modify

theorem sameBut_append (hrows : db'.rows = db.rows ++ [r]) (he : e ∈ r.entries) : db.SameBut e db' := by
  intro x hx
  have hne : x ≠ r := fun h => hx (h ▸ he)
  simp [hrows, hne]

theorem leave_of_mem {studentId scheduleId : String} (he : .leave studentId scheduleId ∈ r.entries) :
    ∃ request, r = .leave request ∧ request.studentId = studentId ∧
      request.scheduleId = scheduleId := by
  cases r with
  | leave request =>
      obtain ⟨rfl, rfl⟩ := Entry.leave.inj (List.mem_singleton.mp he)
      exact ⟨request, rfl, rfl, rfl⟩
  | ledger entry =>
      obtain ⟨_, -, heq⟩ := List.mem_map.mp he
      cases heq
  | _ => cases List.mem_singleton.mp he

theorem attendance_of_mem {studentId scheduleId : String}
    (he : .attendance studentId scheduleId ∈ r.entries) :
    ∃ record, r = .attendance record ∧ record.studentId = studentId ∧
      record.scheduleId = scheduleId := by
  cases r with
  | attendance record =>
      obtain ⟨rfl, rfl⟩ := Entry.attendance.inj (List.mem_singleton.mp he)
      exact ⟨record, rfl, rfl, rfl⟩
  | ledger entry =>
      obtain ⟨_, -, heq⟩ := List.mem_map.mp he
      cases heq
  | _ => cases List.mem_singleton.mp he

/-- The result is the effect on the row under the entry, and leaves all else. -/
structure Performs (db : Database) (e : Entry) (effect : Except HttpException Reply × Option StoredRow)
    (result : Except HttpException Reply × Database) : Prop where
  reply : result.1 = effect.1
  row : result.2.row? e = effect.2
  rest : db.SameBut e result.2

theorem deleteUnique_performs {model : Model} (hmodel : model ∉ TENANT_SCOPED_MODELS)
    (ambient : Ambient) :
    Performs db e
      (match db.row? e with
        | some _ => (.ok .ok, none)
        | none => (.error .internal, none))
      (db.deleteUnique ambient model e) := by
  unfold Database.deleteUnique
  rw [find?_of_unscoped hmodel, sent_of_unscoped hmodel]
  cases hrow : db.row? e with
  | some r => exact ⟨rfl, row?_deleteWhere, sameBut_deleteWhere⟩
  | none => exact ⟨rfl, hrow, fun _ _ => Iff.rfl⟩

theorem checkOut_performs (ambient : Ambient) (env : CallEnv) (studentId scheduleId : String) :
    Performs db (.attendance studentId scheduleId)
      (ChildCall.effect env (db.HasRefs (.attendance studentId scheduleId))
        (db.row? (.attendance studentId scheduleId)) (.checkOut studentId scheduleId))
      (db.checkOut ambient env studentId scheduleId) := by
  unfold Database.checkOut ChildCall.effect
  simp only [find?_of_unscoped (by decide : Model.AttendanceRecord ∉ TENANT_SCOPED_MODELS),
    sent_of_unscoped (by decide : Model.AttendanceRecord ∉ TENANT_SCOPED_MODELS)]
  cases hrow : db.row? (.attendance studentId scheduleId) with
  | none => exact ⟨rfl, hrow, fun _ _ => Iff.rfl⟩
  | some r =>
      obtain ⟨record, rfl, -, -⟩ := attendance_of_mem (Indexed.row?_eq_some_iff.mp hrow).2
      exact ⟨rfl, row?_modify (StoredRow.entries_checkOut env.now) hrow,
        sameBut_modify (StoredRow.entries_checkOut env.now)⟩

theorem hasRefs_leave_iff {studentId scheduleId : String} :
    db.HasRefs (.leave studentId scheduleId) ↔ db.Has (.student studentId) ∧
      db.Has (.schedule scheduleId) := by
  simp [Database.HasRefs, Entry.refs]

theorem createLeaveRequest_performs (ambient : Ambient) (env : CallEnv)
    (studentId scheduleId : String) :
    Performs db (.leave studentId scheduleId)
      (ChildCall.effect env (db.HasRefs (.leave studentId scheduleId))
        (db.row? (.leave studentId scheduleId)) (.createLeaveRequest studentId scheduleId))
      (db.createLeaveRequest ambient env studentId scheduleId) := by
  unfold Database.createLeaveRequest ChildCall.effect
  simp only [find?_of_unscoped (by decide : Model.LeaveRequest ∉ TENANT_SCOPED_MODELS),
    sent_of_unscoped (by decide : Model.LeaveRequest ∉ TENANT_SCOPED_MODELS)]
  cases hrow : db.row? (.leave studentId scheduleId) with
  | some r =>
      obtain ⟨request, rfl, -, -⟩ := leave_of_mem (Indexed.row?_eq_some_iff.mp hrow).2
      exact ⟨rfl, row?_modify StoredRow.entries_approve hrow, sameBut_modify StoredRow.entries_approve⟩
  | none =>
      have hfree : ¬ db.Has (.leave studentId scheduleId) := row?_eq_none_iff_not_has.mp hrow
      obtain ⟨db', hinsert, hrows⟩ := Indexed.insert?_of_free (t := db)
        (r := .leave { id := env.id, studentId, scheduleId, status := .approved })
        ⟨List.nodup_singleton _, fun k hk hmem => hfree (by
          obtain rfl := List.mem_singleton.mp hk
          obtain ⟨r, hr, he⟩ := List.mem_flatMap.mp hmem
          exact ⟨r, hr, he⟩)⟩
      simp only [hinsert, hasRefs_leave_iff]
      cases hstudent : db.row? (.student studentId) with
      | none =>
          rw [if_neg fun h => row?_eq_none_iff_not_has.mp hstudent h.1]
          exact ⟨rfl, hrow, fun _ _ => Iff.rfl⟩
      | some student =>
          cases hschedule : db.row? (.schedule scheduleId) with
          | none =>
              rw [if_neg fun h => row?_eq_none_iff_not_has.mp hschedule h.2]
              exact ⟨rfl, hrow, fun _ _ => Iff.rfl⟩
          | some schedule =>
              have hrefs : db.Has (.student studentId) ∧ db.Has (.schedule scheduleId) :=
                ⟨⟨_, Indexed.row?_eq_some_iff.mp hstudent⟩, ⟨_, Indexed.row?_eq_some_iff.mp hschedule⟩⟩
              rw [if_pos hrefs]
              exact ⟨rfl, Indexed.row?_eq_some_iff.mpr ⟨by simp [hrows], List.mem_singleton_self _⟩,
                sameBut_append hrows (List.mem_singleton_self _)⟩

/-- **What a call that writes does**, to its reply and the row under its entry; all else stays. -/
theorem run_performs (db : Database) (ambient : Ambient) (env : CallEnv) {call : ChildCall}
    (h : call.target? = some e) : Performs db e (call.effect env (db.HasRefs e) (db.row? e))
      (call.run ambient env db) := by
  cases call <;> cases h
  case checkOut => exact checkOut_performs ambient env _ _
  case createLeaveRequest => exact createLeaveRequest_performs ambient env _ _
  all_goals exact deleteUnique_performs (by decide) ambient

end Calls

/-! ### What a statistic counts -/

section Statistics

variable {db db' : Database} {access : AccessContext} {ambient : Ambient}

theorem mem_attendances {record : AttendanceRow} :
    record ∈ db.rows.filterMap StoredRow.attendance? ↔ .attendance record ∈ db.rows := by
  rw [List.mem_filterMap]
  constructor
  · rintro ⟨r, hr, hrecord⟩
    cases r with
    | attendance r => exact Option.some.inj hrecord ▸ hr
    | _ => cases hrecord
  · exact fun h => ⟨_, h, rfl⟩

theorem mem_ledger {entry : LedgerRow} :
    entry ∈ db.rows.filterMap StoredRow.ledger? ↔ .ledger entry ∈ db.rows := by
  rw [List.mem_filterMap]
  constructor
  · rintro ⟨r, hr, hentry⟩
    cases r with
    | ledger r => exact Option.some.inj hentry ▸ hr
    | _ => cases hentry
  · exact fun h => ⟨_, h, rfl⟩

/-- Filtering before a partial map, on what it gives. -/
theorem filterMap_filter_any {α β : Type} (f : α → Option β) (p : β → Bool) (l : List α) :
    (l.filter fun a => (f a).any p).filterMap f = (l.filterMap f).filter p := by
  induction l with
  | nil => rfl
  | cons a l ih =>
      cases hf : f a with
      | none => simp [hf, ih]
      | some b => cases hp : p b <;> simp [hf, hp, ih]

theorem attendanceRecords_eq (studentId : Option String) (w : ScheduleWhere) :
    db.attendanceRecords ambient studentId w =
      (db.rows.filterMap StoredRow.attendance?).filter (db.attendanceWhere studentId w) := by
  unfold Database.attendanceRecords
  rw [sent_of_unscoped (by decide)]
  exact filterMap_filter_any _ _ _

theorem ledgerEntries_eq (studentId : Option String) (gte lte : Option Int) :
    db.ledgerEntries ambient studentId gte lte =
      (db.rows.filterMap StoredRow.ledger?).filter (db.ledgerWhere studentId gte lte) := by
  unfold Database.ledgerEntries
  rw [sent_of_unscoped (by decide)]
  exact filterMap_filter_any _ _ _

theorem rows_nodup (db : Database) : db.rows.Nodup :=
  db.unique.nodup fun r => by cases r <;> simp [StoredRow.entries, Lessons.LessonTransaction.keys]

/-- The counts do not depend on the order of the records. -/
theorem summarize_perm {records records' : List AttendanceRow} (h : records.Perm records') :
    summarize records = summarize records' := by
  have hcomm : RightCommutative fun (byStatus : ByStatus) (r : AttendanceRow) =>
    byStatus.count r.status :=
    ⟨fun byStatus r r' => by cases r.status <;> cases r'.status <;> rfl⟩
  unfold summarize
  rw [h.foldl_eq, h.length_eq]

theorem perm_of_mem_iff {α : Type} {f : StoredRow → Option α}
    (hf : ∀ r r' a, f r = some a → f r' = some a → r = r') {p p' : α → Bool}
    (h : ∀ a, a ∈ (db.rows.filterMap f).filter p ↔ a ∈ (db'.rows.filterMap f).filter p') :
    ((db.rows.filterMap f).filter p).Perm ((db'.rows.filterMap f).filter p') := by
  have hnodup : ∀ db : Database, (db.rows.filterMap f).Nodup :=
    fun db => (rows_nodup db).filterMap fun r r' a ha ha' => hf r r' a ha ha'
  exact (List.perm_ext_iff_of_nodup ((hnodup db).filter _) ((hnodup db').filter _)).mpr h

end Statistics

/-! ### Calls that name rows of the context -/

section Named

variable {access : AccessContext} {env : CallEnv} {db db' : Database} {call : ChildCall} {e k : Entry}

theorem seenAt_of_ownAt (h : db.OwnAt access k) : db.SeenAt access k := by
  obtain ⟨r, hr, hk, hown⟩ := h
  exact ⟨r, hr, hk, .own hown⟩

theorem isLink_of_target (h : call.target? = some e) : e.IsLink := by
  cases call <;> cases h <;> exact List.cons_ne_nil _ _

theorem mem_iff_row? {r : StoredRow} (he : e ∈ r.entries) : r ∈ db.rows ↔ db.row? e = some r := by
  rw [Indexed.row?_eq_some_iff]
  exact (and_iff_left he).symm

/-- The row that links a row in view is the same. -/
theorem row?_eq_of_seen (halike : db.Alike access db') (hlink : e.IsLink)
    (hseen : ∃ k ∈ e.refs, db.SeenAt access k) : db.row? e = db'.row? e :=
  halike.row? fun _ he _ => (inView_of_link hlink he).mpr hseen

/-- What a call that writes names is seen. -/
theorem ChildCall.NamesOwn.seen (h : call.NamesOwn access env db) (ht : call.target? = some e) :
    ∃ k ∈ e.refs, db.SeenAt access k := by
  cases call with
  | attendanceSummary | lessonConsumption => cases ht
  | checkOut studentId scheduleId | createLeaveRequest studentId scheduleId =>
      cases ht
      rcases h with ⟨hstudent, -⟩ | ⟨hstudent | hschedule, -⟩
      · exact ⟨_, List.mem_cons_self, seenAt_of_ownAt hstudent⟩
      · exact ⟨_, List.mem_cons_self, hstudent⟩
      · exact ⟨_, List.mem_cons_of_mem _ (List.mem_singleton_self _), hschedule⟩
  | unenrollStudent classId studentId =>
      cases ht
      rcases h with hstudent | ⟨hclass, -⟩
      · exact ⟨_, List.mem_cons_of_mem _ (List.mem_singleton_self _), seenAt_of_ownAt hstudent⟩
      · exact ⟨_, List.mem_cons_self, hclass⟩
  | removeTag | removeGroup =>
      cases ht
      exact ⟨_, List.mem_cons_self, seenAt_of_ownAt h⟩

/-- It belongs to the context, or is left as it is. -/
theorem ChildCall.NamesOwn.settled (h : call.NamesOwn access env db) (ht : call.target? = some e) :
    (∀ k ∈ e.refs, k.isOwner = true → db.OwnAt access k) ∨
      (call.effect env (db.HasRefs e) (db.row? e)).2 = db.row? e := by
  cases call with
  | attendanceSummary | lessonConsumption => cases ht
  | checkOut studentId scheduleId =>
      cases ht
      rcases h with ⟨hstudent, hschedule⟩ | ⟨-, hout⟩
      · exact Or.inl (by simpa [Entry.refs, Entry.isOwner] using ⟨hstudent, hschedule⟩)
      · refine Or.inr ?_
        cases hrow : db.row? (.attendance studentId scheduleId) with
        | none => rfl
        | some r =>
            obtain ⟨hr, he⟩ := Indexed.row?_eq_some_iff.mp hrow
            obtain ⟨record, rfl, hs, hc⟩ := attendance_of_mem he
            simp only [ChildCall.effect, ← hout record hr hs hc]
  | createLeaveRequest studentId scheduleId =>
      cases ht
      rcases h with ⟨hstudent, hschedule⟩ | ⟨-, request, hr, hs, hc, happroved⟩
      · exact Or.inl (by simpa [Entry.refs, Entry.isOwner] using ⟨hstudent, hschedule⟩)
      · refine Or.inr ?_
        have hrow : db.row? (.leave studentId scheduleId) = some (.leave request) :=
          (mem_iff_row? (by simp [StoredRow.entries, hs, hc])).mp hr
        simp only [hrow, ChildCall.effect, ← happroved]
  | unenrollStudent classId studentId =>
      cases ht
      rcases h with hstudent | ⟨-, hnone⟩
      · exact Or.inl (by simpa [Entry.refs, Entry.isOwner] using hstudent)
      · refine Or.inr ?_
        simp only [row?_eq_none_iff_not_has.mpr hnone, ChildCall.effect]
  | removeTag studentId _ | removeGroup studentId _ =>
      cases ht
      have hstudent : db.OwnAt access (.student studentId) := h
      exact Or.inl (by simpa [Entry.refs, Entry.isOwner] using hstudent)

/-- In two databases that show the same rows the call does the same. -/
theorem ChildCall.NamesOwn.effect_eq (h : call.NamesOwn access env db) (halike : db.Alike access db')
    (ht : call.target? = some e) :
    call.effect env (db.HasRefs e) (db.row? e) = call.effect env (db'.HasRefs e) (db'.row? e) := by
  rw [row?_eq_of_seen halike (isLink_of_target ht) (h.seen ht)]
  cases call with
  | createLeaveRequest studentId scheduleId =>
      cases ht
      rcases h with ⟨hstudent, hschedule⟩ | ⟨hseen, request, hr, hs, hc, -⟩
      · have hrefs : db.HasRefs (.leave studentId scheduleId) :=
          hasRefs_leave_iff.mpr ⟨(seenAt_of_ownAt hstudent).has, (seenAt_of_ownAt hschedule).has⟩
        have hrefs' : db'.HasRefs (.leave studentId scheduleId) :=
          hasRefs_leave_iff.mpr ⟨(halike.seenAt (seenAt_of_ownAt hstudent)).has,
            (halike.seenAt (seenAt_of_ownAt hschedule)).has⟩
        simp only [ChildCall.effect, hrefs, hrefs']
      · have hlink : ∃ k ∈ (Entry.leave studentId scheduleId).refs, db.SeenAt access k := by
          simpa [Entry.refs] using hseen
        have hrow : db'.row? (.leave studentId scheduleId) = some (.leave request) := by
          rw [← row?_eq_of_seen halike (e := .leave studentId scheduleId) (List.cons_ne_nil _ _) hlink]
          exact (mem_iff_row? (by simp [StoredRow.entries, hs, hc])).mp hr
        simp only [ChildCall.effect, hrow]
  | _ => rfl

/-- A call that writes changes no row of others. -/
theorem ChildCall.NamesOwn.others (h : call.NamesOwn access env db) (ht : call.target? = some e)
    {r : StoredRow} (hforeign : db.Foreign access r) :
    r ∈ (call.run access.ambient env db).2.rows ↔ r ∈ db.rows := by
  have hrun := run_performs db access.ambient env ht
  by_cases he : e ∈ r.entries
  · rw [mem_iff_row? he, mem_iff_row? he, hrun.row]
    rcases h.settled ht with hown | hsame
    · obtain ⟨k, hk, p, hp, hkp, hnot⟩ := hforeign
      obtain ⟨hk, howner⟩ := List.mem_filter.mp hk
      rw [parents_of_link (isLink_of_target ht) he] at hk
      obtain ⟨p', hp', hkp', hown'⟩ := hown k hk howner
      exact absurd (db.unique.eq_of_mem hp' hp hkp' hkp ▸ hown') hnot
    · rw [hsame]
  · exact (hrun.rest r he).symm

end Named

/-! ### Statistics about rows of the context -/

section Statistics

variable {access : AccessContext} {ambient : Ambient} {env : CallEnv} {db db' : Database}
  {w : ScheduleWhere}
  {studentId? : Option String}

/-- The schedule a filter lets through. -/
theorem schedule_of_holds {scheduleId : String} (h : w.holds db scheduleId = true) :
    ∃ row, .schedule row ∈ db.rows ∧ row.id = scheduleId ∧
      w.admits row.classId row.startsAt = true := by
  unfold ScheduleWhere.holds at h
  split at h
  · rename_i row hrow
    obtain ⟨hr, hid⟩ := Indexed.row?_eq_some_iff.mp hrow
    exact ⟨row, hr, (Entry.schedule.inj (List.mem_singleton.mp hid)).symm, h⟩
  · cases h

theorem holds_of_schedule {row : Courses.Schedule} (hr : .schedule row ∈ db.rows) :
    w.holds db row.id = w.admits row.classId row.startsAt := by
  have hrow : db.row? (.schedule row.id) = some (.schedule row) :=
    Indexed.row?_eq_some_iff.mpr ⟨hr, List.mem_singleton_self _⟩
  simp only [ScheduleWhere.holds, hrow]

theorem mem_attendanceRecords {record : AttendanceRow} :
    record ∈ db.attendanceRecords ambient studentId? w ↔ .attendance record ∈ db.rows ∧
      studentId?.all (· == record.studentId) = true ∧
      (w.isEmpty = true ∨ w.holds db record.scheduleId = true) := by
  rw [attendanceRecords_eq, List.mem_filter, mem_attendances]
  simp [Database.attendanceWhere]

theorem mem_ledgerEntries {entry : LedgerRow} {gte lte : Option Int} :
    entry ∈ db.ledgerEntries ambient studentId? gte lte ↔ .ledger entry ∈ db.rows ∧ entry.delta < 0 ∧
      studentId?.all (fun s => ofStudent s (db.row? (.card entry.membershipId))) = true ∧
      between gte lte (some entry.createdAt) = true := by
  rw [ledgerEntries_eq, List.mem_filter, mem_ledger]
  simp [Database.ledgerWhere, and_assoc]

/-- Records of schedules of a class in view. -/
theorem attendance_of_class (halike : db.Alike access db') {classId : String}
    (hclass : w.classId = some classId)
    (hseen : db.SeenAt access (.klass classId)) {record : AttendanceRow}
    (h : record ∈ db.attendanceRecords ambient studentId? w) :
    record ∈ db'.attendanceRecords ambient studentId? w := by
  obtain ⟨hr, hstudent, hschedule⟩ := mem_attendanceRecords.mp h
  have hholds : w.holds db record.scheduleId = true :=
    hschedule.resolve_left (by simp [ScheduleWhere.isEmpty, hclass])
  obtain ⟨row, hsrow, hid, hadmits⟩ := schedule_of_holds hholds
  obtain rfl : classId = row.classId := by
    simpa [ScheduleWhere.admits, hclass] using (Bool.and_eq_true_iff.mp hadmits).2
  have hsview : db.InView access (.schedule row) :=
    Indexed.inView_iff.mpr (Or.inr ⟨_, List.mem_singleton_self _, hseen⟩)
  have hview : db.InView access (.attendance record) :=
    Indexed.inView_iff.mpr (Or.inr ⟨.schedule record.scheduleId,
      List.mem_cons_of_mem _ (List.mem_singleton_self _), _, hsrow, by simp [StoredRow.entries, hid],
      hsview⟩)
  refine mem_attendanceRecords.mpr ⟨(halike.mem hview).mp hr, hstudent, Or.inr ?_⟩
  rw [← hid, holds_of_schedule ((halike.mem hsview).mp hsrow)]
  exact hadmits

/-- Records of a student in view, whose schedules are in view or not asked for. -/
theorem attendance_of_student (halike : db.Alike access db') {studentId : String}
    (hseen : db.SeenAt access (.student studentId))
    (hschedules : w.isEmpty = true ∨ ∀ record, .attendance record ∈ db.rows →
      record.studentId = studentId → db.SeenAt access (.schedule record.scheduleId))
    {record : AttendanceRow} (h : record ∈ db.attendanceRecords ambient (some studentId) w) :
    record ∈ db'.attendanceRecords ambient (some studentId) w := by
  obtain ⟨hr, hstudent, hschedule⟩ := mem_attendanceRecords.mp h
  obtain rfl : studentId = record.studentId := by simpa using hstudent
  have hview : db.InView access (.attendance record) :=
    Indexed.inView_iff.mpr (Or.inr ⟨_, List.mem_cons_self, hseen⟩)
  refine mem_attendanceRecords.mpr ⟨(halike.mem hview).mp hr, hstudent, ?_⟩
  rcases hschedules with hempty | hschedules
  · exact Or.inl hempty
  · refine hschedule.imp_right fun hholds => ?_
    unfold ScheduleWhere.holds at *
    rwa [← halike.row?_of_seenAt (hschedules record hr rfl)]

/-- Entries on cards of a student in view. -/
theorem ledger_of_student (halike : db.Alike access db') {studentId : String} {gte lte : Option Int}
    (hseen : db.SeenAt access (.student studentId)) {entry : LedgerRow}
    (h : entry ∈ db.ledgerEntries ambient (some studentId) gte lte) :
    entry ∈ db'.ledgerEntries ambient (some studentId) gte lte := by
  obtain ⟨hr, hdelta, hcard, htime⟩ := mem_ledgerEntries.mp h
  obtain ⟨card, hcrow, rfl⟩ : ∃ card, db.row? (.card entry.membershipId) = some (.card card) ∧
      studentId = card.studentId := by
    simp only [Option.all_some, ofStudent] at hcard
    split at hcard
    · rename_i card hcrow
      exact ⟨card, hcrow, by simpa using hcard⟩
    · cases hcard
  obtain ⟨hcmem, hcentry⟩ := Indexed.row?_eq_some_iff.mp hcrow
  have hcview : db.SeenAt access (.card entry.membershipId) :=
    ⟨_, hcmem, hcentry, Indexed.inView_iff.mpr (Or.inr ⟨_, List.mem_singleton_self _, hseen⟩)⟩
  have hview : db.InView access (.ledger entry) :=
    Indexed.inView_iff.mpr (Or.inr ⟨_, List.mem_append_left _ List.mem_cons_self, hcview⟩)
  refine mem_ledgerEntries.mpr ⟨(halike.mem hview).mp hr, hdelta, ?_, htime⟩
  rwa [← halike.row?_of_seenAt hcview]

theorem attendanceRecords_perm
    (h : ∀ record, record ∈ db.attendanceRecords ambient studentId? w ↔
      record ∈ db'.attendanceRecords ambient studentId? w) :
    (db.attendanceRecords ambient studentId? w).Perm (db'.attendanceRecords ambient studentId? w) := by
  simp only [attendanceRecords_eq] at h ⊢
  exact perm_of_mem_iff (fun r r' a ha ha' => by cases r <;> cases r' <;> simp_all
    [StoredRow.attendance?]) h

theorem ledgerEntries_perm {gte lte : Option Int}
    (h : ∀ entry, entry ∈ db.ledgerEntries ambient studentId? gte lte ↔
      entry ∈ db'.ledgerEntries ambient studentId? gte lte) :
    (db.ledgerEntries ambient studentId? gte lte).Perm
      (db'.ledgerEntries ambient studentId? gte lte) := by
  simp only [ledgerEntries_eq] at h ⊢
  exact perm_of_mem_iff (fun r r' a ha ha' => by cases r <;> cases r' <;> simp_all
    [StoredRow.ledger?]) h

theorem bounds_isSome {newDate : String → JsDate} {params : StatisticsDateRangeQueryDto}
    {gte lte : Option Int}
    (h : bounds newDate params = .ok (gte, lte)) :
    gte.isSome = (truthy params.from?).isSome ∧ lte.isSome = (truthy params.to?).isSome := by
  obtain ⟨gte', hgte, h⟩ := bind_ok h
  obtain ⟨lte', hlte, h⟩ := bind_ok h
  cases h
  exact ⟨by simpa using validBound_isSome hgte, by simpa using validBound_isSome hlte⟩

theorem isEmpty_iff {newDate : String → JsDate} {params : AttendanceStatisticsQueryDto}
    {gte lte : Option Int}
    (h : bounds newDate params.toStatisticsDateRangeQueryDto = .ok (gte, lte)) :
    (ScheduleWhere.mk gte lte (truthy params.classId)).isEmpty = true ↔
      truthy params.from? = none ∧ truthy params.to? = none ∧ truthy params.classId = none := by
  obtain ⟨hgte, hlte⟩ := bounds_isSome h
  have hnone : ∀ {α β : Type} {x : Option α} {y : Option β}, x.isSome = y.isSome →
    (x.isNone = true ↔ y = none) := by
    intro α β x y hxy
    cases x <;> cases y <;> simp_all
  rw [ScheduleWhere.isEmpty, Bool.and_eq_true, Bool.and_eq_true, hnone hgte, hnone hlte, and_assoc,
    Option.isNone_iff_eq_none]

theorem attendanceSummary_of_ok {params : AttendanceStatisticsQueryDto} {gte lte : Option Int}
    (h : bounds env.newDate params.toStatisticsDateRangeQueryDto = .ok (gte, lte)) :
    db.attendanceSummary ambient env params = .ok (.summary (summarize
      (db.attendanceRecords ambient (truthy params.studentId) ⟨gte, lte, truthy params.classId⟩))) := by
  unfold Database.attendanceSummary
  rw [h]
  rfl

theorem lessonConsumption_of_ok {params : LessonStatisticsQueryDto} {gte lte : Option Int}
    (h : bounds env.newDate params.toStatisticsDateRangeQueryDto = .ok (gte, lte)) :
    db.lessonConsumption ambient env params = .ok (.consumption
      (-((db.ledgerEntries ambient (truthy params.studentId) gte lte).map fun t => t.delta).sum)) := by
  unfold Database.lessonConsumption
  rw [h]
  rfl

theorem attendanceSummary_reply (params : AttendanceStatisticsQueryDto)
    (h : ∀ gte lte, bounds env.newDate params.toStatisticsDateRangeQueryDto = .ok (gte, lte) →
      ∀ record, record ∈ db.attendanceRecords ambient (truthy params.studentId)
        ⟨gte, lte, truthy params.classId⟩ ↔
        record ∈ db'.attendanceRecords ambient (truthy params.studentId)
          ⟨gte, lte, truthy params.classId⟩) :
    db.attendanceSummary ambient env params = db'.attendanceSummary ambient env params := by
  cases hbounds : bounds env.newDate params.toStatisticsDateRangeQueryDto with
  | error e => simp only [Database.attendanceSummary, hbounds]; rfl
  | ok range =>
      rw [attendanceSummary_of_ok hbounds, attendanceSummary_of_ok hbounds,
        summarize_perm (attendanceRecords_perm (h range.1 range.2 hbounds))]

theorem lessonConsumption_reply (params : LessonStatisticsQueryDto)
    (h : ∀ gte lte, bounds env.newDate params.toStatisticsDateRangeQueryDto = .ok (gte, lte) →
      ∀ entry, entry ∈ db.ledgerEntries ambient (truthy params.studentId) gte lte ↔
        entry ∈ db'.ledgerEntries ambient (truthy params.studentId) gte lte) :
    db.lessonConsumption ambient env params = db'.lessonConsumption ambient env params := by
  cases hbounds : bounds env.newDate params.toStatisticsDateRangeQueryDto with
  | error e => simp only [Database.lessonConsumption, hbounds]; rfl
  | ok range =>
      rw [lessonConsumption_of_ok hbounds, lessonConsumption_of_ok hbounds,
        ((ledgerEntries_perm (h range.1 range.2 hbounds)).map _).sum_eq]

/-- A statistic of rows of the context is the same in databases that show the same rows. -/
theorem ChildCall.NamesOwn.statistic {call : ChildCall} (h : call.NamesOwn access env db)
    (ht : call.target? = none) (halike : db.Alike access db') :
    (call.run ambient env db).1 = (call.run ambient env db').1 := by
  cases call with
  | attendanceSummary params =>
      refine attendanceSummary_reply params fun gte lte hbounds record => ?_
      rcases h with hnone | ⟨classId, hclass, hseen⟩ | ⟨studentId, hstudent, hseen, hschedules⟩
      · have hno : ∀ db : Database, record ∉ db.attendanceRecords ambient (truthy params.studentId)
            ⟨gte, lte, truthy params.classId⟩ := by
          intro db hmem
          obtain ⟨-, -, hempty | hholds⟩ := mem_attendanceRecords.mp hmem
          · obtain ⟨hfrom, hto, -⟩ := (isEmpty_iff hbounds).mp hempty
            obtain ⟨hgte, hlte⟩ := bounds_isSome hbounds
            obtain rfl : gte = none := by simpa [hfrom] using hgte
            obtain rfl : lte = none := by simpa [hto] using hlte
            cases hnone none none hbounds 0
          · obtain ⟨row, -, -, hadmits⟩ := schedule_of_holds hholds
            simp [ScheduleWhere.admits, hnone gte lte hbounds row.startsAt] at hadmits
        exact iff_of_false (hno db) (hno db')
      · exact ⟨attendance_of_class halike hclass hseen,
          attendance_of_class halike.symm hclass (halike.seenAt hseen)⟩
      · rw [Option.mem_def.mp hstudent]
        have hown : (ScheduleWhere.mk gte lte (truthy params.classId)).isEmpty = true ∨ _ :=
          hschedules.imp_left (isEmpty_iff hbounds).mpr
        refine ⟨attendance_of_student halike hseen hown,
          attendance_of_student halike.symm (halike.seenAt hseen) (hown.imp_right ?_)⟩
        intro hschedules record' hr' hs'
        have hview : db'.InView access (.attendance record') :=
          Indexed.inView_iff.mpr (Or.inr ⟨_, List.mem_cons_self, hs' ▸ halike.seenAt hseen⟩)
        exact halike.seenAt (hschedules record' ((halike.symm.mem hview).mp hr') hs')
  | lessonConsumption params =>
      refine lessonConsumption_reply params fun gte lte hbounds entry => ?_
      rcases h with hnone | ⟨studentId, hstudent, hseen⟩
      · have hno : ∀ db : Database,
            entry ∉ db.ledgerEntries ambient (truthy params.studentId) gte lte := by
          intro db hmem
          obtain ⟨-, -, -, htime⟩ := mem_ledgerEntries.mp hmem
          rw [hnone gte lte hbounds] at htime
          cases htime
        exact iff_of_false (hno db) (hno db')
      · rw [Option.mem_def.mp hstudent]
        exact ⟨ledger_of_student halike hseen, ledger_of_student halike.symm (halike.seenAt hseen)⟩
  | _ => cases ht

theorem run_of_statistic {call : ChildCall} (ht : call.target? = none) :
    (call.run ambient env db).2 = db := by
  cases call <;> first | rfl | cases ht

end Statistics

/-- Calls that name rows of the context are isolated. -/
theorem ChildCall.NamesOwn.isolated {access : AccessContext} {env : CallEnv} {db : Database}
    {call : ChildCall}
    (h : call.NamesOwn access env db) : call.Isolated access env db := by
  cases ht : call.target? with
  | none =>
      refine ⟨fun db' _ halike => (h.statistic ht halike).symm, fun r _ => ?_⟩
      rw [run_of_statistic ht]
  | some e =>
      refine ⟨fun db' _ halike => ?_, fun r => h.others ht⟩
      rw [(run_performs _ _ _ ht).reply, (run_performs _ _ _ ht).reply, h.effect_eq halike ht]

/-! ### Databases that look the same -/

section Unnamed

variable {access : AccessContext} {env : CallEnv} {db db' : Database} {call : ChildCall} {e k : Entry}
  {r : StoredRow}

theorem exists_not_admits (clause : TenantWhereClause) :
    ∃ tenantId, clause.admits (some tenantId) = false := by
  cases clause with
  | eq tenantId =>
      obtain ⟨other, hother⟩ := Infinite.exists_notMem_finset {tenantId}
      exact ⟨other, by simpa [TenantWhereClause.admits] using hother⟩
  | «in» tenantIds =>
      obtain ⟨other, hother⟩ := Infinite.exists_notMem_finset tenantIds.toFinset
      exact ⟨other, by simpa [TenantWhereClause.admits] using hother⟩

theorem exists_other_tenant (access : AccessContext) :
    ∃ tenantId, ∀ r : StoredRow, r.tenantId = some tenantId → ¬ Own access r := by
  cases hclause : access.tenantWhere with
  | none =>
      refine ⟨"", ?_⟩
      rintro r - ⟨clause, hmem, -⟩
      rw [hclause] at hmem
      cases hmem
  | some clause =>
      obtain ⟨tenantId, hother⟩ := exists_not_admits clause
      refine ⟨tenantId, ?_⟩
      rintro r hr ⟨clause', hmem, hadmits⟩
      rw [hclause] at hmem
      obtain rfl := Option.some.inj hmem
      rw [hr, hother] at hadmits
      cases hadmits

/-- The context cannot tell the second database from the first; it has more rows, none of which
links others. -/
structure Extends (access : AccessContext) (db db' : Database) : Prop where
  alike : db.Alike access db'
  closed : db'.Closed
  has : ∀ {e}, db.Has e → db'.Has e
  links : ∀ {e}, e.IsLink → db'.Has e → db.Has e

theorem Extends.refl (hclosed : db.Closed) : Extends access db db :=
  ⟨.refl db, hclosed, id, fun _ => id⟩

theorem Extends.trans {db'' : Database} (h : Extends access db db') (h' : Extends access db' db'') :
    Extends access db db'' :=
  ⟨h.alike.trans h'.alike, h'.closed, fun he => h'.has (h.has he), fun hlink he =>
    h.links hlink (h'.links hlink he)⟩

/-- What is not there is not seen in what looks the same. -/
theorem Extends.not_seenAt (h : Extends access db db') (hk : ¬ db.SeenAt access k) :
    ¬ db'.SeenAt access k :=
  fun hseen => hk (h.alike.symm.seenAt hseen)

theorem not_inView (hown : ¬ Own access r) (hparents : ∀ k ∈ r.parents, ¬ db.SeenAt access k) :
    ¬ db.InView access r := by
  intro hview
  rcases Indexed.inView_iff.mp hview with h | ⟨k, hk, hseen⟩
  · exact hown h
  · exact hparents k hk hseen

/-- A row of another tenant may be there. -/
theorem exists_extends (hclosed : db.Closed) (hkeys : r.entries = [k]) (hk : ¬ k.IsLink)
    (hparents : ∀ k ∈ r.parents, db.Has k) (hforeign : ¬ db.InView access r) :
    ∃ db', Extends access db db' ∧ db'.Has k := by
  obtain ⟨db', halike, hclosed', hhas⟩ := Indexed.exists_has hkeys hclosed hparents hforeign
  refine ⟨db', ⟨halike, hclosed', fun he => (hhas _).mpr (Or.inl he), fun hlink he => ?_⟩,
    (hhas k).mpr (Or.inr rfl)⟩
  rcases (hhas _).mp he with he | rfl
  · exact he
  · exact absurd hlink hk

/-- A class of a tenant. -/
def aClass (id tenantId : String) : Courses.Class where
  id
  tenantId := some tenantId
  courseTypeId := ""
  name := ""
  coachId := none
  maxStudents := none

/-- A schedule of a tenant, of this class and at this time. -/
def aSchedule (id tenantId classId : String) (startsAt : Int) : Courses.Schedule where
  id
  tenantId := some tenantId
  classId
  venueId := ""
  coachId := ""
  startsAt
  endsAt := startsAt
  lateGraceMinutes := 0
  status := .scheduled

/-- A card of a student, without a tenant. -/
def aCard (id studentId : String) : Lessons.MembershipCard where
  id
  tenantId := none
  studentId
  title := ""
  totalLessons := 0
  remainingLessons := 0
  validFrom := 0
  validTo := 0
  status := .active
  version := 0

/-- A database that looks the same may have a row under this entry. -/
def MayHave (access : AccessContext) (k : Entry) : Prop :=
  ∀ {db : Database}, db.Closed → ∃ db', Extends access db db' ∧ db'.Has k

theorem mayHave_of_root (hown : ¬ Own access r) (hparents : r.parents = []) (hkeys : r.entries = [k])
    (hk : ¬ k.IsLink) : MayHave access k :=
  fun hclosed => exists_extends hclosed hkeys hk (by simp [hparents])
    (not_inView hown (by simp [hparents]))

theorem not_own_of_no_tenant (h : r.tenantId = none) : ¬ Own access r := by
  rintro ⟨clause, -, hadmits⟩
  rw [h] at hadmits
  cases clause <;> cases hadmits

theorem mayHave_student (access : AccessContext) (id : String) : MayHave access (.student id) := by
  obtain ⟨tenantId, hother⟩ := exists_other_tenant access
  exact mayHave_of_root (hother (.student id (some tenantId)) rfl) rfl rfl (fun h => h rfl)

theorem mayHave_klass (access : AccessContext) (id : String) : MayHave access (.klass id) := by
  obtain ⟨tenantId, hother⟩ := exists_other_tenant access
  exact mayHave_of_root (hother (.klass (aClass id tenantId)) rfl) rfl rfl (fun h => h rfl)

theorem mayHave_tag (access : AccessContext) (id : String) : MayHave access (.tag id) :=
  mayHave_of_root (r := .tag id) (not_own_of_no_tenant rfl) rfl rfl fun h => h rfl

theorem mayHave_group (access : AccessContext) (id : String) : MayHave access (.group id) :=
  mayHave_of_root (r := .group id) (not_own_of_no_tenant rfl) rfl rfl fun h => h rfl

/-- An entry of a kind that is not there. -/
theorem exists_not_seenAt (access : AccessContext) {f : String → Entry} (hf : Function.Injective f)
    (db : Database) :
    ∃ id, ¬ db.Has (f id) ∧ ¬ db.SeenAt access (f id) := by
  obtain ⟨id, hfree⟩ := Indexed.exists_free hf db
  exact ⟨id, hfree, fun hseen => hfree hseen.has⟩

theorem mayHave_schedule (access : AccessContext) (id : String) : MayHave access (.schedule id) := by
  intro db hclosed
  obtain ⟨tenantId, hother⟩ := exists_other_tenant access
  obtain ⟨classId, -, hunseen⟩ := exists_not_seenAt access (f := Entry.klass)
    (fun _ _ => Entry.klass.inj) db
  obtain ⟨db₁, h₁, hclass⟩ := mayHave_klass access classId hclosed
  obtain ⟨db₂, h₂, hhas⟩ := exists_extends (r := .schedule (aSchedule id tenantId classId 0)) h₁.closed
    rfl (fun h => h rfl) (by simpa [StoredRow.parents, aSchedule] using hclass)
    (not_inView (hother _ rfl) (by simpa [StoredRow.parents, aSchedule] using h₁.not_seenAt hunseen))
  exact ⟨db₂, h₁.trans h₂, hhas⟩

theorem exists_has_pair {k k' : Entry} (h : MayHave access k) (h' : MayHave access k')
    (hclosed : db.Closed) :
    ∃ db', Extends access db db' ∧ ∀ e ∈ [k, k'], db'.Has e := by
  obtain ⟨db₁, h₁, hhas⟩ := h hclosed
  obtain ⟨db₂, h₂, hhas'⟩ := h' h₁.closed
  exact ⟨db₂, h₁.trans h₂, by simpa using ⟨h₂.has hhas, hhas'⟩⟩

/-- What a row links may be there. -/
theorem exists_hasRefs (access : AccessContext) (hlink : e.IsLink) (hclosed : db.Closed) :
    ∃ db', Extends access db db' ∧ db'.HasRefs e := by
  cases e with
  | attendance | leave =>
      exact exists_has_pair (mayHave_student access _) (mayHave_schedule access _) hclosed
  | classStudent => exact exists_has_pair (mayHave_klass access _) (mayHave_student access _) hclosed
  | studentTag => exact exists_has_pair (mayHave_student access _) (mayHave_tag access _) hclosed
  | studentGroup => exact exists_has_pair (mayHave_student access _) (mayHave_group access _) hclosed
  | _ => exact absurd rfl hlink

/-- Where nothing that a row links is seen, the row may be there and may not be there. -/
theorem exists_without_with (hclosed : db.Closed) (hlink : e.IsLink)
    (hunseen : ∀ k ∈ e.refs, ¬ db.SeenAt access k) (he : e ∈ r.entries) : ∃ db₁ db₂ : Database,
      (db.Alike access db₁ ∧ db₁.Closed ∧ db₁.HasRefs e ∧ db₁.row? e = none) ∧
        db.Alike access db₂ ∧ db₂.Closed ∧ db₂.row? e = some r := by
  -- Take the row out, should it be there, put in what it links, and then the row.
  obtain ⟨halike₀, hclosed₀⟩ : db.Alike access (db.deleteWhere fun r => decide (e ∈ r.entries)) ∧
      Database.Closed (db.deleteWhere fun r => decide (e ∈ r.entries)) :=
    Indexed.agree_deleteWhere hclosed
      (fun r _ hp x _ _ k hk hkr => not_mem_parents_of_link hlink (by simpa using hp) hkr hk)
      (fun r _ hp hview => by
        obtain ⟨k, hk, hseen⟩ := (inView_of_link hlink (by simpa using hp)).mp hview
        exact hunseen k hk hseen)
  obtain ⟨db₁, h₁, hrefs⟩ := exists_hasRefs access hlink hclosed₀
  have halike₁ : db.Alike access db₁ := halike₀.trans h₁.alike
  have hnone : ¬ db₁.Has e := fun hhas => row?_eq_none_iff_not_has.mp row?_deleteWhere
    (h₁.links hlink hhas)
  obtain ⟨db₂, hrows, halike₂, hclosed₂⟩ : ∃ db₂ : Database, db₂.rows = db₁.rows ++ [r] ∧
      db₁.Alike access db₂ ∧ db₂.Closed := Indexed.exists_append
    (by rwa [entries_of_link hlink he, List.forall_mem_singleton])
    (by rw [entries_of_link hlink he]; exact List.nodup_singleton e) h₁.closed
    (by rwa [parents_of_link hlink he])
    (fun hview => by
      obtain ⟨k, hk, hseen⟩ := (inView_of_link hlink he).mp hview
      exact hunseen k hk (halike₁.symm.seenAt hseen))
  exact ⟨db₁, db₂, ⟨halike₁, h₁.closed, hrefs, row?_eq_none_iff_not_has.mpr hnone⟩,
    halike₁.trans halike₂, hclosed₂,
    (mem_iff_row? he).mp (by simp [hrows])⟩

/-- A row under the entry whose presence shows in the reply. -/
theorem exists_telling_row (env : CallEnv) (ht : call.target? = some e) :
    ∃ r, e ∈ r.entries ∧ ∀ (p q : Prop) [Decidable p] [Decidable q], p →
      (call.effect env p none).1 ≠ (call.effect env q (some r)).1 := by
  cases call <;> cases ht
  case checkOut studentId scheduleId =>
    let record : AttendanceRow :=
      { studentId, scheduleId, status := .present, method := .manual, checkInAt := none,
        checkInLat := none, checkInLng := none, checkOutAt := none }
    exact ⟨.attendance record, List.mem_singleton_self _, by simp [ChildCall.effect]⟩
  case createLeaveRequest studentId scheduleId =>
    obtain ⟨id, hid⟩ := Infinite.exists_notMem_finset {env.id}
    refine ⟨.leave { id, studentId, scheduleId, status := .approved }, List.mem_singleton_self _, ?_⟩
    intro p q _ _ hp heq
    simp [ChildCall.effect, hp] at heq
    exact hid (by simp [heq])
  case unenrollStudent classId studentId =>
    exact ⟨.classStudent classId studentId, List.mem_singleton_self _, by simp [ChildCall.effect]⟩
  case removeTag studentId tagId =>
    exact ⟨.studentTag studentId tagId, List.mem_singleton_self _, by simp [ChildCall.effect]⟩
  case removeGroup studentId groupId =>
    exact ⟨.studentGroup studentId groupId, List.mem_singleton_self _, by simp [ChildCall.effect]⟩

/-- An isolated call that writes names something that is seen. -/
theorem ChildCall.Isolated.seen (h : call.Isolated access env db) (ht : call.target? = some e)
    (hclosed : db.Closed) : ∃ k ∈ e.refs, db.SeenAt access k := by
  by_contra hnone
  have hunseen : ∀ k ∈ e.refs, ¬ db.SeenAt access k := fun k hk hseen => hnone ⟨k, hk, hseen⟩
  obtain ⟨r, he, hreply⟩ := exists_telling_row env ht
  obtain ⟨db₁, db₂, ⟨halike₁, hclosed₁, hrefs, hnone⟩, halike₂, hclosed₂, hsome⟩ :=
    exists_without_with hclosed (isLink_of_target ht) hunseen he
  have hsame := (h.reply db₁ hclosed₁ halike₁).trans (h.reply db₂ hclosed₂ halike₂).symm
  rw [(run_performs _ _ _ ht).reply, (run_performs _ _ _ ht).reply, hnone, hsome] at hsame
  exact hreply _ _ hrefs hsame

/-- Rows that refer to nothing are in view only for themselves. -/
theorem own_of_inView (h : db.InView access r) (hparents : r.parents = []) : Own access r := by
  rcases Indexed.inView_iff.mp h with hown | ⟨k, hk, -⟩
  · exact hown
  · rw [hparents] at hk
    cases hk

theorem student_of_mem {id : String} (he : .student id ∈ r.entries) :
    ∃ tenantId, r = .student id tenantId := by
  cases r with
  | student id' tenantId =>
      obtain rfl := Entry.student.inj (List.mem_singleton.mp he)
      exact ⟨tenantId, rfl⟩
  | ledger entry =>
      obtain ⟨_, -, heq⟩ := List.mem_map.mp he
      cases heq
  | _ => cases List.mem_singleton.mp he

theorem ownAt_student {id : String} (h : db.SeenAt access (.student id)) :
    db.OwnAt access (.student id) := by
  obtain ⟨r, hr, he, hview⟩ := h
  obtain ⟨tenantId, rfl⟩ := student_of_mem he
  exact ⟨_, hr, he, own_of_inView hview rfl⟩

/-- Tags and groups belong to no tenant. -/
theorem not_seenAt_shared (h : (∃ id, k = .tag id) ∨ ∃ id, k = .group id) : ¬ db.SeenAt access k := by
  rintro ⟨r, -, he, hview⟩
  have hplain : r.parents = [] ∧ r.tenantId = none := by
    cases r with
    | tag | group => exact ⟨rfl, rfl⟩
    | ledger entry =>
        obtain ⟨_, -, rfl⟩ := List.mem_map.mp he
        rcases h with ⟨_, h⟩ | ⟨_, h⟩ <;> cases h
    | _ =>
        obtain rfl := List.mem_singleton.mp he
        rcases h with ⟨_, h⟩ | ⟨_, h⟩ <;> cases h
  exact not_own_of_no_tenant hplain.2 (own_of_inView hview hplain.1)

theorem foreign_of_not_ownAt (hlink : e.IsLink) (he : e ∈ r.entries) (hk : k ∈ e.refs)
    (howner : k.isOwner = true)
    (hhas : db.Has k) (hnot : ¬ db.OwnAt access k) : db.Foreign access r := by
  obtain ⟨p, hp, hkp⟩ := hhas
  refine ⟨k, List.mem_filter.mpr ⟨?_, howner⟩, p, hp, hkp, fun hown => hnot ⟨p, hp, hkp, hown⟩⟩
  rwa [parents_of_link hlink he]

/-- An isolated call leaves the row under its entry when that belongs to another. -/
theorem ChildCall.Isolated.leaves (h : call.Isolated access env db) (ht : call.target? = some e)
    (hclosed : db.Closed) (hrow : db.row? e = some r) (hk : k ∈ e.refs) (howner : k.isOwner = true)
    (hnot : ¬ db.OwnAt access k) : (call.effect env (db.HasRefs e) (some r)).2 = some r := by
  obtain ⟨hr, he⟩ := Indexed.row?_eq_some_iff.mp hrow
  have hlink := isLink_of_target ht
  have hhas : db.Has k := hclosed r hr k (by rwa [parents_of_link hlink he])
  have hkept := (h.others r (foreign_of_not_ownAt hlink he hk howner hhas hnot)).mpr hr
  have hafter := (run_performs db access.ambient env ht).row
  rw [hrow] at hafter
  rw [← hafter]
  exact (mem_iff_row? he).mp hkept

/-- Of a student and a schedule that are not both the context's, one is not. -/
theorem exists_not_ownAt {studentId scheduleId : String}
    (h : ¬ (db.OwnAt access (.student studentId) ∧ db.OwnAt access (.schedule scheduleId))) :
    ∃ k ∈ [Entry.student studentId, .schedule scheduleId], k.isOwner = true ∧ ¬ db.OwnAt access k := by
  by_cases hstudent : db.OwnAt access (.student studentId)
  · exact ⟨.schedule scheduleId, by simp, rfl, fun hschedule => h ⟨hstudent, hschedule⟩⟩
  · exact ⟨.student studentId, by simp, rfl, hstudent⟩

/-- A request is created where there is none, so an isolated call finds one or is for rows of the
context. -/
theorem ChildCall.Isolated.has_leave {studentId scheduleId : String}
    (h : (ChildCall.createLeaveRequest studentId scheduleId).Isolated access env db)
      (hclosed : db.Closed)
    (hseen : ∃ k ∈ (Entry.leave studentId scheduleId).refs, db.SeenAt access k)
    (hk : k ∈ (Entry.leave studentId scheduleId).refs) (howner : k.isOwner = true)
      (hnot : ¬ db.OwnAt access k) :
    db.row? (.leave studentId scheduleId) ≠ none := by
  intro hnone
  have hlink : (Entry.leave studentId scheduleId).IsLink := List.cons_ne_nil _ _
  by_cases hrefs : db.HasRefs (.leave studentId scheduleId)
  · let request : LeaveRequest := { id := env.id, studentId, scheduleId, status := .approved }
    have he : Entry.leave studentId scheduleId ∈ (StoredRow.leave request).entries :=
      List.mem_singleton_self _
    have hrun := run_performs db access.ambient env
      (rfl : (ChildCall.createLeaveRequest studentId scheduleId).target? = some _)
    have hkept := h.others (.leave request) (foreign_of_not_ownAt hlink he hk howner (hrefs k hk) hnot)
    rw [mem_iff_row? he, mem_iff_row? he, hrun.row, hnone] at hkept
    simp only [ChildCall.effect, if_pos hrefs] at hkept
    cases hkept.mp rfl
  · -- The database with what is missing, where the request is created.
    obtain ⟨db', hext, hrefs'⟩ := exists_hasRefs access hlink hclosed
    have hreply := h.reply db' hext.closed hext.alike
    rw [(run_performs _ _ _ rfl).reply, (run_performs _ _ _ rfl).reply, ← row?_eq_of_seen hext.alike
      hlink hseen, hnone] at hreply
    simp [ChildCall.effect, hrefs, hrefs'] at hreply

/-- An isolated call that writes names rows of the context. -/
theorem ChildCall.Isolated.namesOwn_of_target (h : call.Isolated access env db)
    (ht : call.target? = some e)
    (hclosed : db.Closed) : call.NamesOwn access env db := by
  have hseen := h.seen ht hclosed
  cases call with
  | attendanceSummary | lessonConsumption => cases ht
  | checkOut studentId scheduleId =>
      cases ht
      by_cases hown : db.OwnAt access (.student studentId) ∧ db.OwnAt access (.schedule scheduleId)
      · exact Or.inl hown
      · obtain ⟨k, hk, howner, hnot⟩ := exists_not_ownAt hown
        refine Or.inr ⟨by simpa [Entry.refs] using hseen, fun record hr hs hc => ?_⟩
        have hrow : db.row? (.attendance studentId scheduleId) = some (.attendance record) :=
          (mem_iff_row? (by simp [StoredRow.entries, hs, hc])).mp hr
        have hleft := h.leaves rfl hclosed hrow hk howner hnot
        simp only [ChildCall.effect, Option.some.injEq, StoredRow.attendance.injEq] at hleft
        exact (congrArg AttendanceRow.checkOutAt hleft).symm
  | createLeaveRequest studentId scheduleId =>
      cases ht
      by_cases hown : db.OwnAt access (.student studentId) ∧ db.OwnAt access (.schedule scheduleId)
      · exact Or.inl hown
      · obtain ⟨k, hk, howner, hnot⟩ := exists_not_ownAt hown
        obtain ⟨r, hrow⟩ := Option.ne_none_iff_exists'.mp (h.has_leave hclosed hseen hk howner hnot)
        obtain ⟨hr, he⟩ := Indexed.row?_eq_some_iff.mp hrow
        obtain ⟨request, rfl, hs, hc⟩ := leave_of_mem he
        have hleft := h.leaves rfl hclosed hrow hk howner hnot
        simp only [ChildCall.effect, Option.some.injEq, StoredRow.leave.injEq] at hleft
        exact Or.inr ⟨by simpa [Entry.refs] using hseen, request, hr, hs, hc,
          (congrArg LeaveRequest.status hleft).symm⟩
  | unenrollStudent classId studentId =>
      cases ht
      by_cases hown : db.OwnAt access (.student studentId)
      · exact Or.inl hown
      · have hclass : db.SeenAt access (.klass classId) := by
          simp only [Entry.refs, List.mem_cons, List.not_mem_nil, or_false, exists_eq_or_imp,
            exists_eq_left] at hseen
          exact hseen.resolve_right fun hstudent => hown (ownAt_student hstudent)
        refine Or.inr ⟨hclass, fun hhas => ?_⟩
        obtain ⟨r, hrow⟩ := Option.ne_none_iff_exists'.mp fun hnone => row?_eq_none_iff_not_has.mp
          hnone hhas
        cases h.leaves rfl hclosed hrow (List.mem_cons_of_mem _ (List.mem_singleton_self _)) rfl hown
  | removeTag studentId tagId =>
      cases ht
      simp only [Entry.refs, List.mem_cons, List.not_mem_nil, or_false, exists_eq_or_imp,
        exists_eq_left] at hseen
      exact ownAt_student (hseen.resolve_right (not_seenAt_shared (Or.inl ⟨tagId, rfl⟩)))
  | removeGroup studentId groupId =>
      cases ht
      simp only [Entry.refs, List.mem_cons, List.not_mem_nil, or_false, exists_eq_or_imp,
        exists_eq_left] at hseen
      exact ownAt_student (hseen.resolve_right (not_seenAt_shared (Or.inr ⟨groupId, rfl⟩)))

end Unnamed

/-! ### Statistics about rows of others -/

section Unseen

variable {access : AccessContext} {env : CallEnv} {db db' : Database} {w : ScheduleWhere}
  {studentId? : Option String} {r : StoredRow} {k : Entry}

theorem row?_append (hrows : db'.rows = db.rows ++ [r]) (hk : k ∉ r.entries) :
    db'.row? k = db.row? k := by
  unfold Indexed.row?
  rw [hrows, List.find?_append, List.find?_singleton, decide_eq_false hk]
  simp

/-- A row a query may name: the one named, if it is not seen, or one of its own choice. -/
theorem exists_named {f : String → Entry} (hf : Function.Injective f)
    (hmay : ∀ id, MayHave access (f id)) {name? : Option String}
    (hunseen : ∀ id ∈ name?, ¬ db.SeenAt access (f id)) (hclosed : db.Closed) :
    ∃ id db', Extends access db db' ∧ db'.Has (f id) ∧ ¬ db'.SeenAt access (f id) ∧
      ∀ id' ∈ name?, id' = id := by
  obtain ⟨id, hid, hname⟩ : ∃ id, ¬ db.SeenAt access (f id) ∧ ∀ id' ∈ name?, id' = id := by
    cases name? with
    | none =>
        obtain ⟨id, -, hid⟩ := exists_not_seenAt access hf db
        exact ⟨id, hid, by simp⟩
    | some id => exact ⟨id, hunseen id rfl, by simp⟩
  obtain ⟨db', hext, hhas⟩ := hmay id hclosed
  exact ⟨id, db', hext, hhas, hext.not_seenAt hid, hname⟩

/-- One more row that is not in view. -/
theorem exists_append (hclosed : db.Closed) (hfree : ∀ k ∈ r.entries, ¬ db.Has k)
    (hnodup : r.entries.Nodup) (hparents : ∀ k ∈ r.parents, db.Has k) (hforeign : ¬ db.InView access r) :
    ∃ db' : Database, db'.rows = db.rows ++ [r] ∧ db.Alike access db' ∧ db'.Closed :=
  Indexed.exists_append hfree hnodup hclosed hparents hforeign

theorem attendanceRecords_append {record : AttendanceRow}
    (hrows : db'.rows = db.rows ++ [.attendance record])
    (hwhere : db.attendanceWhere studentId? w record = true) :
    (db'.attendanceRecords access.ambient studentId? w).length =
      (db.attendanceRecords access.ambient studentId? w).length + 1 := by
  have hsame : db'.attendanceWhere studentId? w = db.attendanceWhere studentId? w := by
    funext record'
    unfold Database.attendanceWhere ScheduleWhere.holds
    rw [row?_append hrows (by simp [StoredRow.entries])]
  rw [attendanceRecords_eq, attendanceRecords_eq, hsame, hrows, List.filterMap_append,
    List.filter_append]
  simp [StoredRow.attendance?, hwhere]

/-- A student that is not in view may have one more record that a query counts. -/
theorem exists_more_attendance {t : Int} (hclosed : db.Closed)
    (hclass : ∀ c ∈ w.classId, ¬ db.SeenAt access (.klass c))
    (hstudent : ∀ s ∈ studentId?, ¬ db.SeenAt access (.student s))
    (ht : between w.gte w.lte (some t) = true) :
    ∃ db₁ db₂ : Database, (db.Alike access db₁ ∧ db₁.Closed) ∧ (db.Alike access db₂ ∧ db₂.Closed) ∧
      (db₂.attendanceRecords access.ambient studentId? w).length =
        (db₁.attendanceRecords access.ambient studentId? w).length + 1 := by
  obtain ⟨tenantId, hother⟩ := exists_other_tenant access
  obtain ⟨classId, db₁, h₁, hhasClass, hunseenClass, hnameClass⟩ :=
    exists_named (fun _ _ => Entry.klass.inj) (mayHave_klass access) hclass hclosed
  obtain ⟨studentId, db₂, h₂, hhasStudent, hunseenStudent, hnameStudent⟩ :=
    exists_named (fun _ _ => Entry.student.inj) (mayHave_student access)
      (fun s hs => h₁.not_seenAt (hstudent s hs)) h₁.closed
  obtain ⟨scheduleId, hfree, -⟩ :=
    exists_not_seenAt access (f := Entry.schedule) (fun _ _ => Entry.schedule.inj) db₂
  -- A schedule at a time the query lets through.
  have hforeign : ¬ db₂.InView access (.schedule (aSchedule scheduleId tenantId classId t)) :=
    not_inView (hother _ rfl) (by simpa [StoredRow.parents, aSchedule] using h₂.not_seenAt hunseenClass)
  obtain ⟨db₃, hrows₃, halike₃, hclosed₃⟩ :=
    exists_append (r := .schedule (aSchedule scheduleId tenantId classId t)) h₂.closed
      (by simpa [StoredRow.entries, aSchedule] using hfree) (List.nodup_singleton _)
      (by simpa [StoredRow.parents, aSchedule] using h₂.has hhasClass) hforeign
  have hschedule : StoredRow.schedule (aSchedule scheduleId tenantId classId t) ∈ db₃.rows := by
    simp [hrows₃]
  let record : AttendanceRow :=
    { studentId, scheduleId, status := .present, method := .manual, checkInAt := none,
      checkInLat := none, checkInLng := none, checkOutAt := none }
  have hlink : (Entry.attendance studentId scheduleId).IsLink := List.cons_ne_nil _ _
  have hrecord : Entry.attendance studentId scheduleId ∈ (StoredRow.attendance record).entries :=
    List.mem_singleton_self _
  -- A record of a schedule that was not there was not there either.
  have hfree' : ¬ db₃.Has (.attendance studentId scheduleId) := by
    rintro ⟨r, hr, he⟩
    rw [hrows₃, List.mem_append, List.mem_singleton] at hr
    rcases hr with hr | rfl
    · exact hfree (h₂.closed r hr _ (by rw [parents_of_link hlink he]; simp [Entry.refs]))
    · simp [StoredRow.entries] at he
  have hhasStudent' : db₃.Has (.student studentId) := by
    obtain ⟨r, hr, he⟩ := hhasStudent
    exact ⟨r, by simp [hrows₃, hr], he⟩
  have hunseenSchedule : ¬ db₃.SeenAt access (.schedule scheduleId) :=
    fun hseen => hforeign (halike₃.symm.inView (hseen.inView hschedule (List.mem_singleton_self _)))
  obtain ⟨db₄, hrows₄, halike₄, hclosed₄⟩ := exists_append (r := .attendance record) hclosed₃
    (by simpa [StoredRow.entries] using hfree') (List.nodup_singleton _)
    (by simpa [StoredRow.parents] using ⟨hhasStudent', ⟨_, hschedule, List.mem_singleton_self _⟩⟩)
    (fun hview => by
      obtain ⟨k, hk, hseen⟩ := (inView_of_link hlink hrecord).mp hview
      simp only [Entry.refs, List.mem_cons, List.not_mem_nil, or_false] at hk
      rcases hk with rfl | rfl
      · exact hunseenStudent (halike₃.symm.seenAt hseen)
      · exact hunseenSchedule hseen)
  have halike : db.Alike access db₃ := (h₁.alike.trans h₂.alike).trans halike₃
  refine ⟨db₃, db₄, ⟨halike, hclosed₃⟩, ⟨halike.trans halike₄, hclosed₄⟩,
    attendanceRecords_append hrows₄ ?_⟩
  have hadmits : w.admits classId t = true := by
    rw [ScheduleWhere.admits, ht, Bool.true_and, Option.all_eq_true]
    exact fun c hc => by simp [hnameClass c hc]
  simp only [Database.attendanceWhere, Bool.and_eq_true, Bool.or_eq_true, Option.all_eq_true]
  exact ⟨fun s hs => by simp [hnameStudent s hs, record],
    Or.inr ((holds_of_schedule hschedule).trans hadmits)⟩

/-- A schedule held at another time, by another class. -/
def StoredRow.held (classId : String) (startsAt : Int) : StoredRow → StoredRow
  | .schedule row => .schedule { row with classId, startsAt }
  | r => r

theorem StoredRow.entries_held (classId : String) (startsAt : Int) (r : StoredRow) :
    (r.held classId startsAt).entries = r.entries := by
  cases r <;> rfl

/-- The database with the schedule of this entry held at another time, by another class. -/
def Database.hold (db : Database) (e : Entry) (classId : String) (startsAt : Int) : Database :=
  db.modify (fun r => decide (e ∈ r.entries)) (StoredRow.held classId startsAt)
    (StoredRow.entries_held classId startsAt)

theorem schedule_of_mem {id : String} (he : .schedule id ∈ r.entries) :
    ∃ row : Courses.Schedule, row.id = id ∧ r = .schedule row := by
  cases r with
  | schedule row => exact ⟨row, (Entry.schedule.inj (List.mem_singleton.mp he)).symm, rfl⟩
  | ledger entry =>
      obtain ⟨_, -, heq⟩ := List.mem_map.mp he
      cases heq
  | _ => cases List.mem_singleton.mp he

/-- A schedule that is not in view may be held otherwise. -/
theorem alike_hold {scheduleId classId : String} (startsAt : Int) (hclosed : db.Closed)
    (hschedule : ¬ db.SeenAt access (.schedule scheduleId)) (hhas : db.Has (.klass classId))
    (hclass : ¬ db.SeenAt access (.klass classId)) :
    db.Alike access (db.hold (.schedule scheduleId) classId startsAt) ∧
      (db.hold (.schedule scheduleId) classId startsAt).Closed := by
  refine Indexed.agree_modify hclosed (fun r _ hp => ?_) fun r hr hp => ?_
  · obtain ⟨row, -, rfl⟩ := schedule_of_mem (of_decide_eq_true hp)
    simpa [StoredRow.held, StoredRow.parents] using hhas
  · have hview : ¬ db.InView access r := fun hview => hschedule ⟨r, hr, of_decide_eq_true hp, hview⟩
    obtain ⟨row, -, rfl⟩ := schedule_of_mem (of_decide_eq_true hp)
    exact ⟨hview, not_inView (fun hown => hview (.own hown))
      (by simpa [StoredRow.held, StoredRow.parents] using hclass)⟩

theorem holds_hold_self {scheduleId classId : String} {startsAt : Int}
    (hhas : db.Has (.schedule scheduleId)) :
    w.holds (db.hold (.schedule scheduleId) classId startsAt) scheduleId =
      w.admits classId startsAt := by
  obtain ⟨r, hr, he⟩ := hhas
  obtain ⟨row, rfl, rfl⟩ := schedule_of_mem he
  have hheld : .schedule { row with classId, startsAt } ∈
      (db.hold (.schedule row.id) classId startsAt).rows :=
    Indexed.mem_modify.mpr ⟨_, hr, if_pos (by simpa using he)⟩
  exact holds_of_schedule hheld

theorem holds_hold_of_ne {scheduleId scheduleId' classId : String} {startsAt : Int}
    (hne : scheduleId' ≠ scheduleId) :
    w.holds (db.hold (.schedule scheduleId) classId startsAt) scheduleId' = w.holds db scheduleId' := by
  have hrow : (db.hold (.schedule scheduleId) classId startsAt).row? (.schedule scheduleId') =
      db.row? (.schedule scheduleId') := by
    refine Option.ext fun r => ?_
    rw [Indexed.row?_eq_some_iff, Indexed.row?_eq_some_iff]
    refine and_congr_left fun he => (sameBut_modify _ r fun he' => ?_).symm
    obtain ⟨row, rfl, rfl⟩ := schedule_of_mem he
    exact hne (Entry.schedule.inj (List.mem_singleton.mp he')).symm
  unfold ScheduleWhere.holds
  rw [hrow]

theorem attendances_hold (e : Entry) (classId : String) (startsAt : Int) :
    (db.hold e classId startsAt).rows.filterMap StoredRow.attendance? =
      db.rows.filterMap StoredRow.attendance? := by
  unfold Database.hold Indexed.modify
  rw [List.filterMap_map]
  refine List.filterMap_congr fun r _ => ?_
  simp only [Function.comp_apply]
  split
  · cases r <;> rfl
  · rfl

/-- A filter that lets a row more through gives a longer list. -/
theorem length_filter_lt {α : Type} {p q : α → Bool} {l : List α} (h : ∀ a, p a = true → q a = true)
    {a : α}
    (ha : a ∈ l) (hq : q a = true) (hp : p a = false) : (l.filter p).length < (l.filter q).length := by
  have hsub := List.monotone_filter_right l h
  refine Nat.lt_of_le_of_ne hsub.length_le fun heq => ?_
  have hmem : a ∈ l.filter p := hsub.eq_of_length heq ▸ List.mem_filter.mpr ⟨ha, hq⟩
  simp [hp] at hmem

/-- A time and a class that a filter lets through, and others that it does not. -/
theorem exists_not_admitted {classId other : String} (hw : w.isEmpty = false)
    (hclass : ∀ c ∈ w.classId, c = classId)
    (hother : other ≠ classId) : ∃ startsAt, w.admits other startsAt = false := by
  obtain ⟨gte, lte, class?⟩ := w
  cases gte with
  | some gte => exact ⟨gte - 1, by simp [ScheduleWhere.admits, between]⟩
  | none =>
      cases lte with
      | some lte => exact ⟨lte + 1, by simp [ScheduleWhere.admits, between]⟩
      | none =>
          cases class? with
          | none => cases hw
          | some c =>
              obtain rfl := hclass c rfl
              exact ⟨0, by simp [ScheduleWhere.admits, hother.symm]⟩

/-- A record whose schedule is not in view may be counted, and may not be. -/
theorem exists_other_schedule {studentId : String} {record : AttendanceRow} {t : Int}
    (hclosed : db.Closed)
    (hclass : ∀ c ∈ w.classId, ¬ db.SeenAt access (.klass c)) (hw : w.isEmpty = false)
    (ht : between w.gte w.lte (some t) = true) (hstudent : db.SeenAt access (.student studentId))
    (hrecord : .attendance record ∈ db.rows) (hof : record.studentId = studentId)
    (hschedule : ¬ db.SeenAt access (.schedule record.scheduleId)) :
    ∃ db₁ db₂ : Database, (db.Alike access db₁ ∧ db₁.Closed) ∧ (db.Alike access db₂ ∧ db₂.Closed) ∧
      (db₁.attendanceRecords access.ambient (some studentId) w).length <
        (db₂.attendanceRecords access.ambient (some studentId) w).length := by
  obtain ⟨classId, db₁, h₁, hhasClass, hunseenClass, hnameClass⟩ :=
    exists_named (fun _ _ => Entry.klass.inj) (mayHave_klass access) hclass hclosed
  obtain ⟨other, hfree, hunseenOther⟩ :=
    exists_not_seenAt access (f := Entry.klass) (fun _ _ => Entry.klass.inj) db₁
  obtain ⟨db₂, h₂, hhasOther⟩ := mayHave_klass access other h₁.closed
  have hne : other ≠ classId := fun h => hfree (h ▸ hhasClass)
  obtain ⟨startsAt, hnot⟩ := exists_not_admitted hw hnameClass hne
  have hadmits : w.admits classId t = true := by
    rw [ScheduleWhere.admits, ht, Bool.true_and, Option.all_eq_true]
    exact fun c hc => by simp [hnameClass c hc]
  have hext := h₁.trans h₂
  have hrecord₂ : .attendance record ∈ db₂.rows := by
    have hview : db.InView access (.attendance record) :=
      Indexed.inView_iff.mpr (Or.inr ⟨_, List.mem_cons_self, hof ▸ hstudent⟩)
    exact (hext.alike.mem hview).mp hrecord
  have hhas : db₂.Has (.schedule record.scheduleId) :=
    h₂.closed _ hrecord₂ _ (List.mem_cons_of_mem _ (List.mem_singleton_self _))
  have hunseen := hext.not_seenAt hschedule
  obtain ⟨halike₃, hclosed₃⟩ := alike_hold startsAt h₂.closed hunseen hhasOther
    (h₂.not_seenAt hunseenOther)
  obtain ⟨halike₄, hclosed₄⟩ := alike_hold t h₂.closed hunseen (h₂.has hhasClass)
    (h₂.not_seenAt hunseenClass)
  refine ⟨_, _, ⟨hext.alike.trans halike₃, hclosed₃⟩, ⟨hext.alike.trans halike₄, hclosed₄⟩, ?_⟩
  rw [attendanceRecords_eq, attendanceRecords_eq, attendances_hold, attendances_hold]
  refine length_filter_lt (fun r hr => ?_) (mem_attendances.mpr hrecord₂) ?_ ?_
  · simp only [Database.attendanceWhere, hw, Bool.false_or, Bool.and_eq_true] at hr ⊢
    refine ⟨hr.1, ?_⟩
    by_cases hid : r.scheduleId = record.scheduleId
    · rw [hid, holds_hold_self hhas, hadmits]
    · rw [holds_hold_of_ne hid] at hr ⊢
      exact hr.2
  · simp [Database.attendanceWhere, hof, holds_hold_self hhas, hadmits]
  · simp [Database.attendanceWhere, hw, holds_hold_self hhas, hnot]

/-- A student that is not in view may have one more entry that a query counts. -/
theorem exists_more_ledger {gte lte : Option Int} {t : Int} (hclosed : db.Closed)
    (hstudent : ∀ s ∈ studentId?, ¬ db.SeenAt access (.student s))
    (ht : between gte lte (some t) = true) :
    ∃ db₁ db₂ : Database, (db.Alike access db₁ ∧ db₁.Closed) ∧ (db.Alike access db₂ ∧ db₂.Closed) ∧
      ((db₂.ledgerEntries access.ambient studentId? gte lte).map fun t => t.delta).sum =
        ((db₁.ledgerEntries access.ambient studentId? gte lte).map fun t => t.delta).sum - 1 := by
  obtain ⟨studentId, db₁, h₁, hhasStudent, hunseenStudent, hnameStudent⟩ :=
    exists_named (fun _ _ => Entry.student.inj) (mayHave_student access) hstudent hclosed
  obtain ⟨cardId, hfreeCard, -⟩ := exists_not_seenAt access (f := Entry.card)
    (fun _ _ => Entry.card.inj) db₁
  have hforeign : ¬ db₁.InView access (.card (aCard cardId studentId)) :=
    not_inView (not_own_of_no_tenant rfl) (by simpa [StoredRow.parents, aCard] using hunseenStudent)
  obtain ⟨db₂, hrows₂, halike₂, hclosed₂⟩ := exists_append (r := .card (aCard cardId studentId)) h₁.closed
    (by simpa [StoredRow.entries, aCard] using hfreeCard) (List.nodup_singleton _)
    (by simpa [StoredRow.parents, aCard] using hhasStudent) hforeign
  have hcard : StoredRow.card (aCard cardId studentId) ∈ db₂.rows := by simp [hrows₂]
  have hunseenCard : ¬ db₂.SeenAt access (.card cardId) :=
    fun hseen => hforeign (halike₂.symm.inView (hseen.inView hcard (List.mem_singleton_self _)))
  obtain ⟨key, hfreeKey⟩ := Indexed.exists_free (f := fun key => Entry.ledger (.businessKey key))
    (fun _ _ h => Lessons.LedgerKey.businessKey.inj (Entry.ledger.inj h)) db₂
  let entry : LedgerRow :=
    { membershipId := cardId, studentId, delta := -1, reason := "", scheduleId := none,
      businessKey := key, beforeRemaining := 0, afterRemaining := 0, createdAt := t }
  obtain ⟨db₃, hrows₃, halike₃, hclosed₃⟩ := exists_append (r := .ledger entry) hclosed₂
    (by simpa [StoredRow.entries, Lessons.LessonTransaction.keys, entry] using hfreeKey)
    (by simp [StoredRow.entries, Lessons.LessonTransaction.keys, entry])
    (by
      obtain ⟨r, hr, he⟩ := hhasStudent
      simpa [StoredRow.parents, entry] using
        ⟨⟨_, hcard, List.mem_singleton_self _⟩, r, (by simp [hrows₂, hr] : r ∈ db₂.rows), he⟩)
    (not_inView (not_own_of_no_tenant rfl) (by
      simpa [StoredRow.parents, entry] using ⟨hunseenCard, fun hseen =>
        hunseenStudent (halike₂.symm.seenAt hseen)⟩))
  have halike := h₁.alike.trans halike₂
  refine ⟨db₂, db₃, ⟨halike, hclosed₂⟩, ⟨halike.trans halike₃, hclosed₃⟩, ?_⟩
  have hsame : db₃.ledgerWhere studentId? gte lte = db₂.ledgerWhere studentId? gte lte := by
    funext entry'
    unfold Database.ledgerWhere
    simp only [row?_append hrows₃ (by simp [StoredRow.entries, Lessons.LessonTransaction.keys, entry] :
      Entry.card entry'.membershipId ∉ (StoredRow.ledger entry).entries)]
  have hrow : db₂.row? (.card cardId) = some (.card (aCard cardId studentId)) :=
    Indexed.row?_eq_some_iff.mpr ⟨hcard, List.mem_singleton_self _⟩
  have hwhere : db₂.ledgerWhere studentId? gte lte entry = true := by
    simp only [Database.ledgerWhere, Bool.and_eq_true, Option.all_eq_true]
    exact ⟨⟨by simp [entry], fun s hs => by simp [entry, hrow, ofStudent, aCard, hnameStudent s hs]⟩, ht⟩
  rw [ledgerEntries_eq, ledgerEntries_eq, hsame, hrows₃, List.filterMap_append, List.filter_append]
  simp [StoredRow.ledger?, hwhere, entry]
  rfl

/-- A query that is not closed to all times is open to one. -/
theorem exists_time {newDate : String → JsDate} {params : StatisticsDateRangeQueryDto}
    (h : ¬ NoTime newDate params) :
    ∃ gte lte t, bounds newDate params = .ok (gte, lte) ∧ between gte lte (some t) = true := by
  by_contra hnone
  refine h fun gte lte hbounds t => Bool.eq_false_iff.mpr fun ht => hnone ⟨gte, lte, t, hbounds, ht⟩

/-- Isolated statistics count the same in databases that show the same rows. -/
theorem attendance_length_eq {params : AttendanceStatisticsQueryDto} {gte lte : Option Int}
    (h : (ChildCall.attendanceSummary params).Isolated access env db)
    (hbounds : bounds env.newDate params.toStatisticsDateRangeQueryDto = .ok (gte, lte))
      {db₁ db₂ : Database}
    (h₁ : db.Alike access db₁ ∧ db₁.Closed) (h₂ : db.Alike access db₂ ∧ db₂.Closed) :
    (db₁.attendanceRecords access.ambient (truthy params.studentId)
      ⟨gte, lte, truthy params.classId⟩).length =
      (db₂.attendanceRecords access.ambient (truthy params.studentId)
        ⟨gte, lte, truthy params.classId⟩).length := by
  have hsame := (h.reply db₁ h₁.2 h₁.1).trans (h.reply db₂ h₂.2 h₂.1).symm
  simp only [ChildCall.run, attendanceSummary_of_ok hbounds, Except.ok.injEq, Reply.summary.injEq]
    at hsame
  exact congrArg AttendanceSummary.totalRecords hsame

/-- An isolated statistic is one of rows of the context. -/
theorem ChildCall.Isolated.namesOwn_of_statistic {call : ChildCall} (h : call.Isolated access env db)
    (ht : call.target? = none) (hclosed : db.Closed) : call.NamesOwn access env db := by
  cases call with
  | attendanceSummary params =>
      by_contra hnot
      simp only [ChildCall.NamesOwn, not_or, not_exists, not_and] at hnot
      obtain ⟨htime, hclass, hstudent⟩ := hnot
      obtain ⟨gte, lte, t, hbounds, ht⟩ := exists_time htime
      by_cases hseen : ∃ s ∈ truthy params.studentId, db.SeenAt access (.student s)
      · obtain ⟨studentId, hs, hseen⟩ := hseen
        have hschedules := hstudent studentId hs hseen
        simp only [Database.SchedulesSeen, not_or, not_forall] at hschedules
        obtain ⟨hw, record, hrecord, hof, hschedule⟩ := hschedules
        obtain ⟨db₁, db₂, h₁, h₂, hlt⟩ := exists_other_schedule
          (w := ⟨gte, lte, truthy params.classId⟩) hclosed hclass
          (Bool.eq_false_iff.mpr fun hempty => hw ((isEmpty_iff hbounds).mp hempty)) ht hseen
            hrecord hof hschedule
        have hlength := attendance_length_eq h hbounds h₁ h₂
        rw [Option.mem_def.mp hs] at hlength
        omega
      · obtain ⟨db₁, db₂, h₁, h₂, hmore⟩ := exists_more_attendance
          (w := ⟨gte, lte, truthy params.classId⟩) hclosed hclass
            (fun s hs hsee => hseen ⟨s, hs, hsee⟩) ht
        have hlength := attendance_length_eq h hbounds h₁ h₂
        omega
  | lessonConsumption params =>
      by_contra hnot
      simp only [ChildCall.NamesOwn, not_or, not_exists, not_and] at hnot
      obtain ⟨htime, hstudent⟩ := hnot
      obtain ⟨gte, lte, t, hbounds, ht⟩ := exists_time htime
      obtain ⟨db₁, db₂, h₁, h₂, hless⟩ := exists_more_ledger hclosed hstudent ht
      have hsame := (h.reply db₁ h₁.2 h₁.1).trans (h.reply db₂ h₂.2 h₂.1).symm
      simp only [ChildCall.run, lessonConsumption_of_ok hbounds, Except.ok.injEq,
        Reply.consumption.injEq] at hsame
      omega
  | _ => cases ht

end Unseen

/-- **When a call on child rows is isolated**: exactly when its arguments name rows of the
context already. -/
theorem isolated_iff_namesOwn (access : AccessContext) (env : CallEnv) {db : Database}
    (hclosed : db.Closed) (call : ChildCall) :
    call.Isolated access env db ↔ call.NamesOwn access env db := by
  refine ⟨fun h => ?_, ChildCall.NamesOwn.isolated⟩
  cases ht : call.target? with
  | none => exact h.namesOwn_of_statistic ht hclosed
  | some e => exact h.namesOwn_of_target ht hclosed

/-- Staff of the tenant, and no other. -/
def staffOf (tenantId : String) : AccessContext := ⟨[tenantId], none, .organization⟩

/-- A student of each of two tenants, under one tag. -/
def twoTenantRows : Database where
  rows := [.student "s1" (some "north"), .student "s2" (some "south"), .tag "t1", .studentTag "s1" "t1",
    .studentTag "s2" "t1"]
  unique := by decide

theorem twoTenantRows_closed : twoTenantRows.Closed := by
  simp [Indexed.Closed, Indexed.Has, twoTenantRows, StoredRow.parents, StoredRow.entries]

/-- Calls at the epoch, the `tg` row created next. -/
def epochEnv : CallEnv := ⟨fun _ => none, 0, "tg"⟩

theorem isolated_of_own_tag :
    (ChildCall.removeTag "s1" "t1").Isolated (staffOf "north") epochEnv twoTenantRows :=
  (isolated_iff_namesOwn (staffOf "north") epochEnv twoTenantRows_closed
      (.removeTag "s1" "t1")).mpr
    ⟨.student "s1" (some "north"), by simp [twoTenantRows], by simp [StoredRow.entries], .in ["north"],
      rfl, by decide⟩

end MibServer.Tenancy
