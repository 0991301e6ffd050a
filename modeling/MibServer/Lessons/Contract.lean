import MibServer.Lessons.Services

/-!
What a lesson call can do to the ledger, in one place: `LedgerChange` lists the
commits of all four calls, and `program_safe` shows that no statement of theirs does
anything else, in any interleaving. Every invariant of the ledger is then a case
analysis on `LedgerChange`.
-/

namespace MibServer.Lessons

open MibServer.Lib MibServer.Prisma MibServer.Courses MibServer.Tenancy

abbrev LessonCommit := Commit LessonDb LessonCall (LessonProg LessonResult)

/-- The call has just returned `deducted: true`. -/
def isDeducted : LessonProg LessonResult → Bool
  | .ret (.attendance _ deducted) => deducted
  | _ => false

/-- The commits of the lesson calls. -/
inductive LedgerChange (m : LessonCommit) : Prop where
  /-- A read, an attendance record, a deduction that was refused or given back. -/
  | unchanged (same : SameLedger m.base m.work) (result : isDeducted m.rest = false)
  /-- A check-in that charges a card its amount. -/
  | checkedIn (ambient : Ambient) (dto : CheckInDto) (card : MembershipCard) (deductAmount : Int)
      (call : m.call = .checkIn ambient dto) (balance : deductAmount ≤ card.remainingLessons)
      (booked : Booked m.base m.work card
        (checkInTransaction dto.studentId dto.scheduleId card.id deductAmount card.remainingLessons) 0)
      (result : isDeducted m.rest = true)
  /-- An adjustment: `seen` is the card as its first read saw it. -/
  | adjusted (ambient : Ambient) (id : String) (dto : AdjustLessonsDto) (card seen : MembershipCard)
      (uuid : String) (call : m.call = .adjustLessons ambient id dto) (commit : ∃ p, m.prog = .commit p)
      (seen_mem : seen ∈ m.snapshot.cards.rows) (seen_id : seen.id = id)
      (version : seen.version = card.version)
      (balance : 0 ≤ card.remainingLessons + dto.delta ∨ 0 < dto.delta)
      (booked : Booked m.base m.work card
        (adjustTransaction id dto seen.studentId uuid seen.remainingLessons) 1)
      (result : isDeducted m.rest = false)
  | created (ambient : Ambient) (dto : CreateMembershipDto) (card : MembershipCard)
      (call : m.call = .create ambient dto) (balance : card.remainingLessons = dto.remainingLessons)
      (cards : m.work.cards.rows = m.base.cards.rows ++ [card])
      (transactions : m.work.transactions = m.base.transactions)
      (opening : m.work.opening = Function.update m.base.opening card.id card.remainingLessons)
      (result : isDeducted m.rest = false)
  | patched (ambient : Ambient) (id : String) (dto : UpdateMembershipDto)
      (data : MembershipCardData) (call : m.call = .update ambient id dto)
      (unscoped : resolveTenantWhere ambient = none)
      (statement : ∃ k, m.prog = .stmt (.write (.updateCard id none data)) k)
      (patch : ∃ validFrom validTo, data = dto.data validFrom validTo)
      (cards : m.work.cards.rows = m.base.cards.rows.map fun c => if c.id = id then data.apply c else c)
      (transactions : m.work.transactions = m.base.transactions)
      (opening : m.work.opening = m.base.opening)
      (result : isDeducted m.rest = false)

/-- The contract of the lesson calls. -/
def ledgerContract (calls : LessonCall → Prop) :
    Contract LessonDb LessonCall (LessonProg LessonResult) where
  inv _ := True
  evolves _ _ := True
  refl _ := trivial
  trans _ _ := trivial
  post := LedgerChange
  calls := calls

theorem commits_of {calls : LessonCall → Prop} {m : LessonCommit} (h : LedgerChange m) :
    (ledgerContract calls).Commits m :=
  ⟨trivial, trivial, h⟩

/-! ### Outside a transaction -/

/-- A safe program that has not returned yet. -/
def Going (calls : LessonCall → Prop) (c : LessonCall) (p : LessonProg LessonResult) : Prop :=
  p.Safe lessonClient.engine (ledgerContract calls) c none ∧ isDeducted p = false

section Going

variable {calls : LessonCall → Prop} {c : LessonCall}

theorem going_throw (e : HttpException) : Going calls c (.throw e) := ⟨trivial, rfl⟩

/-- A statement that leaves the rows alone. -/
theorem going_quiet {q : LessonStmt} {k : q.Reply → LessonProg LessonResult}
    (hquiet : ∀ env (db : LessonDb), (lessonClient.exec db env q).2 = db)
    (h : ∀ reply, Going calls c (k reply)) :
    Going calls c (.stmt q k) := by
  refine ⟨fun env s _ => ⟨commits_of (.unchanged ?_ (h _).2), (h _).1⟩, rfl⟩
  have hsame : (lessonClient.engine.exec q env s).2 = s := hquiet env s
  rw [hsame]
  exact .refl s

theorem going_find {r : LessonRead} {k : r.Row → LessonProg LessonResult}
    (h : ∀ row, Going calls c (k row)) : Going calls c ((find r).bind k) := by
  refine going_quiet (fun _ _ => rfl) fun reply => ?_
  cases reply with
  | error _ => exact going_throw _
  | ok row => exact h row

theorem going_dateOrReject {date : JsDate} {k : Int → LessonProg LessonResult}
    (h : ∀ t, Going calls c (k t)) : Going calls c ((dateOrReject date).bind k) := by
  cases date with
  | none => exact going_throw _
  | some t => exact h t

theorem going_optionalDate {date : Option JsDate} {k : Option Int → LessonProg LessonResult}
    (h : ∀ t, Going calls c (k t)) : Going calls c ((optionalDate date).bind k) := by
  rcases date with _ | _ | t
  · exact h none
  · exact going_throw _
  · exact h (some t)

theorem going_checkMethod {outside : Geofence} {dto : CheckInDto} {venue : Venue} {now : Int}
    {k : Unit → LessonProg LessonResult} (h : Going calls c (k ())) :
    Going calls c ((checkMethod outside dto venue now).bind k) := by
  unfold checkMethod
  split
  · exact h
  · split
    · exact going_throw _
    · rw [Prog.bind_eq, Prog.bind_assoc]
      refine going_find fun record => ?_
      split
      · exact h
      · exact going_throw _
  · split
    · split
      · split
        · exact going_throw _
        · exact h
      · exact going_throw _
    · exact going_throw _

/-- A write of its own. -/
theorem going_write {w : LessonWrite} {k : Except DbError w.Row → LessonProg LessonResult}
    (hfault : Going calls c (k (.error .other)))
    (hwrite : ∀ db : LessonDb,
      LedgerChange ⟨c, .stmt (.write w) k, db, db, (db.write w).2, k (db.write w).1⟩ ∧
        (k (db.write w).1).Safe lessonClient.engine (ledgerContract calls) c none) :
    Going calls c (.stmt (.write w) k) := by
  refine ⟨fun env db _ => ?_, rfl⟩
  have hexec : lessonClient.engine.exec (.write w) env db =
      if env.fault then (.error .other, db) else db.write w := rfl
  rw [hexec]
  cases env.fault with
  | true => exact ⟨commits_of (.unchanged (.refl db) hfault.2), hfault.1⟩
  | false => exact ⟨commits_of (hwrite db).1, (hwrite db).2⟩

end Going

/-! ### The check-in transaction -/

theorem upsertAttendance_sameLedger (db : LessonDb) (row : AttendanceRecord) :
    SameLedger db (db.upsertAttendance row).2 := by
  unfold LessonDb.upsertAttendance
  split
  · exact ⟨rfl, rfl, rfl⟩
  · split <;> exact ⟨rfl, rfl, rfl⟩

theorem Booked.of_sameLedger {db db₁ db₂ : LessonDb} {card : MembershipCard}
    {row : LessonTransaction} {versionIncrement : Int} (hsame : SameLedger db db₁)
    (h : Booked db₁ db₂ card row versionIncrement) : Booked db db₂ card row versionIncrement where
  card_mem := hsame.cards ▸ h.card_mem
  membershipId := h.membershipId
  cards := hsame.cards ▸ h.cards
  transactions := hsame.transactions ▸ h.transactions
  opening := h.opening.trans hsame.opening

/-- What the check-in transaction leaves behind. -/
def CheckedIn (studentId scheduleId : String) (db : LessonDb) (result : LessonResult)
    (db' : LessonDb) : Prop :=
  SameLedger db db' ∧ isDeducted (.ret result) = false ∨
    (∃ card deductAmount, deductAmount ≤ card.remainingLessons ∧ Booked db db' card
      (checkInTransaction studentId scheduleId card.id deductAmount card.remainingLessons) 0) ∧
      isDeducted (.ret result) = true

theorem upsertAttendanceTx_yields {v : View LessonDb} (hv : v.isolation = .serializable)
    (scope : Option TenantWhereClause) (studentId scheduleId : String) (params : AttendanceParams) :
    (upsertAttendanceTx scope studentId scheduleId params).Yields lessonClient.engine
      (CheckedIn studentId scheduleId v.work) v := by
  unfold upsertAttendanceTx
  simp only [Prog.bind_eq, Prog.pure_eq]
  refine yields_write trivial ?_
  simp only [lessonClient_write, LessonDb.write]
  generalize hrow : AttendanceRecord.mk .. = row
  have hsame := upsertAttendance_sameLedger v.work row
  cases (v.work.upsertAttendance row).1 with
  | error _ => trivial
  | ok attendance =>
      simp only [orRethrow, Prog.ret_bind]
      split
      · rename_i deductAmount _
        refine Prog.Yields.bind ((deductLessonsForCheckIn_yields ?_ scope studentId scheduleId
          deductAmount).mono ?_)
        · exact hv
        · rintro outcome db' (⟨hne, rfl⟩ | ⟨rfl, card, hbalance, hbooked⟩)
          · exact Or.inl ⟨hsame, by simpa [isDeducted] using hne⟩
          · exact Or.inr ⟨⟨card, deductAmount, hbalance, hbooked.of_sameLedger hsame⟩, rfl⟩
      · exact Or.inl ⟨hsame, rfl⟩

/-! ### The adjustment transaction -/

/-- An adjustment that answers `ok` has changed the one card of that id and version. -/
theorem yields_applyMembershipLessonDelta {α : Type} {v : View LessonDb}
    {post : α → LessonDb → Prop} {scope : Option TenantWhereClause} {id : String}
    {version delta : Int} {k : LessonAdjustResult → LessonProg α} (hdelta : delta ≠ 0)
    (herror : ∀ reason, (k (.error reason)).Yields lessonClient.engine post v)
    (hok : ∀ card ∈ v.work.cards.rows, card.id = id → card.version = version →
      (0 ≤ card.remainingLessons + delta ∨ 0 < delta) → ∀ u : CardIncrement, u.id = id →
      u.remainingLessons = delta → u.versionIncrement = 1 →
      (k (.ok ())).Yields lessonClient.engine post (v.at (v.work.increment u))) :
    ((applyMembershipLessonDelta scope id version delta).bind k).Yields lessonClient.engine post v := by
  unfold applyMembershipLessonDelta
  split
  · rename_i hpos
    simp only [Prog.bind_eq, Prog.pure_eq]
    refine yields_updateManyCards trivial (fun _ => herror _) fun card hmem hselects => ?_
    simp only [CardIncrement.selects, Option.all_some, Option.all_none, Bool.and_true,
      Bool.and_eq_true, beq_iff_eq] at hselects
    exact hok card hmem hselects.1.1 hselects.1.2.symm (Or.inr hpos) _ rfl rfl rfl
  · rename_i hneg
    simp only [Prog.bind_eq, Prog.bind_assoc]
    refine yields_tryDecrement ?_ fun card hmem hid _ _ hbalance hversion => ?_
    · simp only [Bool.false_eq_true, if_false, Prog.bind_assoc]
      refine yields_find ?_
      split
      · exact herror _
      · split
        · exact herror _
        · split <;> exact herror _
    · have hneg' : delta < 0 := by omega
      have habs : |delta| = -delta := abs_of_neg hneg'
      have hver : version = card.version := by simpa using hversion
      simp only [if_true, Prog.pure_eq, Prog.ret_bind]
      exact hok card hmem hid hver.symm (Or.inl (by omega)) _ rfl (by simp [habs]) rfl

/-- What the adjustment transaction leaves behind. -/
def Adjusted (id : String) (dto : AdjustLessonsDto) (snapshot db db' : LessonDb) : Prop :=
  ∃ card seen uuid, seen ∈ snapshot.cards.rows ∧ seen.id = id ∧ seen.version = card.version ∧
    (0 ≤ card.remainingLessons + dto.delta ∨ 0 < dto.delta) ∧
    Booked db db' card (adjustTransaction id dto seen.studentId uuid seen.remainingLessons) 1

theorem adjustLessonsTx_yields {scope : Option TenantWhereClause} {id : String}
    {dto : AdjustLessonsDto} (hdelta : dto.delta ≠ 0) (snapshot base : LessonDb) :
    (adjustLessonsTx scope id dto).Yields lessonClient.engine
      (fun result db' => Adjusted id dto snapshot base db' ∧ isDeducted (.ret result) = false)
      (View.initial .repeatableRead snapshot base) := by
  unfold adjustLessonsTx
  simp only [Prog.bind_eq, Prog.pure_eq]
  refine yields_find ?_
  rw [Client.seen_initial]
  split
  · trivial
  · rename_i seen hfind
    have hseen : seen ∈ snapshot.cards.rows ∧ seen.id = id :=
      ⟨List.mem_of_find?_eq_some hfind, findCard_id hfind⟩
    refine yields_applyMembershipLessonDelta hdelta ?_ fun card hmem hid hversion hbalance u huid
      hudelta huversion => ?_
    · rintro (_ | _) <;> trivial
    · refine yields_random fun uuid => ?_
      refine yields_createTransaction (fun _ => trivial) fun transactions hinsert => ?_
      simp only [orRethrow, Prog.ret_bind]
      refine yields_find ?_
      split
      · refine ⟨⟨card, seen, uuid, hseen.1, hseen.2, hversion.symm, hbalance, ?_⟩, rfl⟩
        have hbooked := booked_of_increment hmem (huid.trans hid.symm) hid.symm hudelta hinsert
        rw [huversion] at hbooked
        exact hbooked
      · trivial

/-! ### The four calls -/

section Calls

variable {calls : LessonCall → Prop}

theorem going_upsertAttendance (ambient : Ambient) (dto : CheckInDto) (params : AttendanceParams) :
    Going calls (.checkIn ambient dto) (upsertAttendance ambient dto.studentId dto.scheduleId params) := by
  refine ⟨Prog.Safe.transaction fun snapshot base _ _ _ => ?_, rfl⟩
  refine (upsertAttendanceTx_yields rfl _ dto.studentId dto.scheduleId params).mono ?_
  rintro result db' (⟨hsame, hresult⟩ | ⟨⟨card, deductAmount, hbalance, hbooked⟩, hresult⟩)
  · exact commits_of (.unchanged hsame hresult)
  · exact commits_of (.checkedIn ambient dto card deductAmount rfl hbalance hbooked hresult)

theorem checkIn_safe (outside : Geofence) (ambient : Ambient) (dto : CheckInDto) :
    Going calls (.checkIn ambient dto) (checkIn outside ambient dto) := by
  unfold checkIn
  refine going_find fun schedule => ?_
  split
  · exact going_throw _
  · split
    · exact going_throw _
    · refine going_find fun enrolled => ?_
      split
      · exact going_throw _
      · refine going_find fun leave => going_quiet (fun _ _ => rfl) fun now => ?_
        simp only [Prog.ret_bind]
        split
        · exact going_upsertAttendance ambient dto _
        · split
          · exact going_upsertAttendance ambient dto _
          · exact going_checkMethod (going_upsertAttendance ambient dto _)

theorem adjustLessons_safe (ambient : Ambient) (id : String) (dto : AdjustLessonsDto) :
    Going calls (.adjustLessons ambient id dto) (adjustLessons ambient id dto) := by
  unfold adjustLessons
  split
  · exact going_throw _
  · rename_i hdelta
    refine ⟨Prog.Safe.transaction fun snapshot base _ _ _ => ?_, rfl⟩
    refine (adjustLessonsTx_yields hdelta snapshot base).mono ?_
    rintro result db' ⟨⟨card, seen, uuid, hseen, hid, hversion, hbalance, hbooked⟩, hresult⟩
    exact commits_of (.adjusted ambient id dto card seen uuid rfl ⟨_, rfl⟩ hseen hid hversion
      hbalance hbooked hresult)

theorem create_safe (ambient : Ambient) (dto : CreateMembershipDto) :
    Going calls (.create ambient dto) (create ambient dto) := by
  unfold create
  refine going_find fun student => ?_
  split
  · exact going_throw _
  · refine going_dateOrReject fun validFrom => going_dateOrReject fun validTo => ?_
    refine going_quiet (fun _ _ => rfl) fun uuid => going_write (going_throw _) fun db => ?_
    simp only [LessonDb.write, LessonDb.createCard]
    split
    · split
      · rename_i cards hinsert
        exact ⟨.created ambient dto _ rfl rfl (Indexed.rows_insert? hinsert) rfl rfl rfl, trivial⟩
      · exact ⟨.unchanged (.refl db) rfl, trivial⟩
    · exact ⟨.unchanged (.refl db) rfl, trivial⟩

theorem update_safe (ambient : Ambient) (id : String) (dto : UpdateMembershipDto) :
    Going calls (.update ambient id dto) (update ambient id dto) := by
  unfold update
  generalize hscope : resolveTenantWhere ambient = scope
  refine going_find fun card => ?_
  split
  · exact going_throw _
  · refine going_optionalDate fun validFrom => going_optionalDate fun validTo => ?_
    refine going_write (going_throw _) fun db => ?_
    simp only [LessonDb.write, LessonDb.updateCard]
    split
    · split
      · refine ⟨.patched ambient id dto (dto.data validFrom validTo) rfl hscope ⟨_, rfl⟩
          ⟨_, _, rfl⟩ ?_ rfl rfl rfl, trivial⟩
        exact List.map_congr_left fun c _ => by simp
      · exact ⟨.unchanged (.refl db) rfl, trivial⟩
    · exact ⟨.unchanged (.refl db) rfl, trivial⟩

theorem program_safe (outside : Geofence) (c : LessonCall) : Going calls c (c.program outside) := by
  cases c with
  | checkIn ambient dto => exact checkIn_safe outside ambient dto
  | adjustLessons ambient id dto => exact adjustLessons_safe ambient id dto
  | create ambient dto => exact create_safe ambient dto
  | update ambient id dto => exact update_safe ambient id dto

end Calls

end MibServer.Lessons
