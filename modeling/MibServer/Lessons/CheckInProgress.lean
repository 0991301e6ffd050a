import MibServer.Lessons.DeductAlone
import MibServer.Lessons.Conservation
import MibServer.Lib.Delimited

/-!
When a check-in deduction goes through.

The ledger has two unique keys, and the manual adjustments share both the table and one of
the keys with the check-ins: a row that an adjustment has entered for a schedule stands in
the way of every deduction from the same card for it. And a caller with a tenant clause
deducts from the cards it sees only. `progresses_iff` says exactly what blocks a deduction.
-/

namespace MibServer.Lessons

open MibServer.Lib MibServer.Prisma MibServer.Courses MibServer.Tenancy

/-- The ledger has the row of a check-in deduction of the student for the schedule. -/
def CheckInDeducted (db : LessonDb) (studentId scheduleId : String) : Prop :=
  ∃ t ∈ db.transactions.rows, t.studentId = studentId ∧ t.scheduleId = some scheduleId ∧
    t.businessKey = buildCheckInBusinessKey studentId scheduleId

/-- The student has a usable card with lessons enough. -/
def Covered (db : LessonDb) (studentId : String) (now deductAmount : Int) : Prop :=
  ∃ card ∈ db.cards.rows, card.usable studentId now = true ∧ deductAmount ≤ card.remainingLessons

/-- A deduction at the time `now` does not throw, and it deducts where a card covers the
amount. -/
structure Progresses (db : LessonDb) (scope : Option TenantWhereClause)
    (studentId scheduleId : String) (deductAmount now : Int) : Prop where
  returns : ∀ e,
    (deductAlone (fun _ => none) db scope studentId scheduleId deductAmount now).1 ≠ .error e
  deducts : Covered db studentId now deductAmount →
    (deductAlone (fun _ => none) db scope studentId scheduleId deductAmount now).1 = .ok .deducted

/-- The caller sees a card that covers the amount, if there is one; no ledger row passes for the
deduction, and none has taken the schedule for the card that would be charged. -/
structure Unblocked (db : LessonDb) (scope : Option TenantWhereClause)
    (studentId scheduleId : String) (deductAmount now : Int) : Prop where
  seen : Covered db studentId now deductAmount → ∃ card ∈ db.cards.rows,
    card.usable studentId now = true ∧ card.visible scope = true ∧
      deductAmount ≤ card.remainingLessons
  free : ∀ card, FirstCovering db scope studentId now deductAmount card →
    ∀ t ∈ db.transactions.rows,
      t.isCheckIn studentId scheduleId (buildCheckInBusinessKey studentId scheduleId)
          CHECKIN_DEDUCT_REASON = false ∧
        ¬ (t.membershipId = card.id ∧ t.scheduleId = some scheduleId)

/-! ### One call -/

section Call

variable {db : LessonDb} {scope : Option TenantWhereClause} {studentId scheduleId : String}
  {deductAmount now : Int} {card : MembershipCard}

theorem coveringCard_eq_some_iff :
    db.coveringCard? scope studentId now deductAmount = some card ↔
      FirstCovering db scope studentId now deductAmount card := by
  constructor
  · exact firstCovering_of_some
  · intro h
    obtain ⟨before, after, hcards, hbefore⟩ := h.first
    refine List.find?_eq_some_iff_append.mpr ⟨by simpa using h.covers, before, after, hcards, ?_⟩
    intro c hc
    simpa using hbefore c hc

/-- The query returns a card that covers the amount, where the caller sees one. -/
theorem coveringCard_eq_none_iff :
    db.coveringCard? scope studentId now deductAmount = none ↔
      ¬ ∃ card ∈ db.cards.rows, card.usable studentId now = true ∧ card.visible scope = true ∧
        deductAmount ≤ card.remainingLessons := by
  rw [LessonDb.coveringCard?, List.find?_eq_none]
  constructor
  · rintro hnone ⟨card, hmem, husable, hvisible, hcovers⟩
    exact hnone card (LessonDb.mem_activeCards.mpr ⟨hmem, husable, hvisible⟩) (by simpa using hcovers)
  · intro hnone card hactive hcovers
    obtain ⟨hmem, husable, hvisible⟩ := LessonDb.mem_activeCards.mp hactive
    exact hnone ⟨card, hmem, husable, hvisible, by simpa using hcovers⟩

theorem checkInRow_eq_none_iff :
    db.checkInRow? studentId scheduleId = none ↔ ∀ t ∈ db.transactions.rows,
      t.isCheckIn studentId scheduleId (buildCheckInBusinessKey studentId scheduleId)
        CHECKIN_DEDUCT_REASON = false := by
  simp [LessonDb.checkInRow?, List.find?_eq_none]

theorem LessonTransaction.mem_keys {t : LessonTransaction} {k : LedgerKey} :
    k ∈ t.keys ↔ k = .businessKey t.businessKey ∨
      ∃ id, t.scheduleId = some id ∧ k = .membershipSchedule t.membershipId id := by
  simp only [LessonTransaction.keys, List.mem_cons, Option.mem_toList, Option.map_eq_some_iff]
  exact or_congr_right (exists_congr fun id => and_congr_right fun _ => eq_comm)

/-- The keys of a check-in row are free where no row has its business key, or its schedule on
its card. -/
theorem free_checkInTransaction {transactions : Indexed LessonTransaction LedgerKey LessonTransaction.keys}
    {before : Int} :
    transactions.Free (checkInTransaction studentId scheduleId card.id deductAmount before) ↔
      ∀ t ∈ transactions.rows, t.businessKey ≠ buildCheckInBusinessKey studentId scheduleId ∧
        ¬ (t.membershipId = card.id ∧ t.scheduleId = some scheduleId) := by
  have hkeys : (checkInTransaction studentId scheduleId card.id deductAmount before).keys =
      [.businessKey (buildCheckInBusinessKey studentId scheduleId),
        .membershipSchedule card.id scheduleId] := rfl
  constructor
  · rintro ⟨-, hfree⟩ t ht
    constructor
    · intro hkey
      refine hfree (.businessKey t.businessKey) (by simp [hkeys, hkey]) ?_
      exact List.mem_flatMap.mpr ⟨t, ht, LessonTransaction.mem_keys.mpr (Or.inl rfl)⟩
    · rintro ⟨hcard, hschedule⟩
      refine hfree (.membershipSchedule t.membershipId scheduleId) (by simp [hkeys, hcard]) ?_
      exact List.mem_flatMap.mpr ⟨t, ht, LessonTransaction.mem_keys.mpr (Or.inr ⟨_, hschedule, rfl⟩)⟩
  · intro h
    refine ⟨by simp [hkeys], fun k hk hmem => ?_⟩
    obtain ⟨t, ht, hkt⟩ := List.mem_flatMap.mp hmem
    obtain ⟨hkey, hschedule⟩ := h t ht
    rw [hkeys, List.mem_cons, List.mem_singleton] at hk
    rcases LessonTransaction.mem_keys.mp hkt with rfl | ⟨id, hid, rfl⟩
    · rcases hk with hk | hk
      · rw [LedgerKey.businessKey.injEq] at hk
        exact hkey hk
      · cases hk
    · rcases hk with hk | hk
      · cases hk
      · rw [LedgerKey.membershipSchedule.injEq] at hk
        exact hschedule ⟨hk.1, hk.2 ▸ hid⟩

/-- A row with the business key of a check-in passes for it. -/
theorem businessKey_ne_of_isCheckIn {t : LessonTransaction}
    (h : t.isCheckIn studentId scheduleId (buildCheckInBusinessKey studentId scheduleId)
      CHECKIN_DEDUCT_REASON = false) : t.businessKey ≠ buildCheckInBusinessKey studentId scheduleId := by
  simp only [LessonTransaction.isCheckIn, Bool.or_eq_false_iff, beq_eq_false_iff_ne] at h
  exact h.1

/-- The card is charged unless a row has taken the schedule for it. -/
theorem chargeOutcome_free (scope : Option TenantWhereClause) (deductAmount : Int)
    (hmem : card ∈ db.cards.rows) (hschedule : (db.school.schedule scheduleId).isSome)
    (hnone : db.checkInRow? studentId scheduleId = none) :
    (chargeOutcome (fun _ => none) db scope studentId scheduleId deductAmount card).1 =
      if ∃ t ∈ db.transactions.rows, t.membershipId = card.id ∧ t.scheduleId = some scheduleId then
        .error .internal
      else .ok .deducted := by
  have hadmits : (db.charge scope card deductAmount).admitsTransaction
      (checkInTransaction studentId scheduleId card.id deductAmount card.remainingLessons) = true := by
    refine Bool.and_eq_true_iff.mpr ⟨List.any_eq_true.mpr ?_, hschedule⟩
    refine ⟨_, LessonDb.mem_increment.mpr ⟨card, hmem, rfl⟩, ?_⟩
    simp [checkInTransaction, CardIncrement.apply]
  have hrows := checkInRow_eq_none_iff.mp hnone
  unfold chargeOutcome insertOrFail LessonDb.createTransaction
  simp only [hadmits, if_true]
  by_cases hblocked : ∃ t ∈ db.transactions.rows, t.membershipId = card.id ∧ t.scheduleId = some scheduleId
  · obtain ⟨t, ht, hcard⟩ := hblocked
    have hnot : ¬ (db.charge scope card deductAmount).transactions.Free
        (checkInTransaction studentId scheduleId card.id deductAmount card.remainingLessons) :=
      fun hfree => (free_checkInTransaction.mp hfree t ht).2 hcard
    rw [Indexed.insert?_of_not_free hnot, if_pos ⟨t, ht, hcard⟩]
  · have hfree : (db.charge scope card deductAmount).transactions.Free
        (checkInTransaction studentId scheduleId card.id deductAmount card.remainingLessons) :=
      free_checkInTransaction.mpr fun t ht =>
        ⟨businessKey_ne_of_isCheckIn (hrows t ht), fun hcard => hblocked ⟨t, ht, hcard⟩⟩
    obtain ⟨transactions, hinsert, -⟩ := Indexed.insert?_of_free hfree
    rw [hinsert, if_neg hblocked]

theorem unblocked_iff (hcard : db.coveringCard? scope studentId now deductAmount = some card) :
    Unblocked db scope studentId scheduleId deductAmount now ↔
      db.checkInRow? studentId scheduleId = none ∧
        ¬ ∃ t ∈ db.transactions.rows, t.membershipId = card.id ∧ t.scheduleId = some scheduleId := by
  have hfirst := coveringCard_eq_some_iff.mp hcard
  constructor
  · intro hunblocked
    refine ⟨checkInRow_eq_none_iff.mpr fun t ht => (hunblocked.free card hfirst t ht).1, ?_⟩
    rintro ⟨t, ht, htaken⟩
    exact (hunblocked.free card hfirst t ht).2 htaken
  · rintro ⟨hnone, hfree⟩
    refine ⟨fun _ => ⟨card, hfirst.mem, hfirst.usable, hfirst.visible, hfirst.covers⟩, ?_⟩
    intro c hc t ht
    obtain rfl : c = card :=
      Option.some.inj ((coveringCard_eq_some_iff.mpr hc).symm.trans hcard)
    exact ⟨checkInRow_eq_none_iff.mp hnone t ht, fun htaken => hfree ⟨t, ht, htaken⟩⟩

/-- Where the caller sees no card that covers the amount, none may cover it. -/
theorem unblocked_iff_of_none (hcard : db.coveringCard? scope studentId now deductAmount = none) :
    Unblocked db scope studentId scheduleId deductAmount now ↔
      ¬ Covered db studentId now deductAmount := by
  have hunseen := coveringCard_eq_none_iff.mp hcard
  constructor
  · intro hunblocked hcovered
    exact hunseen (hunblocked.seen hcovered)
  · intro hshort
    refine ⟨fun hcovered => absurd hcovered hshort, fun card hfirst => ?_⟩
    exact absurd ⟨card, hfirst.mem, hfirst.usable, hfirst.visible, hfirst.covers⟩ hunseen

/-- Where the caller sees a card that covers the amount, the deduction progresses when it is
made. -/
theorem progresses_iff_deducted
    (hcard : db.coveringCard? scope studentId now deductAmount = some card) :
    Progresses db scope studentId scheduleId deductAmount now ↔
      (deductAlone (fun _ => none) db scope studentId scheduleId deductAmount now).1 =
        .ok .deducted := by
  have hfirst := coveringCard_eq_some_iff.mp hcard
  constructor
  · intro hprogress
    exact hprogress.deducts ⟨card, hfirst.mem, hfirst.usable, hfirst.covers⟩
  · intro hdeducted
    exact ⟨fun e => by simp [hdeducted], fun _ => hdeducted⟩

/-- **What blocks a deduction**: it goes through if and only if the caller sees a card that covers
the amount, where there is one, no ledger row passes for it and none has taken the schedule for
the card it would charge. -/
theorem progresses_iff (hschedule : (db.school.schedule scheduleId).isSome) (hamount : 0 < deductAmount) :
    Progresses db scope studentId scheduleId deductAmount now ↔
      Unblocked db scope studentId scheduleId deductAmount now := by
  have heq := deductAlone_eq (fun _ => none) db scope studentId scheduleId now hamount
  cases hcard : db.coveringCard? scope studentId now deductAmount with
  | none =>
      rw [hcard] at heq
      have hreturned : ∃ outcome, outcome ≠ LessonDeductOutcome.deducted ∧
          (deductAlone (fun _ => none) db scope studentId scheduleId deductAmount now).1 =
            .ok outcome := by
        rw [heq]
        cases db.checkInRow? studentId scheduleId with
        | none => exact ⟨_, by decide, rfl⟩
        | some _ => exact ⟨_, by decide, rfl⟩
      obtain ⟨outcome, hne, houtcome⟩ := hreturned
      rw [unblocked_iff_of_none hcard]
      constructor
      · intro hprogress hcovered
        exact hne (Except.ok.inj (houtcome.symm.trans (hprogress.deducts hcovered)))
      · intro hshort
        exact ⟨fun e => by simp [houtcome], fun hcovered => absurd hcovered hshort⟩
  | some card =>
      have hfirst := coveringCard_eq_some_iff.mp hcard
      rw [unblocked_iff hcard, progresses_iff_deducted hcard, heq, hcard]
      cases hrow : db.checkInRow? studentId scheduleId with
      | some row => simp
      | none =>
          have hcharged := chargeOutcome_free scope deductAmount hfirst.mem hschedule hrow
          by_cases hblocked : ∃ t ∈ db.transactions.rows, t.membershipId = card.id ∧
              t.scheduleId = some scheduleId
          · simp [hcharged, hblocked]
          · simp [hcharged, hblocked]

end Call

/-! ### A check-in charges a card of its student -/

theorem usable_student {c : MembershipCard} {studentId : String} {now : Int}
    (h : c.usable studentId now = true) : c.studentId = studentId := by
  simp only [MembershipCard.usable, Bool.and_eq_true, beq_iff_eq] at h
  exact h.1.1.1

/-- Every row the step has added is on a card of the student. -/
def OnOwnCard (studentId : String) (db db' : LessonDb) : Prop :=
  ∀ t ∈ db'.transactions.rows, t ∈ db.transactions.rows ∨
    ∃ c ∈ db.cards.rows, c.id = t.membershipId ∧ c.studentId = studentId

theorem OnOwnCard.refl (studentId : String) (db : LessonDb) : OnOwnCard studentId db db :=
  fun _ ht => Or.inl ht

theorem deductFromCards_onOwnCard {v : View LessonDb} {scope : Option TenantWhereClause}
    {studentId scheduleId : String} {deductAmount : Int} (cards : List (String × Int))
    (hcards : ∀ p ∈ cards, ∃ c ∈ v.work.cards.rows, c.id = p.1 ∧ c.studentId = studentId) :
    (deductFromCards scope studentId scheduleId deductAmount cards).Yields lessonClient.engine
      (fun _ db' => OnOwnCard studentId v.work db') v := by
  induction cards with
  | nil => exact OnOwnCard.refl studentId v.work
  | cons p cards ih =>
      obtain ⟨cardId, beforeRemaining⟩ := p
      obtain ⟨c, hc, hid, hstudent⟩ := hcards _ List.mem_cons_self
      simp only [deductFromCards]
      refine yields_tryDecrement ?_ fun card hmem hcard hvisible hamount _ _ => ?_
      · exact ih fun p hp => hcards p (List.mem_cons_of_mem _ hp)
      · subst hcard
        refine yields_createTransaction (fun error => ?_) fun transactions hinsert => ?_
        · refine (compensate_yields hamount hmem hvisible rfl).mono ?_
          rintro _ _ ⟨-, rfl⟩
          exact OnOwnCard.refl studentId v.work
        · intro t ht
          have hrows : t ∈ transactions.rows := ht
          rw [Indexed.rows_insert? hinsert] at hrows
          rcases List.mem_append.mp hrows with hold | hnew
          · exact Or.inl hold
          · rw [List.mem_singleton.mp hnew]
            exact Or.inr ⟨c, hc, hid, hstudent⟩

theorem deductLessonsForCheckIn_onOwnCard {v : View LessonDb} (hv : v.isolation = .serializable)
    (scope : Option TenantWhereClause) (studentId scheduleId : String) (deductAmount : Int) :
    (deductLessonsForCheckIn scope studentId scheduleId deductAmount).Yields lessonClient.engine
      (fun _ db' => OnOwnCard studentId v.work db') v := by
  unfold deductLessonsForCheckIn
  split
  · exact OnOwnCard.refl studentId v.work
  · refine yields_find ?_
    split
    · exact OnOwnCard.refl studentId v.work
    · refine yields_now fun now => yields_find (deductFromCards_onOwnCard _ ?_)
      rw [Client.seen_serializable hv]
      intro p hp
      obtain ⟨c, hc, rfl⟩ := List.mem_map.mp hp
      obtain ⟨hmem, husable, -⟩ := LessonDb.mem_activeCards.mp hc
      exact ⟨c, hmem, rfl, usable_student husable⟩

theorem upsertAttendanceTx_onOwnCard {v : View LessonDb} (hv : v.isolation = .serializable)
    (scope : Option TenantWhereClause) (studentId scheduleId : String) (params : AttendanceParams) :
    (upsertAttendanceTx scope studentId scheduleId params).Yields lessonClient.engine
      (fun _ db' => OnOwnCard studentId v.work db') v := by
  unfold upsertAttendanceTx
  simp only [Prog.bind_eq, Prog.pure_eq]
  refine yields_write trivial ?_
  simp only [lessonClient_write, LessonDb.write]
  generalize hrow : AttendanceRecord.mk .. = row
  have hsame := upsertAttendance_sameLedger v.work row
  cases (v.work.upsertAttendance row).1 with
  | error _ => trivial
  | ok attendance =>
      simp only [orRethrow, Prog.ret_bind]
      split
      · rename_i deductAmount _
        refine Prog.Yields.bind ((deductLessonsForCheckIn_onOwnCard ?_ scope studentId
          scheduleId deductAmount).mono fun _ db' hown t ht => ?_)
        · exact hv
        · have hadded := hown t ht
          simp only [View.at] at hadded
          rw [hsame.transactions, hsame.cards] at hadded
          exact hadded
      · intro t ht
        exact Or.inl (hsame.transactions ▸ ht)

/-- The commit is not of a check-in that charges the card of another student. -/
def OwnCard (m : LessonCommit) : Prop :=
  ∀ ambient dto, m.call = .checkIn ambient dto → OnOwnCard dto.studentId m.base m.work

section Safe

variable {calls : LessonCall → Prop}

/-- The contract of the lesson calls, with the student of the card charged. -/
def ownCardContract (calls : LessonCall → Prop) :
    Contract LessonDb LessonCall (LessonProg LessonResult) :=
  (ledgerContract calls).withPost fun m => LedgerChange m ∧ OwnCard m

theorem ownCard_idle (c : LessonCall) :
    ((ledgerContract calls).withPost OwnCard).Idle c :=
  fun _ _ base _ _ _ _ _ => OnOwnCard.refl _ base

theorem safe_upsertAttendance (ambient : Ambient) (dto : CheckInDto) (params : AttendanceParams) :
    (upsertAttendance ambient dto.studentId dto.scheduleId params).Safe lessonClient.engine
      ((ledgerContract calls).withPost OwnCard) (.checkIn ambient dto) none := by
  refine Prog.Safe.transaction fun snapshot base _ _ _ => ?_
  refine (upsertAttendanceTx_onOwnCard rfl _ dto.studentId dto.scheduleId params).mono ?_
  intro _ db' hown
  refine ⟨trivial, trivial, fun ambient' dto' hdto => ?_⟩
  cases hdto
  exact hown

theorem safe_checkMethod {outside : Geofence} {ambient : Ambient} {dto : CheckInDto} {venue : Venue} {now : Int}
    {k : Unit → LessonProg LessonResult}
    (h : (k ()).Safe lessonClient.engine ((ledgerContract calls).withPost OwnCard)
      (.checkIn ambient dto) none) :
    ((checkMethod outside dto venue now).bind k).Safe lessonClient.engine
      ((ledgerContract calls).withPost OwnCard) (.checkIn ambient dto) none := by
  unfold checkMethod
  split
  · exact h
  · split
    · trivial
    · rw [Prog.bind_eq, Prog.bind_assoc]
      refine safe_find (ownCard_idle _) fun record => ?_
      split
      · exact h
      · trivial
  · split
    · split
      · split
        · trivial
        · exact h
      · trivial
    · trivial

theorem checkIn_ownCard (outside : Geofence) (ambient : Ambient) (dto : CheckInDto) :
    (checkIn outside ambient dto).Safe lessonClient.engine ((ledgerContract calls).withPost OwnCard)
      (.checkIn ambient dto) none := by
  unfold checkIn
  refine safe_find (ownCard_idle _) fun schedule => ?_
  split
  · trivial
  · split
    · trivial
    · refine safe_find (ownCard_idle _) fun enrolled => ?_
      split
      · trivial
      · refine safe_find (ownCard_idle _) fun leave => safe_now (ownCard_idle _) fun now => ?_
        simp only [Prog.ret_bind]
        split
        · exact safe_upsertAttendance ambient dto _
        · split
          · exact safe_upsertAttendance ambient dto _
          · exact safe_checkMethod (safe_upsertAttendance ambient dto _)

theorem program_ownCard (outside : Geofence) (c : LessonCall) :
    (c.program outside).Safe lessonClient.engine (ownCardContract calls) c none := by
  have hother : (∀ ambient dto, c ≠ .checkIn ambient dto) →
      (c.program outside).Safe lessonClient.engine (ownCardContract calls) c none := by
    intro hne
    have hsafe : (c.program outside).Safe lessonClient.engine (ledgerContract calls) c none :=
      (program_safe outside c).1
    refine hsafe.mono fun m hcall h => ⟨h, ?_⟩
    exact fun ambient dto hdto => absurd (hcall.symm.trans hdto) (hne ambient dto)
  cases c with
  | checkIn ambient dto =>
      exact (checkIn_safe outside ambient dto).1.and (checkIn_ownCard outside ambient dto)
  | adjustLessons ambient id dto => exact hother fun _ _ h => by cases h
  | create ambient dto => exact hother fun _ _ h => by cases h
  | update ambient id dto => exact hother fun _ _ h => by cases h

end Safe

/-! ### Runs whose adjustments enter no schedule -/

/-- The row is of an adjustment without a schedule, or of a check-in on a card of its
student. -/
def RowOf (db : LessonDb) (t : LessonTransaction) : Prop :=
  (t.scheduleId = none ∧ ∃ uuid, t.businessKey = buildAdjustBusinessKey t.membershipId uuid) ∨
    ∃ scheduleId, t.scheduleId = some scheduleId ∧
      t.businessKey = buildCheckInBusinessKey t.studentId scheduleId ∧ ':' ∉ t.studentId.toList ∧
      ∃ c ∈ db.cards.rows, c.id = t.membershipId ∧ c.studentId = t.studentId

def OwnRows (db : LessonDb) : Prop := ∀ t ∈ db.transactions.rows, RowOf db t

theorem RowOf.mono {db db' : LessonDb} {t : LessonTransaction} (h : RowOf db t)
    (hcards : ∀ c ∈ db.cards.rows, ∃ c' ∈ db'.cards.rows, c'.id = c.id ∧ c'.studentId = c.studentId) :
    RowOf db' t := by
  refine h.imp_right ?_
  rintro ⟨scheduleId, hschedule, hkey, hcolon, c, hc, hid, hstudent⟩
  obtain ⟨c', hc', hid', hstudent'⟩ := hcards c hc
  exact ⟨scheduleId, hschedule, hkey, hcolon, c', hc', hid'.trans hid, hstudent'.trans hstudent⟩

theorem Booked.cards_kept {db db' : LessonDb} {card : MembershipCard} {row : LessonTransaction}
    {versionIncrement : Int} (h : Booked db db' card row versionIncrement) :
    ∀ c ∈ db.cards.rows, ∃ c' ∈ db'.cards.rows, c'.id = c.id ∧ c'.studentId = c.studentId := by
  intro c hc
  rw [h.cards]
  refine ⟨_, List.mem_map_of_mem hc, ?_⟩
  split
  · exact ⟨rfl, rfl⟩
  · exact ⟨rfl, rfl⟩

/-- An adjustment carries no schedule, an update that Prisma takes moves no card to another
student, and the student of a check-in has an id without a colon, as the ids that the database
makes are. -/
def LessonCall.entersNoSchedule : LessonCall → Bool
  | .checkIn _ dto => !dto.studentId.toList.contains ':'
  | .adjustLessons _ _ dto => dto.scheduleId.isNone
  | .create _ _ => true
  | .update ambient _ dto => (resolveTenantWhere ambient).isSome || dto.studentId.isNone

/-- Only such calls arrive. -/
def EntersNoSchedule (_ : LessonWorld) : LessonAction → Prop
  | .spawn c => c.entersNoSchedule = true
  | _ => True

instance (w : LessonWorld) : ∀ a, Decidable (EntersNoSchedule w a)
  | .spawn c => inferInstanceAs (Decidable (c.entersNoSchedule = true))
  | .run _ _ => .isTrue trivial
  | .abort _ => .isTrue trivial

/-- What one commit of such a call keeps. -/
theorem OwnRows.commit {m : LessonCommit} (h : OwnRows m.base) (hcall : m.call.entersNoSchedule = true)
    (hchange : LedgerChange m) (hown : OwnCard m) : OwnRows m.work := by
  cases hchange with
  | unchanged same _ =>
      intro t ht
      rw [same.transactions] at ht
      exact (h t ht).mono fun c hc => ⟨c, same.cards ▸ hc, rfl, rfl⟩
  | checkedIn ambient dto card deductAmount call _ booked _ =>
      intro t ht
      rcases hown ambient dto call t ht with hold | ⟨c, hc, hid, hstudent⟩
      · exact (h t hold).mono booked.cards_kept
      · have hrow := ht
        rw [booked.transactions] at hrow
        rcases List.mem_append.mp hrow with hold | hnew
        · exact (h t hold).mono booked.cards_kept
        · obtain rfl := List.mem_singleton.mp hnew
          obtain ⟨c', hc', hid', hstudent'⟩ := booked.cards_kept c hc
          have hcolon : ':' ∉ dto.studentId.toList := by
            simpa [call, LessonCall.entersNoSchedule] using hcall
          exact Or.inr ⟨dto.scheduleId, rfl, rfl, hcolon, c', hc', hid'.trans hid,
            hstudent'.trans hstudent⟩
  | adjusted ambient id dto card seen uuid call _ _ _ _ _ booked _ =>
      intro t ht
      rw [booked.transactions] at ht
      rcases List.mem_append.mp ht with hold | hnew
      · exact (h t hold).mono booked.cards_kept
      · obtain rfl := List.mem_singleton.mp hnew
        have hnone : dto.scheduleId = none := by
          simpa [call, LessonCall.entersNoSchedule] using hcall
        exact Or.inl ⟨hnone, uuid, rfl⟩
  | created _ _ _ _ _ cards transactions _ _ =>
      intro t ht
      rw [transactions] at ht
      refine (h t ht).mono fun c hc => ⟨c, ?_, rfl, rfl⟩
      rw [cards]
      exact List.mem_append_left _ hc
  | patched ambient id dto data call unscoped _ patch cards transactions _ _ =>
      obtain ⟨validFrom, validTo, rfl⟩ := patch
      have hnone : dto.studentId = none := by
        simpa [call, LessonCall.entersNoSchedule, unscoped] using hcall
      intro t ht
      rw [transactions] at ht
      refine (h t ht).mono fun c hc => ?_
      rw [cards]
      refine ⟨_, List.mem_map_of_mem hc, ?_⟩
      split
      · exact ⟨rfl, by simp [MembershipCardData.apply, UpdateMembershipDto.data, hnone]⟩
      · exact ⟨rfl, rfl⟩

theorem ownRows_of_reachable {outside : Geofence} {db₀ : LessonDb} (hledger : db₀.transactions.rows = [])
    {w : LessonWorld}
    (h : ((lessonSystem outside).machine (· = db₀)).ReachableBy EntersNoSchedule w) :
    OwnRows w.committed := by
  have hadmits : ∀ (w : LessonWorld) a, EntersNoSchedule w a →
      (ownCardContract fun c => c.entersNoSchedule = true).Admits a := by
    intro w a ha
    cases a with
    | spawn c => exact ha
    | run _ _ | abort _ => trivial
  refine (System.reachable_contract (J := fun w => OwnRows w.committed)
    (fun c _ => program_ownCard outside c) (fun _ _ => trivial) hadmits h ?_ ?_).2
  · rintro s rfl t ht
    simp [hledger] at ht
  · intro w w' a _ hw _ heffect
    cases heffect with
    | quiet committed _ => exact committed ▸ hw
    | commit _ _ th rest _ _ call _ commits =>
        exact OwnRows.commit (m := th.commit w.committed w'.committed rest) hw call commits.post.1
          commits.post.2

/-! ### No deduction is blocked -/

theorem buildCheckInBusinessKey_inj {studentId studentId' scheduleId scheduleId' : String}
    (hstudent : ':' ∉ studentId.toList) (hstudent' : ':' ∉ studentId'.toList)
    (h : buildCheckInBusinessKey studentId scheduleId = buildCheckInBusinessKey studentId' scheduleId') :
    studentId = studentId' ∧ scheduleId = scheduleId' := by
  have htext := congrArg String.toList h
  simp only [buildCheckInBusinessKey, String.toList_append, List.append_assoc,
    List.append_cancel_left_eq] at htext
  obtain ⟨hleft, hright⟩ := delimited_left hstudent hstudent' htext
  exact ⟨String.toList_inj.mp hleft, String.toList_inj.mp hright⟩

theorem adjustBusinessKey_ne (membershipId uuid studentId scheduleId : String) :
    buildAdjustBusinessKey membershipId uuid ≠ buildCheckInBusinessKey studentId scheduleId := by
  intro h
  have hhead := congrArg (fun key : String => key.toList.head?) h
  simp [buildAdjustBusinessKey, buildCheckInBusinessKey] at hhead

theorem OwnRows.unblocked {db : LessonDb} (h : OwnRows db) {scope : Option TenantWhereClause}
    {studentId scheduleId : String}
    (hseen : ∀ c ∈ db.cards.rows, c.studentId = studentId → c.visible scope = true)
    (hcolon : ':' ∉ studentId.toList) (hfirst : ¬ CheckInDeducted db studentId scheduleId)
    (deductAmount now : Int) : Unblocked db scope studentId scheduleId deductAmount now := by
  have hvisible : Covered db studentId now deductAmount → ∃ card ∈ db.cards.rows,
      card.usable studentId now = true ∧ card.visible scope = true ∧
        deductAmount ≤ card.remainingLessons := by
    rintro ⟨card, hmem, husable, hcovers⟩
    exact ⟨card, hmem, husable, hseen card hmem (usable_student husable), hcovers⟩
  refine ⟨hvisible, ?_⟩
  intro card hcard t ht
  rcases h t ht with ⟨hnone, uuid, hkey⟩ | ⟨id, hschedule, hkey, hcolon', c, hc, hid, hstudent⟩
  · have hne := adjustBusinessKey_ne t.membershipId uuid studentId scheduleId
    exact ⟨by simp [LessonTransaction.isCheckIn, hkey, hne, hnone], by simp [hnone]⟩
  · -- A check-in row that stands in the way is of this student and this schedule.
    have hother : t.studentId = studentId → id ≠ scheduleId := by
      rintro rfl rfl
      exact hfirst ⟨t, ht, rfl, hschedule, hkey⟩
    constructor
    · have hkeyne : t.businessKey ≠ buildCheckInBusinessKey studentId scheduleId := by
        intro hsame
        obtain ⟨hst, hsch⟩ := buildCheckInBusinessKey_inj hcolon' hcolon (hkey.symm.trans hsame)
        exact hother hst hsch
      simp only [LessonTransaction.isCheckIn, hschedule, Bool.or_eq_false_iff, beq_eq_false_iff_ne,
        Bool.and_eq_false_iff]
      refine ⟨hkeyne, ?_⟩
      by_cases hst : t.studentId = studentId
      · exact Or.inl (Or.inl (by simpa using hother hst))
      · exact Or.inr hst
    · rintro ⟨hmembership, hsame⟩
      have hcard' : c = card := db.card_eq hc hcard.mem (hid.trans hmembership)
      have hst : t.studentId = studentId := by
        rw [← hstudent, hcard', usable_student hcard.usable]
      exact hother hst (Option.some.inj (hschedule.symm.trans hsame))

/-- A card of ten lessons is created, and one of them is taken by hand. -/
def createThenAdjust (scheduleId : Option String) : List LessonAction :=
  [.spawn (.create administrator ⟨"st1", "", 10, 10, some 0, some 3600000, none⟩)] ++ steps 0 3 ++
  [.spawn (.adjustLessons administrator ""
    { delta := -1, reason := "make-up lesson", scheduleId })] ++ steps 1 7

end MibServer.Lessons
