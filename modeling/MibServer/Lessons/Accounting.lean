import MibServer.Lessons.RepeatedScans
import MibServer.Lessons.ConcurrentAdjusts
import MibServer.Lib.Accounts

/-!
What the ledger says and what the transactions have returned.

A check-in whose transaction returns `deducted: true` has written the ledger row of its course's
price, an adjustment that returns the card has written the row of its delta, and no other call has
written one: along every run the rows and these calls belong together one to one (`lessonBooks`). So
the consumption that the statistics report is what the transactions have returned. The business lock
a check-in runs under is not here: it may answer the caller before the transaction returns
(`MibServer.Lessons.CheckInRace`).
-/

namespace MibServer.Lessons

open MibServer.Lib MibServer.Prisma MibServer.Courses MibServer.Tenancy

/-! ### The price of a check-in -/

/-- A deduction charges one of the student's cards, for a positive amount. -/
def Charged (studentId scheduleId : String) (deductAmount : Int) (db db' : LessonDb) : Prop :=
  ∃ card, card.studentId = studentId ∧ 0 < deductAmount ∧ deductAmount ≤ card.remainingLessons ∧
    Booked db db' card
      (checkInTransaction studentId scheduleId card.id deductAmount card.remainingLessons) 0

theorem deductFromCards_charges {v : View LessonDb} {scope : Option TenantWhereClause}
    {studentId scheduleId : String} {deductAmount : Int} (cards : List (String × Int))
    (hcards : ∀ p ∈ cards, ∀ card ∈ v.work.cards.rows, card.id = p.1 →
      card.remainingLessons = p.2 ∧ card.studentId = studentId) :
    (deductFromCards scope studentId scheduleId deductAmount cards).Yields lessonClient.engine
      (fun outcome db' => outcome = .deducted → Charged studentId scheduleId deductAmount v.work db')
      v := by
  induction cards with
  | nil => exact fun h => by cases h
  | cons p cards ih =>
      obtain ⟨cardId, beforeRemaining⟩ := p
      simp only [deductFromCards]
      refine yields_tryDecrement ?_ fun card hmem hid hvisible hamount hbalance _ => ?_
      · exact ih fun p hp => hcards p (List.mem_cons_of_mem _ hp)
      · obtain ⟨hbefore, howner⟩ := hcards _ List.mem_cons_self card hmem hid
        subst hid hbefore
        refine yields_createTransaction (fun error => ?_) fun transactions hinsert _ => ?_
        · exact (compensate_yields hamount hmem hvisible rfl).mono fun outcome db' h hdeducted =>
            absurd hdeducted h.1
        · exact ⟨card, howner, hamount, hbalance, booked_of_increment hmem rfl rfl rfl hinsert⟩

theorem deductLessonsForCheckIn_charges {v : View LessonDb} (hv : v.isolation = .serializable)
    (scope : Option TenantWhereClause) (studentId scheduleId : String) (deductAmount : Int) :
    (deductLessonsForCheckIn scope studentId scheduleId deductAmount).Yields lessonClient.engine
      (fun outcome db' => outcome = .deducted → Charged studentId scheduleId deductAmount v.work db')
      v := by
  unfold deductLessonsForCheckIn
  split
  · exact fun h => by cases h
  · refine yields_find ?_
    split
    · exact fun h => by cases h
    · refine yields_now fun now => yields_find (deductFromCards_charges _ ?_)
      rw [Client.seen_serializable hv]
      intro p hp card hmem hid
      obtain ⟨c, hc, rfl⟩ := List.mem_map.mp hp
      obtain ⟨hc, husable⟩ := List.mem_filter.mp (List.mem_mergeSort.mp hc)
      rw [v.work.card_eq hmem hc hid]
      simp only [MembershipCard.usable, Bool.and_eq_true, beq_iff_eq] at husable
      exact ⟨rfl, husable.1.1.1.1⟩

theorem upsertAttendanceTx_charges {v : View LessonDb} (hv : v.isolation = .serializable)
    (scope : Option TenantWhereClause) (studentId scheduleId : String) (params : AttendanceParams) :
    (upsertAttendanceTx scope studentId scheduleId params).Yields lessonClient.engine
      (fun result db' => isDeducted (.ret result) = true → ∃ deductAmount,
        params.amountToDeduct = some deductAmount ∧
          Charged studentId scheduleId deductAmount v.work db') v := by
  unfold upsertAttendanceTx
  simp only [Prog.bind_eq, Prog.pure_eq]
  refine yields_write trivial ?_
  simp only [lessonClient_write, LessonDb.write]
  generalize hrow : AttendanceRecord.mk .. = row
  have hsame := upsertAttendance_sameLedger v.work row
  cases (v.work.upsertAttendance row).1 with
  | error _ => trivial
  | ok attendance =>
      simp only [orRethrow, Prog.ret_bind]
      split
      · rename_i deductAmount hamount
        refine Prog.Yields.bind ((deductLessonsForCheckIn_charges
          (v := v.at (v.work.upsertAttendance row).2) hv scope studentId scheduleId
          deductAmount).mono ?_)
        intro outcome db' hcharged hdeducted
        obtain ⟨card, howner, hpos, hbalance, hbooked⟩ :=
          hcharged (by simpa [isDeducted] using hdeducted)
        exact ⟨deductAmount, hamount, card, howner, hpos, hbalance, hbooked.of_sameLedger hsame⟩
      · intro hdeducted
        cases hdeducted

/-- What a commit of a check-in that returns `deducted: true` has charged. -/
def Priced (school : School) (m : LessonCommit) : Prop :=
  ∀ ambient dto, m.call = .checkIn ambient dto → isDeducted m.rest = true → ∃ schedule,
    school.schedule dto.scheduleId = some schedule ∧
      Charged dto.studentId dto.scheduleId schedule.courseType.defaultLessonDeduct m.base m.work

/-- The commits of the calls on one school, with the price of each check-in. -/
def pricedContract (school : School) : Contract LessonDb LessonCall (LessonProg LessonResult) :=
  ((ledgerContract fun _ => True).keeping LessonDb.school school).withPost (Priced school)

section Priced

variable {school : School} {outside : Geofence} {ambient : Ambient} {dto : CheckInDto}

/-- What is left of a check-in that has not returned yet. -/
def Pricing (school : School) (ambient : Ambient) (dto : CheckInDto) (p : LessonProg LessonResult) :
    Prop :=
  p.Safe lessonClient.engine (pricedContract school) (.checkIn ambient dto) none ∧
    isDeducted p = false

theorem pricing_throw (e : HttpException) : Pricing school ambient dto (.throw e) := ⟨trivial, rfl⟩

theorem pricing_quiet {q : LessonStmt} {k : q.Reply → LessonProg LessonResult}
    (hquiet : ∀ env (db : LessonDb), (lessonClient.exec db env q).2 = db)
    (h : ∀ env (db : LessonDb), db.school = school → Pricing school ambient dto
      (k (lessonClient.exec db env q).1)) :
    Pricing school ambient dto (.stmt q k) := by
  refine ⟨fun env db hdb => ⟨⟨?_, trivial, fun _ _ _ hdeducted => ?_⟩, (h env db hdb.2).1⟩, rfl⟩
  · have hsame : (lessonClient.engine.exec q env db).2 = db := hquiet env db
    rw [hsame]
    exact hdb
  · exact absurd (hdeducted.symm.trans (h env db hdb.2).2) (by decide)

theorem pricing_find {r : LessonRead} {k : r.Row → LessonProg LessonResult}
    (h : ∀ db : LessonDb, db.school = school →
      Pricing school ambient dto (k (lessonClient.find (lessonClient.rows db) r))) :
    Pricing school ambient dto ((find r).bind k) := by
  refine pricing_quiet (fun _ _ => rfl) fun env db hdb => ?_
  simp only [Client.exec]
  cases env.fault with
  | true => exact pricing_throw _
  | false => exact h db hdb

theorem pricing_checkMethod {venue : Venue} {now : Int} {k : Unit → LessonProg LessonResult}
    (h : Pricing school ambient dto (k ())) : Pricing school ambient dto
      ((checkMethod outside dto venue now).bind k) := by
  unfold checkMethod
  split
  · exact h
  · split
    · exact pricing_throw _
    · rw [Prog.bind_eq, Prog.bind_assoc]
      refine pricing_find fun _ _ => ?_
      split
      · exact h
      · exact pricing_throw _
  · split
    · split
      · split
        · exact pricing_throw _
        · exact h
      · exact pricing_throw _
    · exact pricing_throw _

theorem pricing_upsertAttendance {params : AttendanceParams}
    (hprice : ∀ deductAmount ∈ params.amountToDeduct, ∃ schedule,
      school.schedule dto.scheduleId = some schedule ∧ schedule.courseType.defaultLessonDeduct = deductAmount) :
    Pricing school ambient dto (upsertAttendance ambient dto.studentId dto.scheduleId params) := by
  refine ⟨Prog.Safe.transaction fun snapshot base _ _ hbase => ?_, rfl⟩
  refine ((upsertAttendanceTx_charges rfl _ dto.studentId dto.scheduleId params).and
    (upsertAttendanceTx_recorded rfl _ dto params)).mono ?_
  rintro result db' ⟨hcharged, hupserted⟩
  refine ⟨⟨trivial, hupserted.school.trans hbase.2⟩, trivial, fun ambient' dto' hcall hdeducted => ?_⟩
  cases hcall
  obtain ⟨deductAmount, hamount, hcharged⟩ := hcharged hdeducted
  obtain ⟨schedule, hschedule, rfl⟩ := hprice deductAmount hamount
  exact ⟨schedule, hschedule, hcharged⟩

/-- A check-in charges what the course of its schedule costs. -/
theorem checkIn_priced (outside : Geofence) (ambient : Ambient) (dto : CheckInDto) :
    Pricing school ambient dto (checkIn outside ambient dto) := by
  have hskip : ∀ {params : AttendanceParams}, params.skipDeduct = true →
      Pricing school ambient dto (upsertAttendance ambient dto.studentId dto.scheduleId params) := by
    intro params hskip
    refine pricing_upsertAttendance fun deductAmount hamount => ?_
    simp [AttendanceParams.amountToDeduct, hskip] at hamount
  unfold checkIn
  refine pricing_find fun db hdb => ?_
  have hfound : lessonClient.find (lessonClient.rows db)
      (.findSchedule dto.scheduleId (resolveTenantWhere ambient)) =
        school.findSchedule dto.scheduleId (resolveTenantWhere ambient) := hdb ▸ rfl
  rw [hfound]
  split
  · exact pricing_throw _
  · rename_i schedule hvisible
    have hschedule : school.schedule dto.scheduleId = some schedule :=
      (Option.filter_eq_some_iff.mp hvisible).1
    split
    · exact pricing_throw _
    · refine pricing_find fun _ _ => ?_
      split
      · exact pricing_throw _
      · refine pricing_find fun _ _ => pricing_quiet (fun _ _ => rfl) fun _ _ _ => ?_
        simp only [Prog.ret_bind]
        split
        · exact hskip rfl
        · split
          · exact hskip rfl
          · refine pricing_checkMethod (pricing_upsertAttendance fun deductAmount hamount => ?_)
            simp only [AttendanceParams.amountToDeduct, Bool.false_eq_true, if_false,
              Option.mem_def, Option.filter_eq_some_iff, Option.some.injEq] at hamount
            exact ⟨schedule, hschedule, hamount.1⟩

end Priced

/-! ### The books -/

/-- The call leaves every card with its student; Prisma refuses an update with a tenant
clause. -/
def LessonCall.keepsOwner : LessonCall → Bool
  | .update ambient _ dto => (resolveTenantWhere ambient).isSome || dto.studentId.isNone
  | _ => true

/-- Every card is still there, and still its student's. -/
def SameOwners (db db' : LessonDb) : Prop :=
  ∀ card ∈ db.cards.rows, ∃ card' ∈ db'.cards.rows, card'.id = card.id ∧
    card'.studentId = card.studentId

theorem SameOwners.refl (db : LessonDb) : SameOwners db db := fun card h => ⟨card, h, rfl, rfl⟩

theorem SameOwners.trans {db₁ db₂ db₃ : LessonDb} (h : SameOwners db₁ db₂)
    (h' : SameOwners db₂ db₃) : SameOwners db₁ db₃ := by
  intro card hcard
  obtain ⟨card', hcard', hid, howner⟩ := h card hcard
  obtain ⟨card'', hcard'', hid', howner'⟩ := h' card' hcard'
  exact ⟨card'', hcard'', hid'.trans hid, howner'.trans howner⟩

theorem Booked.sameOwners {db db' : LessonDb} {card : MembershipCard} {row : LessonTransaction}
    {versionIncrement : Int} (h : Booked db db' card row versionIncrement) : SameOwners db db' := by
  intro c hc
  refine ⟨_, h.cards ▸ List.mem_map_of_mem hc, ?_, ?_⟩ <;> split <;> rfl

theorem LedgerChange.sameOwners {m : LessonCommit} (h : LedgerChange m)
    (hcall : m.call.keepsOwner = true) : SameOwners m.base m.work := by
  cases h with
  | unchanged same _ =>
      intro card hcard
      exact ⟨card, same.cards ▸ hcard, rfl, rfl⟩
  | checkedIn _ _ _ _ _ _ booked _ => exact booked.sameOwners
  | adjusted _ _ _ _ _ _ _ _ _ _ _ _ booked _ => exact booked.sameOwners
  | created _ _ _ _ _ cards _ _ _ =>
      intro card hcard
      exact ⟨card, cards ▸ List.mem_append_left _ hcard, rfl, rfl⟩
  | patched ambient id dto data call unscoped _ patch cards _ _ _ =>
      obtain ⟨validFrom, validTo, rfl⟩ := patch
      have hstudent : dto.studentId = none := by
        simpa [call, LessonCall.keepsOwner, unscoped] using hcall
      intro card hcard
      refine ⟨_, cards ▸ List.mem_map_of_mem hcard, ?_, ?_⟩ <;> split <;>
        simp [MembershipCardData.apply, UpdateMembershipDto.data, hstudent]

/-- Every ledger row names the student of its card. -/
def RowsOfOwners (db : LessonDb) : Prop :=
  ∀ t ∈ db.transactions.rows, ∃ card ∈ db.cards.rows, card.id = t.membershipId ∧
    card.studentId = t.studentId

theorem RowsOfOwners.sameOwners {db db' : LessonDb} (h : RowsOfOwners db) (hsame : SameOwners db db')
    (htransactions : db'.transactions = db.transactions) : RowsOfOwners db' := by
  intro t ht
  obtain ⟨card, hcard, hid, howner⟩ := h t (htransactions ▸ ht)
  obtain ⟨card', hcard', hid', howner'⟩ := hsame card hcard
  exact ⟨card', hcard', hid'.trans hid, howner'.trans howner⟩

theorem RowsOfOwners.booked {db db' : LessonDb} {card : MembershipCard} {row : LessonTransaction}
    {versionIncrement : Int} (h : RowsOfOwners db) (hbooked : Booked db db' card row versionIncrement)
    (hrow : row.studentId = card.studentId) : RowsOfOwners db' := by
  have hkept : ∀ c ∈ db.cards.rows, ∀ t : LessonTransaction, c.id = t.membershipId →
      c.studentId = t.studentId → ∃ c' ∈ db'.cards.rows, c'.id = t.membershipId ∧
        c'.studentId = t.studentId := by
    intro c hc t hid howner
    obtain ⟨c', hc', hid', howner'⟩ := hbooked.sameOwners c hc
    exact ⟨c', hc', hid'.trans hid, howner'.trans howner⟩
  intro t ht
  rw [hbooked.transactions] at ht
  rcases List.mem_append.mp ht with hold | hnew
  · obtain ⟨c, hc, hid, howner⟩ := h t hold
    exact hkept c hc t hid howner
  · obtain rfl := List.mem_singleton.mp hnew
    exact hkept card hbooked.card_mem _ hbooked.membershipId.symm hrow.symm

theorem LedgerChange.rowsOfOwners {m : LessonCommit} {school : School} (h : LedgerChange m)
    (hpriced : Priced school m) (hcall : m.call.keepsOwner = true)
    (hother : ∀ ambient id dto, m.call ≠ .adjustLessons ambient id dto)
    (hrows : RowsOfOwners m.base) : RowsOfOwners m.work := by
  have hsame := h.sameOwners hcall
  cases h with
  | unchanged same _ => exact hrows.sameOwners hsame same.transactions
  | checkedIn ambient dto _ _ call _ _ result =>
      obtain ⟨schedule, -, card, howner, -, -, hbooked⟩ := hpriced ambient dto call result
      exact hrows.booked hbooked howner.symm
  | adjusted ambient id dto _ _ _ call => exact absurd call (hother ambient id dto)
  | created _ _ _ _ _ _ transactions _ _ => exact hrows.sameOwners hsame transactions
  | patched _ _ _ _ _ _ _ _ _ transactions _ _ => exact hrows.sameOwners hsame transactions

/-- How the ledger is kept, at the prices of `school`. If cards are `held` by their students, the
row of an adjustment names the student of the card it returns. -/
def lessonBooks (school : School) (held : Prop) :
    Books LessonDb LessonCall LessonResult LessonTransaction where
  ledger db := db.transactions.rows
  moves
    | .checkIn _ _, .attendance _ deducted => deducted
    | .adjustLessons _ _ _, .card _ => true
    | _, _ => false
  tells
    | .checkIn _ dto, _, row => ∃ schedule, school.schedule dto.scheduleId = some schedule ∧
        0 < schedule.courseType.defaultLessonDeduct ∧ ∃ card : MembershipCard, card.studentId = dto.studentId ∧
          schedule.courseType.defaultLessonDeduct ≤ card.remainingLessons ∧
            row = checkInTransaction dto.studentId dto.scheduleId card.id
              schedule.courseType.defaultLessonDeduct card.remainingLessons
    | .adjustLessons _ id dto, .card card, row => ∃ (seen : MembershipCard) (uuid : String),
        (held → seen.studentId = card.studentId) ∧
          row = adjustTransaction id dto seen.studentId uuid seen.remainingLessons
    | _, _, _ => False

/-- The commits of the calls keep the books. If cards are `held`, they leave them with their
students, and write rows of these. -/
def bookContract (school : School) (held : Prop) :
    Contract LessonDb LessonCall (LessonProg LessonResult) where
  inv _ := True
  evolves db db' := held → SameOwners db db'
  refl db _ := .refl db
  trans h h' hheld := (h hheld).trans (h' hheld)
  post m := (lessonBooks school held).Kept m ∧
    (held → RowsOfOwners m.base → RowsOfOwners m.work)
  calls c := held → c.keepsOwner = true

section Books

variable {school : School} {held : Prop} {m : LessonCommit}

theorem isDeducted_eq_true {p : LessonProg LessonResult} (h : isDeducted p = true) :
    ∃ record, p = .ret (.attendance record true) := by
  unfold isDeducted at h
  split at h
  · obtain rfl := h
    exact ⟨_, rfl⟩
  · cases h

/-- A commit of another call than an adjustment. -/
theorem LedgerChange.kept (h : LedgerChange m) (hpriced : Priced school m)
    (hother : ∀ ambient id dto, m.call ≠ .adjustLessons ambient id dto) :
    (lessonBooks school held).Kept m := by
  have hsilent : m.work.transactions = m.base.transactions → isDeducted m.rest = false →
      (lessonBooks school held).Kept m := by
    intro htransactions hresult
    refine .silent (congrArg Indexed.rows htransactions) fun a hrest => ?_
    rw [hrest] at hresult
    cases hcall : m.call with
    | checkIn ambient dto =>
        cases a with
        | attendance record deducted => exact hresult
        | card card => rfl
    | adjustLessons ambient id dto => exact absurd hcall (hother ambient id dto)
    | create ambient dto => rfl
    | update ambient id dto => rfl
  cases h with
  | unchanged same result => exact hsilent same.transactions result
  | checkedIn ambient dto _ _ call _ _ result =>
      obtain ⟨schedule, hschedule, card, howner, hpos, hbalance, hbooked⟩ :=
        hpriced ambient dto call result
      obtain ⟨record, hrest⟩ := isDeducted_eq_true result
      refine .wrote (.attendance record true) _ hbooked.transactions hrest ?_ ?_
      · rw [call]
        rfl
      · rw [call]
        exact ⟨schedule, hschedule, hpos, card, howner, hbalance, rfl⟩
  | adjusted ambient id dto _ _ _ call => exact absurd call (hother ambient id dto)
  | created _ _ _ _ _ _ transactions _ result => exact hsilent transactions result
  | patched _ _ _ _ _ _ _ _ _ transactions _ result => exact hsilent transactions result

theorem adjustLessons_kept (ambient : Ambient) (id : String) (dto : AdjustLessonsDto) :
    (adjustLessons ambient id dto).Safe lessonClient.engine (bookContract school held)
      (.adjustLessons ambient id dto) none := by
  unfold adjustLessons
  split
  · trivial
  · rename_i hdelta
    refine Prog.Safe.transaction fun snapshot base _ hevolves _ => ?_
    refine ((adjustLessonsTx_yields hdelta snapshot base).and
      (adjustLessonsTx_returns hdelta snapshot base)).mono ?_
    rintro result db' ⟨⟨⟨card, seen, uuid, hseen, hid, -, -, hbooked⟩, -⟩, after, hafter, hid', rfl⟩
    have hcard : card.id = id := hbooked.membershipId.symm
    -- The card seen, the one charged and the one returned have one id, and so one student.
    have howner : held → seen.studentId = card.studentId := by
      intro hheld
      obtain ⟨c, hc, hcid, hcowner⟩ := hevolves hheld seen hseen
      rw [base.card_eq hbooked.card_mem hc (by rw [hcard, hcid, hid]), hcowner]
    have hreturned : after.studentId = card.studentId := by
      obtain ⟨c, hc, hcid, hcowner⟩ := hbooked.sameOwners card hbooked.card_mem
      rw [db'.card_eq hafter hc (by rw [hid', hcid, hcard]), hcowner]
    refine ⟨trivial, fun _ => hbooked.sameOwners, ?_, fun hheld hrows => ?_⟩
    · refine .wrote (.card after) _ hbooked.transactions rfl rfl ⟨seen, uuid, fun hheld => ?_, rfl⟩
      rw [howner hheld, hreturned]
    · exact hrows.booked hbooked (howner hheld)

theorem program_kept (outside : Geofence) (c : LessonCall) (hc : (bookContract school held).calls c) :
    (c.program outside).Safe lessonClient.engine
      ((bookContract school held).keeping LessonDb.school school) c none := by
  have hledger : (c.program outside).Safe lessonClient.engine
      ((ledgerContract fun _ => True).keeping LessonDb.school school) c none :=
    (program_safe outside c).1.keeping school_of_exec (by simp)
  have hother : (∀ ambient id dto, c ≠ .adjustLessons ambient id dto) →
      (c.program outside).Safe lessonClient.engine (pricedContract school) c none →
      (c.program outside).Safe lessonClient.engine
        ((bookContract school held).keeping LessonDb.school school) c none := by
    intro hne hpriced
    have hboth : (c.program outside).Safe lessonClient.engine
        (((ledgerContract fun _ => True).keeping LessonDb.school school).withPost
          fun m => LedgerChange m ∧ Priced school m) c none := hledger.and hpriced
    refine hboth.under (fun _ hs => hs) (fun _ _ _ => trivial) ?_
    rintro m rfl ⟨hinv, -, hchange, hprice⟩
    exact ⟨hinv, fun hheld => hchange.sameOwners (hc hheld), hchange.kept hprice hne,
      fun hheld => hchange.rowsOfOwners hprice (hc hheld) hne⟩
  -- Only a check-in can return that it has deducted.
  have hfree : (∀ ambient dto, c ≠ .checkIn ambient dto) →
      (c.program outside).Safe lessonClient.engine (pricedContract school) c none := by
    intro hne
    exact hledger.mono fun m hm _ ambient dto hcall =>
      absurd (hm.symm.trans hcall) (hne ambient dto)
  cases c with
  | checkIn ambient dto =>
      exact hother (fun _ _ _ h => by cases h) (checkIn_priced outside ambient dto).1
  | adjustLessons ambient id dto =>
      exact (adjustLessons_kept ambient id dto).keeping school_of_exec (by simp)
  | create ambient dto =>
      exact hother (fun _ _ _ h => by cases h) (hfree fun _ _ h => by cases h)
  | update ambient id dto =>
      exact hother (fun _ _ _ h => by cases h) (hfree fun _ _ h => by cases h)

end Books

/-! ### The statistics -/

/-- The `where` of the report: a negative `delta`, and the student of the card where one is
given. -/
def LessonDb.consumes (db : LessonDb) (studentId : Option String) (t : LessonTransaction) : Bool :=
  decide (t.delta < 0) && (truthy studentId).all fun studentId =>
    db.cards.rows.any fun card => card.id == t.membershipId && card.studentId == studentId

/-- `StatisticsService.lessonConsumption`, with no period: the rows have no `createdAt` here. -/
def LessonDb.lessonConsumption (db : LessonDb) (studentId : Option String) : Int :=
  -((db.transactions.rows.filter (db.consumes studentId)).map LessonTransaction.delta).sum

/-- The lessons that a call has returned as consumed, of all students or of one. -/
def consumedBy (school : School) (studentId : Option String) : LessonCall → LessonResult → Int
  | .checkIn _ dto, .attendance _ true =>
      if (truthy studentId).all (· == dto.studentId) then
        ((school.schedule dto.scheduleId).map fun s => s.courseType.defaultLessonDeduct).getD 0
      else 0
  | .adjustLessons _ _ dto, .card card =>
      if (truthy studentId).all (· == card.studentId) && decide (dto.delta < 0) then -dto.delta else 0
  | _, _ => 0

/-- What the calls have returned, all in all. -/
def returnedConsumption (school : School) (studentId : Option String) (w : LessonWorld) : Int :=
  (w.threads.map fun th => (th.result?.map (consumedBy school studentId th.call)).getD 0).sum

/-- What a row adds to the report, by the student it names. -/
def LessonTransaction.consumption (t : LessonTransaction) (studentId : Option String) : Int :=
  if (truthy studentId).all (· == t.studentId) && decide (t.delta < 0) then -t.delta else 0

section Statistics

variable {school : School} {held : Prop} {studentId : Option String}

/-- The report reads the student off the card; a row that names the student of its card counts as
if it were read off the row. -/
theorem lessonConsumption_eq {db : LessonDb}
    (h : (truthy studentId).isSome → RowsOfOwners db) :
    db.lessonConsumption studentId =
      (db.transactions.rows.map fun t => t.consumption studentId).sum := by
  have hconsumes : ∀ t ∈ db.transactions.rows, db.consumes studentId t =
      ((truthy studentId).all (· == t.studentId) && decide (t.delta < 0)) := by
    intro t ht
    unfold LessonDb.consumes
    cases hstudent : truthy studentId with
    | none => simp
    | some student =>
        obtain ⟨card, hcard, hid, howner⟩ := h (by simp [hstudent]) t ht
        have hany : (db.cards.rows.any fun c => c.id == t.membershipId && c.studentId == student) =
            (student == t.studentId) := by
          rw [Bool.eq_iff_iff, List.any_eq_true]
          constructor
          · rintro ⟨c, hc, hmatch⟩
            simp only [Bool.and_eq_true, beq_iff_eq] at hmatch
            rw [db.card_eq hc hcard (hmatch.1.trans hid.symm)] at hmatch
            simp [← hmatch.2, howner]
          · intro heq
            exact ⟨card, hcard, by simp [hid, howner, (beq_iff_eq.mp heq).symm]⟩
        simp only [Option.all_some, hany, Bool.and_comm]
  unfold LessonDb.lessonConsumption
  generalize db.transactions.rows = rows at hconsumes
  induction rows with
  | nil => rfl
  | cons t rows ih =>
      have hrest := ih fun t ht => hconsumes t (List.mem_cons_of_mem _ ht)
      have ht := hconsumes t List.mem_cons_self
      rw [List.map_cons, List.sum_cons, ← hrest, List.filter_cons, ht]
      unfold LessonTransaction.consumption
      split
      · rw [List.map_cons, List.sum_cons, Int.neg_add]
      · rw [Int.zero_add]

/-- A row adds to the report what its call has returned. -/
theorem consumption_of_tells (hheld : (truthy studentId).isSome → held) (c : LessonCall)
    (a : LessonResult) (row : LessonTransaction) (hmoves : (lessonBooks school held).moves c a = true)
    (htells : (lessonBooks school held).tells c a row) :
    row.consumption studentId = consumedBy school studentId c a := by
  unfold LessonTransaction.consumption
  cases c with
  | checkIn ambient dto =>
      obtain ⟨schedule, hschedule, hpos, card, -, -, rfl⟩ := htells
      cases a with
      | attendance record deducted =>
          obtain rfl : deducted = true := hmoves
          simp [consumedBy, checkInTransaction, hschedule, hpos]
      | card card => cases hmoves
  | adjustLessons ambient id dto =>
      cases a with
      | attendance record deducted => cases hmoves
      | card card =>
          obtain ⟨seen, uuid, howner, rfl⟩ := htells
          cases hstudent : truthy studentId with
          | none =>
              simp only [consumedBy, adjustTransaction, hstudent, Option.all_none]
              rfl
          | some student =>
              rw [hstudent] at hheld
              simp [consumedBy, adjustTransaction, hstudent, howner (hheld rfl)]
  | create ambient dto => exact htells.elim
  | update ambient id dto => exact htells.elim

theorem consumedBy_eq_zero (c : LessonCall) (a : LessonResult)
    (hmoves : (lessonBooks school held).moves c a = false) : consumedBy school studentId c a = 0 := by
  cases c with
  | checkIn ambient dto =>
      cases a with
      | attendance record deducted =>
          obtain rfl : deducted = false := hmoves
          rfl
      | card card => rfl
  | adjustLessons ambient id dto =>
      cases a with
      | attendance record deducted => rfl
      | card card => cases hmoves
  | create ambient dto | update ambient id dto => cases a <;> rfl

end Statistics

/-! ### Runs -/

section Runs

variable {outside : Geofence} {db₀ : LessonDb} {w : LessonWorld} {held : Prop}

/-- No call returns before it has issued a statement. -/
theorem moves_of_start (outside : Geofence) (c : LessonCall) (a : LessonResult)
    (hprogram : c.program outside = .ret a) : (lessonBooks db₀.school held).moves c a = false := by
  cases c with
  | checkIn ambient dto => cases hprogram
  | adjustLessons ambient id dto => exact absurd hprogram adjustLessons_not_ret
  | create ambient dto | update ambient id dto => cases a <;> rfl

theorem reachable_lessonAccounts {ok : LessonWorld → LessonAction → Prop}
    (hok : ∀ w a, ok w a → (bookContract db₀.school held).Admits a)
    (h : ((lessonSystem outside).machine (· = db₀)).ReachableBy ok w) :
    ∃ log, Accounts (lessonBooks db₀.school held) db₀ w log :=
  System.reachable_accounts (K := (bookContract db₀.school held).keeping LessonDb.school db₀.school)
    (fun c hc => program_kept outside c hc) (moves_of_start outside) (fun _ => And.left)
    (by
      rintro s rfl
      exact ⟨rfl, trivial, rfl⟩) hok h

theorem returnedConsumption_of_accounts {log : List (Nat × LessonTransaction)} {studentId : Option String}
    (h : Accounts (lessonBooks db₀.school held) db₀ w log)
    (hheld : (truthy studentId).isSome → held) :
    (w.committed.transactions.rows.map fun t => t.consumption studentId).sum =
      (db₀.transactions.rows.map fun t => t.consumption studentId).sum +
        returnedConsumption db₀.school studentId w :=
  h.sum (consumption_of_tells hheld) consumedBy_eq_zero

end Runs

/-- **The ledger is what the transactions have returned**, in every run of all four calls: its new
rows and the calls that have returned `deducted: true` or an adjusted card belong to each other
one to one, each row is the row of its call, and the consumption reported for the school has grown
by what these calls have returned. -/
theorem ledger_of_returns (outside : Geofence) (db₀ : LessonDb) {w : LessonWorld}
    (h : ((lessonSystem outside).machine (· = db₀)).Reachable w) :
    (∃ log, Accounts (lessonBooks db₀.school False) db₀ w log) ∧
      w.committed.lessonConsumption none =
        db₀.lessonConsumption none + returnedConsumption db₀.school none w := by
  have hadmits : ∀ (w : LessonWorld) (a : LessonAction), True →
    (bookContract db₀.school False).Admits a := by
    intro w a _
    cases a with
    | spawn c => exact False.elim
    | run t env | abort t => trivial
  obtain ⟨log, hlog⟩ := reachable_lessonAccounts hadmits h
  refine ⟨⟨log, hlog⟩, ?_⟩
  rw [lessonConsumption_eq (by simp [truthy]), lessonConsumption_eq (by simp [truthy])]
  exact returnedConsumption_of_accounts hlog (by simp [truthy])

/-- A check-in of the student races a deduction of two lessons by the desk, and three are
added. -/
def deskAndCheckIn : List LessonAction :=
  [.spawn (.checkIn administrator ⟨"st1", "s1", .manual, none, none, none⟩),
    .spawn (.adjustLessons administrator "m1" ⟨-2, "", none⟩),
    .spawn (.adjustLessons administrator "m1" ⟨3, "", none⟩)] ++
  steps 0 5 ++ steps 1 1 ++ steps 0 7 ++ steps 1 6 ++ [.run 2 {}] ++
  List.replicate 6 (.run 2 { random := "u" })

theorem deskAndCheckIn_returned :
    (((lessonSystem nowhere).machine (· = oneCardDb)).exec { committed := oneCardDb }
      deskAndCheckIn).map (fun w =>
        (returnedConsumption smallSchool none w, returnedConsumption smallSchool (some "st1") w)) =
      some (3, 3) := by
  decide +kernel

theorem ledger_of_desk :
    ∃ w, ((lessonSystem nowhere).machine (· = oneCardDb)).exec { committed := oneCardDb }
        deskAndCheckIn = some w ∧
      (∃ log, Accounts (lessonBooks smallSchool False) oneCardDb w log) ∧
      returnedConsumption smallSchool none w = 3 ∧ w.committed.lessonConsumption none = 3 := by
  obtain ⟨w, hexec, hreturned⟩ := Option.map_eq_some_iff.mp deskAndCheckIn_returned
  simp only [Prod.mk.injEq] at hreturned
  obtain ⟨hlog, hconsumption⟩ := ledger_of_returns nowhere oneCardDb (Machine.reachableBy_exec
    (Machine.reachableBy_init (System.machine_init rfl)) (Machine.admits_true _ _) hexec)
  refine ⟨w, hexec, hlog, hreturned.1, hconsumption.trans ?_⟩
  exact (Int.zero_add _).trans hreturned.1

/-- The run condition: no update gives a card to a student. -/
def KeepsOwners (_ : LessonWorld) : LessonAction → Prop
  | .spawn c => c.keepsOwner = true
  | _ => True

instance (w : LessonWorld) : ∀ a, Decidable (KeepsOwners w a)
  | .spawn c => inferInstanceAs (Decidable (c.keepsOwner = true))
  | .run _ _ => .isTrue trivial
  | .abort _ => .isTrue trivial

/-- **A student's consumption is what has been returned for the student**, along every run in which
no card changes hands: the rows go on naming the students of their cards, and the report of a
student has grown by the check-ins of the student and the deductions from the student's cards. -/
theorem lessonConsumption_of_returns (outside : Geofence) {db₀ : LessonDb}
    (hrows : RowsOfOwners db₀) {w : LessonWorld}
    (h : ((lessonSystem outside).machine (· = db₀)).ReachableBy KeepsOwners w)
    (studentId : Option String) :
    RowsOfOwners w.committed ∧ w.committed.lessonConsumption studentId =
      db₀.lessonConsumption studentId + returnedConsumption db₀.school studentId w := by
  have hadmits : ∀ (w : LessonWorld) a, KeepsOwners w a →
      (bookContract db₀.school True).Admits a := by
    intro w a h
    cases a with
    | spawn c => exact fun _ => h
    | run t env | abort t => trivial
  have hrows' : RowsOfOwners w.committed :=
    (System.reachable_contract (K := (bookContract db₀.school True).keeping LessonDb.school db₀.school)
      (J := fun w => RowsOfOwners w.committed) (fun c hc => program_kept outside c hc)
      (by
        rintro s rfl
        exact ⟨trivial, rfl⟩) hadmits h
      (by
        rintro s rfl
        exact hrows)
      (by
        rintro w w' a - hw - heffect
        cases heffect with
        | quiet committed _ => exact committed ▸ hw
        | commit _ _ _ _ _ _ _ _ commits => exact commits.post.2 trivial hw)).2
  obtain ⟨log, hlog⟩ := reachable_lessonAccounts hadmits h
  refine ⟨hrows', ?_⟩
  rw [lessonConsumption_eq fun _ => hrows', lessonConsumption_eq fun _ => hrows]
  exact returnedConsumption_of_accounts hlog fun _ => trivial

theorem lessonConsumption_of_desk :
    ∃ w, ((lessonSystem nowhere).machine (· = oneCardDb)).exec { committed := oneCardDb }
        deskAndCheckIn = some w ∧
      RowsOfOwners w.committed ∧ returnedConsumption smallSchool (some "st1") w = 3 ∧
      w.committed.lessonConsumption (some "st1") = 3 := by
  obtain ⟨w, hexec, hreturned⟩ := Option.map_eq_some_iff.mp deskAndCheckIn_returned
  simp only [Prod.mk.injEq] at hreturned
  have hrows : RowsOfOwners oneCardDb := fun _ h => by cases h
  obtain ⟨hrows', hconsumption⟩ := lessonConsumption_of_returns nowhere hrows
    (Machine.reachableBy_exec (Machine.reachableBy_init (System.machine_init rfl))
      (by decide +kernel) hexec) (some "st1")
  refine ⟨w, hexec, hrows', hreturned.2, hconsumption.trans ?_⟩
  exact (Int.zero_add _).trans hreturned.2

end MibServer.Lessons
