import MibServer.Lessons.Store
import MibServer.Lib.History

/-!
`deductLessonsForCheckIn` and the helpers it shares with the manual adjustment.

The specification of a deduction, `deductLessonsForCheckIn_yields`, is all its callers
use: either nothing has changed, or one card has been charged and its ledger row
written (`Booked`). The compensating increment after a failed insert gives back
exactly the row the decrement took.
-/

namespace MibServer.Lessons

open MibServer.Lib MibServer.Prisma MibServer.Tenancy

/-! ### `membership-lessons.ts` -/

/-- The `where` and `data` a caller of `tryDecrementMembershipLessons` adds are a
version and its increment. -/
def tryDecrementMembershipLessons (scope : Option TenantWhereClause) (membershipId : String)
    (amount : Int) (version : Option Int := none) (versionIncrement : Int := 0) :
    LessonProg Bool := do
  if amount ≤ 0 then
    return false
  else
    let count ← orRethrow (← query (.write (.updateManyCards
      { id := membershipId, scope, version, minimum := some amount, remainingLessons := -amount,
        versionIncrement })))
    return count == 1

def incrementMembershipLessons (scope : Option TenantWhereClause) (membershipId : String)
    (amount : Int) : LessonProg Unit := do
  if amount ≤ 0 then
    return ()
  else
    let _ ← orRethrow (← query (.write (.updateManyCards
      { id := membershipId, scope, remainingLessons := amount })))
    return ()

/-! ### `lesson-transaction.ts` -/

def buildCheckInBusinessKey (studentId scheduleId : String) : String :=
  "checkin:" ++ studentId ++ ":" ++ scheduleId

def buildAdjustBusinessKey (membershipId randomUUID : String) : String :=
  "adjust:" ++ membershipId ++ ":" ++ randomUUID

/-! ### `attendance-lesson-deduct.ts` -/

def CHECKIN_DEDUCT_REASON : String := "CLASS_CHECK_IN"

inductive LessonDeductOutcome where
  | deducted | alreadyDeducted | insufficient
deriving DecidableEq, Repr

/-- The ledger row of a check-in deduction. -/
def checkInTransaction (studentId scheduleId cardId : String) (deductAmount beforeRemaining : Int) :
    LessonTransaction where
  membershipId := cardId
  studentId := studentId
  delta := -deductAmount
  reason := CHECKIN_DEDUCT_REASON
  scheduleId := some scheduleId
  businessKey := buildCheckInBusinessKey studentId scheduleId
  beforeRemaining := beforeRemaining
  afterRemaining := beforeRemaining - deductAmount

def findCheckInTransaction (studentId scheduleId : String) :
    LessonProg (Option LessonTransaction) :=
  find (LessonRead.findCheckInTransaction studentId scheduleId (buildCheckInBusinessKey studentId scheduleId)
    CHECKIN_DEDUCT_REASON)

/-- The `catch` of the insert: give the lessons back, then look for the row that was
there first. -/
def compensate (scope : Option TenantWhereClause) (studentId scheduleId cardId : String)
    (deductAmount : Int) (error : DbError) : LessonProg LessonDeductOutcome := do
  incrementMembershipLessons scope cardId deductAmount
  if isPrismaUniqueViolation error then
    let winner ← findCheckInTransaction studentId scheduleId
    if winner.isSome then
      return .alreadyDeducted
    else
      .throw .internal
  else
    .throw .internal

/-- The loop over the candidate cards. -/
def deductFromCards (scope : Option TenantWhereClause) (studentId scheduleId : String)
    (deductAmount : Int) : List (String × Int) → LessonProg LessonDeductOutcome
  | [] => return .insufficient
  | (cardId, beforeRemaining) :: cards => do
      let decremented ← tryDecrementMembershipLessons scope cardId deductAmount
      if decremented then
        let row := checkInTransaction studentId scheduleId cardId deductAmount beforeRemaining
        match ← query (.write (.createTransaction row)) with
        | .ok _ => return .deducted
        | .error error => compensate scope studentId scheduleId cardId deductAmount error
      else
        deductFromCards scope studentId scheduleId deductAmount cards

/-- `scope` is the clause of the caller whose transaction `tx` is. -/
def deductLessonsForCheckIn (scope : Option TenantWhereClause) (studentId scheduleId : String)
    (deductAmount : Int) : LessonProg LessonDeductOutcome := do
  if deductAmount ≤ 0 then
    return .insufficient
  else
    let existing ← findCheckInTransaction studentId scheduleId
    if existing.isSome then
      return .alreadyDeducted
    else
      let now ← query .now
      let cards ← find (LessonRead.findActiveCards studentId now scope)
      deductFromCards scope studentId scheduleId deductAmount cards

/-! ### What a deduction leaves alone -/

/-- Not a write of an attendance record. -/
def SparesAttendance : LessonStmt → Prop
  | .write (.upsertAttendance _) => False
  | _ => True

theorem attendance_of_exec {q : LessonStmt} (hq : SparesAttendance q) (env : Env) (db : LessonDb) :
    (lessonClient.engine.exec q env db).2.attendance = db.attendance := by
  rcases q with _ | _ | r | w
  · rfl
  · rfl
  · rfl
  · show (if env.fault then (.error .other, db) else db.write w : _ × _).2.attendance = _
    split
    · rfl
    · cases w with
      | createCard card =>
          simp only [LessonDb.write, LessonDb.createCard]
          split
          · split <;> rfl
          · rfl
      | updateCard id scope data =>
          simp only [LessonDb.write, LessonDb.updateCard]
          split
          · split <;> rfl
          · rfl
      | updateManyCards u => rfl
      | createTransaction row =>
          simp only [LessonDb.write, LessonDb.createTransaction]
          split
          · split <;> rfl
          · rfl
      | upsertAttendance row => exact hq.elim

theorem only_find {r : LessonRead} : (find r : LessonProg r.Row).Only SparesAttendance := by
  refine ⟨trivial, fun reply => ?_⟩
  cases reply <;> trivial

theorem only_orRethrow {α : Type} (reply : Except DbError α) :
    (orRethrow reply : LessonProg α).Only SparesAttendance := by
  cases reply <;> trivial

theorem compensate_only (scope : Option TenantWhereClause) (studentId scheduleId cardId : String)
    (deductAmount : Int) (error : DbError) :
    (compensate scope studentId scheduleId cardId deductAmount error).Only SparesAttendance := by
  refine Prog.Only.bind ?_ fun _ => ?_
  · unfold incrementMembershipLessons
    split
    · trivial
    · exact ⟨trivial, fun reply => (only_orRethrow reply).bind fun _ => trivial⟩
  · split
    · refine only_find.bind fun winner => ?_
      split <;> trivial
    · trivial

theorem deductFromCards_only (scope : Option TenantWhereClause) (studentId scheduleId : String)
    (deductAmount : Int) (cards : List (String × Int)) :
    (deductFromCards scope studentId scheduleId deductAmount cards).Only SparesAttendance := by
  induction cards with
  | nil => trivial
  | cons card cards ih =>
      obtain ⟨cardId, beforeRemaining⟩ := card
      refine Prog.Only.bind ?_ fun decremented => ?_
      · unfold tryDecrementMembershipLessons
        split
        · trivial
        · exact ⟨trivial, fun reply => (only_orRethrow reply).bind fun _ => trivial⟩
      · split
        · refine ⟨trivial, fun reply => ?_⟩
          cases reply with
          | ok _ => trivial
          | error error => exact compensate_only scope studentId scheduleId cardId deductAmount error
        · exact ih

theorem deductLessonsForCheckIn_only (scope : Option TenantWhereClause)
    (studentId scheduleId : String) (deductAmount : Int) :
    (deductLessonsForCheckIn scope studentId scheduleId deductAmount).Only SparesAttendance := by
  unfold deductLessonsForCheckIn
  split
  · trivial
  · refine only_find.bind fun existing => ?_
    split
    · trivial
    · exact ⟨trivial, fun now => only_find.bind fun cards =>
        deductFromCards_only scope studentId scheduleId deductAmount cards⟩

/-! ### One statement inside a transaction -/

section Statements

variable {α : Type} {v : View LessonDb} {post : α → LessonDb → Prop}

theorem yields_updateManyCards {u : CardIncrement} {k : Except DbError Nat → LessonProg α}
    (hfault : (k (.error .other)).Yields lessonClient.engine post v)
    (hnone : (∀ card ∈ v.work.cards.rows, u.selects card = false) →
      (k (.ok 0)).Yields lessonClient.engine post v)
    (hone : ∀ card ∈ v.work.cards.rows, u.selects card = true →
      (k (.ok 1)).Yields lessonClient.engine post (v.at (v.work.increment u))) :
    (Prog.stmt (.write (.updateManyCards u)) k : LessonProg α).Yields lessonClient.engine post v := by
  refine yields_write hfault ?_
  simp only [lessonClient_write, LessonDb.write]
  rcases v.work.updateManyCards_cases u with ⟨hselects, hcount⟩ | ⟨card, hmem, hselects, hcount⟩
  · rw [hcount]
    exact hnone hselects
  · rw [hcount]
    exact hone card hmem hselects

theorem yields_createTransaction {row : LessonTransaction}
    {k : Except DbError LessonTransaction → LessonProg α}
    (herror : ∀ e, (k (.error e)).Yields lessonClient.engine post v)
    (hok : ∀ transactions, v.work.transactions.insert? row = some transactions →
      (k (.ok row)).Yields lessonClient.engine post (v.at { v.work with transactions })) :
    (Prog.stmt (.write (.createTransaction row)) k : LessonProg α).Yields lessonClient.engine post v := by
  refine yields_write (herror _) ?_
  simp only [lessonClient_write, LessonDb.write, LessonDb.createTransaction]
  split
  · split
    · rename_i transactions hinsert
      exact hok transactions hinsert
    · exact herror _
  · exact herror _

/-- A decrement that answers `true` has taken `amount` from the one card of that id. -/
theorem yields_tryDecrement {scope : Option TenantWhereClause} {id : String} {amount : Int}
    {version : Option Int} {versionIncrement : Int} {k : Bool → LessonProg α}
    (hfalse : (k false).Yields lessonClient.engine post v)
    (htrue : ∀ card ∈ v.work.cards.rows, card.id = id → card.visible scope = true → 0 < amount →
      amount ≤ card.remainingLessons → version.all (· == card.version) = true →
      (k true).Yields lessonClient.engine post (v.at (v.work.increment
        { id, scope, version, minimum := some amount, remainingLessons := -amount,
          versionIncrement }))) :
    ((tryDecrementMembershipLessons scope id amount version versionIncrement).bind k).Yields
      lessonClient.engine post v := by
  unfold tryDecrementMembershipLessons
  split
  · exact hfalse
  · rename_i hamount
    refine yields_updateManyCards trivial (fun _ => hfalse) fun card hmem hselects => ?_
    have hparts := hselects
    simp only [CardIncrement.selects, Bool.and_eq_true, beq_iff_eq, Option.all_some,
      decide_eq_true_eq] at hparts
    obtain ⟨⟨⟨hid, hversion⟩, hbalance⟩, hvisible⟩ := hparts
    exact htrue card hmem hid hvisible (by omega) hbalance hversion

end Statements

/-! ### The specification of a deduction -/

/-- The cards, the ledger and the opening balances are as they were. -/
structure SameLedger (db db' : LessonDb) : Prop where
  cards : db'.cards = db.cards
  transactions : db'.transactions = db.transactions
  opening : db'.opening = db.opening

/-- The balance of `card` has changed by the delta of `row`, and `row` has been
written. -/
structure Booked (db db' : LessonDb) (card : MembershipCard) (row : LessonTransaction)
    (versionIncrement : Int) : Prop where
  card_mem : card ∈ db.cards.rows
  membershipId : row.membershipId = card.id
  cards : db'.cards.rows = db.cards.rows.map fun c =>
    if c.id = card.id then
      { c with
        remainingLessons := c.remainingLessons + row.delta
        version := c.version + versionIncrement }
    else c
  transactions : db'.transactions.rows = db.transactions.rows ++ [row]
  opening : db'.opening = db.opening

theorem SameLedger.refl (db : LessonDb) : SameLedger db db := ⟨rfl, rfl, rfl⟩

/-- What a deduction leaves behind, by its outcome. -/
def Deducted (studentId scheduleId : String) (deductAmount : Int) (db : LessonDb)
    (outcome : LessonDeductOutcome) (db' : LessonDb) : Prop :=
  outcome ≠ .deducted ∧ db' = db ∨
    outcome = .deducted ∧ ∃ card, deductAmount ≤ card.remainingLessons ∧
      Booked db db' card
        (checkInTransaction studentId scheduleId card.id deductAmount card.remainingLessons) 0

/-- The increment gives back what the decrement took. -/
theorem increment_decrement (db : LessonDb) (scope : Option TenantWhereClause) (id : String)
    (amount : Int) :
    (db.increment { id, scope, minimum := some amount, remainingLessons := -amount }).increment
      { id, scope, remainingLessons := amount } = db := by
  have hcards : ((db.increment
      { id, scope, minimum := some amount, remainingLessons := -amount }).increment
      { id, scope, remainingLessons := amount }).cards = db.cards := by
    refine Indexed.ext ((List.map_map ..).trans ?_)
    refine (List.map_congr_left (g := fun c => c) fun c _ => ?_).trans (List.map_id' _)
    by_cases hid : c.id = id
    · subst hid
      simp [CardIncrement.apply, Int.neg_add_cancel_right]
    · simp [hid]
  exact congrArg (fun cards => { db with cards }) hcards

/-- Booking a row against the one card an increment has changed. -/
theorem booked_of_increment {db : LessonDb} {card : MembershipCard} {row : LessonTransaction}
    {u : CardIncrement} {transactions : Indexed LessonTransaction LedgerKey LessonTransaction.keys}
    (hmem : card ∈ db.cards.rows) (hid : u.id = card.id) (hrow : row.membershipId = card.id)
    (hdelta : u.remainingLessons = row.delta)
    (hinsert : (db.increment u).transactions.insert? row = some transactions) :
    Booked db { db.increment u with transactions } card row u.versionIncrement where
  card_mem := hmem
  membershipId := hrow
  cards := by
    refine List.map_congr_left fun c _ => ?_
    simp [CardIncrement.apply, hid, hdelta]
  transactions := Indexed.rows_insert? hinsert
  opening := rfl

theorem compensate_yields {v : View LessonDb} {db : LessonDb} {scope : Option TenantWhereClause}
    {studentId scheduleId : String} {card : MembershipCard} {deductAmount : Int} {error : DbError}
    (hamount : 0 < deductAmount) (hmem : card ∈ db.cards.rows) (hvisible : card.visible scope = true)
    (hwork : v.work = db.increment
      { id := card.id, scope, minimum := some deductAmount, remainingLessons := -deductAmount }) :
    (compensate scope studentId scheduleId card.id deductAmount error).Yields lessonClient.engine
      (fun outcome db' => outcome ≠ .deducted ∧ db' = db) v := by
  have hgiven : v.work.increment { id := card.id, scope, remainingLessons := deductAmount } = db := by
    rw [hwork, increment_decrement]
  unfold compensate incrementMembershipLessons
  rw [if_neg (by omega)]
  refine yields_updateManyCards trivial (fun hnone => ?_) fun c _ _ => ?_
  · rw [hwork] at hnone
    have hcard := hnone _ (LessonDb.mem_increment.mpr ⟨card, hmem, rfl⟩)
    rw [MembershipCard.visible] at hvisible
    simp [CardIncrement.selects, CardIncrement.apply, MembershipCard.visible, hvisible] at hcard
  · rw [hgiven]
    split
    · refine yields_find ?_
      split
      · exact ⟨by decide, rfl⟩
      · trivial
    · trivial

/-- The loop, over cards whose balances were read from the current rows. -/
theorem deductFromCards_yields {v : View LessonDb} {scope : Option TenantWhereClause}
    {studentId scheduleId : String} {deductAmount : Int} (cards : List (String × Int))
    (hcards : ∀ p ∈ cards, ∀ card ∈ v.work.cards.rows, card.id = p.1 → card.remainingLessons = p.2) :
    (deductFromCards scope studentId scheduleId deductAmount cards).Yields lessonClient.engine
      (Deducted studentId scheduleId deductAmount v.work) v := by
  induction cards with
  | nil => exact Or.inl ⟨by decide, rfl⟩
  | cons p cards ih =>
      obtain ⟨cardId, beforeRemaining⟩ := p
      simp only [deductFromCards]
      refine yields_tryDecrement ?_ fun card hmem hid hvisible hamount hbalance _ => ?_
      · exact ih fun p hp => hcards p (List.mem_cons_of_mem _ hp)
      · have hbefore : card.remainingLessons = beforeRemaining :=
          hcards _ List.mem_cons_self card hmem hid
        subst hid hbefore
        refine yields_createTransaction (fun error => ?_) fun transactions hinsert => ?_
        · exact (compensate_yields hamount hmem hvisible rfl).mono fun outcome db' h => Or.inl h
        · exact Or.inr ⟨rfl, card, hbalance, booked_of_increment hmem rfl rfl rfl hinsert⟩

/-- **The specification of a deduction**, in a serializable transaction. -/
theorem deductLessonsForCheckIn_yields {v : View LessonDb} (hv : v.isolation = .serializable)
    (scope : Option TenantWhereClause) (studentId scheduleId : String) (deductAmount : Int) :
    (deductLessonsForCheckIn scope studentId scheduleId deductAmount).Yields lessonClient.engine
      (Deducted studentId scheduleId deductAmount v.work) v := by
  have hunchanged : ∀ outcome, outcome ≠ .deducted →
      Deducted studentId scheduleId deductAmount v.work outcome v.work :=
    fun outcome h => Or.inl ⟨h, rfl⟩
  unfold deductLessonsForCheckIn
  split
  · exact hunchanged _ (by decide)
  · refine yields_find ?_
    split
    · exact hunchanged _ (by decide)
    · refine yields_now fun now => yields_find (deductFromCards_yields _ ?_)
      rw [Client.seen_serializable hv]
      intro p hp card hmem hid
      obtain ⟨c, hc, rfl⟩ := List.mem_map.mp hp
      have hfiltered := List.mem_filter.mp (List.mem_mergeSort.mp hc)
      rw [v.work.card_eq hmem hfiltered.1 hid]

end MibServer.Lessons
