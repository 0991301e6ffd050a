import MibServer.Lessons.Services
import MibServer.Lib.Sequential

/-!
One call of `deductLessonsForCheckIn` without interference.

`deductAlone` runs its statements on the rows as they are, which is how its serializable
transaction answers them, with any failure of the insert of the ledger row. What it comes to
is written out in `deductAlone_eq`: the card charged is the first of the query's answer that
covers the amount, and an insert that fails leaves the rows it found. The query answers with
the cards that the tenant clause of the caller lets through.
-/

namespace MibServer.Lessons

open MibServer.Lib MibServer.Prisma MibServer.Tenancy

/-- The insert of a ledger row, where `failure` may fail it. -/
def insertOrFail (failure : LessonTransaction → Option DbError) (db : LessonDb)
    (row : LessonTransaction) : Except DbError LessonTransaction × LessonDb :=
  match failure row with
  | some error => (.error error, db)
  | none => db.createTransaction row

/-- The database with an insert of ledger rows that `failure` may fail. -/
def failingClient (failure : LessonTransaction → Option DbError) :
    Client LessonDb LessonRows LessonRead LessonWrite LessonRead.Row LessonWrite.Row :=
  { lessonClient with
    write := fun db w =>
      match w with
      | .createTransaction row => insertOrFail failure db row
      | .createCard card => db.createCard card
      | .updateCard id scope data => db.updateCard id scope data
      | .updateManyCards u => (.ok (db.updateManyCards u).1, (db.updateManyCards u).2)
      | .upsertAttendance row => db.upsertAttendance row }

/-- An insert that fails leaves the rows alone. -/
theorem insertOrFail_cases (failure : LessonTransaction → Option DbError) (db : LessonDb)
    (row : LessonTransaction) :
    (∃ error, insertOrFail failure db row = (.error error, db)) ∨
      ∃ transactions, db.transactions.insert? row = some transactions ∧
        insertOrFail failure db row = (.ok row, { db with transactions }) := by
  unfold insertOrFail LessonDb.createTransaction
  split
  · exact Or.inl ⟨_, rfl⟩
  · split
    · split
      · rename_i transactions hinsert
        exact Or.inr ⟨transactions, hinsert, rfl⟩
      · exact Or.inl ⟨_, rfl⟩
    · exact Or.inl ⟨_, rfl⟩

/-- The outcome of the call at the time `now`, and the rows it leaves. -/
def deductAlone (failure : LessonTransaction → Option DbError) (db : LessonDb)
    (scope : Option TenantWhereClause) (studentId scheduleId : String) (deductAmount now : Int) :
    Except HttpException LessonDeductOutcome × LessonDb :=
  (deductLessonsForCheckIn scope studentId scheduleId deductAmount).alone
    (failingClient failure).engine none (fun _ => { now }) db

/-! ### The card charged -/

/-- The rows of the cards the query returns, in its order. -/
def LessonDb.activeCards (db : LessonDb) (scope : Option TenantWhereClause) (studentId : String)
    (now : Int) : List MembershipCard :=
  (db.cards.rows.filter fun c => c.usable studentId now && c.visible scope).mergeSort
    fun a b => decide (a.validTo ≤ b.validTo)

/-- The first of them with lessons enough. -/
def LessonDb.coveringCard? (db : LessonDb) (scope : Option TenantWhereClause) (studentId : String)
    (now deductAmount : Int) : Option MembershipCard :=
  (db.activeCards scope studentId now).find? fun c => deductAmount ≤ c.remainingLessons

theorem LessonDb.mem_activeCards {db : LessonDb} {scope : Option TenantWhereClause}
    {studentId : String} {now : Int} {c : MembershipCard} :
    c ∈ db.activeCards scope studentId now ↔
      c ∈ db.cards.rows ∧ c.usable studentId now = true ∧ c.visible scope = true := by
  rw [LessonDb.activeCards, List.mem_mergeSort, List.mem_filter, Bool.and_eq_true]

/-- They come in the order of `validTo`. -/
theorem LessonDb.activeCards_sorted (db : LessonDb) (scope : Option TenantWhereClause)
    (studentId : String) (now : Int) :
    (db.activeCards scope studentId now).Pairwise fun a b => a.validTo ≤ b.validTo := by
  have htrans : ∀ a b c : MembershipCard, decide (a.validTo ≤ b.validTo) = true →
      decide (b.validTo ≤ c.validTo) = true → decide (a.validTo ≤ c.validTo) = true := by
    intro a b c hab hbc
    simp only [decide_eq_true_eq] at *
    omega
  have htotal : ∀ a b : MembershipCard,
      (decide (a.validTo ≤ b.validTo) || decide (b.validTo ≤ a.validTo)) = true := by
    intro a b
    simp only [Bool.or_eq_true, decide_eq_true_eq]
    omega
  have hsorted := List.pairwise_mergeSort htrans htotal
    (db.cards.rows.filter fun c => c.usable studentId now && c.visible scope)
  exact hsorted.imp fun h => by simpa using h

/-- The lessons of the card taken from it. -/
def LessonDb.charge (db : LessonDb) (scope : Option TenantWhereClause) (card : MembershipCard)
    (deductAmount : Int) : LessonDb :=
  db.increment { id := card.id, scope, minimum := some deductAmount, remainingLessons := -deductAmount }

/-! ### The statements -/

section Statements

variable {failure : LessonTransaction → Option DbError} {db : LessonDb} {now : Int}
  {scope : Option TenantWhereClause} {studentId scheduleId : String} {deductAmount : Int}
  {card : MembershipCard}

theorem alone_findCheckIn {α : Type} {k : Option LessonTransaction → LessonProg α} :
    ((findCheckInTransaction studentId scheduleId).bind k).alone (failingClient failure).engine none
        (fun _ => { now }) db =
      (k (db.transactions.rows.find? fun t => t.isCheckIn studentId scheduleId
        (buildCheckInBusinessKey studentId scheduleId) CHECKIN_DEDUCT_REASON)).alone
        (failingClient failure).engine none (fun _ => { now }) db :=
  rfl

theorem alone_updateManyCards {α : Type} {u : CardIncrement} {k : Except DbError Nat → LessonProg α} :
    (Prog.stmt (.write (.updateManyCards u)) k : LessonProg α).alone (failingClient failure).engine none
        (fun _ => { now }) db =
      (k (.ok (db.updateManyCards u).1)).alone (failingClient failure).engine none (fun _ => { now })
        (db.updateManyCards u).2 :=
  rfl

theorem alone_createTransaction {α : Type} {row : LessonTransaction}
    {k : Except DbError LessonTransaction → LessonProg α} :
    (Prog.stmt (.write (.createTransaction row)) k : LessonProg α).alone (failingClient failure).engine none
        (fun _ => { now }) db =
      (k (insertOrFail failure db row).1).alone (failingClient failure).engine none (fun _ => { now })
        (insertOrFail failure db row).2 :=
  rfl

/-- The decrement of a card with too few lessons selects no row. -/
theorem alone_tryDecrement_short {α : Type} {k : Bool → LessonProg α} (hmem : card ∈ db.cards.rows)
    (hamount : 0 < deductAmount) (hshort : card.remainingLessons < deductAmount) :
    ((tryDecrementMembershipLessons scope card.id deductAmount).bind k).alone (failingClient failure).engine
        none (fun _ => { now }) db =
      (k false).alone (failingClient failure).engine none (fun _ => { now }) db := by
  have hcount : db.updateManyCards
      { id := card.id, scope, minimum := some deductAmount, remainingLessons := -deductAmount } = (0, db) := by
    rcases db.updateManyCards_cases
      { id := card.id, scope, minimum := some deductAmount, remainingLessons := -deductAmount } with
      ⟨-, hcount⟩ | ⟨c, hc, hselects, -⟩
    · exact hcount
    · simp only [CardIncrement.selects, Option.all_none, Bool.and_true, Option.all_some,
        Bool.and_eq_true, beq_iff_eq, decide_eq_true_eq] at hselects
      obtain rfl := db.card_eq hc hmem hselects.1.1
      omega
  unfold tryDecrementMembershipLessons
  rw [if_neg (by omega)]
  refine alone_updateManyCards.trans ?_
  rw [hcount]
  rfl

/-- The decrement of a card the caller sees, with lessons enough, takes them. -/
theorem alone_tryDecrement {α : Type} {k : Bool → LessonProg α} (hmem : card ∈ db.cards.rows)
    (hvisible : card.visible scope = true) (hamount : 0 < deductAmount)
    (hcovers : deductAmount ≤ card.remainingLessons) :
    ((tryDecrementMembershipLessons scope card.id deductAmount).bind k).alone (failingClient failure).engine
        none (fun _ => { now }) db =
      (k true).alone (failingClient failure).engine none (fun _ => { now })
        (db.charge scope card deductAmount) := by
  have hcount : db.updateManyCards
      { id := card.id, scope, minimum := some deductAmount, remainingLessons := -deductAmount } =
        (1, db.charge scope card deductAmount) := by
    rcases db.updateManyCards_cases
      { id := card.id, scope, minimum := some deductAmount, remainingLessons := -deductAmount } with
      ⟨hnone, -⟩ | ⟨c, hc, hselects, hcount⟩
    · have hcard := hnone card hmem
      simp [CardIncrement.selects, hcovers, hvisible] at hcard
    · exact hcount
  unfold tryDecrementMembershipLessons
  rw [if_neg (by omega)]
  refine alone_updateManyCards.trans ?_
  rw [hcount]
  rfl

/-- The `catch` gives the lessons back, and finds no other row where there was none before. -/
theorem alone_compensate {error : DbError} (hmem : card ∈ db.cards.rows)
    (hvisible : card.visible scope = true) (hamount : 0 < deductAmount)
    (hnone : (db.transactions.rows.find? fun t => t.isCheckIn studentId scheduleId
      (buildCheckInBusinessKey studentId scheduleId) CHECKIN_DEDUCT_REASON) = none) :
    (compensate scope studentId scheduleId card.id deductAmount error).alone (failingClient failure).engine
        none (fun _ => { now }) (db.charge scope card deductAmount) = (.error .internal, db) := by
  have hgiven : (db.charge scope card deductAmount).updateManyCards
      { id := card.id, scope, remainingLessons := deductAmount } = (1, db) := by
    rcases (db.charge scope card deductAmount).updateManyCards_cases
      { id := card.id, scope, remainingLessons := deductAmount } with ⟨hselects, -⟩ | ⟨c, -, -, hcount⟩
    · have hcard := hselects _ (LessonDb.mem_increment.mpr ⟨card, hmem, rfl⟩)
      rw [MembershipCard.visible] at hvisible
      simp [CardIncrement.selects, CardIncrement.apply, MembershipCard.visible, hvisible] at hcard
    · rw [hcount, LessonDb.charge, increment_decrement]
  unfold compensate incrementMembershipLessons
  rw [if_neg (by omega)]
  refine alone_updateManyCards.trans ?_
  rw [hgiven]
  by_cases hunique : isPrismaUniqueViolation error = true
  · simp only [hunique, orRethrow, Prog.ret_bind, Prog.pure_eq, if_true]
    refine alone_findCheckIn.trans ?_
    rw [hnone]
    rfl
  · simp only [hunique, orRethrow, Prog.ret_bind, Prog.pure_eq]
    rfl

end Statements

/-! ### The call -/

/-- What comes of the card that covers the amount. -/
def chargeOutcome (failure : LessonTransaction → Option DbError) (db : LessonDb)
    (scope : Option TenantWhereClause) (studentId scheduleId : String) (deductAmount : Int)
    (card : MembershipCard) :
    Except HttpException LessonDeductOutcome × LessonDb :=
  match insertOrFail failure (db.charge scope card deductAmount)
    (checkInTransaction studentId scheduleId card.id deductAmount card.remainingLessons) with
  | (.ok _, db') => (.ok .deducted, db')
  | (.error _, _) => (.error .internal, db)

/-- The ledger row that ends the call before it looks at a card. -/
def LessonDb.checkInRow? (db : LessonDb) (studentId scheduleId : String) : Option LessonTransaction :=
  db.transactions.rows.find? fun t => t.isCheckIn studentId scheduleId
    (buildCheckInBusinessKey studentId scheduleId) CHECKIN_DEDUCT_REASON

section Call

variable {failure : LessonTransaction → Option DbError} {db : LessonDb} {now : Int}
  {scope : Option TenantWhereClause} {studentId scheduleId : String} {deductAmount : Int}

/-- The loop passes over the cards with too few lessons and ends with the first other one. -/
theorem alone_deductFromCards (failure : LessonTransaction → Option DbError) (now : Int)
    (hamount : 0 < deductAmount)
    (hnone : db.checkInRow? studentId scheduleId = none) {cards : List MembershipCard}
    (hcards : ∀ c ∈ cards, c ∈ db.cards.rows ∧ c.visible scope = true) :
    (deductFromCards scope studentId scheduleId deductAmount
      (cards.map fun c => (c.id, c.remainingLessons))).alone (failingClient failure).engine none
        (fun _ => { now }) db =
      match cards.find? fun c => deductAmount ≤ c.remainingLessons with
      | none => (.ok .insufficient, db)
      | some card => chargeOutcome failure db scope studentId scheduleId deductAmount card := by
  induction cards with
  | nil => rfl
  | cons card cards ih =>
      obtain ⟨hmem, hvisible⟩ := hcards card List.mem_cons_self
      simp only [List.map_cons, deductFromCards, Prog.bind_eq]
      by_cases hcovers : deductAmount ≤ card.remainingLessons
      · rw [alone_tryDecrement hmem hvisible hamount hcovers, List.find?_cons_of_pos (by simpa using hcovers)]
        simp only [if_true]
        refine alone_createTransaction.trans ?_
        unfold chargeOutcome
        rcases insertOrFail_cases failure (db.charge scope card deductAmount)
          (checkInTransaction studentId scheduleId card.id deductAmount card.remainingLessons) with
          ⟨error, hinsert⟩ | ⟨transactions, -, hinsert⟩
        · rw [hinsert]
          exact alone_compensate hmem hvisible hamount hnone
        · rw [hinsert]
          rfl
      · rw [alone_tryDecrement_short hmem hamount (by omega),
          List.find?_cons_of_neg (by simpa using hcovers)]
        exact ih fun c hc => hcards c (List.mem_cons_of_mem _ hc)

/-- **The call, written out**: a row that is there ends it, else the first card that covers
the amount is charged. -/
theorem deductAlone_eq (failure : LessonTransaction → Option DbError) (db : LessonDb)
    (scope : Option TenantWhereClause) (studentId scheduleId : String) (now : Int)
    (hamount : 0 < deductAmount) :
    deductAlone failure db scope studentId scheduleId deductAmount now =
      match db.checkInRow? studentId scheduleId, db.coveringCard? scope studentId now deductAmount with
      | some _, _ => (.ok .alreadyDeducted, db)
      | none, none => (.ok .insufficient, db)
      | none, some card => chargeOutcome failure db scope studentId scheduleId deductAmount card := by
  unfold deductAlone deductLessonsForCheckIn
  rw [if_neg (by omega)]
  refine alone_findCheckIn.trans ?_
  cases hexisting : db.checkInRow? studentId scheduleId with
  | some row =>
      unfold LessonDb.checkInRow? at hexisting
      rw [hexisting]
      rfl
  | none =>
      have hcards : ∀ c ∈ db.activeCards scope studentId now,
          c ∈ db.cards.rows ∧ c.visible scope = true := by
        intro c hc
        obtain ⟨hmem, -, hvisible⟩ := LessonDb.mem_activeCards.mp hc
        exact ⟨hmem, hvisible⟩
      have hloop := alone_deductFromCards failure now hamount hexisting hcards
      unfold LessonDb.checkInRow? at hexisting
      rw [hexisting]
      cases hcard : db.coveringCard? scope studentId now deductAmount with
      | none =>
          rw [show (db.activeCards scope studentId now).find? _ = none from hcard] at hloop
          exact hloop
      | some card =>
          rw [show (db.activeCards scope studentId now).find? _ = some card from hcard] at hloop
          exact hloop

/-- An insert that answers has booked its row against the card charged. -/
theorem chargeOutcome_cases (failure : LessonTransaction → Option DbError)
    (scope : Option TenantWhereClause) (studentId scheduleId : String) (deductAmount : Int)
    {card : MembershipCard} (hmem : card ∈ db.cards.rows) :
    chargeOutcome failure db scope studentId scheduleId deductAmount card = (.error .internal, db) ∨
      ∃ db', chargeOutcome failure db scope studentId scheduleId deductAmount card = (.ok .deducted, db') ∧
        Booked db db' card
          (checkInTransaction studentId scheduleId card.id deductAmount card.remainingLessons) 0 := by
  unfold chargeOutcome
  rcases insertOrFail_cases failure (db.charge scope card deductAmount)
    (checkInTransaction studentId scheduleId card.id deductAmount card.remainingLessons) with
    ⟨error, hinsert⟩ | ⟨transactions, hrows, hinsert⟩
  · rw [hinsert]
    exact Or.inl rfl
  · rw [hinsert]
    exact Or.inr ⟨_, rfl, booked_of_increment hmem rfl rfl rfl hrows⟩

end Call

/-! ### What the call leaves -/

/-- The card comes first, in the order of the query, among the student's usable cards that the
caller sees and that have lessons enough; no other of these ends earlier. -/
structure FirstCovering (db : LessonDb) (scope : Option TenantWhereClause) (studentId : String)
    (now deductAmount : Int) (card : MembershipCard) : Prop where
  mem : card ∈ db.cards.rows
  usable : card.usable studentId now = true
  visible : card.visible scope = true
  covers : deductAmount ≤ card.remainingLessons
  first : ∃ before after, db.activeCards scope studentId now = before ++ card :: after ∧
    ∀ c ∈ before, c.remainingLessons < deductAmount
  earliest : ∀ c ∈ db.cards.rows, c.usable studentId now = true → c.visible scope = true →
    deductAmount ≤ c.remainingLessons → card.validTo ≤ c.validTo

theorem firstCovering_of_some {db : LessonDb} {scope : Option TenantWhereClause} {studentId : String}
    {now deductAmount : Int} {card : MembershipCard}
    (h : db.coveringCard? scope studentId now deductAmount = some card) :
    FirstCovering db scope studentId now deductAmount card := by
  obtain ⟨hcovers, before, after, hcards, hbefore⟩ := List.find?_eq_some_iff_append.mp h
  have hshort : ∀ c ∈ before, c.remainingLessons < deductAmount := by
    intro c hc
    simpa using hbefore c hc
  have hactive : card ∈ db.activeCards scope studentId now := by
    rw [hcards]
    exact List.mem_append_right _ List.mem_cons_self
  obtain ⟨hmem, husable, hvisible⟩ := LessonDb.mem_activeCards.mp hactive
  refine ⟨hmem, husable, hvisible, by simpa using hcovers, ⟨before, after, hcards, hshort⟩, ?_⟩
  intro c hc husable' hvisible' hcovers'
  have hlisted : c ∈ before ++ card :: after :=
    hcards ▸ LessonDb.mem_activeCards.mpr ⟨hc, husable', hvisible'⟩
  have hsorted := db.activeCards_sorted scope studentId now
  rw [hcards, List.pairwise_append, List.pairwise_cons] at hsorted
  rcases List.mem_append.mp hlisted with hc | hc
  · have hc' := hshort c hc
    omega
  · rcases List.mem_cons.mp hc with rfl | hc
    · exact Int.le_refl _
    · exact hsorted.2.1.1 c hc

/-- The call has booked one row against the card, or it leaves the rows it found. -/
theorem deductAlone_cases (failure : LessonTransaction → Option DbError) (db : LessonDb)
    (scope : Option TenantWhereClause) (studentId scheduleId : String) (now : Int) {deductAmount : Int}
    (hamount : 0 < deductAmount) :
    (∃ card db', FirstCovering db scope studentId now deductAmount card ∧
      deductAlone failure db scope studentId scheduleId deductAmount now = (.ok .deducted, db') ∧
      Booked db db' card
        (checkInTransaction studentId scheduleId card.id deductAmount card.remainingLessons) 0) ∨
      ∃ outcome, outcome ≠ .ok .deducted ∧
        deductAlone failure db scope studentId scheduleId deductAmount now = (outcome, db) := by
  rw [deductAlone_eq failure db scope studentId scheduleId now hamount]
  split
  · exact Or.inr ⟨_, by simp, rfl⟩
  · exact Or.inr ⟨_, by simp, rfl⟩
  · rename_i card _ hcard
    have hfirst := firstCovering_of_some hcard
    rcases chargeOutcome_cases failure scope studentId scheduleId deductAmount hfirst.mem with
      hfailed | ⟨work, hcharged, hbooked⟩
    · exact Or.inr ⟨_, by simp, hfailed⟩
    · exact Or.inl ⟨card, work, hfirst, hcharged, hbooked⟩

/-- The transaction around the call commits what the call leaves, and what it rolls back the
call has left alone. -/
theorem transaction_deductAlone (failure : LessonTransaction → Option DbError) (db : LessonDb)
    (scope : Option TenantWhereClause) (studentId scheduleId : String) (now : Int) {deductAmount : Int}
    (hamount : 0 < deductAmount) :
    (Prog.transaction .serializable
        (deductLessonsForCheckIn scope studentId scheduleId deductAmount)).alone
        (failingClient failure).engine none (fun _ => { now }) db =
      deductAlone failure db scope studentId scheduleId deductAmount now := by
  rw [Prog.alone_serializable (deductLessonsForCheckIn_only scope studentId scheduleId deductAmount).plain]
  have hcases := deductAlone_cases failure db scope studentId scheduleId now hamount
  unfold deductAlone at hcases ⊢
  rcases hcases with ⟨card, work, -, hdeducted, -⟩ | ⟨outcome, -, houtcome⟩
  · rw [hdeducted]
  · rw [houtcome]
    cases outcome with
    | ok _ => rfl
    | error _ => rfl

/-- **A deduction is all or nothing**, however the insert of its ledger row may fail: a call
that returns `deducted` has charged the first card that covers the amount, among those the
caller sees, and booked one row; any other return or throw leaves the cards and the ledger as
they were. -/
theorem deduction_exact (failure : LessonTransaction → Option DbError) (db : LessonDb)
    (scope : Option TenantWhereClause) (studentId scheduleId : String) (now : Int)
    {deductAmount : Int} (hamount : 0 < deductAmount)
    {outcome : Except HttpException LessonDeductOutcome} {db' : LessonDb}
    (h : deductAlone failure db scope studentId scheduleId deductAmount now = (outcome, db')) :
    (outcome = .ok .deducted → ∃ card, FirstCovering db scope studentId now deductAmount card ∧
      Booked db db' card
        (checkInTransaction studentId scheduleId card.id deductAmount card.remainingLessons) 0) ∧
      (outcome ≠ .ok .deducted → SameLedger db db') := by
  rcases deductAlone_cases failure db scope studentId scheduleId now hamount with
    ⟨card, work, hfirst, hdeducted, hbooked⟩ | ⟨_, hne, houtcome⟩
  · cases hdeducted.symm.trans h
    exact ⟨fun _ => ⟨card, hfirst, hbooked⟩, fun hne => absurd rfl hne⟩
  · cases houtcome.symm.trans h
    exact ⟨fun hdeducted => absurd hdeducted hne, fun _ => .refl db⟩

/-- The student's card, and one of a tenant that ends later. -/
def twoCardsDb : LessonDb :=
  { emptyDb with
    cards := ⟨[tenLessons, { tenLessons with id := "m2", tenantId := some "t1", validTo := 7200000 }],
      by decide⟩
    opening := fun _ => 10 }

/-- A caller of `t1` charges the card of `t1`; where the insert fails on a unique key, both
cards keep their lessons. -/
theorem deduction_exact_twoCards :
    (∃ card, FirstCovering twoCardsDb (some (.eq "t1")) "st1" 0 2 card ∧
      Booked twoCardsDb
        (deductAlone (fun _ => none) twoCardsDb (some (.eq "t1")) "st1" "s1" 2 0).2 card
        (checkInTransaction "st1" "s1" card.id 2 card.remainingLessons) 0) ∧
      SameLedger twoCardsDb
        (deductAlone (fun _ => some .uniqueViolation) twoCardsDb (some (.eq "t1")) "st1" "s1" 2 0).2 := by
  have hdeducted : (deductAlone (fun _ => none) twoCardsDb (some (.eq "t1")) "st1" "s1" 2 0).1 =
      .ok .deducted := by
    decide +kernel
  have hthrown :
      (deductAlone (fun _ => some .uniqueViolation) twoCardsDb (some (.eq "t1")) "st1" "s1" 2 0).1 ≠
        .ok .deducted := by
    decide +kernel
  constructor
  · exact (deduction_exact (fun _ => none) twoCardsDb (some (.eq "t1")) "st1" "s1" 0 (by decide)
      rfl).1 hdeducted
  · exact (deduction_exact (fun _ => some .uniqueViolation) twoCardsDb (some (.eq "t1")) "st1" "s1" 0
      (by decide) rfl).2 hthrown

/-- The card that ends first is not the one a caller of `t1` charges. -/
theorem later_card_charged :
    ¬ ∀ (failure : LessonTransaction → Option DbError) (db : LessonDb)
      (scope : Option TenantWhereClause) (studentId scheduleId : String) (now deductAmount : Int),
      0 < deductAmount →
      (deductAlone failure db scope studentId scheduleId deductAmount now).1 = .ok .deducted →
      ∃ card, FirstCovering db none studentId now deductAmount card ∧
        Booked db (deductAlone failure db scope studentId scheduleId deductAmount now).2 card
          (checkInTransaction studentId scheduleId card.id deductAmount card.remainingLessons) 0 := by
  intro h
  obtain ⟨card, hfirst, hbooked⟩ :=
    h (fun _ => none) twoCardsDb (some (.eq "t1")) "st1" "s1" 0 1 (by decide) (by decide +kernel)
  have hledger : (deductAlone (fun _ => none) twoCardsDb (some (.eq "t1")) "st1" "s1" 1
      0).2.transactions.rows.map LessonTransaction.membershipId = ["m2"] := by
    decide +kernel
  rw [hbooked.transactions] at hledger
  have hid : card.id = "m2" := List.singleton_inj.mp hledger
  have hmem : card ∈ twoCardsDb.cards.rows := hfirst.mem
  have hearlier := hfirst.earliest tenLessons List.mem_cons_self (by decide) (by decide) (by decide)
  obtain rfl | rfl : card = tenLessons ∨
      card = { tenLessons with id := "m2", tenantId := some "t1", validTo := 7200000 } := by
    simpa [twoCardsDb] using hmem
  · exact absurd hid (by decide)
  · exact absurd hearlier (by decide)

end MibServer.Lessons
