import MibServer.Lessons.Contract
import Mathlib.Algebra.Ring.Int.Defs

/-!
Lessons are neither created nor destroyed: the balance of a card moves only together
with its ledger, and a check-in is paid for once.

Check-ins and adjustments book every change (`Extends`). `MembershipsService.update`
spreads its DTO into the row, so a `remainingLessons` it carries is written with no
ledger row; `Conserved`, over all four calls, holds along the runs whose updates leave
the balance as it is.
-/

namespace MibServer.Lessons

open MibServer.Lib MibServer.Prisma MibServer.Tenancy

/-- The sum of the deltas of one card's ledger rows. -/
def ledgerSum (rows : List LessonTransaction) (membershipId : String) : Int :=
  ((rows.filter fun t => t.membershipId == membershipId).map LessonTransaction.delta).sum

theorem ledgerSum_append (rows rows' : List LessonTransaction) (id : String) :
    ledgerSum (rows ++ rows') id = ledgerSum rows id + ledgerSum rows' id := by
  simp [ledgerSum]

theorem ledgerSum_singleton (row : LessonTransaction) (id : String) :
    ledgerSum [row] id = if row.membershipId = id then row.delta else 0 := by
  by_cases h : row.membershipId = id <;> simp [ledgerSum, h]

theorem ledgerSum_eq_zero {rows : List LessonTransaction} {id : String}
    (h : ∀ t ∈ rows, t.membershipId ≠ id) : ledgerSum rows id = 0 := by
  have hnone : rows.filter (fun t => t.membershipId == id) = [] :=
    List.filter_eq_nil_iff.mpr fun t ht => by simpa using h t ht
  rw [ledgerSum, hnone]
  rfl

/-- Every card of a booked state is a card of the state before, its balance moved by
the row booked. -/
theorem Booked.card {db db' : LessonDb} {card c' : MembershipCard} {row : LessonTransaction}
    {versionIncrement : Int} (h : Booked db db' card row versionIncrement)
    (hc' : c' ∈ db'.cards.rows) : ∃ c ∈ db.cards.rows, c.id = c'.id ∧
      c'.remainingLessons = c.remainingLessons + ledgerSum [row] c'.id := by
  rw [h.cards] at hc'
  obtain ⟨c, hc, rfl⟩ := List.mem_map.mp hc'
  refine ⟨c, hc, ?_⟩
  rw [ledgerSum_singleton, h.membershipId]
  by_cases hid : c.id = card.id
  · simp [hid]
  · simp [hid, Ne.symm hid]

/-! ### Check-ins and adjustments -/

/-- `db` comes from `db₀` by booking the ledger rows `rows`, in order. -/
structure Extends (db₀ : LessonDb) (rows : List LessonTransaction) (db : LessonDb) : Prop where
  transactions : db.transactions.rows = db₀.transactions.rows ++ rows
  balance : ∀ card ∈ db.cards.rows, ∃ card₀ ∈ db₀.cards.rows, card₀.id = card.id ∧
    card.remainingLessons = card₀.remainingLessons + ledgerSum rows card.id

theorem Extends.refl (db₀ : LessonDb) : Extends db₀ [] db₀ where
  transactions := (List.append_nil _).symm
  balance card hcard := ⟨card, hcard, rfl, (Int.add_zero _).symm⟩

theorem Extends.sameLedger {db₀ db db' : LessonDb} {rows : List LessonTransaction}
    (h : Extends db₀ rows db) (hsame : SameLedger db db') : Extends db₀ rows db' where
  transactions := hsame.transactions ▸ h.transactions
  balance := hsame.cards ▸ h.balance

theorem Extends.booked {db₀ db db' : LessonDb} {rows : List LessonTransaction}
    {card : MembershipCard} {row : LessonTransaction} {versionIncrement : Int}
    (h : Extends db₀ rows db) (hbooked : Booked db db' card row versionIncrement) :
    Extends db₀ (rows ++ [row]) db' where
  transactions := by rw [hbooked.transactions, h.transactions, List.append_assoc]
  balance c' hc' := by
    obtain ⟨c, hc, hid, hbalance⟩ := hbooked.card hc'
    obtain ⟨card₀, hcard₀, hid₀, hbalance₀⟩ := h.balance c hc
    refine ⟨card₀, hcard₀, hid₀.trans hid, ?_⟩
    rw [hbalance, hbalance₀, ledgerSum_append, hid, Int.add_assoc]

/-- The calls that move a balance through the ledger. -/
def LessonCall.books : LessonCall → Bool
  | .checkIn _ _ | .adjustLessons _ _ _ => true
  | .create _ _ | .update _ _ _ => false

/-- Only such calls arrive. -/
def Booking (_ : LessonWorld) : LessonAction → Prop
  | .spawn c => c.books = true
  | _ => True

instance (w : LessonWorld) : ∀ a, Decidable (Booking w a)
  | .spawn c => inferInstanceAs (Decidable (c.books = true))
  | .run _ _ => .isTrue trivial
  | .abort _ => .isTrue trivial

/-- The check-in a thread has returned `deducted: true` for. -/
def deductedFor (th : LessonThread) : Option CheckInDto :=
  match th.call, th.result? with
  | .checkIn _ dto, some (.attendance _ true) => some dto
  | _, _ => none

theorem deductedFor_some {th : LessonThread} {dto : CheckInDto} (h : deductedFor th = some dto) :
    (∃ ambient, th.call = .checkIn ambient dto) ∧ th.result?.isSome ∧
      isDeducted th.prog = true := by
  unfold deductedFor at h
  split at h
  · rename_i hcall hresult
    cases h
    refine ⟨⟨_, hcall⟩, by simp [hresult], ?_⟩
    obtain ⟨call, prog, tx⟩ := th
    cases tx with
    | some _ => cases hresult
    | none =>
        cases prog with
        | ret r =>
            cases hresult
            rfl
        | _ => cases hresult
  · cases h

def CheckInDto.businessKey (dto : CheckInDto) : String :=
  buildCheckInBusinessKey dto.studentId dto.scheduleId

/-- Thread `t` has returned `deducted: true` for the check-in with this key. -/
def Deducts (w : LessonWorld) (t : Nat) (key : String) : Prop :=
  ∃ th dto, w.threads[t]? = some th ∧ deductedFor th = some dto ∧ dto.businessKey = key

/-- Every deduction returned has its ledger row, and no other call returned one for the
same check-in. -/
structure PaidOnce (w : LessonWorld) : Prop where
  row : ∀ t key, Deducts w t key → ∃ r ∈ w.committed.transactions.rows, r.businessKey = key
  once : ∀ t t' key, Deducts w t key → Deducts w t' key → t = t'

/-- The row just booked has a key of its own. -/
theorem Booked.fresh {db db' : LessonDb} {card : MembershipCard} {row r : LessonTransaction}
    {versionIncrement : Int} (h : Booked db db' card row versionIncrement)
    (hr : r ∈ db.transactions.rows) : r.businessKey ≠ row.businessKey := by
  intro hkey
  have hunique := db'.transactions.unique
  rw [h.transactions] at hunique
  have hnew := (uniqueOn_append_singleton.mp hunique).2.2 (.businessKey row.businessKey)
    (by simp [LessonTransaction.keys])
  exact hnew (List.mem_flatMap.mpr ⟨r, hr, by simp [LessonTransaction.keys, hkey]⟩)

/-- A commit keeps the rows that are there. -/
theorem LedgerChange.mem_transactions {m : LessonCommit} (h : LedgerChange m)
    {r : LessonTransaction} (hr : r ∈ m.base.transactions.rows) : r ∈ m.work.transactions.rows := by
  cases h with
  | unchanged same _ => rwa [same.transactions]
  | checkedIn _ _ _ _ _ _ booked _ =>
      rw [booked.transactions]
      exact List.mem_append_left _ hr
  | adjusted _ _ _ _ _ _ _ _ _ _ _ _ booked _ =>
      rw [booked.transactions]
      exact List.mem_append_left _ hr
  | created _ _ _ _ _ _ transactions _ _ => rwa [transactions]
  | patched _ _ _ _ _ _ _ _ _ transactions _ _ => rwa [transactions]

/-- A commit that returns `deducted: true` has just booked the row of that check-in. -/
theorem LedgerChange.deducted {m : LessonCommit} {ambient : Ambient} {dto : CheckInDto}
    (h : LedgerChange m) (hcall : m.call = .checkIn ambient dto) (hresult : isDeducted m.rest = true) :
    ∃ card row, Booked m.base m.work card row 0 ∧ row.businessKey = dto.businessKey := by
  cases h with
  | unchanged _ result => simp [result] at hresult
  | checkedIn _ dto' card _ call _ booked _ =>
      cases hcall.symm.trans call
      exact ⟨card, _, booked, rfl⟩
  | adjusted _ _ _ _ _ _ call _ _ _ _ _ _ _ => cases hcall.symm.trans call
  | created _ _ _ call _ _ _ _ _ => cases hcall.symm.trans call
  | patched _ _ _ _ call _ _ _ _ _ _ => cases hcall.symm.trans call

section Steps

variable {outside : Geofence} {calls : LessonCall → Prop} {w w' : LessonWorld} {a : LessonAction}

/-- A deduction returned after a step was returned before it, or the step has just
booked it. -/
theorem deducts_step (heffect : World.Effect (lessonSystem outside) (ledgerContract calls) w a w')
    {t : Nat} {key : String} (h : Deducts w' t key) :
    Deducts w t key ∨ ∃ card row, Booked w.committed w'.committed card row 0 ∧
      row.businessKey = key ∧ ∀ u key', u ≠ t → Deducts w' u key' → Deducts w u key' := by
  obtain ⟨th, dto, hth, hdeducted, rfl⟩ := h
  obtain ⟨⟨ambient, hcall⟩, hresult, hprog⟩ := deductedFor_some hdeducted
  cases heffect with
  | quiet _ results =>
      rcases results t th hth hresult with hold | hnew
      · exact Or.inl ⟨th, dto, hold, hdeducted, rfl⟩
      · obtain ⟨_, hgoing⟩ : Going calls th.call (th.call.program outside) :=
          program_safe outside th.call
        have hprog' : th.prog = th.call.program outside := hnew
        rw [← hprog', hprog] at hgoing
        cases hgoing
  | commit u env th₀ rest _ _ _ threads commits =>
      have hother : ∀ u' key', u' ≠ u → Deducts w' u' key' → Deducts w u' key' := by
        rintro u' key' hne ⟨th', dto', hth', hrest⟩
        rw [threads, List.getElem?_set_ne hne.symm] at hth'
        exact ⟨th', dto', hth', hrest⟩
      by_cases hu : t = u
      · subst hu
        rw [threads, List.getElem?_set_self' ] at hth
        obtain ⟨_, _, rfl⟩ := Option.map_eq_some_iff.mp hth
        obtain ⟨card, row, hbooked, hkey⟩ := commits.post.deducted hcall hprog
        exact Or.inr ⟨card, row, hbooked, hkey, hother⟩
      · exact Or.inl (hother t _ hu ⟨th, dto, hth, hdeducted, rfl⟩)

/-- A step keeps the ledger rows. -/
theorem transactions_step
    (heffect : World.Effect (lessonSystem outside) (ledgerContract calls) w a w')
    {r : LessonTransaction} (hr : r ∈ w.committed.transactions.rows) :
    r ∈ w'.committed.transactions.rows := by
  cases heffect with
  | quiet committed _ => rwa [committed]
  | commit _ _ _ _ _ _ _ _ commits => exact commits.post.mem_transactions hr

theorem PaidOnce.step (h : PaidOnce w)
    (heffect : World.Effect (lessonSystem outside) (ledgerContract calls) w a w') :
    PaidOnce w' where
  row t key ht := by
    rcases deducts_step heffect ht with hold | ⟨card, row, hbooked, hkey, _⟩
    · obtain ⟨r, hr, hkey⟩ := h.row t key hold
      exact ⟨r, transactions_step heffect hr, hkey⟩
    · exact ⟨row, by simp [hbooked.transactions], hkey⟩
  once t t' key ht ht' := by
    rcases deducts_step heffect ht with hold | ⟨card, row, hbooked, hkey, hother⟩
    · rcases deducts_step heffect ht' with hold' | ⟨card, row, hbooked, hkey, hother⟩
      · exact h.once t t' key hold hold'
      · obtain ⟨r, hr, hrkey⟩ := h.row t key hold
        exact absurd (hrkey.trans hkey.symm) (hbooked.fresh hr)
    · by_contra hne
      obtain ⟨r, hr, hrkey⟩ := h.row t' key (hother t' key (Ne.symm hne) ht')
      exact hbooked.fresh hr (hrkey.trans hkey.symm)

/-- A step of check-ins and adjustments books at most one row. -/
theorem Extends.step {db₀ : LessonDb} {rows : List LessonTransaction}
    (h : Extends db₀ rows w.committed)
    (heffect : World.Effect (lessonSystem outside) (ledgerContract fun c => c.books = true) w a w') :
    ∃ rows', Extends db₀ rows' w'.committed := by
  cases heffect with
  | quiet committed _ => exact ⟨rows, committed ▸ h⟩
  | commit _ _ th _ _ _ books _ commits =>
      have hbooks : th.call.books = true := books
      cases commits.post with
      | unchanged same _ => exact ⟨rows, h.sameLedger same⟩
      | checkedIn _ _ _ _ _ _ booked _ => exact ⟨_, h.booked booked⟩
      | adjusted _ _ _ _ _ _ _ _ _ _ _ _ booked _ => exact ⟨_, h.booked booked⟩
      | created _ _ _ call =>
          have hcall : th.call = .create _ _ := call
          simp [hcall, LessonCall.books] at hbooks
      | patched _ _ _ _ call =>
          have hcall : th.call = .update _ _ _ := call
          simp [hcall, LessonCall.books] at hbooks

end Steps

/-- **Lessons are conserved and paid for once**: in every run of check-ins and
adjustments from any tables, a check-in has at most one ledger row and at most one call
that returned `deducted: true`, and every card's balance is its initial balance plus
the deltas of its rows committed in the run. -/
theorem deducted_once_and_conserved (outside : Geofence) (db₀ : LessonDb) {w : LessonWorld}
    (h : ((lessonSystem outside).machine (· = db₀)).ReachableBy Booking w) :
    (∀ studentId scheduleId, (w.committed.transactions.rows.countP fun r =>
        r.businessKey == buildCheckInBusinessKey studentId scheduleId) ≤ 1) ∧
      (∀ (t t' : Nat) (th th' : LessonThread) (dto dto' : CheckInDto), w.threads[t]? = some th →
        w.threads[t']? = some th' → deductedFor th = some dto → deductedFor th' = some dto' →
        dto.studentId = dto'.studentId → dto.scheduleId = dto'.scheduleId → t = t') ∧
      ∃ rows, w.committed.transactions.rows = db₀.transactions.rows ++ rows ∧
        ∀ card ∈ w.committed.cards.rows, ∃ card₀ ∈ db₀.cards.rows, card₀.id = card.id ∧
          card.remainingLessons = card₀.remainingLessons + ledgerSum rows card.id := by
  have hadmits : ∀ (w : LessonWorld) a, Booking w a →
      (ledgerContract fun c => c.books = true).Admits a := by
    intro w a h
    cases a <;> exact h
  obtain ⟨-, hpaid, rows, hextends⟩ := System.reachable_contract
    (J := fun w => PaidOnce w ∧ ∃ rows, Extends db₀ rows w.committed)
    (fun c _ => (program_safe outside c).1) (fun _ _ => trivial) hadmits h
    (by
      rintro s rfl
      refine ⟨⟨?_, ?_⟩, [], .refl s⟩
      · rintro t key ⟨_, _, hth, _⟩
        simp at hth
      · rintro t t' key ⟨_, _, hth, _⟩
        simp at hth)
    (by
      rintro w w' a - ⟨hpaid, rows, hextends⟩ - heffect
      exact ⟨hpaid.step heffect, hextends.step heffect⟩)
  refine ⟨fun studentId scheduleId => ?_, ?_, rows, hextends.transactions, hextends.balance⟩
  · refine w.committed.transactions.unique.countP_le_one
      (k := .businessKey (buildCheckInBusinessKey studentId scheduleId)) fun r _ hr => ?_
    simp [LessonTransaction.keys, ← beq_iff_eq.mp hr]
  · intro t t' th th' dto dto' hth hth' hdto hdto' hstudent hschedule
    refine hpaid.once t t' dto.businessKey ⟨th, dto, hth, hdto, rfl⟩ ⟨th', dto', hth', hdto', ?_⟩
    simp [CheckInDto.businessKey, hstudent, hschedule]

/-- Two calls of one check-in, both past their checks before either transaction. -/
def racingCheckIns : List LessonAction :=
  [.spawn (.checkIn administrator ⟨"st1", "s1", .manual, none, none, none⟩),
    .spawn (.checkIn administrator ⟨"st1", "s1", .manual, none, none, none⟩)] ++
  steps 0 4 ++ steps 1 4 ++ steps 0 8 ++ steps 1 4

theorem racing_check_ins_deduct_once :
    ∃ w, ((lessonSystem nowhere).machine (· = oneCardDb)).exec { committed := oneCardDb }
        racingCheckIns = some w ∧
      w.threads.map (fun th => (deductedFor th).isSome) = [true, false] ∧
      (w.committed.transactions.rows.countP fun r =>
        r.businessKey == buildCheckInBusinessKey "st1" "s1") ≤ 1 := by
  have hresult : (((lessonSystem nowhere).machine (· = oneCardDb)).exec { committed := oneCardDb }
      racingCheckIns).map (fun w => w.threads.map fun th => (deductedFor th).isSome) =
        some [true, false] := by
    decide +kernel
  obtain ⟨w, hexec, hthreads⟩ := Option.map_eq_some_iff.mp hresult
  refine ⟨w, hexec, hthreads, ?_⟩
  exact (deducted_once_and_conserved nowhere oneCardDb (Machine.reachableBy_exec
    (Machine.reachableBy_init (System.machine_init rfl)) (by decide +kernel) hexec)).1 "st1" "s1"

/-! ### All four calls -/

/-- Every ledger row belongs to a card, and every balance is the balance the card was
created with plus its ledger. -/
structure Conserved (db : LessonDb) : Prop where
  owned : ∀ t ∈ db.transactions.rows, ∃ card ∈ db.cards.rows, card.id = t.membershipId
  balance : ∀ card ∈ db.cards.rows,
    card.remainingLessons = db.opening card.id + ledgerSum db.transactions.rows card.id

theorem Conserved.sameLedger {db db' : LessonDb} (h : Conserved db) (hsame : SameLedger db db') :
    Conserved db' where
  owned := hsame.cards ▸ hsame.transactions ▸ h.owned
  balance := hsame.cards ▸ hsame.transactions ▸ hsame.opening ▸ h.balance

theorem Conserved.booked {db db' : LessonDb} {card : MembershipCard} {row : LessonTransaction}
    {versionIncrement : Int} (h : Conserved db) (hbooked : Booked db db' card row versionIncrement) :
    Conserved db' where
  owned t ht := by
    have hkept : ∀ c ∈ db.cards.rows, ∃ c' ∈ db'.cards.rows, c'.id = c.id := by
      intro c hc
      rw [hbooked.cards]
      refine ⟨_, List.mem_map_of_mem hc, ?_⟩
      split <;> rfl
    rw [hbooked.transactions] at ht
    rcases List.mem_append.mp ht with hold | hnew
    · obtain ⟨c, hc, hid⟩ := h.owned t hold
      obtain ⟨c', hc', hid'⟩ := hkept c hc
      exact ⟨c', hc', hid'.trans hid⟩
    · rw [List.mem_singleton.mp hnew]
      obtain ⟨c', hc', hid'⟩ := hkept card hbooked.card_mem
      exact ⟨c', hc', hid'.trans hbooked.membershipId.symm⟩
  balance c' hc' := by
    obtain ⟨c, hc, hid, hbalance⟩ := hbooked.card hc'
    rw [hbalance, h.balance c hc, hbooked.opening, hbooked.transactions, ledgerSum_append, hid,
      Int.add_assoc]

/-- A new card has an id of its own, so no ledger row is its. -/
theorem Conserved.created {db db' : LessonDb} {card : MembershipCard} (h : Conserved db)
    (hcards : db'.cards.rows = db.cards.rows ++ [card])
    (htransactions : db'.transactions = db.transactions)
    (hopening : db'.opening = Function.update db.opening card.id card.remainingLessons) :
    Conserved db' := by
  have hnew : ∀ c ∈ db.cards.rows, c.id ≠ card.id := by
    intro c hc hid
    have hunique := db'.cards.unique
    rw [hcards] at hunique
    have hfresh := (uniqueOn_append_singleton.mp hunique).2.2 card.id (by simp [MembershipCard.keys])
    exact hfresh (List.mem_flatMap.mpr ⟨c, hc, by simp [MembershipCard.keys, hid]⟩)
  refine ⟨fun t ht => ?_, fun c hc => ?_⟩
  · rw [htransactions] at ht
    obtain ⟨c, hc, hid⟩ := h.owned t ht
    exact ⟨c, by simp [hcards, hc], hid⟩
  · rw [htransactions, hopening]
    rw [hcards] at hc
    rcases List.mem_append.mp hc with hold | hlast
    · rw [Function.update_of_ne (hnew c hold), h.balance c hold]
    · rw [List.mem_singleton.mp hlast, Function.update_self, ledgerSum_eq_zero, Int.add_zero]
      intro t ht hid
      obtain ⟨c₀, hc₀, hid₀⟩ := h.owned t ht
      exact hnew c₀ hc₀ (hid₀.trans hid)

/-- An update that leaves the balance as it is. -/
theorem Conserved.patched {db db' : LessonDb} {id : String} {data : MembershipCardData}
    (h : Conserved db)
    (hcards : db'.cards.rows = db.cards.rows.map fun c => if c.id = id then data.apply c else c)
    (htransactions : db'.transactions = db.transactions) (hopening : db'.opening = db.opening)
    (hkeeps : ∀ n ∈ data.remainingLessons, ∀ c ∈ db.cards.rows, c.id = id → c.remainingLessons = n) :
    Conserved db' := by
  have himage : ∀ c ∈ db.cards.rows, (if c.id = id then data.apply c else c).id = c.id ∧
      (if c.id = id then data.apply c else c).remainingLessons = c.remainingLessons := by
    intro c hc
    split
    · rename_i hid
      refine ⟨rfl, ?_⟩
      cases hn : data.remainingLessons with
      | none => simp [MembershipCardData.apply, hn]
      | some n => simp [MembershipCardData.apply, hn, hkeeps n hn c hc hid]
    · exact ⟨rfl, rfl⟩
  refine ⟨fun t ht => ?_, fun c' hc' => ?_⟩
  · rw [htransactions] at ht
    obtain ⟨c, hc, hid⟩ := h.owned t ht
    refine ⟨_, hcards ▸ List.mem_map_of_mem hc, (himage c hc).1.trans hid⟩
  · rw [hcards] at hc'
    obtain ⟨c, hc, rfl⟩ := List.mem_map.mp hc'
    rw [(himage c hc).1, (himage c hc).2, htransactions, hopening]
    exact h.balance c hc

/-- An update of a card leaves its balance out, or gives the balance the card has; Prisma
refuses one with a tenant clause. -/
def KeepsBalance (db : LessonDb) : LessonProg LessonResult → Prop
  | .stmt (.write (.updateCard id none data)) _ =>
      ∀ n ∈ data.remainingLessons, ∀ card ∈ db.cards.rows, card.id = id → card.remainingLessons = n
  | _ => True

instance (db : LessonDb) (p : LessonProg LessonResult) : Decidable (KeepsBalance db p) :=
  match p with
  | .stmt (.write (.updateCard _ none data)) _ =>
      inferInstanceAs (Decidable (∀ n ∈ data.remainingLessons, _))
  | .stmt (.write (.updateCard _ (some _) _)) _
  | .stmt (.write (.createCard _)) _ | .stmt (.write (.updateManyCards _)) _
  | .stmt (.write (.createTransaction _)) _ | .stmt (.write (.upsertAttendance _)) _
  | .stmt (.read _) _ | .stmt .now _ | .stmt .random _
  | .ret _ | .throw _ | .start _ _ | .commit _ => .isTrue trivial

/-- The run condition: whenever a card is updated, its balance is left as it is at that
moment. -/
def UpdateKeepsBalance (w : LessonWorld) : LessonAction → Prop
  | .run t _ => ∀ th ∈ w.threads[t]?, KeepsBalance w.committed th.prog
  | .spawn _ => True
  | .abort _ => True

instance (w : LessonWorld) : ∀ a, Decidable (UpdateKeepsBalance w a)
  | .run t _ => inferInstanceAs (Decidable (∀ th ∈ w.threads[t]?, _))
  | .spawn _ => .isTrue trivial
  | .abort _ => .isTrue trivial

theorem Conserved.step {outside : Geofence} {w w' : LessonWorld} {a : LessonAction}
    (h : Conserved w.committed) (hok : UpdateKeepsBalance w a)
    (heffect : World.Effect (lessonSystem outside) (ledgerContract fun _ => True) w a w') :
    Conserved w'.committed := by
  cases heffect with
  | quiet committed _ => exact committed ▸ h
  | commit t env th rest action found _ _ commits =>
      cases commits.post with
      | unchanged same _ => exact h.sameLedger same
      | checkedIn _ _ _ _ _ _ booked _ => exact h.booked booked
      | adjusted _ _ _ _ _ _ _ _ _ _ _ _ booked _ => exact h.booked booked
      | created _ _ _ _ _ cards transactions opening _ => exact h.created cards transactions opening
      | patched _ id dto data _ _ statement _ cards transactions opening _ =>
          refine h.patched cards transactions opening ?_
          obtain ⟨k, hstatement⟩ := statement
          have hprog : th.prog = .stmt (.write (.updateCard id none data)) k := hstatement
          subst action
          have hthread := hok th found
          rw [hprog] at hthread
          exact hthread

/-- **Every balance change has a ledger row**, in every state reached by runs of all
four calls whose updates leave the balance of their card as it is. -/
theorem conserved_of_updateKeepsBalance (outside : Geofence) {w : LessonWorld}
    (h : ((lessonSystem outside).machine Conserved).ReachableBy UpdateKeepsBalance w) :
    Conserved w.committed := by
  have hadmits : ∀ (w : LessonWorld) a, UpdateKeepsBalance w a →
      (ledgerContract fun _ => True).Admits a := by
    intro w a _
    cases a <;> trivial
  exact (System.reachable_contract (J := fun w => Conserved w.committed)
    (fun c _ => (program_safe outside c).1) (fun _ _ => trivial) hadmits h (fun _ h => h)
    (fun w w' a _ hw hok heffect => hw.step hok heffect)).2

theorem conserved_emptyDb : Conserved emptyDb where
  owned _ h := by cases h
  balance _ h := by cases h

/-- A card of ten lessons is created, and its balance set to `remainingLessons`. -/
def createThenUpdate (remainingLessons : Nat) : List LessonAction :=
  [.spawn (.create administrator ⟨"st1", "", 10, 10, some 0, some 3600000, none⟩)] ++ steps 0 3 ++
  [.spawn (.update administrator "" { title := some "gold", remainingLessons := some remainingLessons })] ++
  steps 1 2

/-- Setting the balance to what it is passes the run condition. -/
theorem conserved_update_same_balance :
    ∃ w, ((lessonSystem nowhere).machine Conserved).exec { committed := emptyDb }
        (createThenUpdate 10) = some w ∧
      w.committed.cards.rows.map MembershipCard.title = ["gold"] ∧ Conserved w.committed := by
  refine ⟨_, (Option.some_get (by decide +kernel)).symm, by decide +kernel, ?_⟩
  exact conserved_of_updateKeepsBalance nowhere
    (Machine.reachableBy_exec_get (System.machine_init conserved_emptyDb) (by decide +kernel)
      (by decide +kernel))

theorem createThenUpdate_balance :
    (((lessonSystem nowhere).machine Conserved).exec { committed := emptyDb }
        (createThenUpdate 100)).map (fun w => (w.committed.cards.rows.map fun card =>
          (card.remainingLessons, w.committed.opening card.id,
            ledgerSum w.committed.transactions.rows card.id))) = some [(100, 10, 0)] := by
  decide +kernel

/-- An update gives a card of ten lessons a hundred, and the ledger stays empty. -/
theorem unbooked_update_reachable :
    ¬ ∀ (outside : Geofence) (w : LessonWorld),
      ((lessonSystem outside).machine Conserved).Reachable w → Conserved w.committed := by
  intro h
  obtain ⟨w, hexec, hrows⟩ := Option.map_eq_some_iff.mp createThenUpdate_balance
  have hconserved := h nowhere w (Machine.reachableBy_exec
    (Machine.reachableBy_init (System.machine_init conserved_emptyDb)) (Machine.admits_true _ _) hexec)
  obtain ⟨card, hcard, hvalues⟩ := List.mem_map.mp (hrows ▸ List.mem_singleton_self _)
  have hbalance := hconserved.balance card hcard
  simp only [Prod.mk.injEq] at hvalues
  omega

end MibServer.Lessons
