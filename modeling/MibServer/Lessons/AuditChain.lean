import MibServer.Lessons.Conservation

/-!
The balances recorded in the ledger: `beforeRemaining` and `afterRemaining` of each row
are the card's balance around the change the row books.

A check-in reads the balance under its serializable transaction's locks. An adjustment
reads it from a snapshot and guards its update by the version, which a check-in does not
raise: a check-in that commits in between leaves the version, and the adjustment then
records a balance the card no longer has.
-/

namespace MibServer.Lessons

open MibServer.Lib MibServer.Prisma

/-- Each row of `rows`, booked in this order from `db₀`, records the balance of its
card just before it and just after it. -/
def Audited (db₀ : LessonDb) (rows : List LessonTransaction) : Prop :=
  ∀ pre row post, rows = pre ++ row :: post →
    ∃ card₀ ∈ db₀.cards.rows, card₀.id = row.membershipId ∧
      row.beforeRemaining = card₀.remainingLessons + ledgerSum pre row.membershipId ∧
      row.afterRemaining = row.beforeRemaining + row.delta

theorem audited_nil (db₀ : LessonDb) : Audited db₀ [] := by
  intro pre row post h
  simp at h

theorem Audited.snoc {db₀ db : LessonDb} {rows : List LessonTransaction} {card : MembershipCard}
    {row : LessonTransaction} (h : Audited db₀ rows) (hextends : Extends db₀ rows db)
    (hcard : card ∈ db.cards.rows) (hid : row.membershipId = card.id)
    (hbefore : row.beforeRemaining = card.remainingLessons)
    (hafter : row.afterRemaining = row.beforeRemaining + row.delta) :
    Audited db₀ (rows ++ [row]) := by
  intro pre row' post hsplit
  rcases List.eq_nil_or_concat post with rfl | ⟨post', last, rfl⟩
  · obtain ⟨rfl, hrow⟩ := List.append_inj' hsplit rfl
    cases hrow
    obtain ⟨card₀, hcard₀, hid₀, hbalance⟩ := hextends.balance card hcard
    exact ⟨card₀, hcard₀, hid₀.trans hid.symm, by rw [hbefore, hbalance, hid], hafter⟩
  · have hsplit' : rows ++ [row] = (pre ++ row' :: post') ++ [last] := by simpa using hsplit
    exact h pre row' post' (List.append_inj' hsplit' rfl).1

/-- Of two neighbouring rows of a card, the later one starts where the earlier one
ended. -/
theorem Audited.linked {db₀ : LessonDb} {rows pre mid post : List LessonTransaction}
    {a b : LessonTransaction} (h : Audited db₀ rows) (hrows : rows = pre ++ a :: (mid ++ b :: post))
    (hcard : b.membershipId = a.membershipId) (hmid : ∀ t ∈ mid, t.membershipId ≠ a.membershipId) :
    b.beforeRemaining = a.afterRemaining := by
  obtain ⟨cardA, hcardA, hidA, hbeforeA, hafterA⟩ := h pre a _ hrows
  obtain ⟨cardB, hcardB, hidB, hbeforeB, -⟩ := h (pre ++ a :: mid) b post (by simp [hrows])
  have hsame : cardB = cardA := db₀.card_eq hcardB hcardA (by rw [hidA, hidB, hcard])
  have hsum : ledgerSum (pre ++ a :: mid) a.membershipId =
      ledgerSum pre a.membershipId + a.delta := by
    rw [← List.singleton_append, ledgerSum_append, ledgerSum_append, ledgerSum_singleton, if_pos rfl,
      ledgerSum_eq_zero hmid, Int.add_zero]
  rw [hbeforeB, hafterA, hbeforeA, hsame, hcard, hsum, Int.add_assoc]

/-! ### The run condition -/

/-- An adjustment about to commit has seen the balance its card has now, if the card
still has the version it has seen. -/
def SeesBalance (th : LessonThread) (db : LessonDb) : Prop :=
  match th.call, th.prog with
  | .adjustLessons _ id _, .commit _ =>
      ∀ seen ∈ (th.snapshot db).cards.rows, ∀ card ∈ db.cards.rows, seen.id = id → card.id = id →
        seen.version = card.version → seen.remainingLessons = card.remainingLessons
  | _, _ => True

instance (th : LessonThread) (db : LessonDb) : Decidable (SeesBalance th db) := by
  unfold SeesBalance
  split <;> infer_instance

/-- The run condition: check-ins and adjustments, where no check-in charges a card
between the read and the commit of an adjustment of it. -/
def AdjustSeesBalance (w : LessonWorld) : LessonAction → Prop
  | .spawn c => c.books = true
  | .run t _ => ∀ th ∈ w.threads[t]?, SeesBalance th w.committed
  | .abort _ => True

instance (w : LessonWorld) : ∀ a, Decidable (AdjustSeesBalance w a)
  | .spawn c => inferInstanceAs (Decidable (c.books = true))
  | .run t _ => inferInstanceAs (Decidable (∀ th ∈ w.threads[t]?, _))
  | .abort _ => .isTrue trivial

/-- What runs of check-ins and adjustments keep. -/
def Recorded (db₀ : LessonDb) (w : LessonWorld) : Prop :=
  ∃ rows, Extends db₀ rows w.committed ∧ Audited db₀ rows

theorem Recorded.step {outside : Geofence} {db₀ : LessonDb} {w w' : LessonWorld} {a : LessonAction}
    (h : Recorded db₀ w) (hok : AdjustSeesBalance w a)
    (heffect : World.Effect (lessonSystem outside) (ledgerContract fun c => c.books = true) w a w') :
    Recorded db₀ w' := by
  obtain ⟨rows, hextends, haudited⟩ := h
  cases heffect with
  | quiet committed _ => exact ⟨rows, committed ▸ hextends, haudited⟩
  | commit t env th rest action found books _ commits =>
      have hbooks : th.call.books = true := books
      cases commits.post with
      | unchanged same _ => exact ⟨rows, hextends.sameLedger same, haudited⟩
      | checkedIn _ dto card deductAmount _ _ booked _ =>
          exact ⟨_, hextends.booked booked, haudited.snoc hextends booked.card_mem
            booked.membershipId rfl (Int.sub_eq_add_neg ..)⟩
      | adjusted ambient id dto card seen uuid call commit seen_mem seen_id version _ booked _ =>
          obtain ⟨p, hcommit⟩ := commit
          have hcall : th.call = .adjustLessons ambient id dto := call
          have hprog : th.prog = .commit p := hcommit
          subst action
          have hsees := hok th found
          rw [SeesBalance, hcall, hprog] at hsees
          have hbalance := hsees seen seen_mem card booked.card_mem seen_id
            booked.membershipId.symm version
          exact ⟨_, hextends.booked booked, haudited.snoc hextends booked.card_mem
            booked.membershipId hbalance rfl⟩
      | created _ _ _ call =>
          have hcall : th.call = .create _ _ := call
          simp [hcall, LessonCall.books] at hbooks
      | patched _ _ _ _ call =>
          have hcall : th.call = .update _ _ _ := call
          simp [hcall, LessonCall.books] at hbooks

/-- **The audit chain**: in every run in which adjustments commit on the balance they
have seen, the rows committed record the true balances, and each starts where the row
before it on its card ended. -/
theorem audited_of_adjustSeesBalance (outside : Geofence) (db₀ : LessonDb) {w : LessonWorld}
    (h : ((lessonSystem outside).machine (· = db₀)).ReachableBy AdjustSeesBalance w) :
    ∃ rows, Extends db₀ rows w.committed ∧ Audited db₀ rows ∧
      ∀ pre a mid b post, rows = pre ++ a :: (mid ++ b :: post) →
        b.membershipId = a.membershipId → (∀ t ∈ mid, t.membershipId ≠ a.membershipId) →
        b.beforeRemaining = a.afterRemaining := by
  have hadmits : ∀ (w : LessonWorld) a, AdjustSeesBalance w a →
      (ledgerContract fun c => c.books = true).Admits a := by
    intro w a h
    cases a with
    | spawn c => exact h
    | run _ _ | abort _ => trivial
  obtain ⟨-, rows, hextends, haudited⟩ := System.reachable_contract (J := Recorded db₀)
    (fun c _ => (program_safe outside c).1) (fun _ _ => trivial) hadmits h
    (by
      rintro s rfl
      exact ⟨[], .refl s, audited_nil s⟩)
    (fun w w' a _ hw hok heffect => hw.step hok heffect)
  exact ⟨rows, hextends, haudited, fun pre a mid b post hrows hcard hmid =>
    haudited.linked hrows hcard hmid⟩

/-! ### An adjustment around a check-in -/

def giveFive : LessonCall := .adjustLessons administrator "m1" { delta := 5, reason := "gift" }

def attend : LessonCall :=
  .checkIn administrator { studentId := "st1", scheduleId := "s1", method := .manual }

/-- The check-in runs between the read of the adjustment and its update. -/
def adjustAroundCheckIn : List LessonAction :=
  [.spawn giveFive, .spawn attend] ++ steps 0 2 ++ steps 1 12 ++ steps 0 5

/-- The adjustment starts when the check-in has committed. -/
def adjustAfterCheckIn : List LessonAction :=
  [.spawn giveFive, .spawn attend] ++ steps 1 12 ++ steps 0 7

/-- The rows of a run, as delta, balance before and balance after. -/
def recordedBalances (run : List LessonAction) : Option (List (Int × Int × Int)) :=
  (((lessonSystem nowhere).machine (· = oneCardDb)).exec { committed := oneCardDb } run).map fun w =>
    w.committed.transactions.rows.map fun r => (r.delta, r.beforeRemaining, r.afterRemaining)

theorem audited_adjust_after_check_in :
    ∃ w, ((lessonSystem nowhere).machine (· = oneCardDb)).exec { committed := oneCardDb }
        adjustAfterCheckIn = some w ∧
      (w.committed.transactions.rows.map fun r => (r.delta, r.beforeRemaining, r.afterRemaining)) =
        [(-1, 10, 9), (5, 9, 14)] ∧
      ∃ rows, Extends oneCardDb rows w.committed ∧ Audited oneCardDb rows := by
  have hresult : recordedBalances adjustAfterCheckIn = some [(-1, 10, 9), (5, 9, 14)] := by
    decide +kernel
  obtain ⟨w, hexec, hrows⟩ := Option.map_eq_some_iff.mp hresult
  obtain ⟨rows, hextends, haudited, -⟩ := audited_of_adjustSeesBalance nowhere oneCardDb
    (Machine.reachableBy_exec (Machine.reachableBy_init (System.machine_init rfl))
      (by decide +kernel) hexec)
  exact ⟨w, hexec, hrows, rows, hextends, haudited⟩

/-- The check-in takes the balance from 10 to 9, and the adjustment after it records 10
to 15. -/
theorem stale_balance_recorded :
    ¬ ∀ (outside : Geofence) (db₀ : LessonDb) (w : LessonWorld),
      ((lessonSystem outside).machine (· = db₀)).ReachableBy Booking w →
      ∃ rows, Extends db₀ rows w.committed ∧ Audited db₀ rows := by
  intro h
  have hresult : (((lessonSystem nowhere).machine (· = oneCardDb)).exec { committed := oneCardDb }
      adjustAroundCheckIn).map (fun w => w.committed.transactions.rows) =
        some [checkInTransaction "st1" "s1" "m1" 1 10,
          adjustTransaction "m1" { delta := 5, reason := "gift" } "st1" "" 10] := by
    decide +kernel
  obtain ⟨w, hexec, hrows⟩ := Option.map_eq_some_iff.mp hresult
  obtain ⟨rows, hextends, haudited⟩ := h nowhere oneCardDb w
    (Machine.reachableBy_exec (Machine.reachableBy_init (System.machine_init rfl))
      (by decide +kernel) hexec)
  rw [hextends.transactions] at hrows
  have heq : rows = [checkInTransaction "st1" "s1" "m1" 1 10,
      adjustTransaction "m1" { delta := 5, reason := "gift" } "st1" "" 10] := hrows
  obtain ⟨card₀, hcard₀, -, hbefore, -⟩ := haudited [_] _ [] heq
  rw [List.mem_singleton.mp hcard₀] at hbefore
  exact absurd hbefore (by decide +kernel)

end MibServer.Lessons
