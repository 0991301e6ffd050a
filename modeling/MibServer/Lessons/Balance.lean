import MibServer.Lessons.Conservation

/-!
No balance is ever negative.

The three ways to change a balance keep it so by different means: a decrement is guarded
by the `where` it runs under, an increment is positive, and a balance that is written
outright comes from a DTO that has been validated.
-/

namespace MibServer.Lessons

open MibServer.Lib MibServer.Prisma

def Nonnegative (db : LessonDb) : Prop :=
  ∀ card ∈ db.cards.rows, 0 ≤ card.remainingLessons

instance (db : LessonDb) : Decidable (Nonnegative db) := inferInstanceAs (Decidable (∀ _ ∈ _, _))

/-- A booking takes no more than the card has. -/
theorem Nonnegative.booked {db db' : LessonDb} {card : MembershipCard} {row : LessonTransaction}
    {versionIncrement : Int} (h : Nonnegative db) (hbooked : Booked db db' card row versionIncrement)
    (hbalance : 0 ≤ card.remainingLessons + row.delta) : Nonnegative db' := by
  intro c' hc'
  rw [hbooked.cards] at hc'
  obtain ⟨c, hc, rfl⟩ := List.mem_map.mp hc'
  split
  · rename_i hid
    rw [db.card_eq hc hbooked.card_mem hid]
    exact hbalance
  · exact h c hc

theorem Nonnegative.created {db db' : LessonDb} {card : MembershipCard} (h : Nonnegative db)
    (hcards : db'.cards.rows = db.cards.rows ++ [card]) (hbalance : 0 ≤ card.remainingLessons) :
    Nonnegative db' := by
  intro c hc
  rw [hcards] at hc
  rcases List.mem_append.mp hc with hold | hnew
  · exact h c hold
  · rw [List.mem_singleton.mp hnew]
    exact hbalance

theorem Nonnegative.patched {db db' : LessonDb} {id : String} {data : MembershipCardData}
    (h : Nonnegative db)
    (hcards : db'.cards.rows = db.cards.rows.map fun c => if c.id = id then data.apply c else c)
    (hdata : ∀ n ∈ data.remainingLessons, 0 ≤ n) : Nonnegative db' := by
  intro c' hc'
  rw [hcards] at hc'
  obtain ⟨c, hc, rfl⟩ := List.mem_map.mp hc'
  split
  · cases hn : data.remainingLessons with
    | none => simpa [MembershipCardData.apply, hn] using h c hc
    | some n => simpa [MembershipCardData.apply, hn] using hdata n hn
  · exact h c hc

/-- What the validators accept as a balance is not negative. -/
theorem UpdateMembershipDto.data_nonneg (dto : UpdateMembershipDto) (validFrom validTo : Option Int) :
    ∀ n ∈ (dto.data validFrom validTo).remainingLessons, 0 ≤ n := by
  intro n hn
  obtain ⟨m, -, rfl⟩ := Option.map_eq_some_iff.mp hn
  exact Int.natCast_nonneg m

/-- Every commit of the four calls. -/
theorem LedgerChange.nonnegative {m : LessonCommit} (hm : LedgerChange m) (h : Nonnegative m.base) :
    Nonnegative m.work := by
  cases hm with
  | unchanged same _ => exact fun card hcard => h card (same.cards ▸ hcard)
  | checkedIn _ dto card deductAmount _ balance booked _ =>
      refine h.booked booked ?_
      simp only [checkInTransaction]
      omega
  | adjusted _ id dto card seen uuid _ _ _ _ _ balance booked _ =>
      refine h.booked booked ?_
      have hcard := h card booked.card_mem
      simp only [adjustTransaction]
      omega
  | created _ dto card _ balance cards _ _ _ =>
      refine h.created cards ?_
      omega
  | patched _ id dto data _ _ _ patch cards _ _ _ =>
      obtain ⟨validFrom, validTo, rfl⟩ := patch
      exact h.patched cards (dto.data_nonneg validFrom validTo)

/-- **No balance is negative** in any state reached by calls of all four kinds, in any
interleaving and with transactions aborted anywhere. -/
theorem balances_nonnegative (outside : Geofence) {w : LessonWorld}
    (h : ((lessonSystem outside).machine Nonnegative).Reachable w) :
    ∀ card ∈ w.committed.cards.rows, 0 ≤ card.remainingLessons := by
  have hadmits : ∀ (_ : LessonWorld) (a : LessonAction), True →
      (ledgerContract fun _ => True).Admits a := by
    intro _ a _
    cases a <;> trivial
  refine (System.reachable_contract (J := fun w => Nonnegative w.committed)
    (fun c _ => (program_safe outside c).1) (fun _ _ => trivial) hadmits h (fun _ h => h) ?_).2
  intro w w' a _ hw _ heffect
  cases heffect with
  | quiet committed _ => exact committed ▸ hw
  | commit _ _ _ _ _ _ _ _ commits => exact commits.post.nonnegative hw

/-- Two calls that each take six of ten lessons, both past their first read before either
commits. -/
def racingDecrements : List LessonAction :=
  [.spawn (.adjustLessons administrator "m1" { delta := -6, reason := "" }),
    .spawn (.adjustLessons administrator "m1" { delta := -6, reason := "" })] ++
  steps 0 2 ++ steps 1 2 ++ steps 0 5 ++ steps 1 2

theorem racing_decrements_nonnegative :
    ∃ w, ((lessonSystem nowhere).machine Nonnegative).exec { committed := oneCardDb }
        racingDecrements = some w ∧
      w.committed.cards.rows.map MembershipCard.remainingLessons = [4] ∧
      ∀ card ∈ w.committed.cards.rows, 0 ≤ card.remainingLessons := by
  refine ⟨_, (Option.some_get (by decide +kernel)).symm, by decide +kernel, ?_⟩
  exact balances_nonnegative nowhere
    (Machine.reachableBy_exec_get (System.machine_init (by decide)) (Machine.admits_true _ _)
      (by decide +kernel))

end MibServer.Lessons
