import MibServer.Lessons.Contract
import MibServer.Lib.History

/-!
Adjustments of one card, with their statements interleaved.

An adjustment reads the card from its snapshot and updates the current row at the version it
has read. Where nobody else writes the card, every change of it raises the version, so a card
that still has the version read is the card read (`Precedes`). The calls that return have
then acted one after another, each on the card the one before has left (`Serialized`).
-/

namespace MibServer.Lessons

open MibServer.Lib MibServer.Prisma MibServer.Tenancy

def LessonDb.card? (db : LessonDb) (id : String) : Option MembershipCard :=
  db.cards.rows.find? fun c => c.id == id

/-- The ledger rows of the card. -/
def LessonDb.ledgerOf (db : LessonDb) (id : String) : List LessonTransaction :=
  db.transactions.rows.filter fun t => t.membershipId == id

theorem LessonDb.card_eq_some_iff {db : LessonDb} {id : String} {c : MembershipCard} :
    db.card? id = some c ↔ c ∈ db.cards.rows ∧ c.id = id := by
  constructor
  · intro h
    exact ⟨List.mem_of_find?_eq_some h, by simpa using List.find?_some h⟩
  · rintro ⟨hmem, hid⟩
    cases hfind : db.card? id with
    | none =>
        have hmiss := List.find?_eq_none.mp hfind c hmem
        simp [hid] at hmiss
    | some c' =>
        have hid' : c'.id = id := by simpa using List.find?_some hfind
        rw [db.card_eq (List.mem_of_find?_eq_some hfind) hmem (hid'.trans hid.symm)]

/-! ### The card an adjustment returns -/

/-- The last read of an adjustment sees the row its update has left. -/
theorem adjustLessonsTx_returns {scope : Option TenantWhereClause} {id : String}
    {dto : AdjustLessonsDto} (hdelta : dto.delta ≠ 0) (snapshot base : LessonDb) :
    (adjustLessonsTx scope id dto).Yields lessonClient.engine
      (fun result db' => ∃ after ∈ db'.cards.rows, after.id = id ∧ result = .card after)
      (View.initial .repeatableRead snapshot base) := by
  unfold adjustLessonsTx
  simp only [Prog.bind_eq, Prog.pure_eq]
  refine yields_find ?_
  rw [Client.seen_initial]
  split
  · trivial
  · rename_i seen hfind
    refine yields_applyMembershipLessonDelta hdelta ?_ fun card hmem hid hversion hbalance u huid
      hudelta huversion => ?_
    · rintro (_ | _) <;> trivial
    · refine yields_random fun uuid => ?_
      refine yields_createTransaction (fun _ => trivial) fun transactions hinsert => ?_
      simp only [orRethrow, Prog.ret_bind]
      refine yields_find ?_
      split
      · rename_i updated hupdated
        have hvisible : updated ∈ overlay MembershipCard.id snapshot.cards.rows base.cards.rows
            (base.increment u).cards.rows := List.mem_of_find?_eq_some hupdated
        have hid' : updated.id = id := findCard_id hupdated
        -- The update has raised the version, so the row is its own.
        refine ⟨updated, mem_overlay_own hvisible ⟨u.apply card, ?_, ?_, ?_⟩, hid', rfl⟩
        · exact LessonDb.mem_increment.mpr ⟨card, hmem, by simp [hid, huid]⟩
        · intro hold
          have hsame := base.card_eq hold hmem rfl
          have hraised := congrArg MembershipCard.version hsame
          simp only [CardIncrement.apply, huversion] at hraised
          omega
        · exact hid.trans hid'.symm
      · trivial

/-- What the commit of an adjustment has done, and what the call returns. -/
def AdjustCommit (m : LessonCommit) : Prop :=
  ∀ ambient id dto, m.call = .adjustLessons ambient id dto → Adjusted id dto m.snapshot m.base m.work ∧
    ∃ after ∈ m.work.cards.rows, after.id = id ∧ m.rest = .ret (.card after)

def adjustCommitContract : Contract LessonDb LessonCall (LessonProg LessonResult) :=
  (ledgerContract fun _ => True).withPost AdjustCommit

theorem program_adjustCommit (outside : Geofence) (c : LessonCall) :
    (c.program outside).Safe lessonClient.engine adjustCommitContract c none := by
  have hother : (∀ ambient id dto, c ≠ .adjustLessons ambient id dto) →
      (c.program outside).Safe lessonClient.engine adjustCommitContract c none := by
    intro hne
    refine Prog.Safe.mono (program_safe outside c).1 fun m hcall _ ambient id dto hm => ?_
    exact absurd (hcall.symm.trans hm) (hne ambient id dto)
  cases c with
  | checkIn ambient dto => exact hother fun _ _ _ h => by cases h
  | create ambient dto => exact hother fun _ _ _ h => by cases h
  | update ambient id dto => exact hother fun _ _ _ h => by cases h
  | adjustLessons ambient id dto =>
      simp only [LessonCall.program, adjustLessons]
      split
      · trivial
      · rename_i hdelta
        refine Prog.Safe.transaction fun snapshot base _ _ _ => ?_
        refine ((adjustLessonsTx_yields hdelta snapshot base).and
          (adjustLessonsTx_returns hdelta snapshot base)).mono ?_
        rintro result db' ⟨⟨hadjusted, -⟩, after, hafter, hid, hresult⟩
        refine ⟨trivial, trivial, fun ambient' id' dto' hcall => ?_⟩
        cases hcall
        exact ⟨hadjusted, after, hafter, hid, congrArg Prog.ret hresult⟩

/-! ### One after another -/

/-- An adjustment of the card that has returned: thread, body, the random part of its
business key, and the card it found. -/
structure AdjustDone where
  thread : Nat
  dto : AdjustLessonsDto
  uuid : String
  before : MembershipCard

namespace AdjustDone

/-- The card as it leaves it: `delta` lessons more and the next version. -/
def after (d : AdjustDone) : MembershipCard :=
  { d.before with
    remainingLessons := d.before.remainingLessons + d.dto.delta
    version := d.before.version + 1 }

/-- Its ledger row, with the balances of the two cards. -/
def row (d : AdjustDone) : LessonTransaction :=
  adjustTransaction d.before.id d.dto d.before.studentId d.uuid d.before.remainingLessons

end AdjustDone

/-- Each finds the card the one before has left. -/
def Chained : MembershipCard → List AdjustDone → MembershipCard → Prop
  | c, [], c' => c' = c
  | c, d :: ds, c' => d.before = c ∧ Chained d.after ds c'

theorem Chained.snoc {c c' : MembershipCard} {ds : List AdjustDone} {d : AdjustDone}
    (h : Chained c ds c') (hd : d.before = c') : Chained c (ds ++ [d]) d.after := by
  induction ds generalizing c with
  | nil =>
      obtain rfl : c' = c := h
      exact ⟨hd, rfl⟩
  | cons d' ds ih => exact ⟨h.1, ih h.2⟩

/-- The versions go up along the chain. -/
theorem Chained.version_lt {c c' : MembershipCard} {ds : List AdjustDone} (h : Chained c ds c') :
    (∀ d ∈ ds, c.version < d.after.version) ∧
      ds.Pairwise fun d d' => d.after.version < d'.after.version := by
  induction ds generalizing c with
  | nil => exact ⟨by simp, List.Pairwise.nil⟩
  | cons d ds ih =>
      obtain ⟨rfl, hrest⟩ := h
      obtain ⟨hlater, hpairs⟩ := ih hrest
      have hraised : d.before.version < d.after.version := Int.lt_succ d.before.version
      refine ⟨fun d' hd' => ?_, List.pairwise_cons.mpr ⟨hlater, hpairs⟩⟩
      rcases List.mem_cons.mp hd' with rfl | hd'
      · exact hraised
      · exact hraised.trans (hlater d' hd')

/-- The successful calls of the card have acted in the order of `done`, on nothing else but
the card and its ledger, which they have brought from `db₀` to where they are. -/
structure Serialized (db₀ : LessonDb) (id : String) (w : LessonWorld) (done : List AdjustDone) :
    Prop where
  chained : ∃ c₀ c, db₀.card? id = some c₀ ∧ w.committed.card? id = some c ∧ Chained c₀ done c
  ledger : w.committed.ledgerOf id = db₀.ledgerOf id ++ done.map AdjustDone.row
  /-- Each of them is a call that has returned the card it has left. -/
  returned : ∀ d ∈ done, ∃ th ambient, w.threads[d.thread]? = some th ∧
    th.call = .adjustLessons ambient id d.dto ∧ th.result? = some (.card d.after)
  /-- Each call that has returned is one of them. -/
  complete : ∀ t th ambient dto, w.threads[t]? = some th →
    th.call = .adjustLessons ambient id dto → th.result?.isSome → ∃ d ∈ done, d.thread = t
  once : (done.map AdjustDone.thread).Nodup

/-! ### No other writer -/

def LessonCall.adjusts (id : String) : LessonCall → Bool
  | .adjustLessons _ id' _ => id' == id
  | _ => false

theorem LessonCall.adjusts_iff {id : String} {c : LessonCall} :
    c.adjusts id = true ↔ ∃ ambient dto, c = .adjustLessons ambient id dto := by
  cases c with
  | adjustLessons ambient id' dto => simp [LessonCall.adjusts]
  | checkIn _ _ | create _ _ | update _ _ _ => simp [LessonCall.adjusts]

/-- The run condition: whatever other calls do, they do not write the card. -/
def SparesCard (outside : Geofence) (id : String) (w : LessonWorld) : LessonAction → Prop
  | .run t env => ∀ th ∈ w.threads[t]?, th.call.adjusts id = false →
      ∀ w' ∈ w.step (lessonSystem outside) (.run t env),
        w'.committed.card? id = w.committed.card? id ∧
          w'.committed.ledgerOf id = w.committed.ledgerOf id
  | .spawn _ => True
  | .abort _ => True

instance (outside : Geofence) (id : String) (w : LessonWorld) : ∀ a, Decidable (SparesCard outside id w a)
  | .run t _ => inferInstanceAs (Decidable (∀ th ∈ w.threads[t]?, _))
  | .spawn _ => .isTrue trivial
  | .abort _ => .isTrue trivial

/-- The card has not been written since, or it has a later version. -/
def Precedes (id : String) (db db' : LessonDb) : Prop :=
  ∀ c, db.card? id = some c → ∃ c', db'.card? id = some c' ∧ c.version ≤ c'.version ∧
    (c.version = c'.version → c = c')

theorem Precedes.refl (id : String) (db : LessonDb) : Precedes id db db :=
  fun c hc => ⟨c, hc, Int.le_refl _, fun _ => rfl⟩

theorem Precedes.trans {id : String} {db₁ db₂ db₃ : LessonDb} (h : Precedes id db₁ db₂)
    (h' : Precedes id db₂ db₃) : Precedes id db₁ db₃ := by
  intro c₁ hc₁
  obtain ⟨c₂, hc₂, hle, heq⟩ := h c₁ hc₁
  obtain ⟨c₃, hc₃, hle', heq'⟩ := h' c₂ hc₂
  refine ⟨c₃, hc₃, hle.trans hle', fun hsame => ?_⟩
  have hsame' : c₁.version = c₂.version := by omega
  exact (heq hsame').trans (heq' (by omega))

theorem Precedes.of_eq {id : String} {db db' : LessonDb} (h : db'.card? id = db.card? id) :
    Precedes id db db' :=
  fun c hc => ⟨c, h.trans hc, Int.le_refl _, fun _ => rfl⟩

/-- Booking a row against a card raises its version. -/
theorem Booked.card_eq {db db' : LessonDb} {card : MembershipCard} {row : LessonTransaction}
    (h : Booked db db' card row 1) : db'.card? card.id = some { card with
      remainingLessons := card.remainingLessons + row.delta, version := card.version + 1 } := by
  refine LessonDb.card_eq_some_iff.mpr ⟨?_, rfl⟩
  rw [h.cards]
  exact List.mem_map.mpr ⟨card, h.card_mem, by simp⟩

theorem Booked.precedes {db db' : LessonDb} {card : MembershipCard} {row : LessonTransaction}
    (h : Booked db db' card row 1) : Precedes card.id db db' := by
  intro c hc
  obtain rfl : c = card :=
    Option.some.inj (hc.symm.trans (LessonDb.card_eq_some_iff.mpr ⟨h.card_mem, rfl⟩))
  refine ⟨_, h.card_eq, Int.le_of_lt (Int.lt_succ _), fun hsame => ?_⟩
  simp only at hsame
  omega

/-- The ledger rows of the card, with the row booked. -/
theorem Booked.ledgerOf_eq {db db' : LessonDb} {card : MembershipCard} {row : LessonTransaction}
    (h : Booked db db' card row 1) :
    db'.ledgerOf card.id = db.ledgerOf card.id ++ [row] := by
  simp [LessonDb.ledgerOf, h.transactions, h.membershipId]

/-! ### The invariant -/

/-- Every snapshot that is open precedes the committed state. -/
def SnapshotsPrecede (id : String) (w : LessonWorld) : Prop :=
  ∀ th ∈ w.threads, ∀ s ∈ th.pinned, Precedes id s w.committed

/-- Where nobody else writes the card, an adjustment that commits has read the card it
writes. -/
theorem adjusted_exact {id : String} {w : LessonWorld} {th : LessonThread} {dto : AdjustLessonsDto}
    {db' : LessonDb} (hth : th ∈ w.threads) (hsnapshots : SnapshotsPrecede id w)
    (h : Adjusted id dto (th.snapshot w.committed) w.committed db') :
    ∃ before uuid, before.id = id ∧ Booked w.committed db' before
      (adjustTransaction before.id dto before.studentId uuid before.remainingLessons) 1 := by
  obtain ⟨card, seen, uuid, hseen, hid, hversion, -, hbooked⟩ := h
  have hcard : card.id = id := hbooked.membershipId.symm
  have hprecedes : Precedes id (th.snapshot w.committed) w.committed := by
    cases hpinned : th.pinned with
    | none =>
        have hnow : th.snapshot w.committed = w.committed := by
          show (th.tx.bind Tx.snapshot).getD w.committed = _
          rw [show th.tx.bind Tx.snapshot = none from hpinned, Option.getD_none]
        rw [hnow]
        exact .refl id _
    | some s =>
        have hold : th.snapshot w.committed = s := by
          show (th.tx.bind Tx.snapshot).getD w.committed = _
          rw [show th.tx.bind Tx.snapshot = some s from hpinned, Option.getD_some]
        rw [hold]
        exact hsnapshots th hth s hpinned
  obtain ⟨c', hc', -, hsame⟩ := hprecedes seen (LessonDb.card_eq_some_iff.mpr ⟨hseen, hid⟩)
  obtain rfl : card = c' :=
    Option.some.inj ((LessonDb.card_eq_some_iff.mpr ⟨hbooked.card_mem, hcard⟩).symm.trans hc')
  obtain rfl := hsame hversion
  refine ⟨seen, uuid, hcard, ?_⟩
  rw [hcard]
  exact hbooked

theorem adjustLessons_not_ret {ambient : Ambient} {id : String} {dto : AdjustLessonsDto}
    {result : LessonResult} : adjustLessons ambient id dto ≠ .ret result := by
  unfold adjustLessons
  split
  · intro h
    cases h
  · intro h
    cases h

section Steps

variable {outside : Geofence} {id : String} {w w' : LessonWorld} {a : LessonAction}

/-- The commit of an adjustment of the card changes the card and its ledger as it says, and
the call returns the card with it. -/
theorem commit_adjusted {t : Nat} {th : LessonThread} {ambient : Ambient} {dto : AdjustLessonsDto}
    {db' : LessonDb} {rest : LessonProg LessonResult} (hsnapshots : SnapshotsPrecede id w)
    (hth : w.threads[t]? = some th) (hcall : th.call = .adjustLessons ambient id dto)
    (hcommits : adjustCommitContract.Commits (th.commit w.committed db' rest)) :
    ∃ d : AdjustDone, d.thread = t ∧ d.dto = dto ∧ d.before.id = id ∧
      Booked w.committed db' d.before d.row 1 ∧ rest = .ret (.card d.after) := by
  obtain ⟨hadjusted, after, hafter, hid, hrest⟩ := hcommits.post ambient id dto hcall
  obtain ⟨before, uuid, rfl, hbooked⟩ :=
    adjusted_exact (List.mem_of_getElem? hth) hsnapshots hadjusted
  have hreturned : after = AdjustDone.after ⟨t, dto, uuid, before⟩ :=
    Option.some.inj ((LessonDb.card_eq_some_iff.mpr ⟨hafter, hid⟩).symm.trans hbooked.card_eq)
  exact ⟨⟨t, dto, uuid, before⟩, rfl, rfl, rfl, hbooked, hreturned ▸ hrest⟩

/-- A step leaves the card, its ledger and the adjustments that have returned, or it is the
commit of an adjustment of the card, with which this returns. -/
inductive AdjustStep (id : String) (w w' : LessonWorld) : Prop where
  | spared (card : w'.committed.card? id = w.committed.card? id)
      (ledger : w'.committed.ledgerOf id = w.committed.ledgerOf id)
      (returned : ∀ (t : Nat) (th : LessonThread) (ambient : Ambient) (dto : AdjustLessonsDto),
        w'.threads[t]? = some th → th.call = .adjustLessons ambient id dto → th.result?.isSome →
        w.threads[t]? = some th)
  | adjusted (d : AdjustDone) (th : LessonThread) (ambient : Ambient)
      (found : w.threads[d.thread]? = some th) (running : th.result? = none)
      (call : th.call = .adjustLessons ambient id d.dto)
      (before_id : d.before.id = id)
      (booked : Booked w.committed w'.committed d.before d.row 1)
      (threads : w'.threads =
        w.threads.set d.thread { th with prog := .ret (.card d.after), tx := none })

theorem adjustStep_of_step (hw : w.Inv lessonClient.engine adjustCommitContract)
    (hsnapshots : SnapshotsPrecede id w) (hok : SparesCard outside id w a)
    (hstep : w.step (lessonSystem outside) a = some w') : AdjustStep id w w' := by
  obtain ⟨-, heffect⟩ := step_contract (K := adjustCommitContract)
    (fun c _ => program_adjustCommit outside c) hw (by cases a <;> trivial) hstep
  cases heffect with
  | quiet committed results =>
      refine .spared (by rw [committed]) (by rw [committed]) fun t th ambient dto hth hcall hdone => ?_
      rcases results t th hth hdone with hold | hstart
      · exact hold
      · have hprog : th.prog = adjustLessons ambient id dto := by
          rw [hstart, hcall]
          rfl
        obtain ⟨result, hresult⟩ := Option.isSome_iff_exists.mp hdone
        unfold Thread.result? at hresult
        split at hresult
        · exact absurd (hprog.symm.trans (Prog.result?_eq_some.mp hresult)) adjustLessons_not_ret
        · cases hresult
  | commit t env th rest action found _ threads commits =>
      subst action
      cases hadjusts : th.call.adjusts id with
      | false =>
          obtain ⟨hcard, hledger⟩ := hok th found hadjusts w' hstep
          refine .spared hcard hledger fun u tu ambient dto hu hcall _ => ?_
          rw [threads] at hu
          rcases getElem?_set_cases hu with ⟨-, rfl⟩ | ⟨-, hold⟩
          · have hcall' : th.call = .adjustLessons ambient id dto := hcall
            simp [hcall', LessonCall.adjusts] at hadjusts
          · exact hold
      | true =>
          obtain ⟨ambient, dto, hcall⟩ := LessonCall.adjusts_iff.mp hadjusts
          obtain ⟨d, rfl, rfl, hid, hbooked, rfl⟩ := commit_adjusted hsnapshots found hcall commits
          refine .adjusted d th ambient found ?_ hcall hid hbooked threads
          by_contra hdone
          have hrun : th.run lessonClient.engine w.committed env = none :=
            Thread.run_finished (Option.ne_none_iff_isSome.mp hdone)
          simp [World.step, found, lessonSystem, hrun] at hstep

/-- A step of an adjustment of the card that changes the database is the one with which the
call returns. -/
theorem adjust_step (hw : w.Inv lessonClient.engine adjustCommitContract)
    (hsnapshots : SnapshotsPrecede id w) {t : Nat} {env : Env} {th : LessonThread}
    {ambient : Ambient} {dto : AdjustLessonsDto} (hth : w.threads[t]? = some th)
    (hcall : th.call = .adjustLessons ambient id dto)
    (hstep : w.step (lessonSystem outside) (.run t env) = some w') :
    w'.committed = w.committed ∨ ∃ d : AdjustDone, d.thread = t ∧ d.dto = dto ∧ d.before.id = id ∧
      Booked w.committed w'.committed d.before d.row 1 ∧
        ∃ th', w'.threads[t]? = some th' ∧ th'.result? = some (.card d.after) := by
  obtain ⟨-, heffect⟩ := step_contract (K := adjustCommitContract)
    (fun c _ => program_adjustCommit outside c) hw (by trivial) hstep
  cases heffect with
  | quiet committed _ => exact Or.inl committed
  | commit u env' th₀ rest action found _ threads commits =>
      cases action
      cases found.symm.trans hth
      obtain ⟨d, rfl, rfl, hid, hbooked, rfl⟩ := commit_adjusted hsnapshots hth hcall commits
      refine Or.inr ⟨d, rfl, rfl, hid, hbooked,
        { th with prog := .ret (.card d.after), tx := none }, ?_, rfl⟩
      rw [threads]
      exact List.getElem?_set_self (List.getElem?_eq_some_iff.mp hth).1

theorem SnapshotsPrecede.step (h : SnapshotsPrecede id w) (hadjust : AdjustStep id w w')
    (hstep : w.step (lessonSystem outside) a = some w') : SnapshotsPrecede id w' := by
  have hlater : Precedes id w.committed w'.committed := by
    cases hadjust with
    | spared card _ _ => exact .of_eq card
    | adjusted d _ _ _ _ _ before_id booked _ => exact before_id ▸ booked.precedes
  intro th hth s hs
  rcases World.step_pinned hstep hth hs with ⟨th₀, hth₀, hs₀⟩ | rfl
  · exact (h th₀ hth₀ s hs₀).trans hlater
  · exact hlater

/-- The adjustments that have returned, after a step. -/
theorem Serialized.step {db₀ : LessonDb} {done : List AdjustDone} (h : Serialized db₀ id w done)
    (hadjust : AdjustStep id w w') (hstep : w.step (lessonSystem outside) a = some w') :
    ∃ done', Serialized db₀ id w' done' := by
  -- A call that has returned stays as it is.
  have hstays : ∀ d ∈ done, ∃ th ambient, w'.threads[d.thread]? = some th ∧
      th.call = .adjustLessons ambient id d.dto ∧ th.result? = some (.card d.after) := by
    intro d hd
    obtain ⟨th, ambient, hth, hcall, hresult⟩ := h.returned d hd
    obtain ⟨th', hth', -, hsame⟩ := World.step_thread hstep hth
    rw [hsame (by simp [hresult])] at hth'
    exact ⟨th, ambient, hth', hcall, hresult⟩
  obtain ⟨c₀, c, hc₀, hc, hchain⟩ := h.chained
  cases hadjust with
  | spared card ledger returned =>
      refine ⟨done, ⟨c₀, c, hc₀, card.trans hc, hchain⟩, ledger.trans h.ledger, hstays, ?_, h.once⟩
      intro t th ambient dto hth hcall hdone
      exact h.complete t th ambient dto (returned t th ambient dto hth hcall hdone) hcall hdone
  | adjusted d th ambient found running call before_id booked threads =>
      have hbefore : d.before = c :=
        Option.some.inj ((LessonDb.card_eq_some_iff.mpr ⟨booked.card_mem, before_id⟩).symm.trans hc)
      have hnew : w'.threads[d.thread]? = some { th with prog := .ret (.card d.after), tx := none } := by
        rw [threads]
        exact List.getElem?_set_self (List.getElem?_eq_some_iff.mp found).1
      have hfresh : d.thread ∉ done.map AdjustDone.thread := by
        intro hmem
        obtain ⟨d', hd', hthread⟩ := List.mem_map.mp hmem
        obtain ⟨th', ambient', hth', -, hresult⟩ := h.returned d' hd'
        rw [hthread] at hth'
        cases found.symm.trans hth'
        simp [running] at hresult
      refine ⟨done ++ [d], ⟨c₀, d.after, hc₀, ?_, hchain.snoc hbefore⟩, ?_, ?_, ?_, ?_⟩
      · exact before_id ▸ booked.card_eq
      · rw [List.map_append, ← List.append_assoc, ← h.ledger, ← before_id]
        exact booked.ledgerOf_eq
      · intro d' hd'
        rcases List.mem_append.mp hd' with hold | hlast
        · exact hstays d' hold
        · rw [List.mem_singleton.mp hlast]
          exact ⟨_, ambient, hnew, call, rfl⟩
      · intro t tu ambient' dto htu hcall hdone
        rw [threads] at htu
        rcases getElem?_set_cases htu with ⟨rfl, -⟩ | ⟨-, hold⟩
        · exact ⟨d, by simp, rfl⟩
        · obtain ⟨d', hd', hthread⟩ := h.complete t tu ambient' dto hold hcall hdone
          exact ⟨d', List.mem_append_left _ hd', hthread⟩
      · rw [List.map_append, List.nodup_append']
        exact ⟨h.once, List.nodup_singleton _, by simpa using hfresh⟩

/-- Two calls that have returned have left the card with different versions. -/
theorem Serialized.version_ne {db₀ : LessonDb} {done : List AdjustDone} (h : Serialized db₀ id w done)
    {t t' : Nat} {th th' : LessonThread} {ambient ambient' : Ambient} {dto dto' : AdjustLessonsDto}
    {card card' : MembershipCard} (hth : w.threads[t]? = some th) (hth' : w.threads[t']? = some th')
    (hcall : th.call = .adjustLessons ambient id dto)
    (hcall' : th'.call = .adjustLessons ambient' id dto')
    (hresult : th.result? = some (.card card)) (hresult' : th'.result? = some (.card card'))
    (hne : t ≠ t') : card.version ≠ card'.version := by
  -- The entry of a call that has returned.
  have hentry : ∀ (t : Nat) (th : LessonThread) (ambient : Ambient) (dto : AdjustLessonsDto)
      (card : MembershipCard), w.threads[t]? = some th → th.call = .adjustLessons ambient id dto →
      th.result? = some (.card card) → ∃ d ∈ done, d.thread = t ∧ d.after = card := by
    intro t th ambient dto card hth hcall hresult
    obtain ⟨d, hd, hthread⟩ := h.complete t th ambient dto hth hcall (by simp [hresult])
    obtain ⟨th', ambient', hth', -, hresult'⟩ := h.returned d hd
    rw [hthread] at hth'
    cases hth.symm.trans hth'
    have hsame := hresult'.symm.trans hresult
    simp only [Option.some.injEq, LessonResult.card.injEq] at hsame
    exact ⟨d, hd, hthread, hsame⟩
  obtain ⟨d, hd, rfl, rfl⟩ := hentry t th ambient dto card hth hcall hresult
  obtain ⟨d', hd', rfl, rfl⟩ := hentry t' th' ambient' dto' card' hth' hcall' hresult'
  obtain ⟨c₀, c, -, -, hchain⟩ := h.chained
  have hpairs : done.Pairwise fun d d' => d.after.version ≠ d'.after.version :=
    hchain.version_lt.2.imp fun hlt => Int.ne_of_lt hlt
  have hsymm : Std.Symm fun d d' : AdjustDone => d.after.version ≠ d'.after.version :=
    ⟨fun _ _ => Ne.symm⟩
  refine hpairs.forall hd hd' ?_
  rintro rfl
  exact hne rfl

end Steps

/-! ### Insufficient lessons -/

abbrev LessonLog := List (Entry LessonStmt LessonStmt.Reply Env)

/-- The update of a negative adjustment. -/
def decrementAt (scope : Option TenantWhereClause) (id : String) (version delta : Int) :
    CardIncrement where
  id := id
  scope := scope
  version := some version
  minimum := some (abs delta)
  remainingLessons := -abs delta
  versionIncrement := 1

/-- The statements of an adjustment that finds too few lessons: it has read the card, its
update has selected no row at the version read, and it has read the card again, at this
version and with fewer lessons than it is to take. -/
def FoundTooFew (scope : Option TenantWhereClause) (id : String) (delta : Int) (log : LessonLog) :
    Prop :=
  ∃ (seen again : MembershipCard) (count : Nat) (e₁ e₂ e₃ : Env), count ≠ 1 ∧
    log = [⟨.read (.findCard id scope), e₁, .ok (some seen)⟩,
      ⟨.write (.updateManyCards (decrementAt scope id seen.version delta)), e₂, .ok count⟩,
      ⟨.read (.findCard id scope), e₃, .ok (some again)⟩] ∧
    again.version = seen.version ∧ again.remainingLessons < -delta

def insufficientLessons : HttpException := .badRequest "剩余课时不足"

/-- What an adjustment has done when it throws that the lessons are insufficient. -/
def insufficientSpec (scope : Option TenantWhereClause) (id : String) (delta : Int) :
    TraceSpec LessonStmt LessonStmt.Reply Env HttpException LessonResult where
  fail log e := e = insufficientLessons → FoundTooFew scope id delta log

theorem obeys_find {scope : Option TenantWhereClause} {id : String} {delta : Int} {r : LessonRead}
    {past : LessonLog}
    {k : r.Row → LessonProg LessonResult}
    (h : ∀ env row, (k row).Obeys (insufficientSpec scope id delta) (past ++ [⟨.read r, env, .ok row⟩])) :
    ((find r).bind k).Obeys (insufficientSpec scope id delta) past := by
  refine ⟨trivial, fun env reply => ?_⟩
  cases reply with
  | error _ =>
      intro he
      cases he
  | ok row => exact h env row

/-- The rest of an adjustment whose update has gone through throws nothing of the kind. -/
theorem obeys_booking {scope : Option TenantWhereClause} {id : String} {dto : AdjustLessonsDto}
    {card : MembershipCard} {past : LessonLog} :
    ((query .random).bind fun uuid =>
      (query (.write (.createTransaction
        (adjustTransaction id dto card.studentId uuid card.remainingLessons)))).bind fun reply =>
      (orRethrow reply).bind fun _ =>
      (find (LessonRead.findCard id none)).bind fun updated? =>
        match updated? with
        | some updated => .ret (.card updated)
        | none => (.throw .internal : LessonProg LessonResult)).Obeys
      (insufficientSpec scope id dto.delta) past := by
  refine ⟨trivial, fun _ uuid => ⟨trivial, fun _ reply => ?_⟩⟩
  cases reply with
  | error _ =>
      intro he
      cases he
  | ok _ =>
      refine obeys_find fun _ updated? => ?_
      cases updated? with
      | some updated => trivial
      | none =>
          intro he
          cases he

/-- A change that answers `insufficient` has read the card again, at the version expected. -/
theorem applyMembershipLessonDelta_obeys {scope : Option TenantWhereClause} {id : String}
    {version delta : Int} (hdelta : delta ≠ 0) {past : LessonLog}
    {k : LessonAdjustResult → LessonProg LessonResult}
    (hok : ∀ past, (k (.ok ())).Obeys (insufficientSpec scope id delta) past)
    (hconflict : ∀ past, (k (.error .versionConflict)).Obeys (insufficientSpec scope id delta) past)
    (hinsufficient : ∀ (again : MembershipCard) (count : Nat) (e₂ e₃ : Env), count ≠ 1 →
      again.version = version → again.remainingLessons < -delta →
      (k (.error .insufficient)).Obeys (insufficientSpec scope id delta)
        (past ++ [⟨.write (.updateManyCards (decrementAt scope id version delta)), e₂, .ok count⟩] ++
          [⟨.read (.findCard id scope), e₃, .ok (some again)⟩])) :
    ((applyMembershipLessonDelta scope id version delta).bind k).Obeys
      (insufficientSpec scope id delta) past := by
  unfold applyMembershipLessonDelta
  split
  · refine ⟨trivial, fun e₂ reply => ?_⟩
    cases reply with
    | error _ =>
        intro he
        cases he
    | ok count =>
        by_cases hcount : (count == 1) = true
        · simp only [Prog.ret_bind, Prog.bind_eq, Prog.pure_eq, orRethrow, hcount, if_true]
          exact hok _
        · simp only [Prog.ret_bind, Prog.bind_eq, Prog.pure_eq, orRethrow, hcount]
          exact hconflict _
  · rename_i hneg
    have hamount : ¬ |delta| ≤ 0 := by
      rw [not_le]
      exact abs_pos.mpr hdelta
    unfold tryDecrementMembershipLessons
    simp only [hamount, if_false]
    refine ⟨trivial, fun e₂ reply => ?_⟩
    cases reply with
    | error _ =>
        intro he
        cases he
    | ok count =>
        by_cases hcount : (count == 1) = true
        · simp only [Prog.ret_bind, Prog.bind_eq, Prog.pure_eq, orRethrow, hcount, if_true]
          exact hok _
        · simp only [Prog.ret_bind, Prog.bind_eq, Prog.pure_eq, orRethrow, hcount, Bool.false_eq_true,
            if_false, Prog.bind_assoc]
          refine obeys_find fun e₃ again? => ?_
          cases again? with
          | none => exact hconflict _
          | some again =>
              by_cases hversion : again.version = version
              · by_cases hshort : again.remainingLessons < |delta|
                · have habs : |delta| = -delta := abs_of_nonpos (by omega)
                  simp only [hversion, hshort, if_true, not_true_eq_false, ne_eq, if_false]
                  exact hinsufficient again count e₂ e₃ (by simpa using hcount) hversion (by omega)
                · simp only [hversion, hshort, not_true_eq_false, ne_eq, if_false]
                  exact hconflict _
              · simp only [hversion, ne_eq, not_false_eq_true, if_true]
                exact hconflict _

theorem adjustLessonsTx_obeys {scope : Option TenantWhereClause} {id : String}
    {dto : AdjustLessonsDto} (hdelta : dto.delta ≠ 0) :
    (adjustLessonsTx scope id dto).Obeys (insufficientSpec scope id dto.delta) [] := by
  unfold adjustLessonsTx
  simp only [Prog.bind_eq, Prog.pure_eq]
  refine obeys_find fun e₁ card? => ?_
  cases card? with
  | none =>
      intro he
      cases he
  | some seen =>
      refine applyMembershipLessonDelta_obeys hdelta (fun _ => obeys_booking) (fun _ he => ?_) ?_
      · cases he
      · intro again count e₂ e₃ hcount hversion hshort _
        exact ⟨seen, again, count, e₁, e₂, e₃, hcount, rfl, hversion, hshort⟩

/-- The calls whose program is one transaction, and the transaction. -/
def IsAdjustment : LessonCall → Prop
  | .adjustLessons _ _ dto => dto.delta ≠ 0
  | _ => False

def adjustBody : LessonCall → LessonProg LessonResult
  | .adjustLessons ambient id dto =>
      (adjustLessonsTx (resolveTenantWhere ambient) id dto).bind fun a => .commit (.ret a)
  | _ => .throw .internal

/-- Every adjustment is at its place in its transaction. -/
def AdjustsInTransaction (w : LessonWorld) : Prop :=
  ∀ th ∈ w.threads, IsAdjustment th.call →
    th.InTransaction .repeatableRead (adjustBody th.call) .internal

theorem AdjustsInTransaction.step {outside : Geofence} {w w' : LessonWorld} {a : LessonAction}
    (h : AdjustsInTransaction w) (hstep : w.step (lessonSystem outside) a = some w') :
    AdjustsInTransaction w' := by
  have hcloses : ∀ c, IsAdjustment c → (adjustBody c).Closes := by
    intro c hc
    cases c with
    | adjustLessons ambient id dto =>
        exact ((adjustLessonsTx_obeys hc).plain {}).bind_closes fun result => ⟨result, rfl⟩
    | checkIn _ _ | create _ _ | update _ _ _ => exact hc.elim
  have hprogram : ∀ c, IsAdjustment c →
      (lessonSystem outside).program c = .start .repeatableRead (adjustBody c) := by
    intro c hc
    cases c with
    | adjustLessons ambient id dto =>
        have hdelta : dto.delta ≠ 0 := hc
        simp only [lessonSystem, LessonCall.program, adjustLessons, hdelta, if_false]
        rfl
    | checkIn _ _ | create _ _ | update _ _ _ => exact hc.elim
  exact World.inTransaction_step hcloses hprogram h hstep

/-- An adjustment that has thrown that the lessons are insufficient has found too few. -/
theorem AdjustsInTransaction.foundTooFew {w : LessonWorld} (h : AdjustsInTransaction w) {id : String}
    {th : LessonThread} {ambient : Ambient} {dto : AdjustLessonsDto} (hth : th ∈ w.threads)
    (hcall : th.call = .adjustLessons ambient id dto) (hdelta : dto.delta ≠ 0)
    (hthrown : th.prog = .throw insufficientLessons) :
    ∃ tx, th.tx = some tx ∧ FoundTooFew (resolveTenantWhere ambient) id dto.delta tx.log := by
  have hadjustment : IsAdjustment th.call := by
    rw [hcall]
    exact hdelta
  have hin := h th hth hadjustment
  rw [hcall] at hin
  unfold Thread.InTransaction at hin
  split at hin
  · rcases hin with hstart | ⟨_, hret⟩ | haborted
    · cases hthrown.symm.trans hstart
    · cases hthrown.symm.trans hret
    · cases hthrown.symm.trans haborted
  · rename_i tx htx
    obtain ⟨-, hfollows⟩ := hin
    rw [hthrown] at hfollows
    have hbody : (adjustLessonsTx (resolveTenantWhere ambient) id dto).Follows tx.log
        (.throw insufficientLessons) := by
      refine hfollows.of_bind ?_
      intro _ _ hcommit
      cases hcommit
    exact ⟨tx, htx, hbody.obeys (adjustLessonsTx_obeys hdelta) rfl⟩

/-- **Adjustments of one card act one after another**, in every interleaving in which nobody
else writes the card: the calls that have returned form a chain from the card there was to the
card there is; every step of a call but the one it returns with leaves the database as it is;
a call that throws that the lessons are insufficient has read too few at the version it
expected; and no two calls have left the card with the same version. -/
theorem adjustments_serialize (outside : Geofence) (id : String) (db₀ : LessonDb) {c₀ : MembershipCard}
    (hcard : db₀.card? id = some c₀) {w : LessonWorld}
    (h : ((lessonSystem outside).machine (· = db₀)).ReachableBy (SparesCard outside id) w) :
    (∃ done, Serialized db₀ id w done) ∧
      (∀ (t : Nat) (env : Env) (th : LessonThread) (ambient : Ambient) (dto : AdjustLessonsDto)
        (w' : LessonWorld), w.threads[t]? = some th → th.call = .adjustLessons ambient id dto →
        w.step (lessonSystem outside) (.run t env) = some w' →
        w'.committed = w.committed ∨ ∃ d : AdjustDone, d.thread = t ∧ d.dto = dto ∧ d.before.id = id ∧
          Booked w.committed w'.committed d.before d.row 1 ∧
            ∃ th', w'.threads[t]? = some th' ∧ th'.result? = some (.card d.after)) ∧
      (∀ th ∈ w.threads, ∀ ambient dto, th.call = .adjustLessons ambient id dto → dto.delta ≠ 0 →
        th.prog = .throw insufficientLessons →
        ∃ tx, th.tx = some tx ∧ FoundTooFew (resolveTenantWhere ambient) id dto.delta tx.log) ∧
      ∀ (t t' : Nat) (th th' : LessonThread) (ambient ambient' : Ambient)
        (dto dto' : AdjustLessonsDto) (card card' : MembershipCard),
        w.threads[t]? = some th → w.threads[t']? = some th' →
        th.call = .adjustLessons ambient id dto →
        th'.call = .adjustLessons ambient' id dto' → th.result? = some (.card card) →
        th'.result? = some (.card card') → t ≠ t' → card.version ≠ card'.version := by
  have hinv : w.Inv lessonClient.engine adjustCommitContract ∧ SnapshotsPrecede id w ∧
      AdjustsInTransaction w ∧ ∃ done, Serialized db₀ id w done := by
    refine h.invariant (I := fun w => w.Inv lessonClient.engine adjustCommitContract ∧
      SnapshotsPrecede id w ∧ AdjustsInTransaction w ∧ ∃ done, Serialized db₀ id w done) ?_ ?_
    · rintro ⟨db, threads⟩ ⟨hdb, hthreads⟩
      obtain rfl : db = db₀ := hdb
      obtain rfl : threads = [] := hthreads
      refine ⟨⟨trivial, ?_⟩, ?_, ?_, [], ⟨c₀, c₀, hcard, hcard, rfl⟩, (List.append_nil _).symm, ?_, ?_,
        List.nodup_nil⟩
      · intro th hth
        cases hth
      · intro th hth
        cases hth
      · intro th hth
        cases hth
      · intro d hd
        cases hd
      · intro t th ambient dto hth
        cases hth
    · rintro w a w' ⟨hw, hsnapshots, hin, done, hdone⟩ hok hstep
      have hadjust := adjustStep_of_step hw hsnapshots hok hstep
      have hw' := (step_contract (K := adjustCommitContract)
        (fun c _ => program_adjustCommit outside c) hw (by cases a <;> trivial) hstep).1
      exact ⟨hw', hsnapshots.step hadjust hstep, hin.step hstep, hdone.step hadjust hstep⟩
  obtain ⟨hw, hsnapshots, hin, done, hdone⟩ := hinv
  refine ⟨⟨done, hdone⟩, ?_, ?_, ?_⟩
  · intro t env th ambient dto w' hth hcall hstep
    exact adjust_step hw hsnapshots hth hcall hstep
  · intro th hth ambient dto hcall hdelta hthrown
    exact hin.foundTooFew hth hcall hdelta hthrown
  · intro t t' th th' ambient ambient' dto dto' card card' hth hth' hcall hcall' hresult hresult' hne
    exact hdone.version_ne hth hth' hcall hcall' hresult hresult' hne

def adjustBy (delta : Int) : LessonAction :=
  .spawn (.adjustLessons administrator "m1" { delta, reason := "correction" })

/-- Four adjustments of the card of ten lessons: the first one reads it and is overtaken by
the second one, the third one asks for too many lessons, and the last one goes through. -/
def interleavedAdjusts : List LessonAction :=
  [adjustBy 5, adjustBy (-3), adjustBy (-20), adjustBy 1] ++
    steps 0 2 ++ List.replicate 7 (.run 1 { random := "uuid-1" }) ++
    steps 2 4 ++ steps 0 1 ++ List.replicate 7 (.run 3 { random := "uuid-3" })

/-- The version and the balance of the card a call has returned, or its error. -/
def adjustOutcome (th : LessonThread) : Option (Int × Int) × Option HttpException :=
  (th.result?.bind fun
    | .card card => some (card.version, card.remainingLessons)
    | .attendance _ _ => none,
  th.prog.error?)

theorem adjustments_serialize_interleaved :
    ∃ w, ((lessonSystem nowhere).machine (· = oneCardDb)).exec { committed := oneCardDb }
        interleavedAdjusts = some w ∧
      w.threads.map adjustOutcome =
        [(none, some (.conflict "会员卡已被其他人更新，请刷新后重试")), (some (1, 7), none),
          (none, some insufficientLessons), (some (2, 8), none)] ∧
      ∃ done, Serialized oneCardDb "m1" w done := by
  have hrun : (((lessonSystem nowhere).machine (· = oneCardDb)).exec { committed := oneCardDb }
      interleavedAdjusts).map (fun w => w.threads.map adjustOutcome) =
        some [(none, some (.conflict "会员卡已被其他人更新，请刷新后重试")), (some (1, 7), none),
          (none, some insufficientLessons), (some (2, 8), none)] := by
    decide +kernel
  obtain ⟨w, hexec, houtcomes⟩ := Option.map_eq_some_iff.mp hrun
  refine ⟨w, hexec, houtcomes, ?_⟩
  have hcard : oneCardDb.card? "m1" = some tenLessons := rfl
  exact (adjustments_serialize nowhere "m1" oneCardDb hcard (Machine.reachableBy_exec
    (Machine.reachableBy_init (System.machine_init rfl)) (by decide +kernel) hexec)).1

end MibServer.Lessons
