import MibServer.Lib.Transaction
import Mathlib.Algebra.BigOperators.Group.Finset.Basic

/-!
A ledger and the calls that write it.

The states of a system carry a list they only append to. When a commit writes at most one row,
and writes one exactly where its call returns a result that says so, then the rows of a run and
the calls that have returned such a result belong to each other one to one (`Accounts`), and a sum
over the ledger is a sum over what the calls have returned (`Accounts.sum`).
-/

namespace MibServer.Lib

/-! ### Sums -/

section Sums

variable {ι ρ M : Type*} [AddCommMonoid M]

theorem sum_map_eq_range (threads : List ι) (value : ι → M) : (threads.map value).sum =
    ∑ t ∈ Finset.range threads.length, ((threads[t]?).map value).getD 0 := by
  induction threads using List.reverseRecOn with
  | nil => rfl
  | append_singleton threads th ih =>
      rw [List.map_append, List.sum_append, List.length_append, List.length_singleton,
        Finset.sum_range_succ, ih]
      congr 1
      · refine Finset.sum_congr rfl fun t ht => ?_
        rw [List.getElem?_append_left (Finset.mem_range.mp ht)]
      · simp

/-- Entries that name the places of a list, each at most once, add up to the list if they leave
out zeros only. -/
theorem sum_of_entries {threads : List ι} {value : ι → M} {log : List (Nat × ρ)} {f : ρ → M}
    (hnodup : (log.map Prod.fst).Nodup)
    (hentry : ∀ p ∈ log, ∃ th, threads[p.1]? = some th ∧ f p.2 = value th)
    (hrest : ∀ t th, threads[t]? = some th → t ∉ log.map Prod.fst → value th = 0) :
    ((log.map Prod.snd).map f).sum = (threads.map value).sum := by
  have hentries : (log.map Prod.snd).map f =
      (log.map Prod.fst).map fun t => ((threads[t]?).map value).getD 0 := by
    rw [List.map_map, List.map_map]
    refine List.map_congr_left fun p hp => ?_
    obtain ⟨th, hth, hvalue⟩ := hentry p hp
    simp [hth, hvalue]
  rw [hentries, ← List.sum_toFinset _ hnodup, sum_map_eq_range]
  refine Finset.sum_subset (fun t ht => ?_) fun t ht hnot => ?_
  · obtain ⟨p, hp, rfl⟩ := List.mem_map.mp (List.mem_toFinset.mp ht)
    obtain ⟨th, hth, -⟩ := hentry p hp
    exact Finset.mem_range.mpr (List.getElem?_eq_some_iff.mp hth).1
  · have hth := List.getElem?_eq_getElem (Finset.mem_range.mp ht)
    rw [hth]
    exact hrest t _ hth fun hmem => hnot (List.mem_toFinset.mpr hmem)

end Sums

/-! ### What every statement keeps -/

variable {σ Q : Type} {R : Q → Type} {Env ε α C ρ : Type}

/-- The contract on the states where `g` is `x`. -/
def Contract.keeping {P γ : Type} (K : Contract σ C P) (g : σ → γ) (x : γ) : Contract σ C P :=
  { K with inv := fun s => K.inv s ∧ g s = x }

/-- What no statement changes is still there at every commit. -/
theorem Prog.Safe.keeping {γ : Type} {g : σ → γ} {x : γ} {E : Engine σ Q R Env}
    {K : Contract σ C (Prog Q R ε α)} {c : C} {p : Prog Q R ε α} {view : Option (View σ)}
    (hexec : ∀ q env s, g (E.exec q env s).2 = g s) (hview : ∀ v ∈ view, g v.work = x)
    (h : p.Safe E K c view) : p.Safe E (K.keeping g x) c view := by
  induction p generalizing view with
  | ret a => cases view <;> exact h
  | throw e => cases view <;> trivial
  | stmt q k ih =>
      cases view with
      | none =>
          rintro env s ⟨hs, hg⟩
          obtain ⟨hcommits, hrest⟩ := h env s hs
          exact ⟨⟨⟨hcommits.inv, (hexec q env s).trans hg⟩, hcommits.evolves, hcommits.post⟩,
            ih _ (by simp) hrest⟩
      | some v =>
          intro env
          refine ih _ ?_ (h env)
          rintro _ ⟨⟩
          refine Eq.trans ?_ (hview v rfl)
          show g (E.answer v q env).2 = g v.work
          unfold Engine.answer
          split
          · rfl
          · exact hexec q env v.work
  | start isolation p ih =>
      cases view with
      | none =>
          rintro snapshot base ⟨hsnapshot, -⟩ hevolves ⟨hbase, hg⟩
          refine ih ?_ (h snapshot base hsnapshot hevolves hbase)
          rintro _ ⟨⟩
          exact hg
      | some v => exact h
  | commit p ih =>
      cases view with
      | none => exact h
      | some v =>
          obtain ⟨hcommits, hrest⟩ := h
          exact ⟨⟨⟨hcommits.inv, hview v rfl⟩, hcommits.evolves, hcommits.post⟩,
            ih (by simp) hrest⟩

/-- The same program under another contract, when its commits meet that one too. -/
theorem Prog.Safe.under {E : Engine σ Q R Env} {K K' : Contract σ C (Prog Q R ε α)} {c : C}
    {p : Prog Q R ε α} {view : Option (View σ)} (h : p.Safe E K c view)
    (hinv : ∀ s, K'.inv s → K.inv s) (hevolves : ∀ s s', K'.evolves s s' → K.evolves s s')
    (hcommits : ∀ m, m.call = c → K.Commits m → K'.Commits m) : p.Safe E K' c view := by
  induction p generalizing view with
  | ret a => cases view <;> exact h
  | throw e => cases view <;> trivial
  | stmt q k ih =>
      cases view with
      | none =>
          intro env s hs
          obtain ⟨hcommits', hrest⟩ := h env s (hinv s hs)
          exact ⟨hcommits _ rfl hcommits', ih _ hrest⟩
      | some v => exact fun env => ih _ (h env)
  | start isolation p ih =>
      cases view with
      | none =>
          exact fun snapshot base hsnapshot hbase hs =>
            ih (h snapshot base (hinv _ hsnapshot) (hevolves _ _ hbase) (hinv _ hs))
      | some v => exact h
  | commit p ih =>
      cases view with
      | none => exact h
      | some v => exact ⟨hcommits _ rfl h.1, ih h.2⟩

/-! ### Books -/

/-- How a ledger is kept: by `moves` a result says that its call has written a row, and `tells`
says which rows it can be. -/
structure Books (σ C α ρ : Type) where
  ledger : σ → List ρ
  moves : C → α → Bool
  tells : C → α → ρ → Prop

/-- A commit writes no row and returns no such result, or it does both. -/
inductive Books.Kept (B : Books σ C α ρ) (m : Commit σ C (Prog Q R ε α)) : Prop where
  | silent (ledger : B.ledger m.work = B.ledger m.base)
      (result : ∀ a, m.rest = .ret a → B.moves m.call a = false)
  | wrote (a : α) (row : ρ) (ledger : B.ledger m.work = B.ledger m.base ++ [row])
      (result : m.rest = .ret a) (moves : B.moves m.call a = true) (tells : B.tells m.call a row)

/-- The rows written since `s₀`, each with the thread of the call that has written it. -/
structure Accounts (B : Books σ C α ρ) (s₀ : σ) (w : World σ Q R Env ε α C)
    (log : List (Nat × ρ)) : Prop where
  ledger : B.ledger w.committed = B.ledger s₀ ++ log.map Prod.snd
  once : (log.map Prod.fst).Nodup
  sound : ∀ p ∈ log, ∃ th a, w.threads[p.1]? = some th ∧ th.result? = some a ∧
    B.moves th.call a = true ∧ B.tells th.call a p.2
  complete : ∀ t th a, w.threads[t]? = some th → th.result? = some a → B.moves th.call a = true →
    t ∈ log.map Prod.fst

section Accounts

variable {B : Books σ C α ρ} {s₀ : σ} {w w' : World σ Q R Env ε α C} {log : List (Nat × ρ)}

theorem Accounts.init (s : σ) : Accounts B s ({ committed := s } : World σ Q R Env ε α C) [] where
  ledger := (List.append_nil _).symm
  once := List.nodup_nil
  sound _ h := by cases h
  complete _ _ _ h := by simp at h

/-- **A sum over the rows written is a sum over what the calls have returned.** -/
theorem Accounts.sum {M : Type*} [AddCommMonoid M] (h : Accounts B s₀ w log) {f : ρ → M}
    {value : C → α → M} (hrow : ∀ c a row, B.moves c a = true → B.tells c a row → f row = value c a)
    (hzero : ∀ c a, B.moves c a = false → value c a = 0) :
    ((B.ledger w.committed).map f).sum = ((B.ledger s₀).map f).sum +
      (w.threads.map fun th => (th.result?.map (value th.call)).getD 0).sum := by
  rw [h.ledger, List.map_append, List.sum_append, sum_of_entries h.once ?_ ?_]
  · intro p hp
    obtain ⟨th, a, hth, hresult, hmoves, htells⟩ := h.sound p hp
    exact ⟨th, hth, by simp [hresult, hrow _ _ _ hmoves htells]⟩
  · intro t th hth hnot
    cases hresult : th.result? with
    | none => rfl
    | some a =>
        refine hzero _ _ (Bool.eq_false_iff.mpr fun hmoves => ?_)
        exact hnot (h.complete t th a hth hresult hmoves)

variable [∀ q, DecidableEq (R q)] {S : System σ Q R Env ε α C}
  {K : Contract σ C (Prog Q R ε α)} {a : Action C Env}

theorem Accounts.step (h : Accounts B s₀ w log) (hpost : ∀ m, K.post m → B.Kept m)
    (hstart : ∀ c a, S.program c = .ret a → B.moves c a = false) (hstep : w.step S a = some w')
    (heffect : World.Effect S K w a w') : ∃ log', Accounts B s₀ w' log' := by
  -- A call that has returned stays as it is.
  have hstays : ∀ p ∈ log, ∃ th a, w'.threads[p.1]? = some th ∧ th.result? = some a ∧
      B.moves th.call a = true ∧ B.tells th.call a p.2 := by
    intro p hp
    obtain ⟨th, a, hth, hresult, hmoves, htells⟩ := h.sound p hp
    obtain ⟨th', hth', -, hsame⟩ := World.step_thread hstep hth
    obtain rfl := hsame (by simp [hresult])
    exact ⟨_, a, hth', hresult, hmoves, htells⟩
  cases heffect with
  | quiet committed results =>
      refine ⟨log, committed ▸ h.ledger, h.once, hstays, fun t th a hth hresult hmoves => ?_⟩
      rcases results t th hth (by simp [hresult]) with hold | hnew
      · exact h.complete t th a hold hresult hmoves
      · have hret : th.prog = .ret a := by
          unfold Thread.result? at hresult
          split at hresult
          · exact Prog.result?_eq_some.mp hresult
          · cases hresult
        rw [hstart th.call a (hnew.symm.trans hret)] at hmoves
        cases hmoves
  | commit t env th rest action found call threads commits =>
      have hset : w'.threads[t]? = some { th with prog := rest, tx := none } := by
        rw [threads]
        exact List.getElem?_set_self (List.getElem?_eq_some_iff.mp found).1
      have hother : ∀ u tu a, u ≠ t → w'.threads[u]? = some tu → tu.result? = some a →
          B.moves tu.call a = true → u ∈ log.map Prod.fst := by
        intro u tu a hne hu hresult hmoves
        rw [threads, List.getElem?_set_ne hne.symm] at hu
        exact h.complete u tu a hu hresult hmoves
      cases hpost _ commits.post with
      | silent ledger result =>
          refine ⟨log, ledger.trans h.ledger, h.once, hstays, fun u tu a hu hresult hmoves => ?_⟩
          by_cases hut : u = t
          · subst hut
            obtain rfl := Option.some.inj (hset.symm.trans hu)
            have hmoves' := result a (Prog.result?_eq_some.mp hresult)
            exact absurd (hmoves.symm.trans hmoves') (by decide)
          · exact hother u tu a hut hu hresult hmoves
      | wrote a row ledger result moves tells =>
          -- The call had not returned, so it has no row yet.
          have hfresh : t ∉ log.map Prod.fst := by
            intro hmem
            obtain ⟨p, hp, rfl⟩ := List.mem_map.mp hmem
            obtain ⟨th', a', hth', hresult', -⟩ := h.sound p hp
            obtain rfl := Option.some.inj (found.symm.trans hth')
            have hrun : th.run S.engine w.committed env = none :=
              Thread.run_finished (by simp [hresult'])
            simp [action, World.step, found, hrun] at hstep
          refine ⟨log ++ [(t, row)], ?_, ?_, ?_, ?_⟩
          · rw [List.map_append, ← List.append_assoc, ← h.ledger]
            exact ledger
          · rw [List.map_append, List.nodup_append']
            exact ⟨h.once, List.nodup_singleton _, by simpa using hfresh⟩
          · intro p hp
            rcases List.mem_append.mp hp with hold | hnew
            · exact hstays p hold
            · rw [List.mem_singleton.mp hnew]
              exact ⟨_, a, hset, Prog.result?_eq_some.mpr result, moves, tells⟩
          · intro u tu a' hu hresult hmoves
            rw [List.map_append, List.mem_append]
            by_cases hut : u = t
            · exact Or.inr (by simp [hut])
            · exact Or.inl (hother u tu a' hut hu hresult hmoves)

/-- **Every run keeps the books** when every program does. -/
theorem System.reachable_accounts {init : σ → Prop}
    {ok : World σ Q R Env ε α C → Action C Env → Prop}
    (hprogram : ∀ c, K.calls c → (S.program c).Safe S.engine K c none)
    (hstart : ∀ c a, S.program c = .ret a → B.moves c a = false)
    (hpost : ∀ m, K.post m → B.Kept m) (hinit : ∀ s, init s → s = s₀ ∧ K.inv s)
    (hok : ∀ w a, ok w a → K.Admits a) (h : (S.machine init).ReachableBy ok w) :
    ∃ log, Accounts B s₀ w log := by
  have hinv : w.Inv S.engine K ∧ ∃ log, Accounts B s₀ w log := by
    refine h.invariant (I := fun w => w.Inv S.engine K ∧ ∃ log, Accounts B s₀ w log) ?_ ?_
    · rintro ⟨s, threads⟩ ⟨hs, rfl⟩
      obtain ⟨rfl, hs⟩ := hinit s hs
      exact ⟨⟨hs, fun _ h => by cases h⟩, [], .init s⟩
    · rintro w a w' ⟨hw, log, hlog⟩ haok hstep
      obtain ⟨hw', heffect⟩ := step_contract hprogram hw (hok w a haok) hstep
      exact ⟨hw', hlog.step hpost hstart hstep heffect⟩
  exact hinv.2

end Accounts

end MibServer.Lib
