import Mathlib.Init

/-!
Programs over a transactional store.

A program issues statements one at a time, each of its own or inside a
transaction. `Engine` says what a statement does to a state; inside a transaction
it is answered from a `View`. The locks a transaction takes are held to its end,
so what matters of them is the state it commits into: `View.base` is that state,
`View.work` is it with the transaction's own statements applied, and only a plain
read under `repeatableRead` is answered from the older `View.snapshot`.

`Yields` is the weakest precondition of a piece of a transaction body and `Safe`
that of a whole program under a contract.
-/

namespace MibServer.Lib

inductive Isolation where
  | repeatableRead | serializable
deriving DecidableEq, Repr

/-- Programs with statements `Q`, replies `R`, errors `ε` and result `α`. -/
inductive Prog (Q : Type) (R : Q → Type) (ε α : Type) where
  | ret (a : α)
  | throw (e : ε)
  | stmt (q : Q) (k : R q → Prog Q R ε α)
  | start (isolation : Isolation) (p : Prog Q R ε α)
  | commit (p : Prog Q R ε α)

namespace Prog

variable {Q : Type} {R : Q → Type} {ε α β : Type}

def bind (p : Prog Q R ε α) (f : α → Prog Q R ε β) : Prog Q R ε β :=
  match p with
  | .ret a => f a
  | .throw e => .throw e
  | .stmt q k => .stmt q fun r => (k r).bind f
  | .start isolation p => .start isolation (p.bind f)
  | .commit p => .commit (p.bind f)

instance : Monad (Prog Q R ε) where
  pure := .ret
  bind := bind

@[simp] theorem ret_bind (a : α) (f : α → Prog Q R ε β) : (Prog.ret a).bind f = f a := rfl

@[simp] theorem throw_bind (e : ε) (f : α → Prog Q R ε β) : (Prog.throw e).bind f = .throw e := rfl

@[simp] theorem stmt_bind (q : Q) (k : R q → Prog Q R ε α) (f : α → Prog Q R ε β) :
    (Prog.stmt q k).bind f = .stmt q fun r => (k r).bind f := rfl

theorem bind_assoc {γ : Type} (p : Prog Q R ε α) (f : α → Prog Q R ε β) (g : β → Prog Q R ε γ) :
    (p.bind f).bind g = p.bind fun a => (f a).bind g := by
  induction p with
  | ret a => rfl
  | throw e => rfl
  | stmt q k ih => exact congrArg (Prog.stmt q) (funext ih)
  | start isolation p ih => exact congrArg (Prog.start isolation) ih
  | commit p ih => exact congrArg Prog.commit ih

@[simp] theorem pure_eq (a : α) : (pure a : Prog Q R ε α) = .ret a := rfl

@[simp] theorem bind_eq (p : Prog Q R ε α) (f : α → Prog Q R ε β) : p >>= f = p.bind f := rfl

/-- Run `body` in a transaction: a returned value commits it, a thrown error rolls
it back. -/
def transaction (isolation : Isolation) (body : Prog Q R ε α) : Prog Q R ε α :=
  .start isolation (body.bind fun a => .commit (.ret a))

/-- Statements of its own only. -/
def Plain : Prog Q R ε α → Prop
  | .ret _ | .throw _ => True
  | .stmt _ k => ∀ r, (k r).Plain
  | .start _ _ | .commit _ => False

theorem Plain.bind {p : Prog Q R ε α} {f : α → Prog Q R ε β} (hp : p.Plain)
    (hf : ∀ a, (f a).Plain) : (p.bind f).Plain := by
  induction p with
  | ret a => exact hf a
  | throw e => trivial
  | stmt q k ih => exact fun r => ih r (hp r)
  | start _ _ _ => exact hp.elim
  | commit _ _ => exact hp.elim

/-- The program ends with the commit it comes to. -/
def Closes : Prog Q R ε α → Prop
  | .ret _ | .throw _ => True
  | .stmt _ k => ∀ r, (k r).Closes
  | .start _ p => p.Closes
  | .commit p => ∃ a, p = .ret a

theorem Plain.bind_closes {p : Prog Q R ε α} {f : α → Prog Q R ε β} (hp : p.Plain)
    (hf : ∀ a, (f a).Closes) : (p.bind f).Closes := by
  induction p with
  | ret a => exact hf a
  | throw e => trivial
  | stmt q k ih => exact fun r => ih r (hp r)
  | start _ _ _ => exact hp.elim
  | commit _ _ => exact hp.elim

/-- A transaction at the end of a program. -/
theorem closes_transaction {isolation : Isolation} {body : Prog Q R ε α} (h : body.Plain) :
    (transaction isolation body).Closes :=
  h.bind_closes fun a => ⟨a, rfl⟩

/-- The value of a finished program. -/
def result? : Prog Q R ε α → Option α
  | .ret a => some a
  | _ => none

theorem result?_eq_some {p : Prog Q R ε α} {a : α} : p.result? = some a ↔ p = .ret a := by
  cases p <;> simp [result?]

def error? : Prog Q R ε α → Option ε
  | .throw e => some e
  | _ => none

theorem error?_eq_some {p : Prog Q R ε α} {e : ε} : p.error? = some e ↔ p = .throw e := by
  cases p <;> simp [error?]

end Prog

/-! ### Statements -/

/-- What statements do. `read q env snapshot base work` is the reply of a consistent
read: the rows of the snapshot, but for those the transaction itself has changed
between `base` and `work`. -/
structure Engine (σ Q : Type) (R : Q → Type) (Env : Type) where
  exec : (q : Q) → Env → σ → R q × σ
  plainRead : Q → Bool
  read : (q : Q) → Env → σ → σ → σ → R q

/-- The rows a consistent read sees: a row that `work` has changed as it is there, any
other row of the snapshot as it is there, and the rows `work` has inserted. -/
def overlay {Row K : Type} [DecidableEq Row] [DecidableEq K] (key : Row → K)
    (snapshot base work : List Row) : List Row :=
  let own := work.filter fun r => r ∉ base
  snapshot.map (fun r => (own.find? fun r' => key r' = key r).getD r) ++
    own.filter fun r => key r ∉ snapshot.map key

/-- Before the transaction has changed a row it sees the snapshot. -/
@[simp] theorem overlay_self {Row K : Type} [DecidableEq Row] [DecidableEq K] (key : Row → K)
    (snapshot base : List Row) : overlay key snapshot base base = snapshot := by
  have hown : (base.filter fun r => r ∉ base) = [] := by
    simp [List.filter_eq_nil_iff]
  simp only [overlay, hown]
  simp

/-- A transaction that has rewritten rows of its snapshot in place sees them as it has
left them. -/
theorem overlay_map {Row K : Type} [DecidableEq Row] [DecidableEq K] {key : Row → K}
    {base : List Row} {f : Row → Row} (hkey : ∀ r ∈ base, key (f r) = key r)
    (hunique : ∀ r ∈ base, ∀ r' ∈ base, key r = key r' → r = r') :
    overlay key base base (base.map f) = base.map f := by
  have hinserted : ((base.map f).filter fun r => r ∉ base).filter
      (fun r => key r ∉ base.map key) = [] := by
    rw [List.filter_eq_nil_iff]
    intro r hr
    obtain ⟨r₀, hr₀, rfl⟩ := List.mem_map.mp (List.mem_filter.mp hr).1
    simpa [hkey r₀ hr₀] using ⟨r₀, hr₀, rfl⟩
  -- A rewritten row is the only one of its key.
  have hrow : ∀ r ∈ base,
      (((base.map f).filter fun r => r ∉ base).find? fun r' => key r' = key r).getD r = f r := by
    intro r hr
    cases hfind : ((base.map f).filter fun r => r ∉ base).find? fun r' => key r' = key r with
    | none =>
        refine Classical.byContradiction fun hne => ?_
        have hchanged : f r ∉ base := fun hmem => hne (hunique r hr _ hmem (hkey r hr).symm)
        have hmiss := List.find?_eq_none.mp hfind (f r)
          (List.mem_filter.mpr ⟨List.mem_map.mpr ⟨r, hr, rfl⟩, by simpa using hchanged⟩)
        simp [hkey r hr] at hmiss
    | some r' =>
        have hsame : key r' = key r := by simpa using List.find?_some hfind
        obtain ⟨r₀, hr₀, rfl⟩ :=
          List.mem_map.mp (List.mem_filter.mp (List.mem_of_find?_eq_some hfind)).1
        rw [hunique r₀ hr₀ r hr ((hkey r₀ hr₀).symm.trans hsame), Option.getD_some]
  simp only [overlay, hinserted, List.append_nil]
  exact List.map_congr_left hrow

/-- Of the rows with the key of a row it has changed or inserted, a transaction sees its
own. -/
theorem mem_overlay_own {Row K : Type} [DecidableEq Row] [DecidableEq K] {key : Row → K}
    {snapshot base work : List Row} {r : Row} (h : r ∈ overlay key snapshot base work)
    (hown : ∃ r' ∈ work, r' ∉ base ∧ key r' = key r) : r ∈ work := by
  have hmem : ∀ r', r' ∈ work.filter (fun r => r ∉ base) → r' ∈ work :=
    fun r' hr' => (List.mem_filter.mp hr').1
  simp only [overlay] at h
  rcases List.mem_append.mp h with h | h
  · obtain ⟨r₀, -, hr₀⟩ := List.mem_map.mp h
    cases hfind : (work.filter fun r => r ∉ base).find? fun r' => key r' = key r₀ with
    | some r' =>
        rw [hfind, Option.getD_some] at hr₀
        exact hr₀ ▸ hmem r' (List.mem_of_find?_eq_some hfind)
    | none =>
        rw [hfind, Option.getD_none] at hr₀
        obtain ⟨r', hr', hchanged, hkey⟩ := hown
        have hmiss := List.find?_eq_none.mp hfind r'
          (List.mem_filter.mpr ⟨hr', by simpa using hchanged⟩)
        exact absurd (by simpa [hr₀] using hkey) hmiss
  · exact hmem r (List.mem_filter.mp h).1

/-- The states a statement inside a transaction is answered from. -/
structure View (σ : Type) where
  isolation : Isolation
  snapshot : σ
  base : σ
  work : σ

variable {σ Q : Type} {R : Q → Type} {Env ε α β : Type}

/-- The reply of a statement inside a transaction, and the working state after it. -/
def Engine.answer (E : Engine σ Q R Env) (v : View σ) (q : Q) (env : Env) : R q × σ :=
  if E.plainRead q && v.isolation == .repeatableRead then
    (E.read q env v.snapshot v.base v.work, v.work)
  else E.exec q env v.work

theorem Engine.answer_current {E : Engine σ Q R Env} {v : View σ} {q : Q} (env : Env)
    (h : E.plainRead q = false) : E.answer v q env = E.exec q env v.work := by
  simp [Engine.answer, h]

theorem Engine.answer_serializable {E : Engine σ Q R Env} {v : View σ} {q : Q} (env : Env)
    (h : v.isolation = .serializable) : E.answer v q env = E.exec q env v.work := by
  simp [Engine.answer, h]

/-- The view after a statement has left the working state `work`. -/
def View.at (v : View σ) (work : σ) : View σ := { v with work }

/-- A transaction that has just started on `base`. -/
def View.initial (isolation : Isolation) (snapshot base : σ) : View σ :=
  { isolation, snapshot, base, work := base }

namespace Prog

/-- Run inside a transaction from `v`, whatever its environment, this piece of a
body can only return a value and a working state that satisfy `post`. -/
def Yields (E : Engine σ Q R Env) (post : α → σ → Prop) : View σ → Prog Q R ε α → Prop
  | v, .ret a => post a v.work
  | _, .throw _ => True
  | v, .stmt q k => ∀ env, (k (E.answer v q env).1).Yields E post (v.at (E.answer v q env).2)
  | _, .start _ _ => False
  | _, .commit _ => False

variable {E : Engine σ Q R Env}

theorem Yields.mono {post post' : α → σ → Prop} {p : Prog Q R ε α} {v : View σ}
    (h : p.Yields E post v) (himp : ∀ a w, post a w → post' a w) : p.Yields E post' v := by
  induction p generalizing v with
  | ret a => exact himp a v.work h
  | throw e => trivial
  | stmt q k ih => exact fun env => ih _ (h env)
  | start _ _ _ => exact h
  | commit _ _ => exact h

theorem Yields.and {post post' : α → σ → Prop} {p : Prog Q R ε α} {v : View σ}
    (h : p.Yields E post v) (h' : p.Yields E post' v) : p.Yields E (fun a w => post a w ∧ post' a w) v := by
  induction p generalizing v with
  | ret a => exact ⟨h, h'⟩
  | throw e => trivial
  | stmt q k ih => exact fun env => ih _ (h env) (h' env)
  | start _ _ _ => exact h
  | commit _ _ => exact h

/-- Sequencing: what the first piece leaves is where the second one starts. -/
theorem Yields.bind {post : β → σ → Prop} {p : Prog Q R ε α} {f : α → Prog Q R ε β} {v : View σ}
    (h : p.Yields E (fun a w => (f a).Yields E post (v.at w)) v) : (p.bind f).Yields E post v := by
  induction p generalizing v with
  | ret a => exact h
  | throw e => trivial
  | stmt q k ih => exact fun env => ih _ (h env)
  | start _ _ _ => exact h.elim
  | commit _ _ => exact h.elim

end Prog

/-! ### Contracts -/

/-- A commit: of the call `call`, with `prog` left of its program before and `rest`
after, into `base`, leaving `work`. -/
structure Commit (σ C P : Type) where
  call : C
  prog : P
  snapshot : σ
  base : σ
  work : σ
  rest : P

/-- What the calls of a system promise each other: `evolves` relates a committed
state to every later one, `post` says what a commit does. -/
structure Contract (σ C P : Type) where
  inv : σ → Prop
  evolves : σ → σ → Prop
  refl : ∀ s, evolves s s
  trans : ∀ {a b c}, evolves a b → evolves b c → evolves a c
  post : Commit σ C P → Prop
  /-- The calls the contract is about. -/
  calls : C → Prop

/-- The same promises, with another account of what a commit does. -/
def Contract.withPost {C P : Type} (K : Contract σ C P) (post : Commit σ C P → Prop) :
    Contract σ C P :=
  { K with post }

/-- A commit under a contract. -/
structure Contract.Commits {C P : Type} (K : Contract σ C P) (m : Commit σ C P) : Prop where
  inv : K.inv m.work
  evolves : K.evolves m.base m.work
  post : K.post m

/-- The call may leave the state alone. -/
def Contract.Idle {C P : Type} (K : Contract σ C P) (c : C) : Prop :=
  ∀ prog snapshot base rest, K.inv base → K.post ⟨c, prog, snapshot, base, base, rest⟩

namespace Prog

variable {C : Type}

/-- Every commit the program can make, of a transaction or of a statement of its
own, meets the contract. With a view the program is inside a transaction. -/
def Safe (E : Engine σ Q R Env) (K : Contract σ C (Prog Q R ε α)) (c : C) :
    Option (View σ) → Prog Q R ε α → Prop
  | none, .ret _ => True
  | some _, .ret _ => False
  | _, .throw _ => True
  | none, .stmt q k => ∀ env s, K.inv s →
      K.Commits ⟨c, .stmt q k, s, s, (E.exec q env s).2, k (E.exec q env s).1⟩ ∧
        (k (E.exec q env s).1).Safe E K c none
  | some v, .stmt q k => ∀ env, (k (E.answer v q env).1).Safe E K c (some (v.at (E.answer v q env).2))
  | none, .start isolation p => ∀ snapshot base, K.inv snapshot → K.evolves snapshot base →
      K.inv base → p.Safe E K c (some (View.initial isolation snapshot base))
  | some _, .start _ _ => False
  | none, .commit _ => False
  | some v, .commit p => K.Commits ⟨c, .commit p, v.snapshot, v.base, v.work, p⟩ ∧ p.Safe E K c none

variable {E : Engine σ Q R Env} {K : Contract σ C (Prog Q R ε α)} {c : C}

/-- The same commits under a weaker postcondition. -/
theorem Safe.mono {post : Commit σ C (Prog Q R ε α) → Prop} {calls : C → Prop}
    {p : Prog Q R ε α} {view : Option (View σ)} (h : p.Safe E K c view)
    (himp : ∀ m, m.call = c → K.post m → post m) : p.Safe E { K with post, calls } c view := by
  induction p generalizing view with
  | ret a => cases view <;> exact h
  | throw e => cases view <;> trivial
  | stmt q k ih =>
      cases view with
      | none =>
          intro env s hs
          obtain ⟨hcommits, hrest⟩ := h env s hs
          exact ⟨⟨hcommits.inv, hcommits.evolves, himp _ rfl hcommits.post⟩, ih _ hrest⟩
      | some v => exact fun env => ih _ (h env)
  | start isolation p ih =>
      cases view with
      | none => exact fun snapshot base hs hevolves hb => ih (h snapshot base hs hevolves hb)
      | some v => exact h
  | commit p ih =>
      cases view with
      | none => exact h
      | some v =>
          obtain ⟨hcommits, hrest⟩ := h
          exact ⟨⟨hcommits.inv, hcommits.evolves, himp _ rfl hcommits.post⟩, ih hrest⟩

/-- The same commits under two postconditions. -/
theorem Safe.and {post : Commit σ C (Prog Q R ε α) → Prop} {p : Prog Q R ε α} {view : Option (View σ)}
    (h : p.Safe E K c view) (h' : p.Safe E (K.withPost post) c view) :
    p.Safe E (K.withPost fun m => K.post m ∧ post m) c view := by
  induction p generalizing view with
  | ret a => cases view <;> exact h
  | throw e => cases view <;> trivial
  | stmt q k ih =>
      cases view with
      | none =>
          intro env s hs
          obtain ⟨hcommits, hrest⟩ := h env s hs
          obtain ⟨hcommits', hrest'⟩ := h' env s hs
          exact ⟨⟨hcommits.inv, hcommits.evolves, hcommits.post, hcommits'.post⟩, ih _ hrest hrest'⟩
      | some v => exact fun env => ih _ (h env) (h' env)
  | start isolation p ih =>
      cases view with
      | none =>
          exact fun snapshot base hs hevolves hb =>
            ih (h snapshot base hs hevolves hb) (h' snapshot base hs hevolves hb)
      | some v => exact h
  | commit p ih =>
      cases view with
      | none => exact h
      | some v =>
          obtain ⟨hcommits, hrest⟩ := h
          obtain ⟨hcommits', hrest'⟩ := h'
          exact ⟨⟨hcommits.inv, hcommits.evolves, hcommits.post, hcommits'.post⟩, ih hrest hrest'⟩

/-- A statement of its own that leaves the state alone. -/
theorem Safe.quiet {q : Q} {k : R q → Prog Q R ε α} (hidle : K.Idle c)
    (hexec : ∀ env s, (E.exec q env s).2 = s) (h : ∀ r, (k r).Safe E K c none) :
    (Prog.stmt q k).Safe E K c none := by
  intro env s hs
  rw [hexec]
  exact ⟨⟨hs, K.refl s, hidle _ _ _ _ hs⟩, h _⟩

/-- A piece of a body before the rest of it. -/
theorem Safe.within {p : Prog Q R ε β} {f : β → Prog Q R ε α} {v : View σ}
    (h : p.Yields E (fun a w => (f a).Safe E K c (some (v.at w))) v) :
    (p.bind f).Safe E K c (some v) := by
  induction p generalizing v with
  | ret a => exact h
  | throw e => trivial
  | stmt q k ih => exact fun env => ih _ (h env)
  | start _ _ _ => exact h.elim
  | commit _ _ => exact h.elim

/-- **The transaction rule**: a program that runs one transaction is safe when its
body, run on any state it may commit into, meets the contract. -/
theorem Safe.transaction {isolation : Isolation} {body : Prog Q R ε α}
    (h : ∀ snapshot base, K.inv snapshot → K.evolves snapshot base → K.inv base →
      body.Yields E (fun a w => K.Commits ⟨c, .commit (.ret a), snapshot, base, w, .ret a⟩)
        (View.initial isolation snapshot base)) :
    (Prog.transaction isolation body).Safe E K c none := by
  intro snapshot base hsnapshot hevolves hbase
  refine Safe.within ((h snapshot base hsnapshot hevolves hbase).mono fun a w hcommits => ?_)
  exact ⟨hcommits, trivial⟩

end Prog

end MibServer.Lib
