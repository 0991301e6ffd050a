import MibServer.Http
import MibServer.Lib.Index
import MibServer.Lib.Failure
import MibServer.Lib.Sequential

/-!
The Prisma client as the services use it: every call of a model operation is one
statement on the tables of a component.

Reads are on plain rows, so that a consistent read may mix the rows of two states;
writes go through the unique indexes. The clock and random bytes are statements too:
what they return is part of a call's environment.
-/

namespace MibServer.Prisma

open MibServer.Lib

inductive DbError where
  | uniqueViolation | other
deriving DecidableEq, Repr

def isPrismaUniqueViolation (e : DbError) : Bool := e == .uniqueViolation

/-- What a statement takes from outside: the time, random bytes, and whether the
database fails it for a reason of its own (a lost connection, a deadlock, a value out
of range). -/
structure Env where
  now : Int := 0
  random : String := ""
  fault : Bool := false

inductive Stmt (Read Write : Type) where
  | now
  | random
  | read (r : Read)
  | write (w : Write)

variable {Db Rows Read Write : Type} {ReadRow : Read → Type} {WriteRow : Write → Type}

@[reducible] def Stmt.Reply (ReadRow : Read → Type) (WriteRow : Write → Type) :
    Stmt Read Write → Type
  | .now => Int
  | .random => String
  | .read r => Except DbError (ReadRow r)
  | .write w => Except DbError (WriteRow w)

instance [hr : ∀ r, DecidableEq (ReadRow r)] [hw : ∀ w, DecidableEq (WriteRow w)] :
    (q : Stmt Read Write) → DecidableEq (q.Reply ReadRow WriteRow)
  | .now => inferInstanceAs (DecidableEq Int)
  | .random => inferInstanceAs (DecidableEq String)
  | .read r => have := hr r; inferInstanceAs (DecidableEq (Except DbError (ReadRow r)))
  | .write w => have := hw w; inferInstanceAs (DecidableEq (Except DbError (WriteRow w)))

/-- The tables of a component. `visible snapshot base work` are the rows a consistent
read sees in a transaction that has changed `base` into `work`. -/
structure Client (Db Rows Read Write : Type) (ReadRow : Read → Type) (WriteRow : Write → Type) where
  rows : Db → Rows
  find : Rows → (r : Read) → ReadRow r
  visible : Rows → Rows → Rows → Rows
  visible_self : ∀ snapshot base, visible snapshot base base = snapshot
  write : Db → (w : Write) → Except DbError (WriteRow w) × Db

namespace Client

variable (client : Client Db Rows Read Write ReadRow WriteRow)

/-- One statement on the current rows. -/
def exec (db : Db) (env : Env) : (q : Stmt Read Write) → q.Reply ReadRow WriteRow × Db
  | .now => (env.now, db)
  | .random => (env.random, db)
  | .read r => (if env.fault then .error .other else .ok (client.find (client.rows db) r), db)
  | .write w => if env.fault then (.error .other, db) else client.write db w

/-- One consistent read. -/
def snapshotRead (env : Env) (snapshot base work : Db) :
    (q : Stmt Read Write) → q.Reply ReadRow WriteRow
  | .read r =>
      if env.fault then .error .other
      else .ok (client.find
        (client.visible (client.rows snapshot) (client.rows base) (client.rows work)) r)
  | q => (client.exec work env q).1

def engine : Engine Db (Stmt Read Write) (Stmt.Reply ReadRow WriteRow) Env where
  exec q env db := client.exec db env q
  plainRead
    | .read _ => true
    | _ => false
  read q env snapshot base work := client.snapshotRead env snapshot base work q

end Client

/-! ### Programs -/

abbrev DbProg (ReadRow : Read → Type) (WriteRow : Write → Type) (α : Type) :=
  Prog (Stmt Read Write) (Stmt.Reply ReadRow WriteRow) HttpException α

def query (q : Stmt Read Write) : DbProg ReadRow WriteRow (q.Reply ReadRow WriteRow) := .stmt q .ret

/-- An error of the database that nothing catches. -/
def orRethrow {α : Type} : Except DbError α → DbProg ReadRow WriteRow α
  | .ok a => .ret a
  | .error _ => .throw .internal

/-- A read whose error nothing catches. -/
def find (r : Read) : DbProg ReadRow WriteRow (ReadRow r) :=
  (query (.read r)).bind orRethrow

theorem plain_find (r : Read) : (find r : DbProg ReadRow WriteRow (ReadRow r)).Plain := by
  intro reply
  cases reply <;> trivial

/-- A date column given an Invalid Date: Prisma rejects the call. -/
def dateOrReject (date : JsDate) : DbProg ReadRow WriteRow Int :=
  match date with
  | some t => .ret t
  | none => .throw .internal

/-! ### One statement inside a transaction -/

section Statements

variable {client : Client Db Rows Read Write ReadRow WriteRow} {α : Type} {v : View Db}
  {post : α → Db → Prop}

/-- The rows a plain read sees from a view. -/
def Client.seen (client : Client Db Rows Read Write ReadRow WriteRow) (v : View Db) : Rows :=
  if v.isolation = .repeatableRead then
    client.visible (client.rows v.snapshot) (client.rows v.base) (client.rows v.work)
  else client.rows v.work

theorem Client.seen_serializable (h : v.isolation = .serializable) :
    client.seen v = client.rows v.work := by
  simp [Client.seen, h]

/-- Before its first write a transaction sees its snapshot. -/
theorem Client.seen_initial (snapshot base : Db) :
    client.seen (View.initial .repeatableRead snapshot base) = client.rows snapshot := by
  simp [Client.seen, View.initial, client.visible_self]

theorem Client.answer_read (client : Client Db Rows Read Write ReadRow WriteRow) (v : View Db)
    (r : Read) (env : Env) : client.engine.answer v (.read r) env =
      (if env.fault then .error .other else .ok (client.find (client.seen v) r), v.work) := by
  cases hv : v.isolation <;>
    simp [Engine.answer, Client.engine, Client.seen, hv, Client.snapshotRead, Client.exec]

theorem Client.answer_write (client : Client Db Rows Read Write ReadRow WriteRow) (v : View Db)
    (w : Write) (env : Env) : client.engine.answer v (.write w) env =
      if env.fault then (.error .other, v.work) else client.write v.work w :=
  client.engine.answer_current env rfl

theorem yields_now {k : Int → DbProg ReadRow WriteRow α}
    (h : ∀ now, (k now).Yields client.engine post v) :
    (Prog.stmt .now k : DbProg ReadRow WriteRow α).Yields client.engine post v :=
  fun env => h env.now

theorem yields_random {k : String → DbProg ReadRow WriteRow α}
    (h : ∀ random, (k random).Yields client.engine post v) :
    (Prog.stmt .random k : DbProg ReadRow WriteRow α).Yields client.engine post v :=
  fun env => h env.random

theorem yields_find {r : Read} {k : ReadRow r → DbProg ReadRow WriteRow α}
    (h : (k (client.find (client.seen v) r)).Yields client.engine post v) :
    ((find r).bind k).Yields client.engine post v := by
  intro env
  rw [client.answer_read]
  cases env.fault with
  | true => trivial
  | false => exact h

/-- A write that fails leaves the rows alone. -/
theorem yields_write {w : Write} {k : Except DbError (WriteRow w) → DbProg ReadRow WriteRow α}
    (hfault : (k (.error .other)).Yields client.engine post v)
    (hwrite : (k (client.write v.work w).1).Yields client.engine post
      (v.at (client.write v.work w).2)) :
    (Prog.stmt (.write w) k : DbProg ReadRow WriteRow α).Yields client.engine post v := by
  intro env
  rw [client.answer_write]
  cases env.fault with
  | true => exact hfault
  | false => exact hwrite

end Statements

/-! ### One statement of its own -/

section Statements

variable {client : Client Db Rows Read Write ReadRow WriteRow} {α C : Type}
  {K : Contract Db C (DbProg ReadRow WriteRow α)} {c : C}

theorem safe_now {k : Int → DbProg ReadRow WriteRow α} (hidle : K.Idle c)
    (h : ∀ now, (k now).Safe client.engine K c none) :
    (Prog.stmt .now k : DbProg ReadRow WriteRow α).Safe client.engine K c none :=
  .quiet hidle (fun _ _ => rfl) h

theorem safe_random {k : String → DbProg ReadRow WriteRow α} (hidle : K.Idle c)
    (h : ∀ random, (k random).Safe client.engine K c none) :
    (Prog.stmt .random k : DbProg ReadRow WriteRow α).Safe client.engine K c none :=
  .quiet hidle (fun _ _ => rfl) h

theorem safe_find {r : Read} {k : ReadRow r → DbProg ReadRow WriteRow α} (hidle : K.Idle c)
    (h : ∀ row, (k row).Safe client.engine K c none) :
    ((find r).bind k).Safe client.engine K c none := by
  refine .quiet hidle (fun _ _ => rfl) fun reply => ?_
  cases reply with
  | error _ => trivial
  | ok row => exact h row

theorem safe_write {w : Write} {k : Except DbError (WriteRow w) → DbProg ReadRow WriteRow α}
    (hidle : K.Idle c) (hfault : (k (.error .other)).Safe client.engine K c none)
    (hwrite : ∀ db, K.inv db →
      K.Commits ⟨c, .stmt (.write w) k, db, db, (client.write db w).2, k (client.write db w).1⟩ ∧
        (k (client.write db w).1).Safe client.engine K c none) :
    (Prog.stmt (.write w) k : DbProg ReadRow WriteRow α).Safe client.engine K c none := by
  intro env db hdb
  have hexec : client.engine.exec (.write w) env db =
      if env.fault then (.error .other, db) else client.write db w := rfl
  rw [hexec]
  cases env.fault with
  | true => exact ⟨⟨hdb, K.refl db, hidle _ _ _ _ hdb⟩, hfault⟩
  | false => exact hwrite db hdb

end Statements

/-! ### A read run alone -/

section Alone

variable {client : Client Db Rows Read Write ReadRow WriteRow} {α : Type}

/-- A read that the database fails ends the call; else it goes on with the row found. -/
theorem alone_find {r : Read} {k : ReadRow r → DbProg ReadRow WriteRow α} {supply : Nat → Env} {db : Db} :
    ((find r).bind k).alone client.engine none supply db =
      if (supply 0).fault then (.error .internal, db)
      else (k (client.find (client.rows db) r)).alone client.engine none (fun n => supply (n + 1)) db := by
  show ((orRethrow (if (supply 0).fault then .error .other
    else .ok (client.find (client.rows db) r))).bind k).alone client.engine none _ db = _
  cases (supply 0).fault <;> rfl

end Alone

/-! ### Statements that do not fail -/

/-- The database does not fail the statement. -/
def Env.Faultless (env : Env) : Prop := env.fault = false

section Faultless

variable {client : Client Db Rows Read Write ReadRow WriteRow} {α : Type} {v : View Db}
  {post : α → Db → Prop}

theorem ensures_find {r : Read} {k : ReadRow r → DbProg ReadRow WriteRow α}
    (h : (k (client.find (client.seen v) r)).Ensures client.engine Env.Faultless post v) :
    ((find r).bind k).Ensures client.engine Env.Faultless post v := by
  intro env henv
  rw [client.answer_read, show env.fault = false from henv]
  exact h

theorem ensures_write {w : Write} {k : Except DbError (WriteRow w) → DbProg ReadRow WriteRow α}
    (h : (k (client.write v.work w).1).Ensures client.engine Env.Faultless post
      (v.at (client.write v.work w).2)) :
    (Prog.stmt (.write w) k : DbProg ReadRow WriteRow α).Ensures client.engine Env.Faultless post v := by
  intro env henv
  rw [client.answer_write, show env.fault = false from henv]
  exact h

end Faultless

end MibServer.Prisma
