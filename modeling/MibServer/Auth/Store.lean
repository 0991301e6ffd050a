import MibServer.Lib.History
import MibServer.Lib.Index
import MibServer.Redis
import MibServer.Tenancy.Extension

/-!
The users table, the keyspace in Redis, and the statements of the authentication services.

A statement is one Prisma call, one Redis command, or a call of `bcrypt`, `randomUUID` or
the clock. A statement that fails is not modelled apart: nothing in these services catches
an error, so it is a call that fails before the statement or after it.

The text columns are `utf8mb4_unicode_ci`: the database compares a username or the code of a
tenant up to case, accents and trailing blanks, while the keys of Redis are the texts as they
are. What is compared of a text is a parameter; an id is always one that the database made, and
is compared as it is.
-/

namespace MibServer.Auth

open MibServer.Lib MibServer.Redis MibServer.Tenancy

/-- A `uuid()`. -/
abbrev Uuid := { id : String // id ≠ "" }

/-- A row of `User`; the timestamps are left out. -/
structure User where
  id : Uuid
  tenantId : Option String
  username : String
  passwordHash : String
  role : UserRole := .STAFF
  tokenVersion : Nat := 0
deriving DecidableEq

inductive UserKey where
  | id (id : Uuid)
  | account (tenantId username : String)
deriving DecidableEq

/-- The primary key and `@@unique([tenantId, username])`; what an insert compares beside it is
said by `User.isAccount`. -/
def User.keys (u : User) : List UserKey :=
  .id u.id :: (u.tenantId.map fun tenantId => UserKey.account tenantId u.username).toList

structure Tenant where
  id : String
  code : String
deriving DecidableEq

structure Db where
  redis : Keyspace Nat
  tenants : List Tenant
  users : Indexed User UserKey User.keys

/-! ### Statements -/

inductive Stmt where
  | redis (c : Command)
  | findTenant (code : String)
  | findUserByAccount (scope : Option TenantWhereClause) (tenantId username : String)
  | findUserById (scope : Option TenantWhereClause) (id : String)
  | createUser (tenantId username passwordHash : String) (role : UserRole)
  | updatePassword (scope : Option TenantWhereClause) (id passwordHash : String)
  | compare (password passwordHash : String)
  | hash (password : String)
  | randomUUID
  | now
  /-- Time passes. -/
  | pass (milliseconds : Nat)
deriving DecidableEq

/-- A write replies `none` where it fails on a unique index or on a missing row. -/
@[reducible] def Stmt.Reply : Stmt → Type
  | .redis c => c.Reply
  | .findTenant _ => Option Tenant
  | .findUserByAccount _ _ _ | .findUserById _ _ => Option User
  | .createUser _ _ _ _ | .updatePassword _ _ _ => Option User
  | .compare _ _ => Bool
  | .hash _ => String
  | .randomUUID => Uuid
  | .now => Nat
  | .pass _ => Unit

instance : (q : Stmt) → DecidableEq q.Reply
  | .redis c => inferInstanceAs (DecidableEq c.Reply)
  | .findTenant _ => inferInstanceAs (DecidableEq (Option Tenant))
  | .findUserByAccount _ _ _ | .findUserById _ _ => inferInstanceAs (DecidableEq (Option User))
  | .createUser _ _ _ _ | .updatePassword _ _ _ => inferInstanceAs (DecidableEq (Option User))
  | .compare _ _ => inferInstanceAs (DecidableEq Bool)
  | .hash _ => inferInstanceAs (DecidableEq String)
  | .randomUUID => inferInstanceAs (DecidableEq Uuid)
  | .now => inferInstanceAs (DecidableEq Nat)
  | .pass _ => inferInstanceAs (DecidableEq Unit)

def someUuid : Uuid := ⟨"00000000-0000-4000-8000-000000000000", by decide⟩

/-- What a statement takes from outside: random bytes. -/
structure Env where
  uuid : Uuid := someUuid
  salt : String := ""

/-- What the services run on: `bcrypt`, how Redis rounds a time to live to seconds, and what the
database compares of a text. -/
structure Platform where
  compare : String → String → Bool
  hash : String → String → String
  ttlSeconds : Nat → Nat
  collate : String → String

/-- The database takes the texts for one. -/
def Platform.sameText (platform : Platform) (s s' : String) : Bool :=
  platform.collate s = platform.collate s'

@[simp] theorem Platform.sameText_self (platform : Platform) (s : String) :
    platform.sameText s s = true := by
  simp [Platform.sameText]

/-- Case alone is left out; of the texts below nothing else is. -/
def lowerCase (s : String) : String := String.ofList (s.toList.map Char.toLower)

/-- The user has this `[tenantId, username]`, as the database compares them. -/
def User.isAccount (platform : Platform) (tenantId username : String) (u : User) : Bool :=
  u.tenantId = some tenantId && platform.sameText u.username username

def Db.findUser (db : Db) (scope : Option TenantWhereClause) (p : User → Bool) : Option User :=
  db.users.rows.find? fun u => p u && inScope scope u.tenantId

/-- `tokenVersion: { increment: 1 }`, with the new hash. -/
def User.withPassword (u : User) (passwordHash : String) : User :=
  { u with passwordHash, tokenVersion := u.tokenVersion + 1 }

def Db.createUser (platform : Platform) (db : Db) (u : User) : Option User × Db :=
  if u.tenantId.any fun tenantId => db.users.rows.any (User.isAccount platform tenantId u.username) then
    (none, db)
  else
    match db.users.insert? u with
    | some users => (some u, { db with users })
    | none => (none, db)

def Db.setPassword (db : Db) (id : Uuid) (passwordHash : String) : Db :=
  { db with users := db.users.modify (·.id = id) (·.withPassword passwordHash) (fun _ => rfl) }

/-- An update by the primary key. -/
def Db.updatePassword (db : Db) (scope : Option TenantWhereClause) (id passwordHash : String) :
    Option User × Db :=
  match db.findUser scope fun u => u.id.1 = id with
  | some u => (some (u.withPassword passwordHash), db.setPassword u.id passwordHash)
  | none => (none, db)

def Db.exec (platform : Platform) (db : Db) (env : Env) : (q : Stmt) → q.Reply × Db
  | .redis c =>
      let r := db.redis.exec platform.ttlSeconds c
      (r.1, { db with redis := r.2 })
  | .findTenant code => (db.tenants.find? fun t => platform.sameText t.code code, db)
  | .findUserByAccount scope tenantId username =>
      (db.findUser scope (User.isAccount platform tenantId username), db)
  | .findUserById scope id => (db.findUser scope fun u => u.id.1 = id, db)
  | .createUser tenantId username passwordHash role =>
      db.createUser platform { id := env.uuid, tenantId := some tenantId, username, passwordHash, role }
  | .updatePassword scope id passwordHash => db.updatePassword scope id passwordHash
  | .compare password passwordHash => (platform.compare password passwordHash, db)
  | .hash password => (platform.hash env.salt password, db)
  | .randomUUID => (env.uuid, db)
  | .now => (db.redis.now, db)
  | .pass milliseconds => ((), { db with redis := { db.redis with now := db.redis.now + milliseconds } })

/-- Every statement of these services is one of its own. -/
def Platform.engine (platform : Platform) : Engine Db Stmt Stmt.Reply Env where
  exec q env db := db.exec platform env q
  plainRead _ := false
  read q env _ _ work := (work.exec platform env q).1

/-! ### What a statement leaves alone -/

variable {platform : Platform} {db : Db} {env : Env}

/-- The keys of Redis a statement may write. -/
def Stmt.writes : Stmt → List String
  | .redis c => c.writes
  | _ => []

theorem Db.createUser_cases (platform : Platform) (db : Db) (u : User) :
    db.createUser platform u = (none, db) ∨
      ∃ users, db.users.insert? u = some users ∧
        db.createUser platform u = (some u, { db with users }) := by
  unfold Db.createUser
  split
  · exact Or.inl rfl
  · cases hinsert : db.users.insert? u with
    | none => exact Or.inl rfl
    | some users => exact Or.inr ⟨users, rfl, rfl⟩

theorem Db.createUser_redis (u : User) : (db.createUser platform u).2.redis = db.redis := by
  rcases db.createUser_cases platform u with hnone | ⟨users, -, hsome⟩
  · rw [hnone]
  · rw [hsome]

theorem Db.updatePassword_redis (scope : Option TenantWhereClause) (id passwordHash : String) :
    (db.updatePassword scope id passwordHash).2.redis = db.redis := by
  unfold Db.updatePassword
  split
  · rfl
  · rfl

/-- A key no command of the statement writes. -/
theorem exec_redis_entries {q : Stmt} {key : String} (h : key ∉ q.writes) :
    (db.exec platform env q).2.redis.entries key = db.redis.entries key := by
  cases q with
  | redis c => exact exec_entries h
  | createUser _ _ _ _ => exact congrArg (·.entries key) (Db.createUser_redis _)
  | updatePassword _ _ _ => exact congrArg (·.entries key) (Db.updatePassword_redis _ _ _)
  | _ => rfl

/-- The clock never goes back. -/
theorem exec_redis_now (q : Stmt) : db.redis.now ≤ (db.exec platform env q).2.redis.now := by
  cases q with
  | redis c => exact Nat.le_of_eq (exec_now c).symm
  | createUser _ _ _ _ => exact Nat.le_of_eq (congrArg Keyspace.now (Db.createUser_redis _)).symm
  | updatePassword _ _ _ =>
      exact Nat.le_of_eq (congrArg Keyspace.now (Db.updatePassword_redis _ _ _)).symm
  | pass milliseconds => exact Nat.le_add_right _ _
  | _ => exact Nat.le_refl _

end MibServer.Auth
