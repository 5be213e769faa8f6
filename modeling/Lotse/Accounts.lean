import Lotse.Rows

set_option autoImplicit false

/-!
# Users, sessions and passkeys

The account tables of the hub's store and the statements on them. Usernames, token
hashes, credential ids and passwords are opaque: the statements only compare them.
-/
namespace Lotse.Accounts
open Rows

inductive Role where
  | viewer
  | operator
  | admin
  deriving DecidableEq

def Role.rank : Role → ℕ
  | viewer => 1
  | operator => 2
  | admin => 3

def roleIncludes (role need : Role) : Bool := need.rank ≤ role.rank

def sessionTTL : ℕ := 30 * 24 * 3600
def elevationTTL : ℕ := 10 * 60

/-- A bcrypt hash matches the password it was generated from. -/
structure PasswordHash where
  password : ℕ
  salt : ℕ
  deriving DecidableEq

def passwordMatches (hash : PasswordHash) (password : ℕ) : Bool := hash.password = password

/-- `serial` and `version` are not stored: `serial` tells accounts apart that had the
same id one after the other, `version` counts the passwords of an account. -/
structure User where
  id : ℕ
  username : ℕ
  passwordHash : PasswordHash
  totp : Bool
  role : Role
  serial : ℕ
  version : ℕ
  deriving DecidableEq

def User.withRole (role : Role) (u : User) : User := { u with role := role }

def User.withPassword (hash : PasswordHash) (u : User) : User :=
  { u with passwordHash := hash, version := u.version + 1 }

def User.withTOTP (on : Bool) (u : User) : User := { u with totp := on }

def User.can (u : User) (role : Role) : Bool := roleIncludes u.role role

/-- What a sign-in verified: a password of an account or one of its passkeys. -/
inductive Credential where
  | password (serial version : ℕ)
  | passkey (serial registration : ℕ)
  deriving DecidableEq

/-- `proof` is not stored: it is what the sign-in that made the row had verified. -/
structure SessionRow where
  token : ℕ
  userID : ℕ
  expiresAt : ℕ
  elevatedUntil : ℕ
  proof : Credential
  deriving DecidableEq

/-- `serial` and `registration` are not stored: the account that registered the
passkey and the number of the registration. -/
structure Passkey where
  userID : ℕ
  credentialID : ℕ
  serial : ℕ
  registration : ℕ
  deriving DecidableEq

def SessionRow.elevate (time : ℕ) (row : SessionRow) : SessionRow := { row with elevatedUntil := time }

structure Session where
  user : User
  token : ℕ
  elevatedUntil : ℕ
  deriving DecidableEq

structure Store where
  users : List User
  sessions : List SessionRow
  passkeys : List Passkey
  serials : ℕ
  registrations : ℕ

namespace Store

def empty : Store := ⟨[], [], [], 0, 0⟩

def user (db : Store) (id : ℕ) : Option User := lookup User.id id db.users

def userByName (db : Store) (username : ℕ) : Option User := lookup User.username username db.users

def passkeyByCredential (db : Store) (credentialID : ℕ) : Option Passkey :=
  lookup Passkey.credentialID credentialID db.passkeys

def session (db : Store) (token now : ℕ) : Option Session := do
  let row ← lookup SessionRow.token token db.sessions
  let u ← db.user row.userID
  if now < row.expiresAt then some ⟨u, token, row.elevatedUntil⟩ else none

def admins (db : Store) : ℕ := (db.users.filter fun u => u.role = .admin).length

def createUser (db : Store) (username : ℕ) (hash : PasswordHash) (role : Role) : Option Store :=
  if (db.userByName username).isSome then none
  else some { db with
    users := db.users ++ [⟨nextId User.id db.users, username, hash, false, role, db.serials, 0⟩]
    serials := db.serials + 1 }

/-- The update and the check for the last administrator are one statement. It affects
no row when the user is unknown or the last administrator would be demoted. -/
def setRole (db : Store) (id : ℕ) (role : Role) : Option Store :=
  match db.user id with
  | none => none
  | some u =>
    if role = .admin ∨ u.role ≠ .admin ∨ 1 < db.admins then
      some { db with users := update User.id id (.withRole role) db.users }
    else none

/-- Sessions and passkeys go with the account, by `ON DELETE CASCADE`. -/
def deleteUser (db : Store) (id : ℕ) : Option Store :=
  match db.user id with
  | none => none
  | some u =>
    if u.role ≠ .admin ∨ 1 < db.admins then
      some { db with
        users := erase User.id id db.users
        sessions := db.sessions.filter fun row => row.userID ≠ id
        passkeys := db.passkeys.filter fun key => key.userID ≠ id }
    else none

def setPassword (db : Store) (id : ℕ) (hash : PasswordHash) : Store :=
  { db with users := update User.id id (.withPassword hash) db.users }

def setTOTP (db : Store) (id : ℕ) (on : Bool) : Store :=
  { db with users := update User.id id (.withTOTP on) db.users }

def createSession (db : Store) (token id expires : ℕ) (proof : Credential) : Option Store :=
  if (db.user id).isSome then
    some { db with sessions := db.sessions ++ [⟨token, id, expires, 0, proof⟩] }
  else none

def elevateSession (db : Store) (token time : ℕ) : Store :=
  { db with sessions := update SessionRow.token token (.elevate time) db.sessions }

/-- `DeleteSessions`, or `DeleteOtherSessions` when there is a session to keep. -/
def deleteSessions (db : Store) (id : ℕ) (keep : Option ℕ) : Store :=
  { db with sessions := db.sessions.filter fun row => ¬ (row.userID = id ∧ keep ≠ some row.token) }

def deleteSession (db : Store) (token : ℕ) : Store :=
  { db with sessions := erase SessionRow.token token db.sessions }

def createPasskey (db : Store) (id credentialID : ℕ) : Option Store :=
  match db.user id with
  | none => none
  | some u =>
    if (db.passkeyByCredential credentialID).isSome then none
    else some { db with
      passkeys := db.passkeys ++ [⟨id, credentialID, u.serial, db.registrations⟩]
      registrations := db.registrations + 1 }

def passkeysOf (db : Store) (id : ℕ) : List Passkey := db.passkeys.filter fun key => key.userID = id

def deletePasskeysOf (db : Store) (id : ℕ) : Store :=
  { db with passkeys := db.passkeys.filter fun key => key.userID ≠ id }

end Store

section users
variable {db db' : Store} {id other : ℕ} {role : Role} {u : User}

theorem user_id (h : db.user id = some u) : u.id = id := lookup_key h

theorem setRole_spec (h : db.setRole id role = some db') :
    db'.sessions = db.sessions ∧ db'.serials = db.serials ∧
      (∃ u, db.user id = some u ∧ db'.user id = some (u.withRole role)) ∧
      ∀ other, other ≠ id → db'.user other = db.user other := by
  unfold Store.setRole at h
  split at h
  · cases h
  · rename_i u hu
    split_ifs at h
    cases h
    refine ⟨rfl, rfl, ⟨u, hu, ?_⟩, ?_⟩
    · have hs := lookup_update_self (k := User.id) (f := .withRole role) (fun _ => rfl) id db.users
      exact hs.trans (congrArg (Option.map (User.withRole role)) hu)
    · intro other ho
      exact lookup_update_ne (k := User.id) (f := .withRole role) (fun _ => rfl) ho _

theorem deleteUser_spec (h : db.deleteUser id = some db') :
    db'.sessions = (db.sessions.filter fun row => row.userID ≠ id) ∧ db'.serials = db.serials ∧
      db'.user id = none ∧ ∀ other, other ≠ id → db'.user other = db.user other := by
  unfold Store.deleteUser at h
  split at h
  · cases h
  · split_ifs at h
    cases h
    exact ⟨rfl, rfl, lookup_erase_self _ _, fun _ ho => lookup_erase_ne ho _⟩

theorem createUser_spec {username : ℕ} {hash : PasswordHash}
    (h : db.createUser username hash role = some db') :
    db'.sessions = db.sessions ∧ db'.serials = db.serials + 1 ∧
      ∃ u, db'.users = db.users ++ [u] ∧ u.serial = db.serials ∧
        u.id = nextId User.id db.users := by
  unfold Store.createUser at h
  split_ifs at h
  cases h
  exact ⟨rfl, rfl, _, rfl, rfl, rfl⟩

theorem createUser_user {username : ℕ} {hash : PasswordHash}
    (h : db.createUser username hash role = some db') (hu : db.user id = some u) :
    db'.user id = some u := by
  obtain ⟨-, -, v, hv, -, hid⟩ := createUser_spec h
  have hne : v.id ≠ id := by
    intro he
    rw [← he, hid, Store.user, lookup_nextId] at hu
    cases hu
  rw [Store.user, hv, lookup_append_ne hne]
  exact hu

theorem setPassword_user (hash : PasswordHash) (other : ℕ) :
    (db.setPassword id hash).user other =
      (db.user other).map fun u => if u.id = id then u.withPassword hash else u :=
  lookup_update (k := User.id) (f := .withPassword hash) (fun _ => rfl) _ _ _

theorem setTOTP_user (on : Bool) (other : ℕ) :
    (db.setTOTP id on).user other =
      (db.user other).map fun u => if u.id = id then u.withTOTP on else u :=
  lookup_update (k := User.id) (f := .withTOTP on) (fun _ => rfl) _ _ _

theorem createSession_spec {token expires : ℕ} {proof : Credential}
    (h : db.createSession token id expires proof = some db') :
    db'.users = db.users ∧ db'.serials = db.serials ∧ (db.user id).isSome ∧
      db'.sessions = db.sessions ++ [⟨token, id, expires, 0, proof⟩] := by
  unfold Store.createSession at h
  split_ifs at h with hu
  cases h
  exact ⟨rfl, rfl, hu, rfl⟩

theorem createPasskey_spec {credentialID : ℕ} (h : db.createPasskey id credentialID = some db') :
    db'.users = db.users ∧ db'.sessions = db.sessions ∧ db'.serials = db.serials := by
  unfold Store.createPasskey at h
  split at h
  · cases h
  · split_ifs at h
    cases h
    exact ⟨rfl, rfl, rfl⟩

theorem session_spec {token now : ℕ} {s : Session} (h : db.session token now = some s) :
    s.token = token ∧ ∃ row ∈ db.sessions, row.token = token ∧ row.userID = s.user.id := by
  simp only [Store.session, Option.bind_eq_bind, Option.bind_eq_some_iff] at h
  obtain ⟨row, hrow, u, hu, hs⟩ := h
  split_ifs at hs
  cases hs
  exact ⟨rfl, row, lookup_mem hrow, lookup_key hrow, (user_id hu).symm⟩

end users

end Lotse.Accounts
