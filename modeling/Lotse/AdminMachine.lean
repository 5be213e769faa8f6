import Lotse.UserTable
import Lotse.Tasks

set_option autoImplicit false

/-!
# Setup and the management of accounts

The handlers that create, change and delete accounts, one instruction for each access to
the users table or to `setupMu`. A change whose statement affected no row asks the table
again to tell the last administrator from an account that is gone. What the handlers do
beside it (passwords, two-factor login, passkeys, sessions, connections) is left out.
-/
namespace Lotse.Admins
open Tasks Users

structure Credentials where
  username : String
  password : String
  deriving DecidableEq

def isSpace (c : Char) : Bool :=
  c.toNat ∈ [0x09, 0x0a, 0x0b, 0x0c, 0x0d, 0x20, 0x85, 0xa0, 0x1680, 0x2028, 0x2029, 0x202f,
    0x205f, 0x3000] || (0x2000 ≤ c.toNat && c.toNat ≤ 0x200a)

def trimSpace (s : String) : String :=
  String.ofList (((s.toList.dropWhile isSpace).reverse.dropWhile isSpace).reverse)

def maxNameLen : ℕ := 64

def validatePassword (pw : String) : Except String Unit :=
  if pw.utf8ByteSize < 8 then .error "password must be at least 8 characters"
  else if 72 < pw.utf8ByteSize then .error "password must be at most 72 bytes"
  else .ok ()

/-- The credentials with the username that is stored. -/
def Credentials.validate (c : Credentials) : Except String Credentials :=
  let username := trimSpace c.username
  if username = "" ∨ maxNameLen < username.length then .error "username must be 1-64 characters"
  else (validatePassword c.password).map fun _ => { c with username := username }

inductive Reply where
  | ok
  | error (status : ℕ) (message : String)
  deriving DecidableEq

inductive Answer where
  | ok
  | unknownRole
  | notFound
  | lastAdmin
  deriving DecidableEq

structure Call where
  change : Change
  before : List User
  after : List User
  answer : Answer
  deriving DecidableEq

/-- No code reads the last two fields: how many accounts `postSetup` has created, and the
finished calls. -/
structure State where
  users : List User
  setupMu : Bool
  replies : List Reply
  setups : ℕ
  calls : List Call

structure Caller where
  userID : ℕ
  elevated : Bool
  deriving DecidableEq

/-- A body is none if it is not valid JSON. -/
inductive AdminRequest where
  | postUser (body : Option (Credentials × String))
  | patchUser (id : ℕ) (role : Option String)
  | deleteUser (id : ℕ)
  deriving DecidableEq

inductive Request where
  | postSetup (body : Option Credentials)
  | admin (s : Option Caller) (r : AdminRequest)

inductive Instr where
  | postSetup (body : Option Credentials)
  | lockSetup (c : Credentials)
  | countUsers (c : Credentials)
  | createAdmin (c : Credentials)
  | unlockSetup
  | requireAdmin (s : Option Caller) (r : AdminRequest)
  | createUser (username role : String)
  | lookupPatch (s : Caller) (id : ℕ) (role : Option String)
  | lookupDelete (s : Caller) (id : ℕ)
  | change (ch : Change)
  | lastAdminCheck (ch : Change) (before after : List User)
  deriving DecidableEq

def code : Request → List Instr
  | .postSetup body => [.postSetup body]
  | .admin s r => [.requireAdmin s r]

namespace State

def user (g : State) (id : ℕ) : Option User := Rows.lookup User.id id g.users

def reply (g : State) (r : Reply) : State := { g with replies := r :: g.replies }

def finish (g : State) (call : Call) : State := { g with calls := call :: g.calls }

end State

def refuse (g : State) (status : ℕ) (message : String) : Outcome State Instr :=
  .next (g.reply (.error status message)) []

def invalidJSON : String := "invalid JSON body"
def notLoggedIn : String := "not logged in"
def confirmFirst : String := "confirm your password first"
def roleMustBe : String := "role must be viewer, operator or admin"
def internalError : String := "internal error"
def errUsernameTaken : String := "that username is taken"
def errLastAdmin : String := "the hub needs at least one administrator"

def postSetup (g : State) : Option Credentials → Outcome State Instr
  | none => refuse g 400 invalidJSON
  | some c =>
    match c.validate with
    | .error message => refuse g 400 message
    | .ok c => .next g [.lockSetup c]

def countUsers (g : State) (c : Credentials) : Outcome State Instr :=
  if g.users ≠ [] then refuse g 409 "setup is already complete" else .next g [.createAdmin c]

def createAdmin (g : State) (c : Credentials) : Outcome State Instr :=
  match Users.createUser g.users c.username "admin" with
  | .error _ => refuse g 500 internalError
  | .ok us => .next ({ g with users := us, setups := g.setups + 1 }.reply .ok) []

def postUser (g : State) (s : Caller) : Option (Credentials × String) → Outcome State Instr
  | none => refuse g 400 invalidJSON
  | some (c, role) =>
    if s.elevated = false then refuse g 403 confirmFirst
    else
      match c.validate with
      | .error message => refuse g 400 message
      | .ok c =>
        if validRole role = false then refuse g 400 roleMustBe
        else .next g [.createUser c.username role]

def createUser (g : State) (username role : String) : Outcome State Instr :=
  match Users.createUser g.users username role with
  | .error .usernameTaken => refuse g 409 errUsernameTaken
  | .error (.unknownRole _) => refuse g 500 internalError
  | .ok us => .next ({ g with users := us }.reply .ok) []

/-- `requireRole` for administrators and the handler up to its first statement. -/
def requireAdmin (g : State) (s : Option Caller) (r : AdminRequest) : Outcome State Instr :=
  match s with
  | none => refuse g 401 notLoggedIn
  | some s =>
    match g.user s.userID with
    | none => refuse g 401 notLoggedIn
    | some u =>
      if roleIncludes u.role "admin" = false then
        refuse g 403 ("your role (" ++ u.role ++ ") does not allow this")
      else
        match r with
        | .postUser body => postUser g s body
        | .patchUser id role => .next g [.lookupPatch s id role]
        | .deleteUser id => .next g [.lookupDelete s id]

/-- `lookupUser` and `patchUser` up to `SetRole`. -/
def lookupPatch (g : State) (s : Caller) (id : ℕ) (role : Option String) : Outcome State Instr :=
  match g.user id with
  | none => refuse g 404 "user not found"
  | some u =>
    match role with
    | none => refuse g 400 invalidJSON
    | some role =>
      if s.elevated = false then refuse g 403 confirmFirst
      else if role ≠ "" ∧ validRole role = false then refuse g 400 roleMustBe
      else if role ≠ "" ∧ role ≠ u.role then .next g [.change (.setRole u.id role)]
      else .next (g.reply .ok) []

/-- `lookupUser` and `deleteUser` up to `DeleteUser`. -/
def lookupDelete (g : State) (s : Caller) (id : ℕ) : Outcome State Instr :=
  match g.user id with
  | none => refuse g 404 "user not found"
  | some u =>
    if s.elevated = false then refuse g 403 confirmFirst
    else if u.id = s.userID then refuse g 400 "you cannot delete your own account"
    else .next g [.change (.deleteUser u.id)]

def change (g : State) (ch : Change) : Outcome State Instr :=
  if ch.valid = false then
    refuse (g.finish ⟨ch, g.users, g.users, .unknownRole⟩) 500 internalError
  else if ch.affected g.users = 0 then
    .next { g with users := ch.apply g.users } [.lastAdminCheck ch g.users (ch.apply g.users)]
  else
    .next (({ g with users := ch.apply g.users }.finish
      ⟨ch, g.users, ch.apply g.users, .ok⟩).reply .ok) []

/-- No row was affected: the second query tells why, and `userError` answers. -/
def lastAdminCheck (g : State) (ch : Change) (before after : List User) : Outcome State Instr :=
  match g.user ch.id with
  | none => refuse (g.finish ⟨ch, before, after, .notFound⟩) 404 "user not found"
  | some _ => refuse (g.finish ⟨ch, before, after, .lastAdmin⟩) 409
      (errLastAdmin ++ "; make someone else an administrator first")

def atomic (_ : Unit) (g : State) : Instr → Option (Outcome State Instr)
  | .postSetup body => some (postSetup g body)
  | .lockSetup c =>
    if g.setupMu then none
    else some (.next { g with setupMu := true } [.countUsers c, .unlockSetup])
  | .countUsers c => some (countUsers g c)
  | .createAdmin c => some (createAdmin g c)
  | .unlockSetup => some (.next { g with setupMu := false } [])
  | .requireAdmin s r => some (requireAdmin g s r)
  | .createUser username role => some (createUser g username role)
  | .lookupPatch s id role => some (lookupPatch g s id role)
  | .lookupDelete s id => some (lookupDelete g s id)
  | .change ch => some (change g ch)
  | .lastAdminCheck ch before after => some (lastAdminCheck g ch before after)

def restart (g : State) : Option State := some { g with setupMu := false }

def machine : Machine State Instr Unit Request := ⟨code, atomic, restart⟩

structure Database where
  users : List User
  ok : UsersOk users

def initial (db : Database) : State := ⟨db.users, false, [], 0, []⟩

end Lotse.Admins
