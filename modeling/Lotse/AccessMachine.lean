import Lotse.Accounts
import Lotse.Tasks

set_option autoImplicit false

/-!
# Sign-in, account changes and tracked connections

The request handlers that load sessions, open long-lived connections, sign in and
change accounts, as the sequences of statements, map accesses under `h.mu` and
network round trips they execute. Every SQL statement is atomic; between any two
instructions of a handler other handlers may run.
-/
namespace Lotse.Access
open Accounts Tasks

structure SessionConn where
  cid : ℕ
  session : ℕ
  userID : ℕ
  role : Role
  stopped : Bool
  deriving DecidableEq

inductive Match where
  | session (token : ℕ)
  | beyondRole (userID : ℕ) (role : Role)
  | user (userID : ℕ) (keep : Option ℕ)
  | account (userID : ℕ)
  deriving DecidableEq

def Match.hits : Match → SessionConn → Bool
  | session token, c => c.session = token
  | beyondRole userID role, c => c.userID = userID ∧ ¬ roleIncludes role c.role
  | user userID keep, c => c.userID = userID ∧ keep ≠ some c.session
  | account userID, c => c.userID = userID

structure PatchBody where
  role : Option Role
  password : Option PasswordHash
  resetTOTP : Bool
  resetPasskeys : Bool
  deriving DecidableEq

inductive Handler where
  | handleShell
  | fileSession
  | handleEvents
  | getRunEvents
  | postElevate (password : ℕ)
  | postPassword (current : ℕ) (new : PasswordHash)
  | postPasskey (credentialID : ℕ)
  | postUser (username : ℕ) (hash : PasswordHash) (role : Role)
  | patchUser (id : ℕ) (body : PatchBody)
  | deleteUser (id : ℕ)
  deriving DecidableEq

/-- One atomic step of a handler, with the local data it uses. `request` numbers the
request, for its local variable `signOut`. `setRole`, `deleteSessions` and
`deleteAccount` go on with the `closeConns` that follows the statement; `ok` says
whether the statement of `deleteSessions` succeeds, since its error is only logged. -/
inductive Instr where
  | requireUser (token : ℕ) (h : Handler)
  | can (s : Session) (role : Role)
  | requireElevated (s : Session)
  | agent
  | track (s : Session) (role : Role)
  | serve (cid : ℕ)
  | passwordMatches (hash : PasswordHash) (password : ℕ)
  | checkTOTP
  | elevateSession (token : ℕ)
  | userByName (username password : ℕ)
  | passkeyByCredential (credentialID : ℕ)
  | verifySignature
  | user (id : ℕ) (proof : Credential)
  | createSession (id : ℕ) (proof : Credential)
  | setup (username : ℕ) (hash : PasswordHash)
  | createUser (username : ℕ) (hash : PasswordHash) (role : Role)
  | createPasskey (id credentialID : ℕ)
  | patchUser (request : ℕ) (s : Session) (id : ℕ) (body : PatchBody)
  | deleteUser (s : Session) (id : ℕ)
  | setRole (id : ℕ) (role : Role)
  | setPassword (request id : ℕ) (hash : PasswordHash)
  | resetTOTP (id : ℕ)
  | deletePasskeysOf (request id : ℕ)
  | signOut (request id : ℕ) (keep : Option ℕ)
  | deleteSessions (request id : ℕ) (keep : Option ℕ) (ok : Bool)
  | deleteAccount (id : ℕ)
  | deleteSession (token : ℕ)
  | closeConns (m : Match)
  | stops (cids : List ℕ)
  | done (request : ℕ)
  | tick (seconds : ℕ)
  deriving DecidableEq

inductive Request where
  | setup (username : ℕ) (hash : PasswordHash)
  | login (username password : ℕ)
  | loginWithPasskey (credentialID : ℕ)
  | logout (token : ℕ)
  | authenticated (token : ℕ) (h : Handler)
  | tick (seconds : ℕ)
  deriving DecidableEq

inductive Stage where
  | applied
  | signedOut
  | completed
  deriving DecidableEq

/-- A change of an account's credentials and what they were right after it. No code
reads this record. -/
structure Change where
  request : ℕ
  userID : ℕ
  serial : Option ℕ
  version : ℕ
  passkeys : List ℕ
  registrations : ℕ
  stage : Stage
  keep : Option ℕ
  deriving DecidableEq

def Change.Accepts (ch : Change) : Credential → Prop
  | .password serial version => ch.serial = some serial ∧ ch.version ≤ version
  | .passkey serial registration => ch.serial = some serial ∧
      (registration ∈ ch.passkeys ∨ ch.registrations ≤ registration)

instance (ch : Change) : (proof : Credential) → Decidable (ch.Accepts proof)
  | .password _ _ => inferInstanceAs (Decidable (_ ∧ _))
  | .passkey _ _ => inferInstanceAs (Decidable (_ ∧ _))

/-- `signingOut` holds the requests whose local `signOut` is set. The last three
fields are the history that no code reads: the sessions ever created with their
users, the sessions that a handler has revoked, and the changes of accounts. -/
structure State where
  clock : ℕ
  db : Store
  conns : List SessionConn
  nextConn : ℕ
  requests : ℕ
  signingOut : List ℕ
  issued : List (ℕ × ℕ)
  revoked : List ℕ
  changes : List Change

namespace State

def initial : State := ⟨0, .empty, [], 0, 0, [], [], [], []⟩

def track (g : State) (s : Session) (role : Role) : State :=
  { g with
    conns := g.conns ++ [⟨g.nextConn, s.token, s.user.id, role, false⟩]
    nextConn := g.nextConn + 1 }

def untrack (g : State) (cid : ℕ) : State :=
  { g with conns := g.conns.filter fun c => c.cid ≠ cid }

def stop (g : State) (cid : ℕ) : State :=
  { g with conns := g.conns.map fun c => if c.cid = cid then { c with stopped := true } else c }

def record (g : State) (request id : ℕ) (stage : Stage) : Change where
  request := request
  userID := id
  serial := (g.db.user id).map User.serial
  version := ((g.db.user id).map User.version).getD 0
  passkeys := (g.db.passkeysOf id).map Passkey.registration
  registrations := g.db.registrations
  stage := stage
  keep := none

def setPassword (g : State) (request id : ℕ) (hash : PasswordHash) : State :=
  let g := { g with db := g.db.setPassword id hash }
  { g with
    signingOut := request :: g.signingOut
    changes := g.record request id .applied :: g.changes }

def deletePasskeysOf (g : State) (request id : ℕ) : State :=
  if g.db.passkeysOf id = [] then g
  else
    let g := { g with db := g.db.deletePasskeysOf id }
    { g with
      signingOut := request :: g.signingOut
      changes := g.record request id .applied :: g.changes }

def deleteSessions (g : State) (id : ℕ) (keep : Option ℕ) : State :=
  let gone := g.db.sessions.filter fun row => row.userID = id ∧ keep ≠ some row.token
  { g with
    db := g.db.deleteSessions id keep
    revoked := gone.map SessionRow.token ++ g.revoked }

/-- `signOutUser` with a statement that succeeds or fails; the request goes on either way. -/
def signOutUser (g : State) (request id : ℕ) (keep : Option ℕ) (ok : Bool) : State :=
  let g := if ok then g.deleteSessions id keep else g
  { g with
    changes := g.changes.map fun ch =>
      if ch.request = request ∧ ch.userID = id ∧ ch.stage = .applied then
        { ch with stage := .signedOut, keep := keep } else ch }

def deleteSession (g : State) (token : ℕ) : State :=
  { g with db := g.db.deleteSession token, revoked := token :: g.revoked }

def deleteAccount (g : State) (id : ℕ) (db : Store) : State :=
  let gone := g.db.sessions.filter fun row => row.userID = id
  { g with db := db, revoked := gone.map SessionRow.token ++ g.revoked }

/-- A new account counts as a change of its own, complete at once. -/
def createUser (g : State) (db : Store) (id : ℕ) : State :=
  let g := { g with db := db }
  { g with requests := g.requests + 1, changes := g.record g.requests id .completed :: g.changes }

def createSession (g : State) (token id : ℕ) (db : Store) : State :=
  { g with db := db, issued := (token, id) :: g.issued }

def finish (g : State) (request : ℕ) : State :=
  { g with changes := g.changes.map fun ch =>
      if ch.request = request ∧ ch.stage = .signedOut then { ch with stage := .completed } else ch }

@[simp] theorem createSession_db (g : State) (token id : ℕ) (db : Store) :
    (g.createSession token id db).db = db := rfl
@[simp] theorem createUser_db (g : State) (db : Store) (id : ℕ) :
    (g.createUser db id).db = db := rfl
@[simp] theorem deleteAccount_db (g : State) (id : ℕ) (db : Store) :
    (g.deleteAccount id db).db = db := rfl

end State

def reauthenticate (s : Session) (password : ℕ) (withCode : Bool) : List Instr :=
  .passwordMatches s.user.passwordHash password ::
    if withCode ∧ s.user.totp then [.checkTOTP] else []

def patchUser (request : ℕ) (s : Session) (u : User) (body : PatchBody) : List Instr :=
  let keep := if u.id = s.user.id then some s.token else none
  Instr.requireElevated s ::
  (match body.role with
    | some role => if role = u.role then [] else [.setRole u.id role]
    | none => [] : List Instr) ++
  (match body.password with
    | some hash => [.setPassword request u.id hash]
    | none => [] : List Instr) ++
  (if body.resetTOTP ∧ u.totp then [.resetTOTP u.id] else [] : List Instr) ++
  (if body.resetPasskeys then [.deletePasskeysOf request u.id] else [] : List Instr) ++
  ([.signOut request u.id keep, .done request] : List Instr)

def deleteUser (s : Session) (u : User) : List Instr :=
  .requireElevated s ::
  if u.id = s.user.id then [] else [.deleteAccount u.id]

/-- The code of a handler for the session that `requireUser` loaded. A terminal asks
the agent for a channel, a PTY and a shell, a file transfer for a channel, the
subsystem and the client's start, before they are tracked. -/
def handlerCode (request : ℕ) (s : Session) : Handler → List Instr
  | .handleShell =>
    [.can s .operator, .requireElevated s, .agent, .agent, .agent, .agent, .track s .operator]
  | .fileSession =>
    [.can s .operator, .agent, .requireElevated s, .agent, .agent, .agent, .track s .operator]
  | .handleEvents => [.can s .viewer, .track s .viewer]
  | .getRunEvents => [.can s .operator, .track s .operator]
  | .postElevate password =>
    .can s .viewer :: reauthenticate s password true ++ [.elevateSession s.token]
  | .postPassword current new =>
    .can s .viewer :: reauthenticate s current false ++
      [.setPassword request s.user.id new, .signOut request s.user.id (some s.token), .done request]
  | .postPasskey credentialID =>
    [.can s .viewer, .requireElevated s, .createPasskey s.user.id credentialID]
  | .postUser username hash role =>
    [.can s .admin, .requireElevated s, .createUser username hash role]
  | .patchUser id body => [.can s .admin, .patchUser request s id body]
  | .deleteUser id => [.can s .admin, .deleteUser s id]

def code : Request → List Instr
  | .setup username hash => [.setup username hash]
  | .login username password => [.userByName username password]
  | .loginWithPasskey credentialID => [.passkeyByCredential credentialID]
  | .logout token => [.closeConns (.session token), .deleteSession token]
  | .authenticated token h => [.requireUser token h]
  | .tick seconds => [.tick seconds]

/-- What the state does not determine: how the agent, an authenticator or a TOTP
check answers, whether the statement of a sign-out succeeds, and the random token of a
new session. -/
structure Oracle where
  ok : Bool
  token : ℕ
  deriving DecidableEq

def check (b : Bool) (g : State) : Option (Outcome State Instr) :=
  some (if b then .next g [] else .jump g [])

/-- `startSession`: the random token is one that was never issued before. -/
def createSession (token : ℕ) (g : State) (id : ℕ) (proof : Credential) :
    Option (Outcome State Instr) :=
  if token ∈ g.issued.map Prod.fst then none
  else match g.db.createSession token id (g.clock + sessionTTL) proof with
    | none => some (.jump g [])
    | some db => some (.next (g.createSession token id db) [])

def createUser (g : State) (username : ℕ) (hash : PasswordHash) (role : Role)
    (code : List Instr) : Option (Outcome State Instr) :=
  match g.db.createUser username hash role with
  | none => some (.jump g [])
  | some db => some (.next (g.createUser db (Rows.nextId User.id g.db.users)) code)

def atomic (o : Oracle) (g : State) : Instr → Option (Outcome State Instr)
  | .requireUser token h =>
    match g.db.session token g.clock with
    | none => some (.jump g [])
    | some s => some (.next { g with requests := g.requests + 1 } (handlerCode g.requests s h))
  | .can s role => check (s.user.can role) g
  | .requireElevated s => check (g.clock ≤ s.elevatedUntil) g
  | .agent => check o.ok g
  | .track s role => some (.next (g.track s role) [.serve g.nextConn])
  | .serve cid => some (.next (g.untrack cid) [])
  | .passwordMatches hash password => check (passwordMatches hash password) g
  | .checkTOTP => check o.ok g
  | .elevateSession token =>
    some (.next { g with db := g.db.elevateSession token (g.clock + elevationTTL) } [])
  | .userByName username password =>
    match g.db.userByName username with
    | none => some (.jump g [])
    | some u => some (.next g (.passwordMatches u.passwordHash password ::
        (if u.totp then [.checkTOTP] else []) ++ [.createSession u.id (.password u.serial u.version)]))
  | .passkeyByCredential credentialID =>
    match g.db.passkeyByCredential credentialID with
    | none => some (.jump g [])
    | some key => some (.next g [.verifySignature, .user key.userID (.passkey key.serial key.registration)])
  | .verifySignature => check o.ok g
  | .user id proof =>
    match g.db.user id with
    | none => some (.jump g [])
    | some u => some (.next g [.createSession u.id proof])
  | .createSession id proof => createSession o.token g id proof
  | .setup username hash =>
    if g.db.users = [] then
      createUser g username hash .admin
        [.createSession (Rows.nextId User.id g.db.users) (.password g.db.serials 0)]
    else some (.jump g [])
  | .createUser username hash role => createUser g username hash role []
  | .createPasskey id credentialID =>
    match g.db.createPasskey id credentialID with
    | none => some (.jump g [])
    | some db => some (.next { g with db := db } [])
  | .patchUser request s id body =>
    match g.db.user id with
    | none => some (.jump g [])
    | some u => some (.next g (patchUser request s u body))
  | .deleteUser s id =>
    match g.db.user id with
    | none => some (.jump g [])
    | some u => some (.next g (deleteUser s u))
  | .setRole id role =>
    match g.db.setRole id role with
    | none => some (.jump g [])
    | some db => some (.next { g with db := db } [.closeConns (.beyondRole id role)])
  | .setPassword request id hash => some (.next (g.setPassword request id hash) [])
  | .resetTOTP id => some (.next { g with db := g.db.setTOTP id false } [])
  | .deletePasskeysOf request id => some (.next (g.deletePasskeysOf request id) [])
  | .signOut request id keep =>
    some (.next g (if request ∈ g.signingOut then [.deleteSessions request id keep o.ok] else []))
  | .deleteSessions request id keep ok =>
    some (.next (g.signOutUser request id keep ok) [.closeConns (.user id keep)])
  | .deleteAccount id =>
    match g.db.deleteUser id with
    | none => some (.jump g [])
    | some db => some (.next (g.deleteAccount id db) [.closeConns (.account id)])
  | .deleteSession token => some (.next (if o.ok then g.deleteSession token else g) [])
  | .closeConns m => some (.next g [.stops ((g.conns.filter fun c => m.hits c).map SessionConn.cid)])
  | .stops [] => some (.next g [])
  | .stops (cid :: cids) => some (.next (g.stop cid) [.stops cids])
  | .done request => some (.next (g.finish request) [])
  | .tick seconds => some (.next { g with clock := g.clock + seconds } [])

def restart (g : State) : State := { g with conns := [], signingOut := [] }

def machine : Machine State Instr Oracle Request := ⟨code, atomic, fun g => some (restart g)⟩

def init : Config State Instr := ⟨.initial, []⟩

/-- `n` steps of task `i` in which every check succeeds. -/
def steps (i n token : ℕ) : List (Action Oracle Request) := List.replicate n (.run i ⟨true, token⟩)

end Lotse.Access
