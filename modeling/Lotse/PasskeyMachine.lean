import Lotse.Accounts
import Lotse.WebAuthn
import Lotse.Tasks

set_option autoImplicit false

/-!
# Passkey ceremonies

The handlers that ask for a challenge, sign in, confirm or register with a passkey, and
sessions that come and go beside them. A task takes one instruction for each access to the
challenges or the database; what a handler computes between two of them belongs to the
first. The database's statements succeed, except that the one of `UsePasskey`, whose error
is only logged, may be lost.
-/
namespace Lotse.Passkeys
open Tasks Utf8

structure Session where
  token : ℕ
  userID : ℕ
  elevatedUntil : ℕ
  deriving DecidableEq

inductive Response where
  | login (userID : ℕ)
  | confirm (token : ℕ)
  | register (token : ℕ)
  deriving DecidableEq

structure Acceptance where
  challenge : String
  takenAt : ℕ
  response : Response
  deriving DecidableEq

structure Elevation where
  sessionUser : ℕ
  keyUser : ℕ
  deriving DecidableEq

inductive Reply where
  | done
  | challenge (key : String)
  | error (message : String)
  deriving DecidableEq

/-- No code reads the last six fields. They are history: the challenges that were issued and
those that a response used up, the users of all session tokens, the accepted responses, the
elevations and the counters of the assertions that were found valid. -/
structure State where
  clock : ℕ
  challenges : Challenges
  sessions : List Session
  passkeys : List Passkey
  replies : List Reply
  issued : Challenges
  taken : List String
  tokens : List (ℕ × ℕ)
  accepted : List Acceptance
  elevations : List Elevation
  used : List (ℕ × ℕ)

inductive Ceremony where
  | login
  | confirm (s : Session)
  deriving DecidableEq

def Ceremony.purpose : Ceremony → Purpose
  | .login => .login
  | .confirm _ => .elevate

def Ceremony.session : Ceremony → Option ℕ
  | .login => none
  | .confirm s => some s.token

structure Ticket where
  challenge : String
  takenAt : ℕ
  deriving DecidableEq

inductive Instr where
  | tick (d : ℕ)
  | signIn (userID : ℕ)
  | signOut (token : ℕ)
  | loginOptions (rp : Option RelyingParty)
  | addChallenge (purpose : Purpose) (session : Option ℕ)
  | options (token : ℕ) (purpose : String) (rp : Option RelyingParty)
  | descriptors (s : Session) (purpose : String) (rpID : String)
  | loadConfirm (token : ℕ) (a : Assertion) (lost : Bool)
  | verifyAssertion (c : Ceremony) (a : Assertion) (lost : Bool)
  | passkeyByCredential (c : Ceremony) (t : Ticket) (d : Decoded) (ad : AuthData) (lost : Bool)
  | passkeyHandle (c : Ceremony) (t : Ticket) (ad : AuthData) (key : Passkey) (lost : Bool)
  | usePasskey (c : Ceremony) (t : Ticket) (ad : AuthData) (key : Passkey) (lost : Bool)
  | startSession (t : Ticket) (userID : ℕ)
  | elevateSession (t : Ticket) (s : Session) (key : Passkey)
  | loadRegister (token : ℕ) (a : Attestation)
  | verifyAttestation (s : Session) (a : Attestation)
  | createPasskey (t : Ticket) (s : Session) (d : Decoded) (ad : AuthData)
  deriving DecidableEq

/-- `lost` says whether the statement of `UsePasskey` fails. -/
inductive Request where
  | tick (d : ℕ)
  | signIn (userID : ℕ)
  | signOut (token : ℕ)
  | loginOptions (rp : Option RelyingParty)
  | options (token : ℕ) (purpose : String) (rp : Option RelyingParty)
  | login (a : Assertion) (lost : Bool)
  | confirm (token : ℕ) (a : Assertion) (lost : Bool)
  | register (token : ℕ) (a : Attestation)

/-- The random values, the order in which `add` meets the pending challenges, and whether
the response names the account's handle. -/
structure Oracle where
  fresh : String
  order : List String
  token : ℕ
  handleMatches : Bool

def code : Request → List Instr
  | .tick d => [.tick d]
  | .signIn userID => [.signIn userID]
  | .signOut token => [.signOut token]
  | .loginOptions rp => [.loginOptions rp]
  | .options token purpose rp => [.options token purpose rp]
  | .login a lost => [.verifyAssertion .login a lost]
  | .confirm token a lost => [.loadConfirm token a lost]
  | .register token a => [.loadRegister token a]

namespace State

def unix (g : State) : ℕ := g.clock / 10 ^ 9

def reply (g : State) (r : Reply) : State := { g with replies := r :: g.replies }

def session (g : State) (token : ℕ) : Option Session := Rows.lookup Session.token token g.sessions

def elevated (g : State) (s : Session) : Bool := g.unix ≤ s.elevatedUntil

def createSession (g : State) (token userID : ℕ) : State :=
  { g with sessions := ⟨token, userID, 0⟩ :: g.sessions, tokens := (token, userID) :: g.tokens }

def issue (g : State) (o : Oracle) (c : Challenge) : State :=
  { g with
    challenges := add g.clock o.order g.challenges o.fresh c
    issued := (o.fresh, c) :: g.issued }

def takeChallenge (g : State) (key : String) (purpose : Purpose) (session : Option ℕ) :
    State × Bool :=
  let (m, ok) := take g.clock g.challenges key purpose session
  let taken := if (Rows.lookup Prod.fst key g.challenges).isSome then key :: g.taken else g.taken
  ({ g with challenges := m, taken := taken }, ok)

def accept (g : State) (t : Ticket) (r : Response) : State :=
  { g with accepted := ⟨t.challenge, t.takenAt, r⟩ :: g.accepted }

/-- `UsePasskey`, whose statement may be lost. -/
def useKey (g : State) (id signCount : ℕ) (lost : Bool) : State :=
  { g with
    passkeys := if lost then g.passkeys
      else Rows.update Passkey.id id ({ · with signCount := signCount }) g.passkeys
    used := (id, signCount) :: g.used }

def elevate (g : State) (s : Session) (key : Passkey) : State :=
  { g with
    sessions := Rows.update Session.token s.token
      ({ · with elevatedUntil := g.unix + Accounts.elevationTTL }) g.sessions
    elevations := ((g.sessions.filter (·.token = s.token)).map (⟨·.userID, key.userID⟩)) ++
      g.elevations }

end State

def refuse (g : State) (message : String) : Outcome State Instr := .next (g.reply (.error message)) []

def notLoggedIn : String := "not logged in"
def confirmFirst : String := "confirm your password first"

/-- `checkClientData`: the challenge goes first, so that it is used up by a response that
fails below. -/
def checkClientData (E : Env) (g : State) (d : Decoded) (typ : String) (purpose : Purpose)
    (session : Option ℕ) : State × Except String Ticket :=
  match E.clientData d.cdJSON with
  | none => (g, .error invalidResponse)
  | some cd =>
    match g.takeChallenge cd.challenge purpose session with
    | (g, false) => (g, .error "the passkey request expired, try again")
    | (g, true) =>
      match checkOrigin cd typ d.rp.origin with
      | .error e => (g, .error e)
      | .ok () => (g, .ok ⟨cd.challenge, g.clock⟩)

def verifyAssertion (E : Env) (g : State) (c : Ceremony) (a : Assertion) (lost : Bool) :
    Outcome State Instr :=
  match a.decode E with
  | .error e => refuse g e
  | .ok d =>
    match checkClientData E g d "webauthn.get" c.purpose c.session with
    | (g, .error e) => refuse g e
    | (g, .ok t) =>
      match parseAuthData E d.adBytes d.rp.rpID with
      | .error e => refuse g e
      | .ok ad => .next g [.passkeyByCredential c t d ad lost]

def checkCounter (g : State) (c : Ceremony) (t : Ticket) (ad : AuthData) (key : Passkey)
    (lost : Bool) : Outcome State Instr :=
  if countsUp ad key then .next g [.usePasskey c t ad key lost] else refuse g counterWentBack

def passkeyByCredential (E : Env) (g : State) (c : Ceremony) (t : Ticket) (d : Decoded)
    (ad : AuthData) (lost : Bool) : Outcome State Instr :=
  match Rows.lookup Passkey.credentialID d.credID g.passkeys with
  | none => refuse g "this passkey is not registered with the hub"
  | some key =>
    if key.rpID ≠ d.rp.rpID ∨
        E.verifySignature key.publicKey key.algorithm d.adBytes d.cdJSON d.sig = false then
      refuse g "the passkey signature is invalid"
    else if d.userHandle ≠ [] then .next g [.passkeyHandle c t ad key lost]
    else checkCounter g c t ad key lost

/-- `verifyAssertion` returns the key; a confirmation then compares its owner. -/
def usePasskey (g : State) (c : Ceremony) (t : Ticket) (ad : AuthData) (key : Passkey)
    (lost : Bool) : Outcome State Instr :=
  match c with
  | .login => .next (g.useKey key.id ad.signCount lost) [.startSession t key.userID]
  | .confirm s =>
    if key.userID ≠ s.userID then
      refuse (g.useKey key.id ad.signCount lost) "that passkey belongs to another account"
    else .next (g.useKey key.id ad.signCount lost) [.elevateSession t s key]

def verifyAttestation (E : Env) (g : State) (s : Session) (a : Attestation) :
    Outcome State Instr :=
  match a.decode E with
  | .error e => refuse g e
  | .ok d =>
    match checkClientData E g d "webauthn.create" .register (some s.token) with
    | (g, .error e) => refuse g e
    | (g, .ok t) =>
      match checkAttestation E d with
      | .error e => refuse g e
      | .ok ad => .next g [.createPasskey t s d ad]

def createPasskey (g : State) (t : Ticket) (s : Session) (d : Decoded) (ad : AuthData) :
    Outcome State Instr :=
  if (Rows.lookup Passkey.credentialID d.credID g.passkeys).isSome then
    refuse g "this passkey is already registered"
  else
    let key : Passkey := ⟨Rows.nextId Passkey.id g.passkeys, s.userID, d.rp.rpID, d.credID, d.sig,
      d.algorithm, ad.signCount⟩
    .next (({ g with passkeys := key :: g.passkeys }.accept t (.register s.token)).reply .done) []

def descriptors (g : State) (s : Session) (purpose rpID : String) : Outcome State Instr :=
  let existing := g.passkeys.filter fun k => k.userID = s.userID ∧ k.rpID = rpID
  if purpose = "elevate" then
    if existing = [] then refuse g "you have no passkey for this address"
    else .next g [.addChallenge .elevate (some s.token)]
  else if purpose = "register" then
    if g.elevated s then .next g [.addChallenge .register (some s.token)]
    else refuse g confirmFirst
  else refuse g "purpose must be register or elevate"

def withSession (g : State) (token : ℕ) (k : Session → Outcome State Instr) :
    Outcome State Instr :=
  match g.session token with
  | none => refuse g notLoggedIn
  | some s => k s

/-- `add` is enabled with a fresh key and an order that meets everything. -/
def addChallenge (o : Oracle) (g : State) (purpose : Purpose) (session : Option ℕ) :
    Option (Outcome State Instr) :=
  if o.fresh ∈ g.issued.map Prod.fst ∨
      ¬ ∀ e ∈ unexpired g.clock g.challenges, e.1 ∈ o.order then none
  else some (.next ((g.issue o ⟨purpose, session, g.clock + passkeyTimeout⟩).reply
    (.challenge o.fresh)) [])

def atomic (E : Env) (o : Oracle) (g : State) : Instr → Option (Outcome State Instr)
  | .tick d => some (.next { g with clock := g.clock + d } [])
  | .signIn userID =>
    if o.token ∈ g.tokens.map Prod.fst then none
    else some (.next (g.createSession o.token userID) [])
  | .signOut token =>
    some (.next { g with sessions := Rows.erase Session.token token g.sessions } [])
  | .loginOptions none => some (refuse g notOwnPage)
  | .loginOptions (some _) => some (.next g [.addChallenge .login none])
  | .addChallenge purpose session => addChallenge o g purpose session
  | .options token purpose rp =>
    some (withSession g token fun s =>
      match rp with
      | none => refuse g notOwnPage
      | some rp => .next g [.descriptors s purpose rp.rpID])
  | .descriptors s purpose rpID => some (descriptors g s purpose rpID)
  | .loadConfirm token a lost =>
    some (withSession g token fun s => .next g [.verifyAssertion (.confirm s) a lost])
  | .verifyAssertion c a lost => some (verifyAssertion E g c a lost)
  | .passkeyByCredential c t d ad lost => some (passkeyByCredential E g c t d ad lost)
  | .passkeyHandle c t ad key lost =>
    some (if o.handleMatches then checkCounter g c t ad key lost
      else refuse g "the passkey belongs to another account")
  | .usePasskey c t ad key lost => some (usePasskey g c t ad key lost)
  | .startSession t userID =>
    if o.token ∈ g.tokens.map Prod.fst then none
    else some (.next (((g.createSession o.token userID).accept t (.login userID)).reply .done) [])
  | .elevateSession t s key =>
    some (.next (((g.elevate s key).accept t (.confirm s.token)).reply .done) [])
  | .loadRegister token a =>
    some (withSession g token fun s =>
      if g.elevated s then .next g [.verifyAttestation s a] else refuse g confirmFirst)
  | .verifyAttestation s a => some (verifyAttestation E g s a)
  | .createPasskey t s d ad => some (createPasskey g t s d ad)

def restart (g : State) : Option State := some { g with challenges := [] }

def machine (E : Env) : Machine State Instr Oracle Request := ⟨code, atomic E, restart⟩

structure Database where
  sessions : List Session
  passkeys : List Passkey
  tokens_nodup : (sessions.map Session.token).Nodup
  ids_nodup : (passkeys.map Passkey.id).Nodup
  credentials_nodup : (passkeys.map Passkey.credentialID).Nodup

def initial (db : Database) : State where
  clock := 0
  challenges := []
  sessions := db.sessions
  passkeys := db.passkeys
  replies := []
  issued := []
  taken := []
  tokens := db.sessions.map fun s => (s.token, s.userID)
  accepted := []
  elevations := []
  used := []

end Lotse.Passkeys
