import Lotse.Rows
import Lotse.Tasks

set_option autoImplicit false

/-!
# Enrollment and deletion

Both sides of an agent's hello: the agent with the token in its configuration, and
`serveAgent` on the hub from `admit` to the reply, together with `deleteSystem`. A reply may
be lost and a link may drop at any time. A token stays valid until it expires.
-/
namespace Lotse.Enroll
open Rows Tasks

structure SystemRow where
  id : ℕ+
  fingerprint : ℕ
  deriving DecidableEq

structure Systems where
  rows : List SystemRow
  unique : (rows.map SystemRow.fingerprint).Nodup

namespace Systems

def system (s : Systems) (id : ℕ+) : Option SystemRow := lookup SystemRow.id id s.rows

def systemByFingerprint (s : Systems) (fingerprint : ℕ) : Option SystemRow :=
  lookup SystemRow.fingerprint fingerprint s.rows

def deleteSystem (s : Systems) (id : ℕ+) : Systems where
  rows := erase SystemRow.id id s.rows
  unique := s.unique.sublist (List.filter_sublist.map _)

def createSystem (s : Systems) (fingerprint : ℕ) : Option (Systems × ℕ+) :=
  if h : s.systemByFingerprint fingerprint = none then
    let row : SystemRow := ⟨nextPos SystemRow.id s.rows, fingerprint⟩
    some (⟨s.rows ++ [row], nodup_append (r := row) s.unique h⟩, row.id)
  else none

end Systems

/-- The token of a running agent and the one in its configuration file. `process` counts its
starts. -/
structure Agent where
  token : Option ℕ
  saved : Option ℕ
  process : ℕ
  deriving DecidableEq

structure Conn where
  cid : ℕ
  fingerprint : ℕ
  process : ℕ
  deriving DecidableEq

/-- The expiry of each enrollment token is in `tokens`, and `sent` are the replies that
accept an agent. The fields after it are history that no code reads: how many tokens each
agent was given, the agents whose row was removed with that number at the time, those of
them whose `deleteSystem` has returned, and the rows created and replies sent by agent. -/
structure State where
  clock : ℤ
  systems : Systems
  tokens : List ℤ
  agents : ℕ+ → Option ℕ
  nextConn : ℕ
  closed : List ℕ
  hosts : ℕ → Agent
  sent : List Conn
  given : ℕ → ℕ
  removed : List (ℕ × ℕ)
  gone : List (ℕ × ℕ)
  created : List ℕ
  accepted : List ℕ

/-- `ok` says whether the query of the re-check succeeds; `serveAgent` goes on after an error. -/
inductive Instr where
  | hello (fingerprint : ℕ)
  | admitAgent (c : Conn) (token : Option ℕ)
  | validEnrollToken (c : Conn) (token : ℕ)
  | createSystem (c : Conn)
  | register (id : ℕ+) (c : Conn)
  | recheck (id : ℕ+) (c : Conn) (ok : Bool)
  | refuse (id : ℕ+) (c : Conn)
  | reply (id : ℕ+) (c : Conn)
  | unregister (id : ℕ+) (cid : ℕ)
  | close (cid : Option ℕ)
  | readReply (n : ℕ)
  | restartAgent (fingerprint : ℕ)
  | lookupSystem (id : ℕ+)
  | deleteRow (id : ℕ+) (fingerprint : ℕ)
  | dropLink (id : ℕ+) (fingerprints : List ℕ)
  | closeLink (cid : Option ℕ) (deleted : List (ℕ × ℕ))
  | returned (deleted : List (ℕ × ℕ))
  | createToken (ttl : ℤ)
  | giveToken (fingerprint token : ℕ)
  | tick (elapsed : ℕ)
  deriving DecidableEq

inductive Request where
  | hello (fingerprint : ℕ)
  | readReply (n : ℕ)
  | restartAgent (fingerprint : ℕ)
  | dropConn (cid : ℕ)
  | deleteSystem (id : ℕ+)
  | createToken (ttl : ℤ)
  | giveToken (fingerprint token : ℕ)
  | tick (elapsed : ℕ)
  deriving DecidableEq

def code : Request → List Instr
  | .hello fingerprint => [.hello fingerprint]
  | .readReply n => [.readReply n]
  | .restartAgent fingerprint => [.restartAgent fingerprint]
  | .dropConn cid => [.close (some cid)]
  | .deleteSystem id => [.lookupSystem id]
  | .createToken ttl => [.createToken ttl]
  | .giveToken fingerprint token => [.giveToken fingerprint token]
  | .tick elapsed => [.tick elapsed]

namespace State

def validEnrollToken (g : State) (token : ℕ) : Bool := (g.tokens[token]?).any (g.clock < ·)

def setHost (g : State) (fingerprint : ℕ) (a : Agent) : State :=
  { g with hosts := Function.update g.hosts fingerprint a }

def unlink (g : State) (id : ℕ+) (cid : ℕ) : State :=
  if g.agents id = some cid then { g with agents := Function.update g.agents id none } else g

def close (g : State) (cid : Option ℕ) : State := { g with closed := cid.toList ++ g.closed }

/-- The hub answers that the agent is accepted. On a closed connection nothing is sent. -/
def reply (g : State) (c : Conn) : State :=
  if c.cid ∈ g.closed then g
  else { g with sent := g.sent ++ [c], accepted := c.fingerprint :: g.accepted }

/-- The agent reads that it is accepted and drops its token; `saved` tells whether it could
write its configuration. A process that has ended reads nothing. -/
def seen (g : State) (c : Conn) (saved : Bool) : State :=
  let a := g.hosts c.fingerprint
  if a.process = c.process then
    g.setHost c.fingerprint { a with token := none, saved := if saved then none else a.saved }
  else g

def restartAgent (g : State) (fingerprint : ℕ) : State :=
  let a := g.hosts fingerprint
  g.setHost fingerprint { a with token := a.saved, process := a.process + 1 }

def giveToken (g : State) (fingerprint token : ℕ) : State :=
  let a := g.hosts fingerprint
  { g.setHost fingerprint ⟨some token, some token, a.process + 1⟩ with
    given := Function.update g.given fingerprint (g.given fingerprint + 1) }

def deleteRow (g : State) (id : ℕ+) (row : SystemRow) : State :=
  { g with
    systems := g.systems.deleteSystem id
    removed := (row.fingerprint, g.given row.fingerprint) :: g.removed }

/-- Those of the agents whose row was removed and that were given no token since. -/
def stillRemoved (g : State) (fingerprints : List ℕ) : List (ℕ × ℕ) :=
  (fingerprints.map fun f => (f, g.given f)).filter (· ∈ g.removed)

end State

/-- Handlers that return early have no code left, so no instruction drops any. `ok` is the
outcome of writing a configuration or of the query of a re-check. -/
def atomic (ok : Bool) (g : State) : Instr → State × List Instr
  | .hello fingerprint =>
    let a := g.hosts fingerprint
    ({ g with nextConn := g.nextConn + 1 },
      [.admitAgent ⟨g.nextConn, fingerprint, a.process⟩ a.token])
  | .admitAgent c token =>
    match g.systems.systemByFingerprint c.fingerprint, token with
    | some sys, _ => (g, [.register sys.id c])
    | none, some token => (g, [.validEnrollToken c token])
    | none, none => (g, [.close (some c.cid)])
  | .validEnrollToken c token =>
    (g, if g.validEnrollToken token then [.createSystem c] else [.close (some c.cid)])
  | .createSystem c =>
    match g.systems.createSystem c.fingerprint with
    | some (systems, id) =>
      ({ g with systems, created := c.fingerprint :: g.created }, [.register id c])
    | none => (g, [.close (some c.cid)])
  | .register id c =>
    ({ g with agents := Function.update g.agents id (some c.cid) },
      [.close (g.agents id), .recheck id c ok])
  | .recheck id c ok =>
    (g, if (query ok (g.systems.system id)).passes then [.reply id c] else [.refuse id c])
  | .refuse id c => (g.unlink id c.cid, [.unregister id c.cid])
  | .reply id c => (g.reply c, [.unregister id c.cid])
  | .unregister id cid => (g.unlink id cid, [.close (some cid)])
  | .close cid => (g.close cid, [])
  | .readReply n =>
    match g.sent[n]? with
    | some c => (g.seen c ok, [])
    | none => (g, [])
  | .restartAgent fingerprint => (g.restartAgent fingerprint, [])
  | .lookupSystem id =>
    match g.systems.system id with
    | some sys => (g, [.deleteRow id sys.fingerprint])
    | none => (g, [])
  | .deleteRow id fingerprint =>
    match g.systems.system id with
    | some row => (g.deleteRow id row, [.dropLink id [fingerprint, row.fingerprint]])
    | none => (g, [.dropLink id [fingerprint]])
  | .dropLink id fingerprints =>
    ({ g with agents := Function.update g.agents id none },
      [.closeLink (g.agents id) (g.stillRemoved fingerprints)])
  | .closeLink cid deleted => (g.close cid, [.returned deleted])
  | .returned deleted => ({ g with gone := deleted ++ g.gone }, [])
  | .createToken ttl => ({ g with tokens := g.tokens ++ [g.clock + ttl] }, [])
  | .giveToken fingerprint token => (g.giveToken fingerprint token, [])
  | .tick elapsed => ({ g with clock := g.clock + elapsed }, [])

def machine : Machine State Instr Bool Request where
  code := code
  atomic ok g ins := some (.next (atomic ok g ins).1 (atomic ok g ins).2)
  restart g := some { g with agents := fun _ => none }

/-- `deleteSystem` for the system of this agent has returned, and the agent was given no
token since the row was removed. -/
def State.Deleted (g : State) (fingerprint : ℕ) : Prop :=
  (fingerprint, g.given fingerprint) ∈ g.gone

instance (g : State) (fingerprint : ℕ) : Decidable (g.Deleted fingerprint) :=
  inferInstanceAs (Decidable (_ ∈ _))

def init (systems : Systems) (tokens : List ℤ) (hosts : ℕ → Agent) (now : ℤ) :
    Config State Instr :=
  ⟨⟨now, systems, tokens, fun _ => none, 0, [], hosts, [], fun _ => 0, [], [], [], []⟩, []⟩

end Lotse.Enroll
