import Lotse.AlertEngine
import Lotse.Tasks

set_option autoImplicit false

/-!
# Agents, systems and their deletion

`serveAgent` from the agent's key to its samples, `deleteSystem` and the evaluation of
alerts, as the statements and critical sections they execute. A system's state is an
object that `record` keeps a reference to, also when the map has dropped it.
-/
namespace Lotse.Gateway
open Alerts Samples Rows Tasks

structure SystemRow where
  id : ℕ+
  name : String
  fingerprint : ℕ
  deriving DecidableEq

structure RuleTable where
  rows : List AlertRule
  ids : (rows.map AlertRule.id).Nodup

/-- Rules of one system go with it, by `ON DELETE CASCADE`. -/
def RuleTable.deleteSystem (t : RuleTable) (id : ℕ+) : RuleTable where
  rows := t.rows.filter fun r => r.systemID ≠ some id
  ids := t.ids.sublist (List.filter_sublist.map _)

/-- `checked` is not stored: the connection has passed the re-check of its row. -/
structure AgentConn where
  cid : ℕ
  fingerprint : ℕ
  checked : Bool
  deriving DecidableEq

def AgentConn.check (ac : AgentConn) : AgentConn := { ac with checked := true }

structure Sample where
  fingerprint : ℕ
  metrics : Metrics
  deriving DecidableEq

/-- `ok` says whether the query of the re-check and the statement of `resetAlerts` succeed:
`serveAgent` goes on after an error of the one, and one of the other is only logged. -/
inductive Instr where
  | admitAgent (fingerprint : ℕ) (name : String)
  | validEnrollToken (fingerprint : ℕ) (name : String)
  | createSystem (fingerprint : ℕ) (name : String)
  | register (id : ℕ+) (fingerprint : ℕ)
  | agentOnline (id : ℕ+)
  | recheck (id : ℕ+) (cid fingerprint : ℕ) (ok : Bool)
  | refuse (id : ℕ+) (cid : ℕ)
  | serve (id : ℕ+) (cid fingerprint : ℕ)
  | record (id : ℕ+) (fingerprint : ℕ) (m : Metrics)
  | liveState (id : ℕ+) (fingerprint : ℕ) (m : Metrics) (now : ℤ)
  | addSample (ref fingerprint : ℕ) (m : Metrics)
  | evaluateMetrics (id : ℕ+) (m : Metrics) (now : ℤ)
  | unregister (id : ℕ+) (cid : ℕ)
  | agentOffline (id : ℕ+)
  | lookupSystem (id : ℕ+)
  | deleteRow (id : ℕ+)
  | dropLink (id : ℕ+)
  | resetAlerts (id : ℕ+) (ok : Bool)
  | now
  | systems (now : ℤ)
  | evaluateOffline (now : ℤ) (systems : List ℕ+)
  | pruneAlerts
  | tick (elapsed : ℕ)
  deriving DecidableEq

inductive Request where
  | serveAgent (fingerprint : ℕ) (name : String)
  | deleteSystem (id : ℕ+)
  | evaluateOffline
  | pruneAlerts
  | tick (elapsed : ℕ)
  deriving DecidableEq

/-- `gone` is history that no code reads: the ids whose deletion has returned and that no
system has had since. -/
structure State where
  clock : ℤ
  systems : List SystemRow
  stored : RuleTable
  agents : ℕ+ → Option AgentConn
  nextConn : ℕ
  states : ℕ+ → Option ℕ
  heap : List (List Sample)
  alerts : Alerts.State
  gone : List ℕ+

namespace State

def system (g : State) (id : ℕ+) : Option SystemRow := lookup SystemRow.id id g.systems

def systemByFingerprint (g : State) (fingerprint : ℕ) : Option SystemRow :=
  lookup SystemRow.fingerprint fingerprint g.systems

def createSystem (g : State) (row : SystemRow) : State :=
  { g with systems := g.systems ++ [row], gone := g.gone.filter fun id => id ≠ row.id }

def deleteRow (g : State) (id : ℕ+) : State :=
  { g with systems := erase SystemRow.id id g.systems, stored := g.stored.deleteSystem id }

def register (g : State) (id : ℕ+) (fingerprint : ℕ) : State :=
  { g with
    agents := Function.update g.agents id (some ⟨g.nextConn, fingerprint, false⟩)
    nextConn := g.nextConn + 1 }

def current (g : State) (id : ℕ+) (cid : ℕ) : Bool := (g.agents id).any fun ac => ac.cid = cid

def unlink (g : State) (id : ℕ+) (cid : ℕ) : State :=
  if g.current id cid then { g with agents := Function.update g.agents id none } else g

def pass (g : State) (id : ℕ+) (cid : ℕ) : State :=
  if g.current id cid then
    { g with agents := Function.update g.agents id ((g.agents id).map AgentConn.check) }
  else g

def dropLink (g : State) (id : ℕ+) : State :=
  { g with agents := Function.update g.agents id none, states := Function.update g.states id none }

/-- The state of a connected system, created with its first sample. -/
def liveState (g : State) (id : ℕ+) : State × ℕ :=
  match g.states id with
  | some ref => (g, ref)
  | none => ({ g with
      states := Function.update g.states id (some g.heap.length)
      heap := g.heap ++ [[]] }, g.heap.length)

def addSample (g : State) (ref : ℕ) (s : Sample) : State :=
  { g with heap := g.heap.modify ref (· ++ [s]) }

def answers (g : State) (ok : AlertKey → Bool) : Answers where
  name id := ((g.system id).map SystemRow.name).getD ""
  ok := ok

def evaluateMetrics (g : State) (ok : AlertKey → Bool) (id : ℕ+) (m : Metrics) (now : ℤ) : State :=
  { g with alerts := (Alerts.evaluateMetrics (g.answers ok) g.alerts id m now).1 }

def online (g : State) (id : ℕ+) : Bool := (g.agents id).isSome

def evaluateOffline (g : State) (ok : AlertKey → Bool) (now : ℤ) (systems : List ℕ+) : State :=
  { g with alerts := (Alerts.evaluateOffline (g.answers ok) g.alerts systems g.online now).1 }

def resetAlerts (g : State) (id : ℕ+) (ok : Bool) : State :=
  { g with
    alerts := Alerts.resetAlerts ok g.stored.rows g.alerts 0 id g.clock
    gone := if (g.system id).isSome then g.gone else id :: g.gone }

end State

/-- Whether an enrollment token is valid or a statement succeeds, the next sample of a
connection or its end, and whether the writes of an evaluation succeed. -/
structure Oracle where
  ok : Bool
  sample : Option Metrics
  writes : AlertKey → Bool

def code : Request → List Instr
  | .serveAgent fingerprint name => [.admitAgent fingerprint name]
  | .deleteSystem id => [.lookupSystem id]
  | .evaluateOffline => [.now]
  | .pruneAlerts => [.pruneAlerts]
  | .tick elapsed => [.tick elapsed]

/-- Handlers that return early have no code left, so no instruction drops any. -/
def atomic (o : Oracle) (g : State) : Instr → State × List Instr
  | .admitAgent fingerprint name =>
    match g.systemByFingerprint fingerprint with
    | some sys => (g, [.register sys.id fingerprint])
    | none => (g, [.validEnrollToken fingerprint name])
  | .validEnrollToken fingerprint name =>
    (g, if o.ok then [.createSystem fingerprint name] else [])
  | .createSystem fingerprint name =>
    if (g.systemByFingerprint fingerprint).isSome then (g, [])
    else
      let id := nextPos SystemRow.id g.systems
      (g.createSystem ⟨id, name, fingerprint⟩, [.register id fingerprint])
  | .register id fingerprint =>
    (g.register id fingerprint, [.agentOnline id, .recheck id g.nextConn fingerprint o.ok])
  | .agentOnline id => ({ g with alerts := agentOnline g.alerts id }, [])
  | .recheck id cid fingerprint ok =>
    if (query ok (g.system id)).passes then (g.pass id cid, [.serve id cid fingerprint])
    else (g, [.refuse id cid, .unregister id cid])
  | .refuse id cid => (g.unlink id cid, [])
  | .serve id cid fingerprint =>
    match o.sample with
    | some m => (g, [.record id fingerprint m, .serve id cid fingerprint])
    | none => (g, [.unregister id cid])
  | .record id fingerprint m => (g, [.liveState id fingerprint m (unix g.clock * second)])
  | .liveState id fingerprint m now =>
    if (g.agents id).isNone then (g, [])
    else
      let (g, ref) := g.liveState id
      (g, [.addSample ref fingerprint m, .evaluateMetrics id m now])
  | .addSample ref fingerprint m => (g.addSample ref ⟨fingerprint, m⟩, [])
  | .evaluateMetrics id m now => (g.evaluateMetrics o.writes id m now, [])
  | .unregister id cid => (g.unlink id cid, if g.current id cid then [.agentOffline id] else [])
  | .agentOffline id => ({ g with alerts := agentOffline g.alerts id g.clock }, [])
  | .lookupSystem id => (g, if (g.system id).isSome then [.deleteRow id] else [])
  | .deleteRow id => (g.deleteRow id, [.dropLink id, .resetAlerts id o.ok])
  | .dropLink id => (g.dropLink id, [])
  | .resetAlerts id ok => (g.resetAlerts id ok, [])
  | .now => (g, [.systems g.clock])
  | .systems now => (g, [.evaluateOffline now (g.systems.map SystemRow.id)])
  | .evaluateOffline now systems => (g.evaluateOffline o.writes now systems, [])
  | .pruneAlerts => ({ g with alerts := g.alerts.pruneAlerts g.clock }, [])
  | .tick elapsed => ({ g with clock := g.clock + elapsed }, [])

def restart (g : State) : State :=
  { g with
    agents := fun _ => none
    states := fun _ => none
    heap := []
    alerts := loadAlerts g.stored.rows g.alerts g.clock }

def machine : Machine State Instr Oracle Request where
  code := code
  atomic o g ins := some (.next (atomic o g ins).1 (atomic o g ins).2)
  restart g := some (restart g)

def init (stored : RuleTable) (now : ℤ) : Config State Instr :=
  ⟨⟨now, [], stored, fun _ => none, 0, fun _ => none, [], initial stored.rows now, []⟩, []⟩

def busy : Metrics := ⟨95, 0, 0, 0, 0, 0, 0, 0, 0, 0, 0, 0, 0, 0⟩

def steps (i n : ℕ) : List (Action Oracle Request) :=
  List.replicate n (.run i ⟨true, some busy, fun _ => true⟩)

end Lotse.Gateway
