import Lotse.AlertEngine
import Lotse.Tasks

set_option autoImplicit false

/-!
# Connections coming and going

What `serveAgent` does to the map of connected agents and to the alert engine, and the
evaluation of the offline rules. `h.mu` and `e.mu` guard one instruction each; between
the instructions of a handler other handlers run.
-/
namespace Lotse.Presence
open Alerts Tasks

inductive Instr where
  | register (id : ℕ+)
  | publish (id : ℕ+) (online : Bool)
  | agentOnline (id : ℕ+)
  | serve
  | unregister (id : ℕ+) (conn : ℕ)
  | flushState
  | agentOffline (id : ℕ+)
  | now
  | systems (now : ℤ)
  | evaluateOffline (now : ℤ) (systems : List ℕ+)
  | tick (elapsed : ℕ)
  deriving DecidableEq

inductive Request where
  | connect (id : ℕ+)
  | evaluateOffline
  | tick (elapsed : ℕ)
  deriving DecidableEq

/-- An alert of an offline rule, with what was true when `step` created it: the time
of the evaluation, whether the system was connected, when its last connection was
removed since the hub started, and when the hub started. -/
structure Firing where
  system : ℕ+
  duration : ℕ
  now : ℤ
  online : Bool
  ended : Option ℤ
  started : ℤ
  deriving DecidableEq

/-- `status` is the last published status of a system. `ended` and `fired` are history
that no code reads: when the last connection of a system was removed from `agents`
since the hub started, and the alerts created so far. -/
structure State where
  clock : ℤ
  stored : List AlertRule
  agents : ℕ+ → Option ℕ
  nextConn : ℕ
  alerts : Alerts.State
  status : ℕ+ → Option Bool
  ended : ℕ+ → Option ℤ
  fired : List Firing

namespace State

def register (g : State) (id : ℕ+) : State :=
  { g with agents := Function.update g.agents id (some g.nextConn), nextConn := g.nextConn + 1 }

def remove (g : State) (id : ℕ+) : State :=
  { g with
    agents := Function.update g.agents id none
    ended := Function.update g.ended id (some g.clock) }

def firing (g : State) (now : ℤ) (e : AlertEvent) : Firing :=
  ⟨e.alert.systemID, e.rule.duration, now, (g.agents e.alert.systemID).isSome,
    g.ended e.alert.systemID, g.alerts.started⟩

def evaluateOffline (g : State) (store : Answers) (now : ℤ) (systems : List ℕ+) : State :=
  let out := Alerts.evaluateOffline store g.alerts systems (fun id => (g.agents id).isSome) now
  { g with
    alerts := out.1
    fired := g.fired ++ (out.2.filter AlertEvent.firing).map (g.firing now) }

end State

structure Oracle where
  systems : List ℕ+
  store : Answers

def code : Request → List Instr
  | .connect id => [.register id]
  | .evaluateOffline => [.now]
  | .tick elapsed => [.tick elapsed]

def atomic (o : Oracle) (g : State) : Instr → Option (Outcome State Instr)
  | .register id => some (.next (g.register id)
      [.publish id true, .agentOnline id, .serve, .unregister id g.nextConn])
  | .publish id online => some (.next { g with status := Function.update g.status id (some online) } [])
  | .agentOnline id => some (.next { g with alerts := agentOnline g.alerts id } [])
  | .serve => some (.next g [])
  | .unregister id conn =>
    if g.agents id = some conn then
      some (.next (g.remove id) [.flushState, .agentOffline id, .publish id false])
    else some (.next g [])
  | .flushState => some (.next g [])
  | .agentOffline id => some (.next { g with alerts := agentOffline g.alerts id g.clock } [])
  | .now => some (.next g [.systems g.clock])
  | .systems now => some (.next g [.evaluateOffline now o.systems])
  | .evaluateOffline now systems => some (.next (g.evaluateOffline o.store now systems) [])
  | .tick elapsed => some (.next { g with clock := g.clock + elapsed } [])

def restart (g : State) : State :=
  { g with
    agents := fun _ => none
    alerts := loadAlerts g.stored g.alerts g.clock
    status := fun _ => none
    ended := fun _ => none }

def machine : Machine State Instr Oracle Request := ⟨code, atomic, fun g => some (restart g)⟩

def init (stored : List AlertRule) (now : ℤ) : Config State Instr :=
  ⟨⟨now, stored, fun _ => none, 0, initial stored now, fun _ => none, fun _ => none, []⟩, []⟩

end Lotse.Presence
