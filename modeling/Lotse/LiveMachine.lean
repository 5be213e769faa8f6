import Lotse.AgentMachine
import Lotse.Rows
import Lotse.Tasks

set_option autoImplicit false

/-!
# Live mode

The viewers of the event stream decide how often the agents report. `broker.mu` guards
the subscribers, `h.mu` the flag, the idle timer and the map of agents; the hub counts
the subscribers while it holds `h.mu`, and they may change before it lets go. A changed
interval is sent to each agent by a goroutine of its own. On the agent one goroutine
takes the messages off the link and leaves the newest in a mailbox, and another one
reports and empties the mailbox.
-/
namespace Lotse.Live
open Tasks Agent

def liveInterval : ℤ := 2
def idleInterval : ℤ := 60

/-- A connection of an agent, with both ends. `reply` is the interval that `register`
returned, `queue` the interval messages on the link, oldest first, `handling` the one
`handleRequests` works on, `mailbox` the channel `intervals`, and `interval` that of
`report`, which starts when `hello` was answered. -/
structure Link where
  reply : ℤ
  answered : Bool
  closed : Bool
  queue : List ℤ
  handling : Option ℤ
  mailbox : Option ℤ
  interval : Option ℤ
  deriving DecidableEq

/-- `held` is the number of subscribers that the holder of `h.mu` has counted, while a
`viewersChanged` or an idle callback holds it. `armed` are the idle timers that can still
be stopped, and `unsent` the goroutines of `setInterval` that have not sent yet. -/
structure State where
  subs : List ℕ
  nextViewer : ℕ
  live : Bool
  idleTimer : Option ℕ
  armed : List ℕ
  nextTimer : ℕ
  held : Option ℕ
  agents : List (ℕ+ × ℕ)
  links : ℕ → Link
  nextConn : ℕ
  unsent : List (ℕ × ℤ)

namespace State

def intervalLocked (g : State) : ℤ := if g.live then liveInterval else idleInterval

def broadcastIntervalLocked (g : State) : State :=
  { g with unsent := g.unsent ++ g.agents.map fun a => (a.2, g.intervalLocked) }

def setLink (g : State) (conn : ℕ) (l : Link) : State :=
  { g with links := Function.update g.links conn l }

def stopIdleTimer (g : State) : State :=
  { g with armed := g.armed.filter (some · ≠ g.idleTimer), idleTimer := none }

def startIdleTimer (g : State) : State :=
  { g with
    idleTimer := some g.nextTimer
    armed := g.nextTimer :: g.armed
    nextTimer := g.nextTimer + 1 }

def viewersChanged (g : State) (count : ℕ) : State :=
  if 0 < count then
    let g := g.stopIdleTimer
    if g.live then g else { g with live := true }.broadcastIntervalLocked
  else if g.live ∧ g.idleTimer = none then g.startIdleTimer
  else g

def goIdle (g : State) (count : ℕ) : State :=
  if count = 0 then { g with live := false }.broadcastIntervalLocked else g

def register (g : State) (id : ℕ+) : State :=
  { g with
    agents := (id, g.nextConn) :: g.agents.filter (·.1 ≠ id)
    links := Function.update g.links g.nextConn
      ⟨g.intervalLocked, false, false, [], none, none, none⟩
    nextConn := g.nextConn + 1 }

def unregister (g : State) (id : ℕ+) (conn : ℕ) : State :=
  { g with agents := g.agents.filter (· ≠ (id, conn)) }

end State

inductive Instr where
  | subscribe
  | onChange (viewer : ℕ)
  | viewersChanged (viewer : ℕ)
  | stream
  | unsubscribe (viewer : ℕ)
  | fire (timer : ℕ)
  | idle
  | goIdle
  | register (id : ℕ+)
  | recheck (id : ℕ+) (conn : ℕ)
  | reply (conn : ℕ)
  | serve
  | unregister (id : ℕ+) (conn : ℕ)
  | close (conn : ℕ)
  | send (k : ℕ)
  | receive (conn : ℕ)
  | drain (conn : ℕ)
  | put (conn : ℕ)
  | hello (conn : ℕ)
  | report (conn : ℕ)
  deriving DecidableEq

/-- `fire` is a timer that has run down, `send` the goroutine at that place of `unsent`,
`close` a link that breaks; `deliver`, `hello` and `report` are steps of an agent. -/
inductive Request where
  | events
  | fire (timer : ℕ)
  | connect (id : ℕ+)
  | send (k : ℕ)
  | close (conn : ℕ)
  | deliver (conn : ℕ)
  | hello (conn : ℕ)
  | report (conn : ℕ)
  deriving DecidableEq

def code : Request → List Instr
  | .events => [.subscribe]
  | .fire timer => [.fire timer]
  | .connect id => [.register id]
  | .send k => [.send k]
  | .close conn => [.close conn]
  | .deliver conn => [.receive conn]
  | .hello conn => [.hello conn]
  | .report conn => [.report conn]

/-- The instructions of viewers and idle timers. The lock is taken by `onChange` and
`idle` and given back by `viewersChanged` and `goIdle`. -/
def viewerStep (g : State) : Instr → Option (Outcome State Instr)
  | .subscribe =>
    let viewer := g.nextViewer
    some (.next { g with subs := viewer :: g.subs, nextViewer := g.nextViewer + 1 }
      [.onChange viewer, .stream, .unsubscribe viewer])
  | .onChange viewer =>
    if g.held = none then
      some (.next { g with held := some g.subs.length } [.viewersChanged viewer])
    else none
  | .viewersChanged _ => g.held.map fun count =>
    .next { g.viewersChanged count with held := none } []
  | .unsubscribe viewer =>
    some (.next { g with subs := g.subs.erase viewer } [.onChange viewer])
  | .fire timer =>
    if timer ∈ g.armed then
      some (.next { g with armed := g.armed.filter (· ≠ timer) } [.idle])
    else none
  | .idle =>
    if g.held = none then
      if g.live then
        some (.next { g with idleTimer := none, held := some g.subs.length } [.goIdle])
      else some (.next { g with idleTimer := none } [])
    else none
  | .goIdle => g.held.map fun count => .next { g.goIdle count with held := none } []
  | _ => some (.next g [])

/-- The instructions of connections, on the hub and on the agent. `gone` is the answer of
the store that the system was deleted. -/
def linkStep (gone : Bool) (g : State) : Instr → Option (Outcome State Instr)
  | .register id =>
    if g.held = none then
      some (.next (g.register id) ((g.agents.lookup id).toList.map .close ++
        [.recheck id g.nextConn, .unregister id g.nextConn, .close g.nextConn]))
    else none
  | .recheck id conn =>
    if gone then
      if g.held = none then some (.next (g.unregister id conn) []) else none
    else some (.next g [.reply conn, .serve])
  | .reply conn => some (.next (g.setLink conn { g.links conn with answered := true }) [])
  | .unregister id conn =>
    if g.held = none then some (.next (g.unregister id conn) []) else none
  | .close conn =>
    some (.next (g.setLink conn { g.links conn with
      closed := true, queue := [], handling := none, mailbox := none, interval := none }) [])
  | .send k => g.unsent[k]?.map fun m =>
    let l := g.links m.1
    let g := { g with unsent := g.unsent.eraseIdx k }
    .next (if l.closed then g else g.setLink m.1 { l with queue := l.queue ++ [m.2] }) []
  | .receive conn =>
    let l := g.links conn
    match l.handling, l.queue with
    | none, seconds :: queue =>
      if seconds ≤ 0 then some (.next (g.setLink conn { l with queue }) [])
      else some (.next (g.setLink conn { l with queue, handling := some seconds })
        [.drain conn, .put conn])
    | _, _ => none
  | .drain conn =>
    let l := g.links conn
    l.handling.map fun _ => .next (g.setLink conn { l with mailbox := none }) []
  | .put conn =>
    let l := g.links conn
    l.handling.map fun seconds =>
      .next (g.setLink conn { l with handling := none, mailbox := some (clampInterval seconds) }) []
  | .hello conn =>
    let l := g.links conn
    if l.answered ∧ l.closed = false ∧ l.interval = none then
      some (.next (g.setLink conn { l with interval := some (clampInterval l.reply) }) [])
    else none
  | .report conn =>
    let l := g.links conn
    match l.interval, l.mailbox with
    | some _, some d => some (.next (g.setLink conn { l with interval := some d, mailbox := none }) [])
    | _, _ => none
  | _ => some (.next g [])

def atomic (gone : Bool) (g : State) (ins : Instr) : Option (Outcome State Instr) :=
  match ins with
  | .subscribe | .onChange _ | .viewersChanged _ | .stream | .unsubscribe _ | .fire _ | .idle
  | .goIdle => viewerStep g ins
  | _ => linkStep gone g ins

def machine : Machine State Instr Bool Request := ⟨code, atomic, fun _ => none⟩

def init : Config State Instr :=
  ⟨⟨[], 0, false, none, [], 0, none, [], fun _ => ⟨0, false, true, [], none, none, none⟩, 0, []⟩, []⟩

theorem rest_subset_resume {gone : Bool} {g : State} {ins : Instr} {out : Outcome State Instr}
    {rest : List Instr} (h : atomic gone g ins = some out) : rest ⊆ out.resume rest := by
  have next : ∃ g' code, out = .next g' code := by
    cases ins <;> simp only [atomic, viewerStep, linkStep] at h
    all_goals
      first
        | (cases h; exact ⟨_, _, rfl⟩)
        | (obtain ⟨_, _, rfl⟩ := Option.map_eq_some_iff.1 h; exact ⟨_, _, rfl⟩)
        | (repeat' split at h) <;> cases h <;> exact ⟨_, _, rfl⟩
  obtain ⟨g', code, rfl⟩ := next
  exact List.subset_append_right _ _

end Lotse.Live
