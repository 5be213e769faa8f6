import Lotse.RemoteMachine
import Lotse.RunOutput

set_option autoImplicit false

/-!
# The goroutines of a script run

`execute` starts one goroutine for each target, which waits for a free slot and then runs
`runOn`, and stores the results when all of them have ended. Each goroutine has a program
counter; a step of it is one blocking call or one critical section of the run. Around them
the run is canceled, deadlines pass and the agents send exit statuses.
-/
namespace Lotse.Scripts
open RunOutput Utf8
open Remote (shellRunsOn scriptShells osName)

def runParallel : ℕ := 16

inductive Pc where
  | select
  | runOn
  | lookup
  | openChannel
  | sendScript
  | running
  | read
  | await
  | closeChannel
  | release
  | wgDone
  | finished
  deriving DecidableEq

/-- `slot` says whether it has one of the slots of `sem`, `channel` whether its session
channel is open, and `exit` is the channel of that name. `timedOut` says that the deadline
of its context passed before the run was canceled. `received` are the exit statuses of the
agent, which no code reads. -/
structure Goroutine where
  pc : Pc
  slot : Bool
  channel : Bool
  exit : Option ℕ
  timedOut : Bool
  received : List ℕ
  deriving DecidableEq

inductive MainPc where
  | wait
  | finishRun
  | close
  | ended
  deriving DecidableEq

structure State where
  shell : String
  run : RunOutput.State
  gs : List Goroutine
  canceled : Bool
  main : MainPc

structure AgentConn where
  shell : Bool
  os : String
  deriving DecidableEq

/-- What a step of a goroutine finds: whether `select` takes a slot, the agent of the
system, the error of `OpenChannel`, whether the agent accepts the script, the bytes read
and whether the channel has ended, and whether the last `select` takes the exit status. -/
structure Oracle where
  takeSlot : Bool
  agent : Option AgentConn
  openError : Option String
  accepted : Bool
  chunk : Bytes
  eof : Bool
  takeExit : Bool
  deriving DecidableEq

def skipReason (shell : String) : Option AgentConn → Option String
  | none => some "the system is offline"
  | some ac =>
    if ac.shell = false then
      some "scripts are disabled on this machine (install the agent with --allow-shell)"
    else if shellRunsOn shell ac.os = false then
      some ((scriptShells.lookup shell).getD "" ++ " scripts do not run on " ++ osName ac.os)
    else none

/-- The result without an exit status, by what ended the context of the target. -/
def lostResult (canceled timedOut : Bool) : Status × String :=
  if timedOut then (.failed, "the agent did not finish in time")
  else if canceled then (.canceled, "stopped by a user")
  else (.failed, "the connection to the agent was lost")

def goStep (g : State) (i : ℕ) (t : Goroutine) (s : Slot) (o : Oracle) :
    Option (RunOutput.State × Goroutine) :=
  let finish (status : Status) (message : String) (code : Option ℤ) (pc : Pc) :=
    some (update g.run i s status message code, { t with pc })
  match t.pc with
  | .select =>
    if o.takeSlot then
      if g.gs.countP (·.slot) < runParallel then some (g.run, { t with pc := .runOn, slot := true })
      else none
    else if g.canceled then some (g.run, { t with pc := .runOn })
    else none
  | .runOn =>
    if g.canceled then finish .canceled "" none .release else some (g.run, { t with pc := .lookup })
  | .lookup =>
    match skipReason g.shell o.agent with
    | some message => finish .skipped message none .release
    | none => some (g.run, { t with pc := .openChannel })
  | .openChannel =>
    match o.openError with
    | some message => finish .failed ("the agent refused: " ++ message) none .release
    | none => some (g.run, { t with pc := .sendScript, channel := true })
  | .sendScript =>
    if o.accepted then some (g.run, { t with pc := .running })
    else finish .failed "this agent cannot run scripts; update it" none .closeChannel
  | .running => finish .running s.target.error s.target.exitCode .read
  | .read =>
    let run := if o.chunk = [] then g.run else write g.run i s o.chunk
    some (run, { t with pc := if o.eof then .await else .read })
  | .await =>
    if o.takeExit then
      t.exit.bind fun code =>
        finish (if code = 0 then .done else .failed) "" (some code) .closeChannel
    else
      let (status, message) := lostResult g.canceled t.timedOut
      finish status message none .closeChannel
  | .closeChannel => some (g.run, { t with pc := .release, channel := false })
  | .release => some (g.run, { t with pc := .wgDone, slot := false })
  | .wgDone => some (g.run, { t with pc := .finished })
  | .finished => none

inductive Action where
  | go (i : ℕ) (o : Oracle)
  | exitStatus (i : ℕ) (code : ℕ)
  | deadline (i : ℕ)
  | cancel
  | main
  deriving DecidableEq

def setGo (g : State) (i : ℕ) (t : Goroutine) : State := { g with gs := g.gs.set i t }

/-- The agent sends an exit status; the channel `exit` keeps the first. -/
def Goroutine.receive (t : Goroutine) (code : ℕ) : Goroutine :=
  { t with exit := some (t.exit.getD code), received := code :: t.received }

/-- `cancel` is a user who stops the run or the hub that shuts down. -/
def step (g : State) : Action → Option State
  | .go i o =>
    match g.gs[i]?, g.run.slots[i]? with
    | some t, some s => (goStep g i t s o).map fun out => setGo { g with run := out.1 } i out.2
    | _, _ => none
  | .exitStatus i code =>
    match g.gs[i]? with
    | some t => if t.channel then some (setGo g i (t.receive code)) else none
    | none => none
  | .deadline i =>
    match g.gs[i]? with
    | some t =>
      if (t.pc = .read ∨ t.pc = .await) ∧ g.canceled = false then
        some (setGo g i { t with timedOut := true })
      else none
    | none => none
  | .cancel => some { g with canceled := true }
  | .main =>
    match g.main with
    | .wait => if ∀ t ∈ g.gs, t.pc = .finished then some { g with main := .finishRun } else none
    | .finishRun =>
      some { g with main := .close, run := { g.run with stored := some (snapshot g.run) } }
    | .close => some { g with main := .ended, run := close g.run }
    | .ended => none

def init (shell : String) (systems : List ℤ) : State where
  shell := shell
  run := newRun systems
  gs := (newRun systems).slots.map fun _ => ⟨.select, false, false, none, false, []⟩
  canceled := false
  main := .wait

end Lotse.Scripts
