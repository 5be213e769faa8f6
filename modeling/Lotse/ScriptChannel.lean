import Lotse.ScriptRuns
import Lotse.TerminalAgent

set_option autoImplicit false

/-!
# A script on one machine

`runOn` on the hub, from the request on, and `serveSession` with `runScript` on the agent,
joined by one session channel. The script writes into a pipe of the agent, which one
goroutine copies to the channel; what the agent itself has to say about the run follows
that output. `printed`, `taken`, `noted` and `abandoned` are what the processes of the
script wrote, what was read from the pipe, what the agent added, and what was in the pipe
when it was closed. No code reads them.
-/
namespace Lotse.ScriptChannel
open Utf8 (Bytes)
open Terminal (UpMsg Copy upBytes)
open RunOutput (Slot Status)

inductive DownMsg where
  | script (valid : Bool)
  | close
  deriving DecidableEq

def text (s : String) : Bytes := s.toUTF8.data.toList

/-- The script's process; `code` is negative after a signal. -/
inductive Proc where
  | absent
  | running
  | exited (code : ℤ)
  deriving DecidableEq

inductive RunPc where
  | idle
  | mkdir
  | command
  | start
  | wait
  | join
  | report
  | cleanup
  | sendExit
  | closeChannel
  | done
  deriving DecidableEq

/-- The context with the time limit is made by `runScript` and ends with it. -/
def RunPc.timed : RunPc → Bool
  | .mkdir | .command | .start | .wait | .join | .report => true
  | _ => false

inductive ServePc where
  | loop
  | cancel
  | closeChannel
  | done
  deriving DecidableEq

def exitTimeout : ℕ := 124

/-- `canceled` and `deadline` say how the context of the script ended, `held` that a process
has the pipe open, `dir` that the temporary directory is there and `undeleted` that removing
it has failed; `limit` is the time limit as it is shown. -/
structure Job where
  limit : String
  started : Bool
  reqs : List Bool
  closed : Bool
  sentClose : Bool
  lost : Bool
  canceled : Bool
  deadline : Bool
  dir : Bool
  undeleted : Bool
  proc : Proc
  killed : Bool
  held : Bool
  pipeOpen : Bool
  pipe : Bytes
  copy : Copy
  run : RunPc
  serve : ServePc
  status : ℕ
  printed : Bytes
  taken : Bytes
  noted : Bytes
  abandoned : Bytes

namespace Job

def init (limit : String) : Job where
  limit := limit
  started := false
  reqs := []
  closed := false
  sentClose := false
  lost := false
  canceled := false
  deadline := false
  dir := false
  undeleted := false
  proc := .absent
  killed := false
  held := false
  pipeOpen := false
  pipe := []
  copy := .idle
  run := .idle
  serve := .loop
  status := 0
  printed := []
  taken := []
  noted := []
  abandoned := []

def canSend (s : Job) : Bool := !s.sentClose && !s.lost

def emit (s : Job) (m : UpMsg) : List UpMsg := if s.canSend then [m] else []

def noDir (err : String) : Bytes := text ("cannot create a temporary directory: " ++ err ++ "\n")
def notStarted (err : String) : Bytes := text ("cannot run the script: " ++ err ++ "\n")
def stopped (limit : String) : Bytes :=
  text ("\n[stopped: the time limit of " ++ limit ++ " was reached]\n")

/-- How a call of the operating system ends. `made` is for a directory that was made and
could not be restricted. -/
inductive Outcome where
  | ok
  | fails (err : String) (made : Bool)
  deriving DecidableEq

inductive Act where
  | print (b : Bytes)
  | exit (code : ℤ)
  | hangUp
  | deadline
  | kill
  | waitDelay
  | copy (n : ℕ)
  | run (o : Outcome)
  | serve
  deriving DecidableEq

/-- The end of the pipe, by the goroutine that reads it or after the `WaitDelay`. -/
def closePipe (s : Job) : Job :=
  if s.pipeOpen then { s with pipeOpen := false, pipe := [], abandoned := s.pipe } else s

def copyStep (s : Job) (n : ℕ) : Option (Job × List UpMsg) :=
  match s.copy with
  | .read =>
    if s.pipe ≠ [] then
      some ({ s with
        copy := .write (s.pipe.take (n + 1))
        pipe := s.pipe.drop (n + 1)
        taken := s.taken ++ s.pipe.take (n + 1) }, [])
    else if s.pipeOpen ∧ s.held then none
    else some ({ s.closePipe with copy := .done }, [])
  | .write chunk =>
    if s.canSend then
      some ({ s with copy := .wrote chunk (n + 1) }, [.data (chunk.take (n + 1))])
    else some ({ s.closePipe with copy := .done }, [])
  | _ => none

def returns (s : Job) (status : ℕ) (note : Bytes) : Option (Job × List UpMsg) :=
  some ({ s with status, noted := s.noted ++ note, run := .cleanup },
    if note = [] then [] else s.emit (.data note))

def runStep (s : Job) (o : Outcome) : Option (Job × List UpMsg) :=
  match s.run with
  | .mkdir =>
    match o with
    | .ok => some ({ s with dir := true, run := .command }, [])
    | .fails err made => { s with dir := made }.returns 1 (noDir err)
  | .command =>
    match o with
    | .ok => some ({ s with run := .start }, [])
    | .fails err _ => s.returns 127 (text (err ++ "\n"))
  | .start =>
    -- a command whose context has ended is not started
    if o = .ok ∧ !s.canceled ∧ !s.deadline then
      some ({ s with
        proc := .running
        held := true
        pipeOpen := true
        copy := .read
        run := .wait }, [])
    else some ({ s with run := .report }, [])
  | .wait =>
    match s.proc with
    | .exited _ => some ({ s with run := .join }, [])
    | _ => none
  | .join => if s.copy = .done then some ({ s with run := .report }, []) else none
  | .report =>
    if s.deadline then s.returns exitTimeout (stopped s.limit)
    else
      match s.proc with
      | .exited code => s.returns (if code < 0 then 255 else code.toNat % 2 ^ 32) []
      | _ =>
        match o with
        | .fails err _ => s.returns 127 (notStarted err)
        | .ok => none
  | .cleanup =>
    -- the error of `os.RemoveAll` is ignored
    let fails := o ≠ .ok && s.dir
    some ({ s with dir := fails, undeleted := fails, run := .sendExit }, [])
  | .sendExit => some ({ s with run := .closeChannel }, s.emit (.exitStatus s.status))
  | .closeChannel => some ({ s with run := .done, sentClose := true }, s.emit .close)
  | _ => none

def serveStep (s : Job) : Option (Job × List UpMsg) :=
  match s.serve with
  | .loop =>
    match s.reqs with
    | valid :: reqs =>
      if s.started ∨ !valid then some ({ s with reqs }, s.emit (.reply false))
      else some ({ s with reqs, started := true, run := .mkdir }, s.emit (.reply true))
    | [] => if s.closed then some ({ s with serve := .cancel }, []) else none
  | .cancel => some ({ s with canceled := s.canceled || !s.deadline, serve := .closeChannel }, [])
  | .closeChannel => some ({ s with serve := .done, sentClose := true }, s.emit .close)
  | .done => none

def step (s : Job) : Act → Option (Job × List UpMsg)
  | .print b =>
    if s.pipeOpen ∧ s.held then some ({ s with pipe := s.pipe ++ b, printed := s.printed ++ b }, [])
    else none
  | .exit code => if s.proc = .running then some ({ s with proc := .exited code }, []) else none
  | .hangUp => if s.proc ≠ .running then some ({ s with held := false }, []) else none
  | .deadline =>
    if s.run.timed ∧ !s.canceled then some ({ s with deadline := true }, []) else none
  | .kill =>
    if s.run = .wait ∧ (s.canceled ∨ s.deadline) then some ({ s with killed := true }, []) else none
  | .waitDelay =>
    if s.run = .join ∨ (s.run = .wait ∧ s.killed) then some (s.closePipe, []) else none
  | .copy n => s.copyStep n
  | .run o => s.runStep o
  | .serve => s.serveStep

def receive (s : Job) (m : DownMsg) : Option (Job × List UpMsg) :=
  if s.closed then none
  else
    match m with
    | .script valid => some ({ s with reqs := s.reqs ++ [valid] }, [])
    | .close => some ({ s with closed := true, sentClose := true }, s.emit .close)

end Job

def agent : Links.Party Job Job.Act DownMsg UpMsg where
  step := Job.step
  receive := Job.receive
  lost s := { s with closed := true, lost := true }

inductive TargetPc where
  | request
  | reply
  | fail
  | start
  | read
  | awaitExit
  | closeChannel
  | done
  deriving DecidableEq

/-- The channel is closed when the context ends. -/
def TargetPc.watched : TargetPc → Bool
  | .read | .awaitExit => true
  | _ => false

/-- `buf` is what came on the channel and is not read yet, `reqs` the exit statuses that the
second goroutine has not seen. -/
structure Target where
  slot : Slot
  pc : TargetPc
  replies : List Bool
  buf : Bytes
  reqs : List ℕ
  exit : Option ℕ
  closed : Bool
  sentClose : Bool
  lost : Bool
  canceled : Bool
  timedOut : Bool

namespace Target

def init (system : ℤ) : Target where
  slot := RunOutput.newSlot system
  pc := .request
  replies := []
  buf := []
  reqs := []
  exit := none
  closed := false
  sentClose := false
  lost := false
  canceled := false
  timedOut := false

def canSend (t : Target) : Bool := !t.sentClose && !t.lost

def emit (t : Target) (m : DownMsg) : List DownMsg := if t.canSend then [m] else []

def update (t : Target) (status : Status) (error : String) (exitCode : Option ℤ) (pc : TargetPc) :
    Target :=
  { t with slot := { t.slot with target := { t.slot.target with status, error, exitCode } }, pc }

/-- A chunk has at most `n + 1` bytes; `takeExit` says which case of the `select` is taken. -/
inductive Act where
  | go (n : ℕ) (takeExit : Bool)
  | exitStatus
  | cancel
  | deadline
  | stop
  deriving DecidableEq

def goStep (t : Target) (n : ℕ) (takeExit : Bool) : Option (Target × List DownMsg) :=
  match t.pc with
  | .request =>
    if t.canSend then some ({ t with pc := .reply }, [.script true])
    else some ({ t with pc := .fail }, [])
  | .reply =>
    match t.replies with
    | ok :: replies => some ({ t with replies, pc := if ok then .start else .fail }, [])
    | [] => if t.closed then some ({ t with pc := .fail }, []) else none
  | .fail =>
    some (t.update .failed "this agent cannot run scripts; update it" none .closeChannel, [])
  | .start => some (t.update .running "" none .read, [])
  | .read =>
    if t.buf ≠ [] then
      some ({ t with slot := t.slot.write (t.buf.take (n + 1)), buf := t.buf.drop (n + 1) }, [])
    else if t.closed then some ({ t with pc := .awaitExit }, [])
    else none
  | .awaitExit =>
    if takeExit then
      match t.exit with
      | some code =>
        some (t.update (if code = 0 then .done else .failed) "" (some code) .closeChannel, [])
      | none => none
    else
      let (status, message) := Scripts.lostResult t.canceled t.timedOut
      some (t.update status message none .closeChannel, [])
  | .closeChannel => some ({ t with pc := .done, sentClose := true }, t.emit .close)
  | .done => none

def step (t : Target) : Act → Option (Target × List DownMsg)
  | .go n takeExit => t.goStep n takeExit
  | .exitStatus =>
    match t.reqs with
    | code :: reqs => some ({ t with reqs, exit := t.exit.or (some code) }, [])
    | [] => none
  | .cancel => some ({ t with canceled := true }, [])
  | .deadline =>
    if t.pc.watched ∧ !t.canceled then some ({ t with timedOut := true }, []) else none
  | .stop =>
    if t.pc.watched ∧ (t.canceled ∨ t.timedOut) then
      some ({ t with sentClose := true }, t.emit .close)
    else none

def receive (t : Target) (m : UpMsg) : Option (Target × List DownMsg) :=
  if t.closed then none
  else
    match m with
    | .data b => some ({ t with buf := t.buf ++ b }, [])
    | .reply ok => some ({ t with replies := t.replies ++ [ok] }, [])
    | .exitStatus code => some ({ t with reqs := t.reqs ++ [code] }, [])
    | .close => some ({ t with closed := true, sentClose := true }, t.emit .close)

end Target

def hub : Links.Party Target Target.Act UpMsg DownMsg where
  step := Target.step
  receive := Target.receive
  lost t := { t with closed := true, lost := true }

abbrev System := Links.Net Job Target DownMsg UpMsg
abbrev Action := Links.Action Job.Act Target.Act

def step : System → Action → Option System := Links.step agent hub

def init (limit : String) (system : ℤ) : System := Links.Net.init (Job.init limit) (Target.init system)

end Lotse.ScriptChannel
