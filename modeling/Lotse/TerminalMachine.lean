import Lotse.AgentMachine
import Lotse.Links

set_option autoImplicit false

/-!
# A terminal from the browser to the shell

`handleShell` on the hub and `serveSession` with `shell.run` on the agent, joined by one
session channel. Each side is a party of the link with all its goroutines: a step is one
blocking call or one critical section of one of them. What passes a party is kept in fields
that no code reads.
-/
namespace Lotse.Terminal
open Utf8 (Bytes)
open Agent (dim)

inductive Request where
  | ptyReq (columns rows : ℕ)
  | shell
  | windowChange (columns rows : ℕ)
  deriving DecidableEq

inductive DownMsg where
  | data (b : Bytes)
  | request (r : Request)
  | close
  deriving DecidableEq

inductive UpMsg where
  | data (b : Bytes)
  | reply (ok : Bool)
  | exitStatus (status : ℕ)
  | close
  deriving DecidableEq

def DownMsg.bytes : DownMsg → Bytes
  | .data b => b
  | _ => []

def UpMsg.bytes : UpMsg → Bytes
  | .data b => b
  | _ => []

inductive Copy where
  | idle
  | read
  | write (chunk : Bytes)
  | done
  deriving DecidableEq

namespace Copy

def pending : Copy → Bytes
  | write chunk => chunk
  | _ => []

def wrote (chunk : Bytes) (n : ℕ) : Copy :=
  if chunk.drop n = [] then read else write (chunk.drop n)

end Copy

/-- The shell's process; with `code` the exit code of its `ProcessState`. -/
inductive Proc where
  | absent
  | running
  | exited (code : Option ℤ) (waitError : Bool)
  deriving DecidableEq

/-- What `shell.run` returns. A shell that a signal has ended has the code -1, which becomes 0,
as the status of one that succeeded. -/
def Proc.runStatus : Proc → ℕ
  | .exited (some code) _ => (max code 0).toNat % 2 ^ 32
  | .exited none true => 1
  | _ => 0

inductive RunPc where
  | idle
  | wait
  | drain
  | closePTY
  | join
  | sendExit
  | closeChannel
  | done
  deriving DecidableEq

inductive ServePc where
  | loop
  | kill
  | closeChannel
  | done
  deriving DecidableEq

/-- `held` says that a process has the terminal open, `out` is what it shows and nobody has
read, `input` is what came on the channel. `printed`, `taken`, `fed`, `keys` and `abandoned`
are what was written to the terminal by its processes, read from it and from the channel,
typed into it, and in it when it was closed. -/
structure Session where
  ptyReq : Option (ℕ × ℕ)
  proc : Proc
  killed : Bool
  held : Bool
  ptyOpen : Bool
  size : ℕ × ℕ
  out : Bytes
  input : Bytes
  reqs : List Request
  closed : Bool
  sentClose : Bool
  lost : Bool
  copyIn : Copy
  copyOut : Copy
  run : RunPc
  serve : ServePc
  printed : Bytes
  taken : Bytes
  fed : Bytes
  keys : Bytes
  abandoned : Bytes

namespace Session

def init : Session where
  ptyReq := none
  proc := .absent
  killed := false
  held := false
  ptyOpen := false
  size := (80, 24)
  out := []
  input := []
  reqs := []
  closed := false
  sentClose := false
  lost := false
  copyIn := .idle
  copyOut := .idle
  run := .idle
  serve := .loop
  printed := []
  taken := []
  fed := []
  keys := []
  abandoned := []

def canSend (s : Session) : Bool := !s.sentClose && !s.lost

def emit (s : Session) (m : UpMsg) : List UpMsg := if s.canSend then [m] else []

def closePTY (s : Session) : Session :=
  if s.ptyOpen then { s with ptyOpen := false, out := [], abandoned := s.out } else s

/-- The processes of the terminal, the four goroutines and the loop of `serveSession`. A
chunk has at most `n + 1` bytes; `timeout` and `started` say how a `select` and `startShell`
end. -/
inductive Act where
  | print (b : Bytes)
  | exit (code : Option ℤ) (waitError : Bool)
  | hangUp
  | copyOut (n : ℕ)
  | copyIn (n : ℕ)
  | run (timeout : Bool)
  | serve (started : Bool)
  deriving DecidableEq

def copyOutStep (s : Session) (n : ℕ) : Option (Session × List UpMsg) :=
  match s.copyOut with
  | .read =>
    if s.ptyOpen ∧ s.out ≠ [] then
      some ({ s with
        copyOut := .write (s.out.take (n + 1))
        out := s.out.drop (n + 1)
        taken := s.taken ++ s.out.take (n + 1) }, [])
    else if s.ptyOpen ∧ s.held then none
    else some ({ s with copyOut := .done }, [])
  | .write chunk =>
    if s.canSend then
      some ({ s with copyOut := .wrote chunk (n + 1) }, [.data (chunk.take (n + 1))])
    else some ({ s with copyOut := .done }, [])
  | _ => none

def copyInStep (s : Session) (n : ℕ) : Option (Session × List UpMsg) :=
  match s.copyIn with
  | .read =>
    if s.input ≠ [] then
      some ({ s with
        copyIn := .write (s.input.take (n + 1))
        input := s.input.drop (n + 1)
        fed := s.fed ++ s.input.take (n + 1) }, [])
    else if s.closed then some ({ s with copyIn := .done }, [])
    else none
  | .write chunk =>
    if s.ptyOpen then
      some ({ s with
        copyIn := .wrote chunk (n + 1)
        keys := s.keys ++ chunk.take (n + 1) }, [])
    else some ({ s with copyIn := .done }, [])
  | _ => none

def runStep (s : Session) (timeout : Bool) : Option (Session × List UpMsg) :=
  match s.run with
  | .wait =>
    match s.proc with
    | .exited _ _ => some ({ s with run := .drain }, [])
    | _ => none
  | .drain =>
    if s.copyOut = .done ∨ timeout then some ({ s with run := .closePTY }, []) else none
  | .closePTY => some ({ s.closePTY with run := .join }, [])
  | .join => if s.copyOut = .done then some ({ s with run := .sendExit }, []) else none
  | .sendExit => some ({ s with run := .closeChannel }, s.emit (.exitStatus s.proc.runStatus))
  | .closeChannel => some ({ s with run := .done, sentClose := true }, s.emit .close)
  | _ => none

def handle (s : Session) (started : Bool) : Request → Session × List UpMsg
  | .ptyReq columns rows =>
    if s.proc ≠ .absent then (s, s.emit (.reply false))
    else ({ s with ptyReq := some (columns, rows) }, s.emit (.reply true))
  | .windowChange columns rows =>
    if s.proc ≠ .absent then ({ s with size := (dim columns 80, dim rows 24) }, []) else (s, [])
  | .shell =>
    match s.ptyReq with
    | none => (s, s.emit (.reply false))
    | some (columns, rows) =>
      if s.proc ≠ .absent then (s, s.emit (.reply false))
      else if started then
        ({ s with
          proc := .running
          held := true
          ptyOpen := true
          size := (dim columns 80, dim rows 24)
          copyIn := .read
          copyOut := .read
          run := .wait }, s.emit (.reply true))
      else ({ s with serve := .closeChannel }, s.emit (.reply false))

def serveStep (s : Session) (started : Bool) : Option (Session × List UpMsg) :=
  match s.serve with
  | .loop =>
    match s.reqs with
    | r :: reqs => some ({ s with reqs := reqs }.handle started r)
    | [] => if s.closed then some ({ s with serve := .kill }, []) else none
  | .kill =>
    -- `exited` is closed once `Wait` has returned
    some ({ s.closePTY with killed := s.killed || s.run = .wait, serve := .closeChannel }, [])
  | .closeChannel => some ({ s with serve := .done, sentClose := true }, s.emit .close)
  | .done => none

def step (s : Session) : Act → Option (Session × List UpMsg)
  | .print b =>
    if s.ptyOpen ∧ s.held then some ({ s with out := s.out ++ b, printed := s.printed ++ b }, [])
    else none
  | .exit code waitError =>
    if s.proc = .running then some ({ s with proc := .exited code waitError }, []) else none
  | .hangUp => if s.proc ≠ .running then some ({ s with held := false }, []) else none
  | .copyOut n => s.copyOutStep n
  | .copyIn n => s.copyInStep n
  | .run timeout => s.runStep timeout
  | .serve started => s.serveStep started

def receive (s : Session) (m : DownMsg) : Option (Session × List UpMsg) :=
  if s.closed then none
  else
    match m with
    | .data b => some ({ s with input := s.input ++ b }, [])
    | .request r => some ({ s with reqs := s.reqs ++ [r] }, [])
    | .close => some ({ s with closed := true, sentClose := true }, s.emit .close)

end Session

def agent : Links.Party Session Session.Act DownMsg UpMsg where
  step := Session.step
  receive := Session.receive
  lost s := { s with closed := true, lost := true }

def clampDim (v : ℤ) (default : ℕ) : ℕ := if v ≤ 0 ∨ 1000 < v then default else v.toNat

inductive TermMsg where
  | error (code message : String)
  | ready
  | binary (b : Bytes)
  | exit (status : Option ℕ)
  deriving DecidableEq

def TermMsg.bytes : TermMsg → Bytes
  | .binary b => b
  | _ => []

/-- Messages of the browser; `other` is ignored. -/
inductive BrowserMsg where
  | binary (b : Bytes)
  | resize (cols rows : ℤ)
  | other
  deriving DecidableEq

inductive AuditEntry where
  | opened
  | closed (typed printed : ℕ) (status : Option ℕ)
  deriving DecidableEq

inductive HandlerPc where
  | ptyReq
  | awaitPty
  | shellReq
  | awaitShell
  | fail (message : String)
  | opened
  | ready
  | running
  | awaitExit
  | writeExit
  | audit
  | goodbye
  | closeChannel
  | closeSocket
  | done
  deriving DecidableEq

/-- `exit` is the channel of that name, `broken` says that the WebSocket is closed or a write
to it has failed, and `inbox` is what was written to it: the browser gets a beginning of it.
`audits` are the calls of `audit` and whether the entry could be written, `read` and `keys` are
what was read from the agent and from the browser. -/
structure Bridge where
  cols : ℤ
  rows : ℤ
  pc : HandlerPc
  replies : List Bool
  buf : Bytes
  reqs : List ℕ
  closed : Bool
  sentClose : Bool
  lost : Bool
  exit : Option ℕ
  output : Copy
  input : Copy
  canceled : Bool
  broken : Bool
  exited : Bool
  status : Option ℕ
  typed : ℕ
  printed : ℕ
  inbox : List TermMsg
  audits : List (AuditEntry × Bool)
  read : Bytes
  keys : Bytes

namespace Bridge

def init (cols rows : ℤ) : Bridge where
  cols := cols
  rows := rows
  pc := .ptyReq
  replies := []
  buf := []
  reqs := []
  closed := false
  sentClose := false
  lost := false
  exit := none
  output := .idle
  input := .idle
  canceled := false
  broken := false
  exited := false
  status := none
  typed := 0
  printed := 0
  inbox := []
  audits := []
  read := []
  keys := []

def canSend (b : Bridge) : Bool := !b.sentClose && !b.lost

def emit (b : Bridge) (m : DownMsg) : List DownMsg := if b.canSend then [m] else []

def ws (b : Bridge) (m : TermMsg) (ok : Bool) : Bridge :=
  if b.broken = false ∧ ok then { b with inbox := b.inbox ++ [m] } else { b with broken := true }

/-- The handler, the four goroutines it starts and the end of the session or the request.
`ok` says whether a write to the WebSocket or the activity log succeeds, and `other` that a
`select` takes its second case. -/
inductive Act where
  | handler (other ok : Bool)
  | output (n : ℕ) (ok : Bool)
  | browser (m : Option BrowserMsg)
  | input (n : ℕ)
  | exitStatus
  | cancel
  deriving DecidableEq

def ask (b : Bridge) (r : Request) (next : HandlerPc) (message : String) : Bridge × List DownMsg :=
  if b.canSend then ({ b with pc := next }, [.request r]) else ({ b with pc := .fail message }, [])

def answered (b : Bridge) (next : HandlerPc) (message : String) : Option (Bridge × List DownMsg) :=
  match b.replies with
  | ok :: replies => some ({ b with replies, pc := if ok then next else .fail message }, [])
  | [] => if b.closed then some ({ b with pc := .fail message }, []) else none

def noTerminal : String := "The agent could not allocate a terminal."
def noShell : String := "The agent could not start a shell; check the agent log."

/-- What the handler wants to have in the activity log. -/
def entries (b : Bridge) : List AuditEntry := b.audits.map Prod.fst

/-- What is in the activity log. -/
def log (b : Bridge) : List AuditEntry := (b.audits.filter Prod.snd).map Prod.fst

/-- `handleShell` once the channel is open. -/
def handlerStep (b : Bridge) (other ok : Bool) : Option (Bridge × List DownMsg) :=
  match b.pc with
  | .ptyReq => some (b.ask (.ptyReq (clampDim b.cols 80) (clampDim b.rows 24)) .awaitPty noTerminal)
  | .awaitPty => b.answered .shellReq noTerminal
  | .shellReq => some (b.ask .shell .awaitShell noShell)
  | .awaitShell => b.answered .opened noShell
  | .fail message =>
    some ({ b.ws (.error "failed" message) ok with broken := true, pc := .closeChannel }, [])
  | .opened => some ({ b with audits := b.audits ++ [(.opened, ok)], pc := .ready }, [])
  | .ready => some ({ b.ws .ready ok with pc := .running, output := .read, input := .read }, [])
  | .running =>
    if other then (if b.canceled then some ({ b with pc := .audit }, []) else none)
    else if b.output = .done then some ({ b with pc := .awaitExit }, [])
    else none
  | .awaitExit =>
    if other then some ({ b with pc := .writeExit }, [])
    else b.exit.map fun n => ({ b with pc := .writeExit, status := some n, exit := none }, [])
  | .writeExit => some ({ b.ws (.exit b.status) ok with pc := .audit, exited := true }, [])
  | .audit =>
    some ({ b with
      audits := b.audits ++ [(.closed b.typed b.printed b.status, ok)]
      pc := .goodbye }, [])
  | .goodbye => some ({ b with broken := b.broken || b.exited, pc := .closeChannel }, [])
  | .closeChannel => some ({ b with sentClose := true, pc := .closeSocket }, b.emit .close)
  | .closeSocket => some ({ b with canceled := true, broken := true, pc := .done }, [])
  | .done => none

def outputStep (b : Bridge) (n : ℕ) (ok : Bool) : Option (Bridge × List DownMsg) :=
  match b.output with
  | .read =>
    if b.buf ≠ [] then
      some ({ b with
        output := .write (b.buf.take (n + 1))
        buf := b.buf.drop (n + 1)
        read := b.read ++ b.buf.take (n + 1)
        printed := b.printed + (b.buf.take (n + 1)).length }, [])
    else if b.closed then some ({ b with output := .done }, [])
    else none
  | .write chunk =>
    let b' := b.ws (.binary chunk) ok
    some ({ b' with output := if b'.broken then .done else .read }, [])
  | _ => none

def browserStep (b : Bridge) (m : Option BrowserMsg) : Option (Bridge × List DownMsg) :=
  if b.input ≠ .read then none
  else
    match m with
    | none => some ({ b with input := .done, canceled := true }, [])
    | some m =>
      if b.broken then none
      else
        match m with
        | .binary d =>
          some ({ b with
            typed := b.typed + d.length
            keys := b.keys ++ d
            input := if d = [] then .read else .write d }, [])
        | .resize cols rows =>
          some (b, b.emit (.request (.windowChange (clampDim cols 80) (clampDim rows 24))))
        | .other => some (b, [])

def inputStep (b : Bridge) (n : ℕ) : Option (Bridge × List DownMsg) :=
  match b.input with
  | .write chunk =>
    if b.canSend then some ({ b with input := .wrote chunk (n + 1) }, [.data (chunk.take (n + 1))])
    else some ({ b with input := .done, canceled := true }, [])
  | _ => none

def step (b : Bridge) : Act → Option (Bridge × List DownMsg)
  | .handler other ok => b.handlerStep other ok
  | .output n ok => b.outputStep n ok
  | .browser m => b.browserStep m
  | .input n => b.inputStep n
  | .exitStatus =>
    match b.reqs with
    | n :: reqs => some ({ b with reqs, exit := some (b.exit.getD n) }, [])
    | [] => none
  | .cancel => some ({ b with canceled := true }, [])

def receive (b : Bridge) (m : UpMsg) : Option (Bridge × List DownMsg) :=
  if b.closed then none
  else
    match m with
    | .data d => some ({ b with buf := b.buf ++ d }, [])
    | .reply ok => some ({ b with replies := b.replies ++ [ok] }, [])
    | .exitStatus n => some ({ b with reqs := b.reqs ++ [n] }, [])
    | .close => some ({ b with closed := true, sentClose := true }, b.emit .close)

end Bridge

def hub : Links.Party Bridge Bridge.Act UpMsg DownMsg where
  step := Bridge.step
  receive := Bridge.receive
  lost b := { b with closed := true, lost := true }

abbrev System := Links.Net Session Bridge DownMsg UpMsg
abbrev Action := Links.Action Session.Act Bridge.Act

def step : System → Action → Option System := Links.step agent hub

def init (cols rows : ℤ) : System := Links.Net.init .init (.init cols rows)

/-- What the shell and its children have written to the terminal. -/
def System.printed (g : System) : Bytes := g.left.printed

/-- What was in the terminal when the agent closed it. -/
def System.abandoned (g : System) : Bytes := g.left.abandoned

def System.keys (g : System) : Bytes := g.left.keys

def System.inbox (g : System) : List TermMsg := g.right.inbox

def System.shown (g : System) : Bytes := g.inbox.flatMap TermMsg.bytes

def System.typed (g : System) : Bytes := g.right.keys

end Lotse.Terminal
