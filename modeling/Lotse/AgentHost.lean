import Lotse.Utf8
import Lotse.UpdateManifest

set_option autoImplicit false

namespace Lotse.Agent
open Utf8
open Updates (agentName)

inductive GOOS where
  | linux
  | darwin
  | windows
  deriving DecidableEq

/-- `quote` is the verb `%q` and `equalFold` is `strings.EqualFold`. -/
structure Host where
  goos : GOOS
  systemd : Bool
  lookPath : String → Option String
  pid : ℤ
  isLocalBroadcast : String → Bool
  quote : String → String
  equalFold : String → String → Bool

structure HostProcess where
  pid : ℤ
  cpu : ℕ
  mem : ℕ
  name : String
  user : String
  started : ℕ
  cmdline : Option Bytes
  deriving DecidableEq

structure Process where
  pid : ℤ
  cpu : ℕ
  mem : ℕ
  name : String
  user : String
  started : ℕ
  command : Bytes
  deriving DecidableEq

structure ProcessList where
  processes : List Process
  total : ℕ
  deriving DecidableEq

def maxCommand : ℕ := 300

def cutPoint (cmd : Bytes) : ℕ → ℕ
  | 0 => 0
  | n + 1 => if runeStart (cmd.getD (n + 1) 0) then n + 1 else cutPoint cmd n

def ellipsis : Bytes := [0xE2, 0x80, 0xA6]

def shortCommand (cmd : Bytes) : Bytes :=
  if maxCommand < cmd.length then cmd.take (cutPoint cmd maxCommand) ++ ellipsis else cmd

def busier (a b : HostProcess) : Bool := b.cpu < a.cpu || (b.cpu = a.cpu && b.mem ≤ a.mem)

def shown (withCommands : Bool) (p : HostProcess) : Process where
  pid := p.pid
  cpu := p.cpu
  mem := p.mem
  name := p.name
  user := p.user
  started := p.started
  command := if withCommands then (p.cmdline.map shortCommand).getD [] else []

/-- `collect.Processes` of the processes that ran during the whole sample. -/
def processes (limit : ℕ) (withCommands : Bool) (procs : List HostProcess) : ProcessList where
  processes := ((procs.mergeSort busier).take limit).map (shown withCommands)
  total := procs.length

theorem processes_command {limit : ℕ} {procs : List HostProcess} {p : Process}
    (h : p ∈ (processes limit false procs).processes) : p.command = [] := by
  obtain ⟨q, -, rfl⟩ := List.mem_map.1 h
  rfl

inductive Signal where
  | kill
  | term
  deriving DecidableEq

/-- The checks of `collect.Signal`; `findError` is the error of `os.FindProcess`. -/
def checkSignal (H : Host) (findError : Option String) (pid : ℤ) (signal : String) :
    Except String Signal :=
  if pid ≤ 1 then .error "refusing to signal PID 0 or 1"
  else if pid = H.pid then .error "refusing to stop the agent itself"
  else
    match findError with
    | some e => .error e
    | none =>
      if signal = "kill" then .ok .kill
      else if signal = "terminate" then .ok (if H.goos = .windows then .kill else .term)
      else .error "unknown signal"

/-- The commands that `powerCommand` tries, in order. -/
def powerCandidates (H : Host) (reboot : Bool) : List (List String) :=
  match H.goos with
  | .linux =>
    (if H.systemd then [["systemctl", if reboot then "reboot" else "poweroff"]] else []) ++
      if reboot then [["shutdown", "-r", "now"], ["reboot"]]
      else [["shutdown", "-h", "now"], ["poweroff"]]
  | .darwin => [["/sbin/shutdown", if reboot then "-r" else "-h", "now"]]
  | .windows => [["shutdown.exe", if reboot then "/r" else "/s", "/f", "/t", "5", "/d", "p:0:0",
      "/c", "Requested from Lotse"]]

def powerCommand (H : Host) (action : String) : Except String (List String) :=
  if action ≠ "reboot" ∧ action ≠ "shutdown" then
    .error ("unknown power action " ++ H.quote action)
  else
    let found := (powerCandidates H (action = "reboot")).findSome? fun c =>
      (H.lookPath (c.headD "")).map (· :: c.tail)
    match found with
    | some command => .ok command
    | none => .error ("found no command to " ++ action ++ " this machine")

def ownServices : GOOS → List String
  | .linux => [agentName, agentName ++ ".service"]
  | .darwin => [agentName]
  | .windows => [agentName]

def notInNames : List Char :=
  [Char.ofNat 0, '\r', '\n', '/', '\\', '*', '?', '[', ']']

def checkServiceAction (H : Host) (name action : String) : Except String Unit :=
  if action ≠ "start" ∧ action ≠ "stop" ∧ action ≠ "restart" then
    .error ("unknown action " ++ H.quote action)
  else if name = "" ∨ 256 < name.utf8ByteSize ∨ name.toList.head? = some '-' ∨
      name.toList.any (· ∈ notInNames) then
    .error "invalid service name"
  else if (ownServices H.goos).any (H.equalFold name) then
    .error "the agent cannot control its own service; reinstall or update it instead"
  else .ok ()

/-- What `controlService` asks the service manager for. -/
def serviceCommand (goos : GOOS) (name action : String) : List String :=
  match goos with
  | .linux => ["systemctl", "--no-block", action, "--",
      if '.' ∈ name.toList then name else name ++ ".service"]
  | .darwin =>
    if action = "start" then ["launchctl", "kickstart", "system/" ++ name]
    else if action = "restart" then ["launchctl", "kickstart", "-k", "system/" ++ name]
    else ["launchctl", "kill", "SIGTERM", "system/" ++ name]
  | .windows => [action, name]

end Lotse.Agent
