import Lotse.AgentHost
import Lotse.Tasks

set_option autoImplicit false

/-!
# The agent and its hub

`hello`, `handleRequests`, `handleChannels` and `serveSession`. Every request of the hub is
a task of its own, so that requests and channels interleave in any order, also across
connections; what a handler starts in a goroutine or a timer is a later instruction of its
task. The log has what leaves the agent: replies, and what it does to the machine.
-/
namespace Lotse.Agent
open Tasks Utf8

structure Config where
  hubURL : String
  hubKey : String
  token : String
  allowShell : Bool
  disableUpdates : Bool
  deriving DecidableEq

structure HelloReply where
  ok : Bool
  error : String
  interval : ℤ

structure PtyRequest where
  term : String
  columns : ℕ
  rows : ℕ
  deriving DecidableEq

structure ScriptMsg where
  shell : String
  script : String
  timeout : ℤ
  deriving DecidableEq

/-- The machine, the decoders of the hub's payloads and the format of the config file. A
config that was loaded can be saved and loaded again, with or without its token. -/
structure Env where
  host : Host
  processLimit : Bytes → ℤ
  signalMsg : Bytes → Option (ℤ × String)
  powerMsg : Bytes → Option String
  serviceMsg : Bytes → Option (String × String)
  wakeMsg : Bytes → Option (List String × String)
  intervalMsg : Bytes → Option ℤ
  helloReply : Bytes → HelloReply
  ptyRequest : Bytes → Option PtyRequest
  windowChange : Bytes → Option (ℕ × ℕ)
  subsystem : Bytes → Option String
  scriptMsg : Bytes → Option ScriptMsg
  load : Bytes → Option Config
  marshal : Config → Bytes
  load_marshal : ∀ b c, load b = some c → ∀ t, t = c.token ∨ t = "" →
    load (marshal { c with token := t }) = some { c with token := t }

inductive Body where
  | empty
  | action (error : String)
  | processes (list : ProcessList)
  | services (names : List String)
  deriving DecidableEq

inductive Rejection where
  | prohibited
  | unknownChannelType
  | resourceShortage
  deriving DecidableEq

inductive Event where
  | hello (token : String) (features : List String)
  | interval (seconds : ℤ)
  | reply (type : String) (ok : Bool) (body : Body)
  | reject (reason : Rejection) (message : String)
  | accept (id : ℕ)
  | channelReply (id : ℕ) (type : String) (ok : Bool)
  | stderr (id : ℕ) (text : String)
  | resize (id columns rows : ℕ)
  | exitStatus (id status : ℕ)
  | wake (macs : List String) (broadcast : String)
  | update (extraData : Bytes)
  | shell (id : ℕ) (pty : PtyRequest)
  | sftp (id : ℕ)
  | script (id : ℕ) (msg : ScriptMsg)
  | signal (pid : ℤ) (signal : Signal)
  | power (command : List String)
  | service (command : List String)
  deriving DecidableEq

structure Channel where
  id : ℕ
  pty : Option PtyRequest
  started : Bool
  shell : Bool
  deriving DecidableEq

structure State where
  cfg : Config
  file : Bytes
  sessions : ℤ
  channels : List Channel
  nextChannel : ℕ
  log : List Event

inductive Request where
  | connect
  | request (type : String) (payload : Bytes)
  | openChannel (type : String) (extraData : Bytes)
  | channelRequest (id : ℕ) (type : String) (payload : Bytes)
  | closeChannel (id : ℕ)

inductive Instr where
  | hello
  | helloReply
  | saveConfig
  | handleRequest (type : String) (payload : Bytes)
  | processes (limit : ℕ)
  | listServices
  | controlService (name action : String)
  | runPower (command : List String)
  | openChannel (type : String) (extraData : Bytes)
  | tooManySessions
  | acceptChannel
  | releaseSession
  | handleUpdate (extraData : Bytes)
  | channelRequest (id : ℕ) (type : String) (payload : Bytes)
  | runShell (id : ℕ)
  | serveSFTP (id : ℕ)
  | runScript (id : ℕ) (msg : ScriptMsg)
  | scriptDone (id : ℕ)
  | closeChannel (id : ℕ)
  deriving DecidableEq

structure Oracle where
  reply : Option (Bool × Bytes)
  saved : Bool
  accepted : Bool
  started : Bool
  procs : Option (List HostProcess)
  services : List String
  findError : Option String
  error : String
  status : ℕ

def code : Request → List Instr
  | .connect => [.hello]
  | .request type payload => [.handleRequest type payload]
  | .openChannel type extraData => [.openChannel type extraData]
  | .channelRequest id type payload => [.channelRequest id type payload]
  | .closeChannel id => [.closeChannel id]

namespace State

def record (g : State) (e : Event) : State := { g with log := e :: g.log }

def channel (g : State) (id : ℕ) : Option Channel := g.channels.find? (·.id = id)

def setChannel (g : State) (c : Channel) : State :=
  { g with channels := g.channels.map fun d => if d.id = c.id then c else d }

def actionReply (g : State) (type error : String) : State :=
  g.record (.reply type (error = "") (.action error))

end State

def featureWake : String := "wake"
def featureShell : String := "shell"
def featureUpdate : String := "update"

def features (cfg : Config) : List String :=
  featureWake :: (if cfg.allowShell then [featureShell] else []) ++
    if cfg.disableUpdates then [] else [featureUpdate]

def clampInterval (seconds : ℤ) : ℤ :=
  let seconds := if seconds ≤ 0 then 60 else seconds
  min (max seconds 1) 3600

def answer (g : State) (type : String) (ok : Bool) : Outcome State Instr :=
  .next (g.record (.reply type ok .empty)) []

def fail (g : State) (type error : String) : Outcome State Instr :=
  .next (g.actionReply type error) []

def helloReply (E : Env) (o : Oracle) (g : State) : Outcome State Instr :=
  match o.reply with
  | none => .next g []
  | some (ok, payload) =>
    let reply := E.helloReply payload
    if ok = false ∨ reply.ok = false then .next g []
    else
      let g := g.record (.interval (clampInterval reply.interval))
      if g.cfg.token ≠ "" then .next { g with cfg := { g.cfg with token := "" } } [.saveConfig]
      else .next g []

def remoteControlOff : String := "is disabled on this machine (install the agent with --allow-shell)"

def handleSignal (E : Env) (o : Oracle) (g : State) (payload : Bytes) : Outcome State Instr :=
  match E.signalMsg payload with
  | none => answer g "signal" false
  | some (pid, signal) =>
    if g.cfg.allowShell = false then fail g "signal" ("stopping processes " ++ remoteControlOff)
    else
      match checkSignal E.host o.findError pid signal with
      | .error e => fail g "signal" e
      | .ok s => fail (g.record (.signal pid s)) "signal" o.error

def handlePower (E : Env) (g : State) (payload : Bytes) : Outcome State Instr :=
  match E.powerMsg payload with
  | none => answer g "power" false
  | some action =>
    if g.cfg.allowShell = false then
      fail g "power" ("rebooting and shutting down " ++ remoteControlOff)
    else
      match powerCommand E.host action with
      | .error e => fail g "power" e
      | .ok command => .next (g.actionReply "power" "") [.runPower command]

def handleWake (E : Env) (o : Oracle) (g : State) (payload : Bytes) : Outcome State Instr :=
  match E.wakeMsg payload with
  | none => answer g "wake" false
  | some (macs, broadcast) =>
    if E.host.isLocalBroadcast broadcast = false then answer g "wake" false
    else answer (g.record (.wake macs broadcast)) "wake" (o.error = "")

def handleInterval (E : Env) (g : State) (payload : Bytes) : Outcome State Instr :=
  match E.intervalMsg payload with
  | none => answer g "interval" false
  | some seconds =>
    if seconds ≤ 0 then answer g "interval" false
    else answer (g.record (.interval (clampInterval seconds))) "interval" true

/-- One round of the loop in `handleRequests`. -/
def handleRequest (E : Env) (o : Oracle) (g : State) (type : String) (payload : Bytes) :
    Outcome State Instr :=
  match type with
  | "processes" => .next g [.processes (min (max (E.processLimit payload) 1) 100).toNat]
  | "signal" => handleSignal E o g payload
  | "power" => handlePower E g payload
  | "services" => .next g [.listServices]
  | "service" =>
    match E.serviceMsg payload with
    | none => answer g "service" false
    | some (name, action) => .next g [.controlService name action]
  | "wake" => handleWake E o g payload
  | "interval" => handleInterval E g payload
  | type => answer g type false

/-- The goroutine of a `processes` request. -/
def listProcesses (o : Oracle) (g : State) (limit : ℕ) : Outcome State Instr :=
  match o.procs with
  | none => answer g "processes" false
  | some procs =>
    .next (g.record (.reply "processes" true
      (.processes (processes limit g.cfg.allowShell procs)))) []

/-- The goroutine of a `service` request. -/
def controlService (E : Env) (o : Oracle) (g : State) (name action : String) :
    Outcome State Instr :=
  if g.cfg.allowShell = false then fail g "service" ("controlling services " ++ remoteControlOff)
  else
    match checkServiceAction E.host name action with
    | .error e => fail g "service" e
    | .ok () => fail (g.record (.service (serviceCommand E.host.goos name action))) "service" o.error

def maxSessions : ℤ := 16

def shellDisabled : String :=
  "remote shell is disabled on this machine; reinstall the agent with --allow-shell to enable it"

/-- One round of the loop in `handleChannels`. -/
def openChannel (g : State) (type : String) (extraData : Bytes) : Outcome State Instr :=
  if type = "session" then
    if g.cfg.allowShell = false then .next (g.record (.reject .prohibited shellDisabled)) []
    else
      let g := { g with sessions := g.sessions + 1 }
      if maxSessions < g.sessions then .next g [.releaseSession, .tooManySessions]
      else .next g [.acceptChannel]
  else if type = "update@lotse" then .next g [.handleUpdate extraData]
  else .next (g.record (.reject .unknownChannelType "unsupported channel type")) []

def acceptChannel (o : Oracle) (g : State) : Outcome State Instr :=
  if o.accepted then
    .next ({ g with
      channels := ⟨g.nextChannel, none, false, false⟩ :: g.channels
      nextChannel := g.nextChannel + 1 }.record (.accept g.nextChannel)) []
  else .next g [.releaseSession]

/-- `handleUpdate`; what follows its first check is a model of its own. -/
def handleUpdate (g : State) (extraData : Bytes) : Outcome State Instr :=
  if g.cfg.disableUpdates then
    .next (g.record (.reject .prohibited
      "updates are disabled on this machine (installed with --no-updates)")) []
  else .next (g.record (.update extraData)) []

def channelAnswer (g : State) (id : ℕ) (type : String) (ok : Bool) (code : List Instr) :
    Outcome State Instr :=
  .next (g.record (.channelReply id type ok)) code

def dim (v default : ℕ) : ℕ := if v = 0 ∨ 1000 < v then default else v

def startShell (o : Oracle) (g : State) (c : Channel) (pty : PtyRequest) : Outcome State Instr :=
  if o.started then
    channelAnswer ((g.setChannel { c with started := true, shell := true }).record
      (.shell c.id pty)) c.id "shell" true [.runShell c.id]
  else
    channelAnswer (g.record (.stderr c.id ("cannot start a shell: " ++ o.error ++ "\r\n")))
      c.id "shell" false [.closeChannel c.id]

/-- One round of the loop in `serveSession`. -/
def channelRequest (E : Env) (o : Oracle) (g : State) (c : Channel) (type : String)
    (payload : Bytes) : Outcome State Instr :=
  match type with
  | "pty-req" =>
    match E.ptyRequest payload with
    | none => channelAnswer g c.id type false []
    | some p =>
      if c.started then channelAnswer g c.id type false []
      else channelAnswer (g.setChannel { c with pty := some p }) c.id type true []
  | "window-change" =>
    match E.windowChange payload with
    | none => channelAnswer g c.id type true []
    | some (columns, rows) =>
      if c.shell then
        channelAnswer (g.record (.resize c.id (dim columns 80) (dim rows 24))) c.id type true []
      else channelAnswer g c.id type true []
  | "shell" =>
    match c.pty with
    | none => channelAnswer g c.id type false []
    | some pty =>
      if c.started then channelAnswer g c.id type false [] else startShell o g c pty
  | "subsystem" =>
    if c.started ∨ E.subsystem payload ≠ some "sftp" then channelAnswer g c.id type false []
    else channelAnswer (g.setChannel { c with started := true }) c.id type true [.serveSFTP c.id]
  | "script@lotse" =>
    match E.scriptMsg payload with
    | none => channelAnswer g c.id type false []
    | some msg =>
      if c.started then channelAnswer g c.id type false []
      else
        channelAnswer (g.setChannel { c with started := true }) c.id type true
          [.runScript c.id msg]
  | type => channelAnswer g c.id type false []

def closeChannel (g : State) (id : ℕ) : Outcome State Instr :=
  match g.channel id with
  | none => .next g []
  | some _ => .next { g with channels := g.channels.filter (·.id ≠ id) } [.releaseSession]

def atomic (E : Env) (o : Oracle) (g : State) : Instr → Option (Outcome State Instr)
  | .hello => some (.next (g.record (.hello g.cfg.token (features g.cfg))) [.helloReply])
  | .helloReply => some (helloReply E o g)
  | .saveConfig =>
    some (.next (if o.saved then { g with file := E.marshal g.cfg } else g) [])
  | .handleRequest type payload => some (handleRequest E o g type payload)
  | .processes limit => some (listProcesses o g limit)
  | .listServices =>
    some (.next (g.record (.reply "services" true (.services o.services))) [])
  | .controlService name action => some (controlService E o g name action)
  | .runPower command => some (.next (g.record (.power command)) [])
  | .openChannel type extraData => some (openChannel g type extraData)
  | .tooManySessions =>
    some (.next (g.record (.reject .resourceShortage "too many open sessions")) [])
  | .acceptChannel => some (acceptChannel o g)
  | .releaseSession => some (.next { g with sessions := g.sessions - 1 } [])
  | .handleUpdate extraData => some (handleUpdate g extraData)
  | .channelRequest id type payload =>
    (g.channel id).map fun c => channelRequest E o g c type payload
  | .runShell id => some (.next (g.record (.exitStatus id o.status)) [.closeChannel id])
  | .serveSFTP id => some (.next (g.record (.sftp id)) [.closeChannel id])
  | .runScript id msg => some (.next (g.record (.script id msg)) [.scriptDone id])
  | .scriptDone id => some (.next (g.record (.exitStatus id o.status)) [.closeChannel id])
  | .closeChannel id => some (closeChannel g id)

/-- A new process loads the config file; without one it does not start. -/
def restart (E : Env) (g : State) : Option State :=
  (E.load g.file).map fun cfg => { g with cfg := cfg, sessions := 0, channels := [] }

def machine (E : Env) : Machine State Instr Oracle Request := ⟨code, atomic E, restart E⟩

def initial (file : Bytes) (cfg : Config) : State := ⟨cfg, file, 0, [], 0, []⟩

end Lotse.Agent
