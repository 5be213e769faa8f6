import Mathlib.Data.List.Destutter
import Lotse.AdminMachine

set_option autoImplicit false

/-!
# What the hub sends to its agents

The routes whose handlers reach an agent, from the session that is loaded for the request
to the message. What the store returns (sessions, systems, scripts) is up to the oracle, so
that it may change in any way between two steps; the agents come with their hello and go.
The goroutines of a script run are tasks of their own, started in any order. What happens
on a session channel once it is open is not modelled here.
-/
namespace Lotse.Remote
open Tasks
open Users (roleIncludes)
open Admins (trimSpace maxNameLen)

structure Session where
  userID : ℕ
  username : String
  role : String
  elevatedUntil : ℤ
  deriving DecidableEq

structure Origin where
  session : Session
  arrived : ℕ
  deriving DecidableEq

/-- `conn` numbers the connections by their hellos. -/
structure AgentConn where
  conn : ℕ
  features : List String
  os : String
  arch : String
  deriving DecidableEq

def featureShell : String := "shell"
def featureWake : String := "wake"
def featureUpdate : String := "update"

def AgentConn.has (ac : AgentConn) (feature : String) : Bool := feature ∈ ac.features

inductive Use where
  | shell
  | sftp
  | script (run : ℕ) (system : ℤ)
  deriving DecidableEq

inductive Message where
  | openSession (use : Use)
  | signal (pid : ℤ) (signal : String)
  | power (action : String)
  | service (name action : String)
  | processes (limit : ℤ)
  | services
  | wake
  | interval (seconds : ℕ)
  | openUpdate
  deriving DecidableEq

def Message.remoteAction : Message → Bool
  | openSession _ => true
  | signal _ _ => true
  | power _ => true
  | service _ _ => true
  | _ => false

structure Sent where
  message : Message
  conn : ℕ
  origin : Option Origin
  deriving DecidableEq

inductive Reply where
  | ok
  | error (status : ℕ) (message : String)
  /-- An error on the socket of a shell. -/
  | fail (code message : String)
  deriving DecidableEq

structure Result where
  system : ℤ
  status : String
  error : String
  deriving DecidableEq

/-- A script run, with the targets that no goroutine has taken up yet. -/
structure Run where
  id : ℕ
  origin : Origin
  shell : String
  pending : List ℤ
  results : List Result
  canceled : Bool
  deriving DecidableEq

/-- The last three fields are a record: the requests whose session was loaded, the features
that each connection's hello announced, and the messages. -/
structure State where
  clock : ℕ
  agents : List (ℤ × AgentConn)
  runs : List Run
  nextRun : ℕ
  replies : List Reply
  requests : List Origin
  hellos : List (List String)
  sent : List Sent

structure Script where
  name : String
  description : String
  shell : String
  content : String
  timeout : ℤ
  deriving DecidableEq

structure RunRequest where
  scriptID : Option ℕ
  name : String
  shell : String
  content : String
  timeout : ℤ
  systems : List ℤ
  deriving DecidableEq

structure FileAction where
  action : String
  path : String
  newName : String
  deriving DecidableEq

inductive FileRequest where
  | getFiles (path : String)
  | downloadFile (path : String)
  | putFile (path : String)
  | postFileAction (body : Option FileAction)
  deriving DecidableEq

/-- A system or a process id is none if it does not parse, a body if it is not valid JSON.
`other` stands for the handlers that reach no agent. -/
inductive Route where
  | shell (system : Option ℤ)
  | power (system : Option ℤ) (action : Option String)
  | service (system : Option ℤ) (body : Option (String × String))
  | signal (system pid : Option ℤ) (signal : Option String)
  | files (system : Option ℤ) (request : FileRequest)
  | processes (system : Option ℤ) (limit : ℤ)
  | services (system : Option ℤ)
  | wake (system : Option ℤ)
  | update (system : Option ℤ)
  | deleteSystem (system : Option ℤ)
  | run (body : Option RunRequest)
  | cancelRun (run : ℕ)
  | other (get : Bool) (need : String)
  deriving DecidableEq

/-- The role that the route table asks for. The shell asks for one itself. -/
def Route.need : Route → Option String
  | shell _ => none
  | power _ _ => some "operator"
  | service _ _ => some "operator"
  | signal _ _ _ => some "operator"
  | files _ _ => some "operator"
  | processes _ _ => some "viewer"
  | services _ => some "viewer"
  | wake _ => some "operator"
  | update _ => some "admin"
  | deleteSystem _ => some "admin"
  | run _ => some "operator"
  | cancelRun _ => some "operator"
  | other _ need => some need

/-- The routes that are not asked for a same origin. -/
def Route.isGet : Route → Bool
  | shell _ => true
  | files _ (.getFiles _) => true
  | files _ (.downloadFile _) => true
  | processes _ _ => true
  | services _ => true
  | other get _ => get
  | _ => false

def Route.system : Route → Option ℤ
  | shell system => system
  | power system _ => system
  | service system _ => system
  | signal system _ _ => system
  | files system _ => system
  | processes system _ => system
  | services system => system
  | wake system => system
  | update system => system
  | deleteSystem system => system
  | _ => none

inductive Request where
  | tick (d : ℕ)
  | hello (system : ℤ) (features : List String) (os arch : String)
  | unregister (system : ℤ) (conn : ℕ)
  | broadcastInterval (seconds : ℕ)
  | http (crossOrigin cookie : Bool) (route : Route)
  | target (run : ℕ) (system : ℤ)
  | forget (run : ℕ)

inductive Instr where
  | tick (d : ℕ)
  | hello (system : ℤ) (features : List String) (os arch : String)
  | unregister (system : ℤ) (conn : ℕ)
  | broadcastInterval (seconds : ℕ)
  | handle (crossOrigin cookie : Bool) (route : Route)
  | lookupSystem (q : Origin) (route : Route)
  | onlineAgent (q : Origin) (system : ℤ) (route : Route)
  | act (q : Origin) (ac : AgentConn) (route : Route)
  | handleShell (q : Origin) (system : ℤ)
  | shellAgent (q : Origin) (system : ℤ)
  | wake (q : Origin) (system : ℤ)
  | relay (q : Origin) (acs : List AgentConn)
  | deleteRow (system : ℤ)
  | dropLink (system : ℤ)
  | postRun (q : Origin) (body : Option RunRequest)
  | createRun (q : Origin) (req : RunRequest)
  | lookupRun (run : ℕ)
  | cancelRun (run : ℕ) (finished : Bool)
  | runOn (run : ℕ) (system : ℤ)
  | runAgent (q : Origin) (run : ℕ) (shell : String) (system : ℤ)
  | forget (run : ℕ)
  | send (origin : Option Origin) (ac : AgentConn) (m : Message)
  deriving DecidableEq

inductive Lookup (α : Type) where
  | found (a : α)
  | notFound
  | failed
  deriving DecidableEq

/-- What the store returns (`run` says if the run has finished, `stored` if a statement
succeeded), if a socket was accepted, what the hub has for an agent's update, which agents
are in the networks of a system to wake, and the error that a message ends with. -/
structure Oracle where
  session : Option Session
  system : ℤ → Lookup Unit
  script : Option Script
  run : Lookup Bool
  stored : Bool
  accept : Bool
  newer : Bool
  binary : Bool
  macs : Bool
  inNetwork : List ℤ
  error : Option String

def code : Request → List Instr
  | .tick d => [.tick d]
  | .hello system features os arch => [.hello system features os arch]
  | .unregister system conn => [.unregister system conn]
  | .broadcastInterval seconds => [.broadcastInterval seconds]
  | .http crossOrigin cookie route => [.handle crossOrigin cookie route]
  | .target run system => [.runOn run system]
  | .forget run => [.forget run]

namespace State

def unix (g : State) : ℕ := g.clock / 10 ^ 9

def reply (g : State) (r : Reply) : State := { g with replies := r :: g.replies }

def agent (g : State) (system : ℤ) : Option AgentConn :=
  (g.agents.find? (·.1 = system)).map Prod.snd

def elevated (g : State) (s : Session) : Bool := g.unix ≤ s.elevatedUntil

def updateRun (g : State) (run : ℕ) (f : Run → Run) : State :=
  { g with runs := g.runs.map fun r => if r.id = run then f r else r }

def finish (g : State) (run : ℕ) (result : Result) : State :=
  g.updateRun run fun r => { r with results := result :: r.results }

end State

def refuse (g : State) (status : ℕ) (message : String) : Outcome State Instr :=
  .next (g.reply (.error status message)) []

def failShell (g : State) (code message : String) : Outcome State Instr :=
  .next (g.reply (.fail code message)) []

def internalError (g : State) : Outcome State Instr := refuse g 500 "internal error"

def invalidJSON : String := "invalid JSON body"
def notLoggedIn : String := "not logged in"
def confirmFirst : String := "confirm your password first"
def offline : String := "the system is offline"
def noAnswer : String := "the agent did not answer; it may need an update"

def cleanPath (segments : List (List Char)) : List (List Char) :=
  segments.foldl (fun path s => if s = [] ∨ s = ['.'] then path
    else if s = ['.', '.'] then path.dropLast else path ++ [s]) []

def remotePath (p : String) : Option (List (List Char)) :=
  if p = "" ∨ Char.ofNat 0 ∈ p.toList then none
  else some (cleanPath ((p.toList.map fun c => if c = '\\' then '/' else c).splitOn '/'))

def namesFile (p : String) : Bool := (remotePath p).any (· ≠ [])

def fileChecks : FileRequest → Except String Unit
  | .getFiles _ => .ok ()
  | .downloadFile p => if (remotePath p).isNone then .error "missing path" else .ok ()
  | .putFile p => if namesFile p then .ok () else .error "missing path"
  | .postFileAction none => .error invalidJSON
  | .postFileAction (some body) =>
    if namesFile body.path = false then .error "missing path"
    else if body.action = "rename" ∧ namesFile body.newName = false then .error "missing new name"
    else .ok ()

def dispatch (g : State) (q : Origin) (route : Route) : Outcome State Instr :=
  match route with
  | .run body => .next g [.postRun q body]
  | .cancelRun run => .next g [.lookupRun run]
  | .other _ _ => .next (g.reply .ok) []
  | .files _ request =>
    match fileChecks request with
    | .error message => refuse g 400 message
    | .ok () => .next g [.lookupSystem q route]
  | _ => .next g [.lookupSystem q route]

def requireUser (o : Oracle) (g : State) (cookie : Bool) (route : Route) : Outcome State Instr :=
  match cookie, o.session with
  | true, some s =>
    let q : Origin := ⟨s, g.unix⟩
    let g := { g with requests := q :: g.requests }
    match route.need with
    | none => dispatch g q route
    | some need =>
      if roleIncludes s.role need = false then
        refuse g 403 ("your role (" ++ s.role ++ ") does not allow this")
      else dispatch g q route
  | _, _ => refuse g 401 notLoggedIn

def handle (o : Oracle) (g : State) (crossOrigin cookie : Bool) (route : Route) :
    Outcome State Instr :=
  if crossOrigin ∧ route.isGet = false then refuse g 403 "cross-origin request refused"
  else requireUser o g cookie route

def lookupSystem (o : Oracle) (g : State) (q : Origin) (route : Route) : Outcome State Instr :=
  match route.system with
  | none => refuse g 404 "system not found"
  | some id =>
    match o.system id with
    | .notFound => refuse g 404 "system not found"
    | .failed => internalError g
    | .found () =>
      match route with
      | .shell _ => .next g [.handleShell q id]
      | .wake _ => .next g [.wake q id]
      | .deleteSystem _ => .next g [.deleteRow id]
      | route => .next g [.onlineAgent q id route]

def onlineAgent (g : State) (q : Origin) (system : ℤ) (route : Route) : Outcome State Instr :=
  match g.agent system with
  | none => refuse g 409 offline
  | some ac => .next g [.act q ac route]

/-- The end of the handlers for remote actions: `requireElevated`, the agent's feature, and
the message. -/
def control (g : State) (q : Origin) (ac : AgentConn) (disabled : String) (m : Message) :
    Outcome State Instr :=
  if g.elevated q.session = false then refuse g 403 confirmFirst
  else if ac.has featureShell = false then
    refuse g 403 (disabled ++ " is disabled on this machine; install the agent with --allow-shell")
  else .next g [.send (some q) ac m]

def postPower (g : State) (q : Origin) (ac : AgentConn) : Option String → Outcome State Instr
  | none => refuse g 400 invalidJSON
  | some action =>
    if action ≠ "reboot" ∧ action ≠ "shutdown" then refuse g 400 "action must be reboot or shutdown"
    else control g q ac "rebooting" (.power action)

def postService (g : State) (q : Origin) (ac : AgentConn) :
    Option (String × String) → Outcome State Instr
  | none => refuse g 400 invalidJSON
  | some (name, action) =>
    if action ≠ "start" ∧ action ≠ "stop" ∧ action ≠ "restart" then
      refuse g 400 "action must be start, stop or restart"
    else if name = "" ∨ 256 < name.utf8ByteSize then refuse g 400 "invalid service name"
    else control g q ac "controlling services" (.service name action)

def postSignal (g : State) (q : Origin) (ac : AgentConn) :
    Option ℤ → Option String → Outcome State Instr
  | none, _ => refuse g 400 "invalid process ID"
  | some _, none => refuse g 400 invalidJSON
  | some pid, some signal =>
    if signal ≠ "terminate" ∧ signal ≠ "kill" then refuse g 400 "signal must be terminate or kill"
    else control g q ac "stopping processes" (.signal pid signal)

def postAgentUpdate (o : Oracle) (g : State) (q : Origin) (ac : AgentConn) : Outcome State Instr :=
  if ac.has featureUpdate = false then
    refuse g 409 ("this agent cannot update itself (it is too old or was installed with " ++
      "--no-updates); re-run the install command")
  else if o.newer = false then
    refuse g 409 ("this hub has no newer signed agent for " ++ ac.os ++ "/" ++ ac.arch)
  else if o.binary = false then internalError g
  else .next g [.send (some q) ac .openUpdate]

def act (o : Oracle) (g : State) (q : Origin) (ac : AgentConn) (route : Route) :
    Outcome State Instr :=
  match route with
  | .power _ action => postPower g q ac action
  | .service _ body => postService g q ac body
  | .signal _ pid signal => postSignal g q ac pid signal
  | .files _ _ => control g q ac "file access" (.openSession .sftp)
  | .processes _ limit => .next g [.send (some q) ac (.processes (min (max limit 1) 100))]
  | .services _ => .next g [.send (some q) ac .services]
  | .update _ => postAgentUpdate o g q ac
  | _ => .next g []

/-- `handleShell` up to the agent. The socket is accepted before the role is checked, and
the session's time is compared the other way round. -/
def handleShell (o : Oracle) (g : State) (q : Origin) (system : ℤ) : Outcome State Instr :=
  if o.accept = false then .next g []
  else if roleIncludes q.session.role "operator" = false then
    failShell g "forbidden" ("your role (" ++ q.session.role ++ ") cannot open shells")
  else if q.session.elevatedUntil < g.unix then
    failShell g "reauth_required" "confirm your password to open a shell"
  else .next g [.shellAgent q system]

def shellAgent (g : State) (q : Origin) (system : ℤ) : Outcome State Instr :=
  match g.agent system with
  | none => failShell g "offline" offline
  | some ac =>
    if ac.has featureShell = false then
      failShell g "disabled" ("Remote shell is disabled on this machine. Reinstall the agent " ++
        "with --allow-shell to enable it.")
    else .next g [.send (some q) ac (.openSession .shell)]

def wake (o : Oracle) (g : State) (q : Origin) (system : ℤ) : Outcome State Instr :=
  if o.macs = false then
    refuse g 422 ("no MAC address is known for this system; it is recorded once an agent of " ++
      "version 0.2 or newer has connected")
  else
    .next g [.relay q (o.inNetwork.filterMap fun id =>
      if id = system then none else (g.agent id).filter fun ac => ac.has featureWake)]

def relay (o : Oracle) (g : State) (q : Origin) : List AgentConn → Outcome State Instr
  | [] => if o.error.isSome then refuse g 422 "could not send the magic packet"
      else .next (g.reply .ok) []
  | ac :: acs =>
    let g := { g with sent := ⟨.wake, ac.conn, some q⟩ :: g.sent }
    if o.error.isSome then .next g [.relay q acs] else .next (g.reply .ok) []

def deleteRow (o : Oracle) (g : State) (system : ℤ) : Outcome State Instr :=
  if o.stored = false then internalError g else .next g [.dropLink system]

def dropLink (g : State) (system : ℤ) : Outcome State Instr :=
  .next ({ g with agents := g.agents.filter (·.1 ≠ system) }.reply .ok) []

def scriptShells : List (String × String) :=
  [("sh", "sh"), ("bash", "Bash"), ("powershell", "PowerShell"), ("cmd", "cmd")]
def maxScriptSize : ℕ := 256 * 1024
def maxRunTimeout : ℤ := 24 * 60 * 60
def maxRunTargets : ℕ := 500

def validateScript (sc : Script) : Except String Unit :=
  let name := trimSpace sc.name
  if name = "" ∨ maxNameLen < name.length then .error "name must be 1-64 characters"
  else if 500 < (trimSpace sc.description).length then
    .error "the description must be at most 500 characters"
  else if scriptShells.lookup sc.shell = none then .error "shell must be sh, bash, powershell or cmd"
  else if trimSpace sc.content = "" then .error "the script is empty"
  else if maxScriptSize < sc.content.utf8ByteSize then .error "the script must be at most 256 KiB"
  else if sc.timeout < 1 ∨ maxRunTimeout < sc.timeout then
    .error "the time limit must be between 1 second and 24 hours"
  else .ok ()

def runScript (o : Oracle) (req : RunRequest) : Option Script :=
  match req.scriptID with
  | some _ => o.script
  | none => some ⟨if trimSpace req.name = "" then "Command" else req.name, "", req.shell, req.content,
      req.timeout⟩

def postRun (g : State) (q : Origin) : Option RunRequest → Outcome State Instr
  | none => refuse g 400 invalidJSON
  | some req =>
    if g.elevated q.session = false then refuse g 403 confirmFirst
    else .next g [.createRun q req]

/-- `postRun` after its check of the session: the script, the targets and the stored run. -/
def createRun (o : Oracle) (g : State) (q : Origin) (req : RunRequest) : Outcome State Instr :=
  match runScript o req with
  | none => refuse g 404 "script not found"
  | some sc =>
    match validateScript sc with
    | .error message => refuse g 400 message
    | .ok () =>
      let systems := (req.systems.insertionSort (· ≤ ·)).destutter (· ≠ ·)
      if systems = [] ∨ maxRunTargets < systems.length then
        refuse g 400 "choose at least one system"
      else if systems.any fun id => o.system id ≠ .found () then
        refuse g 400 "a selected system does not exist"
      else if o.stored = false then internalError g
      else
        .next ({ g with
          runs := ⟨g.nextRun, q, sc.shell, systems, [], false⟩ :: g.runs
          nextRun := g.nextRun + 1 }.reply .ok) []

def lookupRun (o : Oracle) (g : State) (run : ℕ) : Outcome State Instr :=
  match o.run with
  | .notFound => refuse g 404 "run not found"
  | .failed => internalError g
  | .found finished => .next g [.cancelRun run finished]

def cancelRun (g : State) (run : ℕ) (finished : Bool) : Outcome State Instr :=
  if finished ∨ (g.runs.find? (·.id = run)).isNone then refuse g 409 "the run has finished"
  else .next ((g.updateRun run fun r => { r with canceled := true }).reply .ok) []

def shellRunsOn (shell goos : String) : Bool :=
  if shell = "sh" ∨ shell = "bash" then goos ≠ "windows"
  else if shell = "cmd" then goos = "windows"
  else true

def osName (goos : String) : String :=
  ([("linux", "Linux"), ("darwin", "macOS"), ("windows", "Windows")].lookup goos).getD ""

def runOn (g : State) (r : Run) (system : ℤ) : Outcome State Instr :=
  let g := g.updateRun r.id fun x => { x with pending := x.pending.erase system }
  if r.canceled then .next (g.finish r.id ⟨system, "canceled", ""⟩) []
  else .next g [.runAgent r.origin r.id r.shell system]

/-- The rest of `runOn`; it looks at the agent and no more at the session. -/
def runAgent (g : State) (q : Origin) (run : ℕ) (shell : String) (system : ℤ) :
    Outcome State Instr :=
  let skip (message : String) : Outcome State Instr :=
    .next (g.finish run ⟨system, "skipped", message⟩) []
  match g.agent system with
  | none => skip offline
  | some ac =>
    if ac.has featureShell = false then
      skip "scripts are disabled on this machine (install the agent with --allow-shell)"
    else if shellRunsOn shell ac.os = false then
      skip ((scriptShells.lookup shell).getD "" ++ " scripts do not run on " ++ osName ac.os)
    else .next g [.send (some q) ac (.openSession (.script run system))]

def forget (g : State) (run : ℕ) : Option (Outcome State Instr) :=
  if g.runs.any fun r => r.id = run ∧ r.pending ≠ [] then none
  else some (.next { g with runs := g.runs.filter (·.id ≠ run) } [])

/-- What becomes of an error, empty if the agent did not answer. -/
def messageFailed (g : State) (e : String) : Message → Outcome State Instr
  | .openSession .shell => failShell g "failed" ("The agent refused the shell: " ++ e)
  | .openSession .sftp => refuse g 502 ("the agent refused file access: " ++ e)
  | .openSession (.script run system) =>
    .next (g.finish run ⟨system, "failed", "the agent refused: " ++ e⟩) []
  | .signal _ _ => refuse g 422 (if e = "" then "the agent did not answer" else e)
  | .power _ => refuse g 422 (if e = "" then noAnswer else e)
  | .service _ _ => refuse g 422 (if e = "" then noAnswer else e)
  | .processes _ => refuse g 502 "the agent could not list its processes"
  | .services => refuse g 502 "the agent could not list its services; it may need an update"
  | .openUpdate => refuse g 422 ("the agent refused the update: " ++ e)
  | .wake => .next g []
  | .interval _ => .next g []

def send (o : Oracle) (g : State) (origin : Option Origin) (ac : AgentConn) (m : Message) :
    Outcome State Instr :=
  let g := { g with sent := ⟨m, ac.conn, origin⟩ :: g.sent }
  match o.error with
  | none => .next (g.reply .ok) []
  | some e => messageFailed g e m

def hello (g : State) (system : ℤ) (features : List String) (os arch : String) :
    Outcome State Instr :=
  .next { g with
    agents := (system, ⟨g.hellos.length, features, os, arch⟩) :: g.agents.filter (·.1 ≠ system)
    hellos := g.hellos ++ [features] } []

def unregister (g : State) (system : ℤ) (conn : ℕ) : Outcome State Instr :=
  .next { g with agents := g.agents.filter fun e => ¬ (e.1 = system ∧ e.2.conn = conn) } []

def broadcastInterval (g : State) (seconds : ℕ) : Outcome State Instr :=
  .next g (g.agents.map fun e => .send none e.2 (.interval seconds))

def atomic (o : Oracle) (g : State) : Instr → Option (Outcome State Instr)
  | .tick d => some (.next { g with clock := g.clock + d } [])
  | .hello system features os arch => some (hello g system features os arch)
  | .unregister system conn => some (unregister g system conn)
  | .broadcastInterval seconds => some (broadcastInterval g seconds)
  | .handle crossOrigin cookie route => some (handle o g crossOrigin cookie route)
  | .lookupSystem q route => some (lookupSystem o g q route)
  | .onlineAgent q system route => some (onlineAgent g q system route)
  | .act q ac route => some (act o g q ac route)
  | .handleShell q system => some (handleShell o g q system)
  | .shellAgent q system => some (shellAgent g q system)
  | .wake q system => some (wake o g q system)
  | .relay q acs => some (relay o g q acs)
  | .deleteRow system => some (deleteRow o g system)
  | .dropLink system => some (dropLink g system)
  | .postRun q body => some (postRun g q body)
  | .createRun q req => some (createRun o g q req)
  | .lookupRun run => some (lookupRun o g run)
  | .cancelRun run finished => some (cancelRun g run finished)
  | .runOn run system =>
    (g.runs.find? fun r => r.id = run ∧ system ∈ r.pending).map fun r => runOn g r system
  | .runAgent q run shell system => some (runAgent g q run shell system)
  | .forget run => forget g run
  | .send origin ac m => some (send o g origin ac m)

def restart (g : State) : Option State := some { g with agents := [], runs := [] }

def machine : Machine State Instr Oracle Request := ⟨code, atomic, restart⟩

def initial : State := ⟨0, [], [], 1, [], [], [], []⟩

end Lotse.Remote
