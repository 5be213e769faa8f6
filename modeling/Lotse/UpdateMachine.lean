import Lotse.UpdateManifest
import Lotse.Tasks

set_option autoImplicit false

/-!
# Self-updates of an agent

`handleUpdate` for any number of channels at once, `install` with every operation on the
file system as one instruction, and restarts of the agent at any time. An operation fails
when the oracle says so, or when the file it needs is not there.
-/
namespace Lotse.Updates
open Versions Tasks

inductive File where
  | exe
  | old
  | tmp (n : ℕ)
  deriving DecidableEq

abbrev Files := File → Option Bytes

inductive Reply where
  | rejected (reason : String)
  | result (error : Option String)
  deriving DecidableEq

/-- The bytes that `install` moved to `exe`, with the manifest they came with, the version
of the running agent and whether it had updates disabled. -/
structure Placement where
  bytes : Bytes
  manifest : Manifest
  running : String
  disabled : Bool

/-- The version of a started agent, and how often `exe` had been replaced before. -/
structure Start where
  version : String
  placements : ℕ
  deriving DecidableEq

/-- `configured` is `disable_updates` in the config file and `disableUpdates` the value
that the running agent loaded. `placed` and `starts` are history that no code reads,
newest first. -/
structure State where
  files : Files
  nextTmp : ℕ
  configured : Bool
  disableUpdates : Bool
  version : String
  updating : Bool
  replies : List Reply
  placed : List Placement
  starts : List Start

inductive Instr where
  | configure (disable : Bool)
  | handleUpdate (extraData stream : Bytes)
  | compareAndSwap (m : Manifest) (stream : Bytes)
  | executable (m : Manifest) (stream : Bytes)
  | accept (m : Manifest) (stream : Bytes)
  | createTemp (m : Manifest) (stream : Bytes)
  | receive (n : ℕ) (m : Manifest) (stream : Bytes)
  | chmod (n : ℕ) (m : Manifest)
  | runVersion (n : ℕ) (m : Manifest)
  | rename (n : ℕ) (m : Manifest)
  | removeOld (n : ℕ) (m : Manifest)
  | renameOld (n : ℕ) (m : Manifest)
  | renameNew (n : ℕ) (m : Manifest)
  | restoreOld
  | removeTmp (n : ℕ)
  | respond (error : Option String)
  | release
  deriving DecidableEq

inductive Request where
  | configure (disable : Bool)
  | openChannel (extraData stream : Bytes)

/-- The error of the operation, if it fails, and the output of the new binary. -/
structure Oracle where
  error : Option String
  output : String

def code : Request → List Instr
  | .configure disable => [.configure disable]
  | .openChannel extraData stream => [.handleUpdate extraData stream]

namespace State

def reply (g : State) (r : Reply) : State := { g with replies := g.replies ++ [r] }

def write (g : State) (f : File) (content : Option Bytes) : State :=
  { g with files := Function.update g.files f content }

def move (g : State) (src dst : File) : State :=
  (g.write dst (g.files src)).write src none

def place (g : State) (n : ℕ) (m : Manifest) (b : Bytes) : State :=
  { g.move (.tmp n) .exe with placed := ⟨b, m, g.version, g.disableUpdates⟩ :: g.placed }

end State

def fail (g : State) (n : ℕ) (error : String) : Outcome State Instr :=
  .next g [.removeTmp n, .respond (some error)]

def done (g : State) (n : ℕ) : Outcome State Instr := .next g [.removeTmp n, .respond none]

def receive (P : Platform) (o : Oracle) (g : State) (n : ℕ) (m : Manifest) (stream : Bytes) :
    Outcome State Instr :=
  let data := stream.take m.size.toNat
  match o.error with
  | some e => fail g n ("receiving the update failed: " ++ e)
  | none =>
    if m.Describes P data then .next (g.write (.tmp n) (some data)) [.chmod n m]
    else fail (g.write (.tmp n) (some data)) n
      "the received binary does not match the signed checksum"

def runVersion (P : Platform) (o : Oracle) (g : State) (n : ℕ) (m : Manifest) :
    Outcome State Instr :=
  match o.error with
  | some e => fail g n ("the new binary does not run on this machine (" ++ e ++ ")")
  | none =>
    if m.version.toList <:+: o.output.toList then
      .next g (if P.goos = "windows" then [.removeOld n m] else [.rename n m])
    else fail g n "the new binary does not run on this machine (<nil>)"

def missing : String := "no such file or directory"

def withFile (o : Oracle) (g : State) (f : File) (ok : Bytes → Outcome State Instr)
    (failed : String → Outcome State Instr) : Outcome State Instr :=
  match o.error, g.files f with
  | some e, _ => failed e
  | none, none => failed missing
  | none, some b => ok b

def atomic (P : Platform) (o : Oracle) (g : State) : Instr → Option (Outcome State Instr)
  | .configure disable => some (.next { g with configured := disable } [])
  | .handleUpdate extraData stream =>
    match checkUpdate P g.disableUpdates g.version extraData with
    | .error reason => some (.next (g.reply (.rejected reason)) [])
    | .ok m => some (.next g [.compareAndSwap m stream])
  | .compareAndSwap m stream =>
    if g.updating then some (.next (g.reply (.rejected "an update is already in progress")) [])
    else some (.next { g with updating := true } [.executable m stream, .release])
  | .executable m stream =>
    match o.error with
    | some e => some (.next (g.reply (.rejected ("cannot find the agent binary: " ++ e))) [])
    | none => some (.next g [.accept m stream])
  | .accept m stream => some (.next g (if o.error = none then [.createTemp m stream] else []))
  | .createTemp m stream =>
    match o.error with
    | some e => some (.next g [.respond (some ("cannot write next to " ++ P.exe ++ ": " ++ e))])
    | none =>
      some (.next { g.write (.tmp g.nextTmp) (some []) with nextTmp := g.nextTmp + 1 }
        [.receive g.nextTmp m stream])
  | .receive n m stream => some (receive P o g n m stream)
  | .chmod n m =>
    match o.error with
    | some e => some (fail g n e)
    | none => some (.next g [.runVersion n m])
  | .runVersion n m => some (runVersion P o g n m)
  | .rename n m => some (withFile o g (.tmp n) (fun b => done (g.place n m b) n) (fail g n))
  | .removeOld n m =>
    some (.next (if o.error = none then g.write .old none else g) [.renameOld n m])
  | .renameOld n m =>
    some (withFile o g .exe (fun _ => .next (g.move .exe .old) [.renameNew n m]) (fail g n))
  | .renameNew n m =>
    some (withFile o g (.tmp n) (fun b => done (g.place n m b) n)
      fun e => .next g [.restoreOld, .removeTmp n, .respond (some e)])
  | .restoreOld =>
    some (withFile o g .old (fun _ => .next (g.move .old .exe) []) fun _ => .next g [])
  | .removeTmp n => some (.next (if o.error = none then g.write (.tmp n) none else g) [])
  | .respond error => some (.next (g.reply (.result error)) [])
  | .release => some (.next { g with updating := false } [])

/-- The service manager or `restart` starts what is at `exe`; `cleanupUpdate` removes the
file that an update on Windows left. -/
def restart (P : Platform) (g : State) : Option State :=
  (g.files .exe).map fun b =>
    { g.write .old none with
      disableUpdates := g.configured
      version := P.reports b
      updating := false
      starts := ⟨P.reports b, g.placed.length⟩ :: g.starts }

def machine (P : Platform) : Machine State Instr Oracle Request := ⟨code, atomic P, restart P⟩

def initial (P : Platform) (b : Bytes) (disable : Bool) : State where
  files f := if f = .exe then some b else none
  nextTmp := 0
  configured := disable
  disableUpdates := disable
  version := P.reports b
  updating := false
  replies := []
  placed := []
  starts := [⟨P.reports b, 0⟩]

def init (P : Platform) (b : Bytes) (disable : Bool) : Config State Instr := ⟨initial P b disable, []⟩

end Lotse.Updates
