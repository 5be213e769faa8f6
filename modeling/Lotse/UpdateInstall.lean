import Lotse.UpdateForward

set_option autoImplicit false

namespace Lotse.Updates
open Tasks

/-- The operations of `install` that can fail. `write k` is write number `k` of the copy, and
`renameNew` the rename of the temporary file to `exe` on every platform. -/
inductive Operation where
  | createTemp
  | write (k : ℕ)
  | close
  | chmod
  | runVersion
  | removeOld
  | renameOld
  | renameNew
  | restoreOld
  | removeTmp
  deriving DecidableEq

/-- The errors of a run's operations, the bytes that a failing write has stored by then, and
what the new binary prints. -/
structure Environment where
  error : Operation → Option String
  stored : ℕ
  output : String

def Environment.SingleFault (env : Environment) : Prop :=
  ∀ a b, env.error a ≠ none → env.error b ≠ none → a = b

/-- The base name of the temporary file for that of `exe`, with what `os.CreateTemp` puts in
place of the star. -/
def tmpName (goos base random : String) : String :=
  "." ++ base ++ "-update-" ++ random ++ (if goos = "windows" then ".exe" else "")

theorem tmpName_ne (goos base random : String) :
    tmpName goos base random ≠ base ∧ tmpName goos base random ≠ base ++ ".old" := by
  have hlong : base.length + 9 ≤ (tmpName goos base random).length := by
    have hdot : ".".length = 1 := rfl
    have hupdate : "-update-".length = 8 := rfl
    simp only [tmpName, String.length_append]
    omega
  have hold : (base ++ ".old").length = base.length + 4 := String.length_append ..
  constructor
  · intro h
    rw [h] at hlong
    omega
  · intro h
    rw [h] at hlong
    omega

/-- What the channel delivers: the bytes of each read, and the error at its end if that is not
the end of the stream. -/
structure Stream where
  reads : List Bytes
  failure : Option String

def Stream.bytes (s : Stream) : Bytes := s.reads.flatten

structure Copied where
  file : Bytes
  hashed : Bytes
  error : Option String

/-- The loop of `io.Copy` from a `LimitReader` with `limit` bytes to go into a `MultiWriter` of
the file and the hash. A write to the file that fails never reaches the hash. -/
def copyLoop (env : Environment) (failure : Option String) :
    List Bytes → ℕ → ℕ → Bytes → Copied
  | _, _, 0, written => ⟨written, written, none⟩
  | [], _, _ + 1, written => ⟨written, written, failure⟩
  | read :: reads, k, limit + 1, written =>
    let p := read.take (limit + 1)
    if p = [] then copyLoop env failure reads k (limit + 1) written
    else
      match env.error (.write k) with
      | some e => ⟨written ++ p.take env.stored, written, some e⟩
      | none => copyLoop env failure reads (k + 1) (limit + 1 - p.length) (written ++ p)

def copy (env : Environment) (s : Stream) (size : ℤ) : Copied :=
  copyLoop env s.failure s.reads 0 size.toNat []

/-- `os.Remove`, whose error `install` never looks at. -/
def remove (files : Files) (error : Option String) (f : File) : Files :=
  if error = none then Function.update files f none else files

def rename (files : Files) (error : Option String) (src dst : File) : Except String Files :=
  match error, files src with
  | some e, _ => .error e
  | none, none => .error missing
  | none, some b => .ok (Function.update (Function.update files dst (some b)) src none)

def checkRuns (env : Environment) (m : Manifest) : Option String :=
  match env.error .chmod, env.error .runVersion with
  | some e, _ => some e
  | none, some e => some ("the new binary does not run on this machine (" ++ e ++ ")")
  | none, none =>
    if m.version.toList <:+: env.output.toList then none
    else some "the new binary does not run on this machine (<nil>)"

/-- The checks before the last steps, with the error that `install` returns. -/
def checkReceived (P : Platform) (env : Environment) (m : Manifest) (copied : Copied) :
    Option String :=
  match copied.error.or (env.error .close) with
  | some e => some ("receiving the update failed: " ++ e)
  | none =>
    if m.Describes P copied.hashed then checkRuns env m
    else some "the received binary does not match the signed checksum"

/-- The last steps on Windows, which cannot replace a running executable but can rename it. -/
def swapWindows (env : Environment) (files : Files) (n : ℕ) : Files × Option String :=
  match rename files (env.error .renameOld) .exe .old with
  | .error e => (files, some e)
  | .ok moved =>
    match rename moved (env.error .renameNew) (.tmp n) .exe with
    | .ok placed => (placed, none)
    | .error e =>
      match rename moved (env.error .restoreOld) .old .exe with
      | .ok restored => (restored, some e)
      | .error _ => (moved, some e)

def swap (P : Platform) (env : Environment) (files : Files) (n : ℕ) : Files × Option String :=
  if P.goos = "windows" then swapWindows env (remove files (env.error .removeOld) .old) n
  else
    match rename files (env.error .renameNew) (.tmp n) .exe with
    | .ok placed => (placed, none)
    | .error e => (files, some e)

/-- `install` with `tmp n` as the name that `os.CreateTemp` picks: the files it leaves, and
the error it returns. -/
def install (P : Platform) (env : Environment) (files : Files) (n : ℕ) (s : Stream)
    (m : Manifest) : Files × Option String :=
  match env.error .createTemp with
  | some e => (files, some ("cannot write next to " ++ P.exe ++ ": " ++ e))
  | none =>
    let copied := copy env s m.size
    let received := Function.update files (.tmp n) (some copied.file)
    let out := match checkReceived P env m copied with
      | some e => (received, some e)
      | none => swap P env received n
    (remove out.1 (env.error .removeTmp) (.tmp n), out.2)

/-- A copy without an error has stored and hashed the stream up to the limit. -/
theorem copyLoop_ok {env : Environment} {failure : Option String} (reads : List Bytes)
    (k limit : ℕ) (written : Bytes)
    (h : (copyLoop env failure reads k limit written).error = none) :
    (copyLoop env failure reads k limit written).file
        = written ++ reads.flatten.take limit ∧
      (copyLoop env failure reads k limit written).hashed
        = written ++ reads.flatten.take limit := by
  induction reads generalizing k limit written with
  | nil => cases limit <;> simp [copyLoop]
  | cons read reads ih =>
    cases limit with
    | zero => simp [copyLoop]
    | succ limit =>
      rw [copyLoop] at h ⊢
      split
      · rename_i hempty
        -- a read of no bytes is not written
        have hread : read = [] := by simpa using hempty
        rw [if_pos hempty] at h
        simpa [hread] using ih _ _ _ h
      · rename_i hdata
        rw [if_neg hdata] at h
        cases hw : env.error (.write k) with
        | some e => simp [hw] at h
        | none =>
          simp only [hw] at h ⊢
          obtain ⟨hfile, hhashed⟩ := ih _ _ _ h
          have hlimit : limit + 1 - (read.take (limit + 1)).length = limit + 1 - read.length := by
            rw [List.length_take]
            omega
          rw [hfile, hhashed, hlimit, List.flatten_cons, List.take_append, List.append_assoc]
          exact ⟨rfl, rfl⟩

theorem copy_ok {env : Environment} {s : Stream} {size : ℤ} (h : (copy env s size).error = none) :
    (copy env s size).file = s.bytes.take size.toNat ∧
      (copy env s size).hashed = s.bytes.take size.toNat := by
  have hloop := copyLoop_ok s.reads 0 size.toNat [] h
  rw [List.nil_append] at hloop
  exact hloop

theorem received_of_checked {P : Platform} {env : Environment} {m : Manifest} {s : Stream}
    (h : checkReceived P env m (copy env s m.size) = none) :
    (copy env s m.size).file = s.bytes.take m.size.toNat ∧
      m.Describes P (s.bytes.take m.size.toNat) := by
  unfold checkReceived at h
  split at h
  · cases h
  · rename_i hnone
    obtain ⟨hcopy, -⟩ := Option.or_eq_none_iff.1 hnone
    obtain ⟨hfile, hhashed⟩ := copy_ok hcopy
    split at h
    · rename_i hd
      rw [hhashed] at hd
      exact ⟨hfile, hd⟩
    · cases h

theorem rename_error {files : Files} {error : Option String} {src dst : File} {e : String}
    (h : rename files error src dst = .error e) : error ≠ none ∨ files src = none := by
  unfold rename at h
  split at h
  · exact .inl (by simp)
  · rename_i hsrc
    exact .inr hsrc
  · cases h

theorem rename_ok {files files' : Files} {error : Option String} {src dst : File}
    (h : rename files error src dst = .ok files') :
    error = none ∧ ∃ b, files src = some b ∧
      files' = Function.update (Function.update files dst (some b)) src none := by
  unfold rename at h
  split at h
  · cases h
  · cases h
  · rename_i b hsrc
    cases h
    exact ⟨rfl, b, hsrc, rfl⟩

theorem rename_dst {files files' : Files} {error : Option String} {src dst : File}
    (hne : dst ≠ src) (h : rename files error src dst = .ok files') : files' dst = files src := by
  obtain ⟨-, b, hsrc, rfl⟩ := rename_ok h
  rw [Function.update_of_ne hne, Function.update_self, hsrc]

theorem rename_other {files files' : Files} {error : Option String} {src dst f : File}
    (hs : f ≠ src) (hd : f ≠ dst) (h : rename files error src dst = .ok files') :
    files' f = files f := by
  obtain ⟨-, b, -, rfl⟩ := rename_ok h
  rw [Function.update_of_ne hs, Function.update_of_ne hd]

theorem remove_other {files : Files} {error : Option String} {f g : File} (h : g ≠ f) :
    remove files error f g = files g := by
  unfold remove
  split
  · rw [Function.update_of_ne h]
  · rfl

theorem remove_self {files : Files} {error : Option String} {f : File} (h : error = none) :
    remove files error f f = none := by
  rw [remove, if_pos h, Function.update_self]

/-- What `exe` is after the last steps on `files`, which returned `out`. -/
def Swapped (files : Files) (n : ℕ) (out : Files × Option String) : Prop :=
  (out.2 = none → out.1 .exe = files (.tmp n)) ∧ (out.2 ≠ none → out.1 .exe = files .exe)

theorem swapped_ok {files placed : Files} {n : ℕ} (h : placed .exe = files (.tmp n)) :
    Swapped files n (placed, none) :=
  ⟨fun _ => h, fun hne => absurd rfl hne⟩

theorem swapped_error {files left : Files} {n : ℕ} {e : String} (h : left .exe = files .exe) :
    Swapped files n (left, some e) :=
  ⟨fun hnone => (by cases hnone), fun _ => h⟩

/-- After the one failure, the rename that restores `exe` succeeds: the file that it moves back
is there. -/
theorem swapped_windows {env : Environment} {files : Files} {n : ℕ} (hone : env.SingleFault)
    (htmp : files (.tmp n) ≠ none) : Swapped files n (swapWindows env files n) := by
  unfold swapWindows
  cases hmoved : rename files (env.error .renameOld) .exe .old with
  | error e => exact swapped_error rfl
  | ok moved =>
    have hkept : moved (.tmp n) = files (.tmp n) := rename_other (by simp) (by simp) hmoved
    have hold : moved .old = files .exe := rename_dst (by simp) hmoved
    dsimp only
    cases hplaced : rename moved (env.error .renameNew) (.tmp n) .exe with
    | ok placed => exact swapped_ok ((rename_dst (by simp) hplaced).trans hkept)
    | error e =>
      dsimp only
      cases hrestored : rename moved (env.error .restoreOld) .old .exe with
      | ok restored => exact swapped_error ((rename_dst (by simp) hrestored).trans hold)
      | error e' =>
        have hnew : env.error .renameNew ≠ none :=
          (rename_error hplaced).resolve_right (by rwa [hkept])
        obtain ⟨-, b, hexe, -⟩ := rename_ok hmoved
        have hrestore : env.error .restoreOld ≠ none :=
          (rename_error hrestored).resolve_right (by simp [hold, hexe])
        cases hone _ _ hnew hrestore

theorem swapped_swap (P : Platform) {env : Environment} {files : Files} {n : ℕ}
    (hone : env.SingleFault) (htmp : files (.tmp n) ≠ none) :
    Swapped files n (swap P env files n) := by
  unfold swap
  split
  · have hexe : remove files (env.error .removeOld) .old .exe = files .exe :=
      remove_other (by simp)
    have hkept : remove files (env.error .removeOld) .old (.tmp n) = files (.tmp n) :=
      remove_other (by simp)
    rw [← hkept] at htmp
    have hswapped := swapped_windows hone htmp
    rwa [Swapped, hexe, hkept] at hswapped
  · cases hplaced : rename files (env.error .renameNew) (.tmp n) .exe with
    | ok placed => exact swapped_ok (rename_dst (by simp) hplaced)
    | error e => exact swapped_error rfl

/-- A failed update leaves the installed agent in place. -/
theorem install_keeps_agent (P : Platform) (env : Environment) (files : Files) (n : ℕ)
    (s : Stream) (m : Manifest) (hn : files (.tmp n) = none) (hone : env.SingleFault) :
    ((install P env files n s m).2 ≠ none →
      (install P env files n s m).1 .exe = files .exe ∧
        (env.error .removeTmp = none → (install P env files n s m).1 (.tmp n) = none)) ∧
    ((install P env files n s m).2 = none →
      (install P env files n s m).1 .exe = some (s.bytes.take m.size.toNat) ∧
        m.Describes P (s.bytes.take m.size.toNat)) := by
  unfold install
  cases hcreate : env.error .createTemp with
  | some e => exact ⟨fun _ => ⟨rfl, fun _ => hn⟩, fun h => by cases h⟩
  | none =>
    have hne : File.exe ≠ .tmp n := by simp
    have hgone : ∀ files : Files, env.error .removeTmp = none →
        remove files (env.error .removeTmp) (.tmp n) (.tmp n) = none :=
      fun _ => remove_self
    simp only [remove_other hne]
    cases hcheck : checkReceived P env m (copy env s m.size) with
    | some e =>
      refine ⟨fun _ => ⟨?_, hgone _⟩, fun h => by cases h⟩
      exact Function.update_of_ne hne (some (copy env s m.size).file) files
    | none =>
      obtain ⟨hfile, hdescribed⟩ := received_of_checked hcheck
      have hswapped : Swapped (Function.update files (.tmp n) (some (copy env s m.size).file)) n
          (swap P env _ n) := swapped_swap P hone (by simp)
      rw [Swapped, Function.update_self, Function.update_of_ne hne, hfile] at hswapped
      rw [hfile]
      exact ⟨fun h => ⟨hswapped.2 h, hgone _⟩, fun h => ⟨hswapped.1 h, hdescribed⟩⟩

def windows : Platform := { linux with goos := "windows" }

def installed : Files := fun f => if f = .exe then some [1] else none

def denied : Environment where
  error op := if op = .renameNew then some "Access is denied." else none
  stored := 0
  output := "lotse-agent 1.1.0"

def working : Environment := { denied with error := fun _ => none }

def replacement : Manifest := { release with size := 2, sha256 := "0207" }

def channel : Stream := ⟨[[2], [7, 9]], none⟩

theorem singleFault_denied : denied.SingleFault := by
  have honly : ∀ op, denied.error op ≠ none → op = .renameNew := by
    intro op h
    by_contra hop
    exact h (if_neg hop)
  intro a b ha hb
  rw [honly a ha, honly b hb]

theorem install_keeps_agent_windows :
    ((install windows denied installed 0 channel replacement).2 = some "Access is denied." ∧
      (install windows denied installed 0 channel replacement).1 .exe = some [1] ∧
      (install windows denied installed 0 channel replacement).1 (.tmp 0) = none) ∧
    (install windows working installed 0 channel replacement).1 .exe = some [2, 7] := by
  have herror : (install windows denied installed 0 channel replacement).2
      = some "Access is denied." := by
    decide +kernel
  obtain ⟨hkept, -⟩ := install_keeps_agent windows denied installed 0 channel replacement rfl
    singleFault_denied
  obtain ⟨hexe, htmp⟩ := hkept (by simp [herror])
  obtain ⟨-, hplaced⟩ := install_keeps_agent windows working installed 0 channel replacement rfl
    (fun _ _ ha => absurd rfl ha)
  exact ⟨⟨herror, hexe, htmp rfl⟩, (hplaced (by decide +kernel)).1⟩

section machine
variable {P : Platform} {env : Environment} {g : State} {n : ℕ} {m : Manifest}

/-- The task ends as the call does: with its reply, and with its files. The machine leaves a
failed copy empty, so a temporary file that stays behind is not compared. -/
def Ends (P : Platform) (env : Environment) (n : ℕ) (g : State) (code : List Instr)
    (out : Files × Option String) : Prop :=
  ∃ g', (machine P).Completes g code g' ∧ g'.replies = g.replies ++ [.result out.2] ∧
    ∀ f, (f = .tmp n → env.error .removeTmp = none) →
      g'.files f = remove out.1 (env.error .removeTmp) (.tmp n) f

theorem ends_cons {ins : Instr} {o : Oracle} {g' : State} {code rest : List Instr}
    {out : Files × Option String} (head : atomic P o g ins = some (.next g' code))
    (hreplies : g'.replies = g.replies) (tail : Ends P env n g' (code ++ rest) out) :
    Ends P env n g (ins :: rest) out := by
  obtain ⟨last, hlast, hlreplies, hfiles⟩ := tail
  exact ⟨last, .cons head hlast, by rw [hlreplies, hreplies], hfiles⟩

theorem removed (e : Option String) (f : File) :
    (if e = none then g.write f none else g).replies = g.replies ∧
      (if e = none then g.write f none else g).files = remove g.files e f := by
  unfold remove
  split
  · exact ⟨rfl, rfl⟩
  · exact ⟨rfl, rfl⟩

theorem ends_removeTmp {files : Files} {e : Option String}
    (h : ∀ f, f ≠ .tmp n → g.files f = files f) :
    Ends P env n g [.removeTmp n, .respond e] (files, e) := by
  obtain ⟨hreplies, hfiles⟩ := removed (g := g) (env.error .removeTmp) (.tmp n)
  refine ⟨_, .cons (o := ⟨env.error .removeTmp, env.output⟩) rfl
    (.cons (o := ⟨none, env.output⟩) rfl (.nil _)), congrArg (· ++ _) hreplies, ?_⟩
  intro f hf
  refine (congrFun hfiles f).trans ?_
  by_cases htmp : f = .tmp n
  · rw [htmp, remove_self (hf htmp), remove_self (hf htmp)]
  · rw [remove_other htmp, remove_other htmp, h f htmp]

theorem withFile_error {o : Oracle} {src dst : File} {ok : Bytes → Outcome State Instr}
    {failed : String → Outcome State Instr} {e : String}
    (h : rename g.files o.error src dst = .error e) : withFile o g src ok failed = failed e := by
  unfold rename at h
  unfold withFile
  split at h <;> cases h <;> simp_all

theorem withFile_ok {o : Oracle} {src dst : File} {ok : Bytes → Outcome State Instr}
    {failed : String → Outcome State Instr} {files : Files}
    (h : rename g.files o.error src dst = .ok files) :
    (g.move src dst).files = files ∧ ∃ b, withFile o g src ok failed = ok b := by
  obtain ⟨herror, b, hsrc, rfl⟩ := rename_ok h
  refine ⟨?_, b, ?_⟩
  · rw [State.move, State.write, State.write, hsrc]
  · rw [withFile, herror, hsrc]

theorem ends_place {ins : Instr} {o : Oracle} {placed : Files} {failed : String → Outcome State Instr}
    (hatomic : atomic P o g ins
      = some (withFile o g (.tmp n) (fun b => done (g.place n m b) n) failed))
    (h : rename g.files o.error (.tmp n) .exe = .ok placed) :
    Ends P env n g [ins] (placed, none) := by
  obtain ⟨hfiles, b, hok⟩ := withFile_ok h
  rw [hok] at hatomic
  exact ends_cons hatomic rfl (ends_removeTmp fun f _ => congrFun hfiles f)

theorem ends_fail {ins : Instr} {o : Oracle} {src dst : File} {e : String}
    {ok : Bytes → Outcome State Instr}
    (hatomic : atomic P o g ins = some (withFile o g src ok (fail g n)))
    (h : rename g.files o.error src dst = .error e) :
    Ends P env n g [ins] (g.files, some e) := by
  rw [withFile_error h] at hatomic
  exact ends_cons hatomic rfl (ends_removeTmp fun _ _ => rfl)

theorem ends_restoreOld {e : String} :
    Ends P env n g [.restoreOld, .removeTmp n, .respond (some e)]
      (match rename g.files (env.error .restoreOld) .old .exe with
        | .ok restored => (restored, some e)
        | .error _ => (g.files, some e)) := by
  let o : Oracle := ⟨env.error .restoreOld, env.output⟩
  cases hrestored : rename g.files (env.error .restoreOld) .old .exe with
  | ok restored =>
    obtain ⟨hfiles, b, hok⟩ := withFile_ok (o := o) hrestored
    exact ends_cons (congrArg some hok) rfl (ends_removeTmp fun f _ => congrFun hfiles f)
  | error e' =>
    exact ends_cons (congrArg some (withFile_error (o := o) hrestored)) rfl
      (ends_removeTmp fun _ _ => rfl)

theorem ends_renameNew :
    Ends P env n g [.renameNew n m]
      (match rename g.files (env.error .renameNew) (.tmp n) .exe with
        | .ok placed => (placed, none)
        | .error e =>
          match rename g.files (env.error .restoreOld) .old .exe with
          | .ok restored => (restored, some e)
          | .error _ => (g.files, some e)) := by
  cases hplaced : rename g.files (env.error .renameNew) (.tmp n) .exe with
  | ok placed => exact ends_place (o := ⟨env.error .renameNew, env.output⟩) rfl hplaced
  | error e =>
    exact ends_cons (congrArg some (withFile_error (o := ⟨env.error .renameNew, env.output⟩)
      hplaced)) rfl ends_restoreOld

theorem ends_renameOld : Ends P env n g [.renameOld n m] (swapWindows env g.files n) := by
  unfold swapWindows
  cases hmoved : rename g.files (env.error .renameOld) .exe .old with
  | error e => exact ends_fail (o := ⟨env.error .renameOld, env.output⟩) rfl hmoved
  | ok moved =>
    obtain ⟨hfiles, b, hok⟩ := withFile_ok (o := ⟨env.error .renameOld, env.output⟩) hmoved
    subst hfiles
    exact ends_cons (congrArg some hok) rfl ends_renameNew

theorem ends_swap :
    Ends P env n g (if P.goos = "windows" then [.removeOld n m] else [.rename n m])
      (swap P env g.files n) := by
  unfold swap
  split
  · obtain ⟨hreplies, hfiles⟩ := removed (g := g) (env.error .removeOld) .old
    rw [← hfiles]
    exact ends_cons (o := ⟨env.error .removeOld, env.output⟩) rfl hreplies ends_renameOld
  · cases hplaced : rename g.files (env.error .renameNew) (.tmp n) .exe with
    | ok placed => exact ends_place (o := ⟨env.error .renameNew, env.output⟩) rfl hplaced
    | error e => exact ends_fail (o := ⟨env.error .renameNew, env.output⟩) rfl hplaced

theorem ends_runVersion (hchmod : env.error .chmod = none) :
    Ends P env n g [.runVersion n m]
      (match checkRuns env m with
        | some e => (g.files, some e)
        | none => swap P env g.files n) := by
  rw [checkRuns, hchmod]
  cases hrun : env.error .runVersion with
  | some e => exact ends_cons (o := ⟨some e, env.output⟩) rfl rfl (ends_removeTmp fun _ _ => rfl)
  | none =>
    have hatomic : atomic P ⟨none, env.output⟩ g (.runVersion n m)
      = some (runVersion P ⟨none, env.output⟩ g n m) := rfl
    rw [runVersion] at hatomic
    by_cases hversion : m.version.toList <:+: env.output.toList
    · simp only [if_pos hversion] at hatomic ⊢
      refine ends_cons hatomic rfl ?_
      rw [List.append_nil]
      exact ends_swap
    · simp only [if_neg hversion] at hatomic ⊢
      exact ends_cons hatomic rfl (ends_removeTmp fun _ _ => rfl)

theorem ends_chmod :
    Ends P env n g [.chmod n m]
      (match checkRuns env m with
        | some e => (g.files, some e)
        | none => swap P env g.files n) := by
  cases hchmod : env.error .chmod with
  | some e =>
    rw [checkRuns, hchmod]
    exact ends_cons (o := ⟨some e, env.output⟩) rfl rfl (ends_removeTmp fun _ _ => rfl)
  | none => exact ends_cons (o := ⟨none, env.output⟩) rfl rfl (ends_runVersion hchmod)

theorem ends_receive {s : Stream} :
    Ends P env n g [.receive n m s.bytes]
      (match checkReceived P env m (copy env s m.size) with
        | some e => (Function.update g.files (.tmp n) (some (copy env s m.size).file), some e)
        | none => swap P env
            (Function.update g.files (.tmp n) (some (copy env s m.size).file)) n) := by
  have hoff : ∀ content f, f ≠ .tmp n → g.files f = Function.update g.files (.tmp n) content f :=
    fun content f hf => (Function.update_of_ne hf content g.files).symm
  unfold checkReceived
  cases herror : (copy env s m.size).error.or (env.error .close) with
  | some e => exact ends_cons (o := ⟨some e, env.output⟩) rfl rfl (ends_removeTmp (hoff _))
  | none =>
    obtain ⟨hcopy, -⟩ := Option.or_eq_none_iff.1 herror
    obtain ⟨hfile, hhashed⟩ := copy_ok hcopy
    have hatomic : atomic P ⟨none, env.output⟩ g (.receive n m s.bytes)
      = some (receive P ⟨none, env.output⟩ g n m s.bytes) := rfl
    rw [receive] at hatomic
    rw [hfile, hhashed]
    by_cases hd : m.Describes P (s.bytes.take m.size.toNat)
    · simp only [if_pos hd] at hatomic ⊢
      exact ends_cons hatomic rfl ends_chmod
    · simp only [if_neg hd] at hatomic ⊢
      exact ends_cons hatomic rfl (ends_removeTmp fun _ _ => rfl)

end machine

/-- Every call of `install` is a run of the machine's task, with the same reply and, unless the
temporary file stays behind, the same files. -/
theorem install_completes (P : Platform) (env : Environment) (g : State) (s : Stream)
    (m : Manifest) :
    ∃ g', (machine P).Completes g [.createTemp m s.bytes] g' ∧
      g'.replies = g.replies ++ [.result (install P env g.files g.nextTmp s m).2] ∧
      ∀ f, (f = .tmp g.nextTmp → env.error .removeTmp = none) →
        g'.files f = (install P env g.files g.nextTmp s m).1 f := by
  unfold install
  cases hcreate : env.error .createTemp with
  | some e =>
    refine ⟨_, .cons (o := ⟨some e, env.output⟩) rfl (.cons (o := ⟨none, ""⟩) rfl (.nil _)), rfl, ?_⟩
    exact fun _ _ => rfl
  | none =>
    let g₁ : State := { g.write (.tmp g.nextTmp) (some []) with nextTmp := g.nextTmp + 1 }
    have hatomic : atomic P ⟨none, env.output⟩ g (.createTemp m s.bytes)
      = some (.next g₁ [.receive g.nextTmp m s.bytes]) := rfl
    have hends : Ends P env g.nextTmp g [.createTemp m s.bytes] _ :=
      ends_cons hatomic rfl ends_receive
    -- the copy replaces the empty file
    have hfiles : g₁.files = Function.update g.files (.tmp g.nextTmp) (some []) := rfl
    rwa [hfiles, Function.update_idem] at hends

end Lotse.Updates
