import Lotse.UpdateOffer
import Lotse.Links

set_option autoImplicit false

/-!
# Sending an update

`postAgentUpdate` on the hub, from the open channel on, and `handleUpdate` on the agent
after its checks. The hub copies the binary, ends its side and waits for one result; the
agent reads as many bytes as the manifest says, installs them and answers.
-/
namespace Lotse.UpdateChannel
open Updates
open Links (Passes)

inductive DownMsg where
  | data (b : Bytes)
  | eof
  | close
  deriving DecidableEq

/-- `result` is an `UpdateResult`, with an empty text when there is no error. -/
inductive UpMsg where
  | result (error : String)
  | eof
  | close
  deriving DecidableEq

def DownMsg.bytes : DownMsg → Bytes
  | .data b => b
  | _ => []

def downBytes (l : List DownMsg) : Bytes := l.flatMap DownMsg.bytes

@[simp] theorem downBytes_nil : downBytes [] = [] := rfl

@[simp] theorem downBytes_append (l l' : List DownMsg) :
    downBytes (l ++ l') = downBytes l ++ downBytes l' := List.flatMap_append

@[simp] theorem downBytes_one (m : DownMsg) : downBytes [m] = m.bytes := by simp [downBytes]

theorem downBytes_mono {l l' : List DownMsg} (h : l <+: l') : downBytes l <+: downBytes l' := by
  obtain ⟨rest, rfl⟩ := h
  rw [downBytes_append]
  exact List.prefix_append _ _

/-- The environment of `install`; every error of the operating system has a text. -/
structure SystemCalls extends Environment where
  worded : ∀ op, error op ≠ some ""

inductive InstallPc where
  | receive
  | install
  | respond
  | closeWrite
  | close
  | done
  deriving DecidableEq

/-- `reads` is what was read of the channel, `installed` what `install` has returned. -/
structure Installer where
  manifest : Manifest
  files : Files
  reads : List Bytes
  buf : Bytes
  eof : Bool
  closed : Bool
  sentClose : Bool
  lost : Bool
  installed : Option (Option String)
  pc : InstallPc

namespace Installer

def init (m : Manifest) (files : Files) : Installer where
  manifest := m
  files := files
  reads := []
  buf := []
  eof := false
  closed := false
  sentClose := false
  lost := false
  installed := none
  pc := .receive

def canSend (s : Installer) : Bool := !s.sentClose && !s.lost

def emit (s : Installer) (m : UpMsg) : List UpMsg := if s.canSend then [m] else []

inductive Act where
  | read (n : ℕ)
  | install (env : SystemCalls) (tmp : ℕ)
  | go

/-- Whether `install` reads no more of the channel: there is no file to write to, or a write
has failed. -/
def stops (s : Installer) (env : Environment) : Bool :=
  (env.error .createTemp).isSome || (copy env ⟨s.reads, none⟩ s.manifest.size).error.isSome

def readStep (s : Installer) (n : ℕ) : Option (Installer × List UpMsg) :=
  if s.pc ≠ .receive then none
  else if s.manifest.size.toNat ≤ s.reads.flatten.length then some ({ s with pc := .install }, [])
  else if s.buf ≠ [] then
    some ({ s with reads := s.reads ++ [s.buf.take (n + 1)], buf := s.buf.drop (n + 1) }, [])
  else if s.eof ∨ s.closed then some ({ s with pc := .install }, [])
  else none

def step (P : Platform) (s : Installer) : Act → Option (Installer × List UpMsg)
  | .read n => s.readStep n
  | .install env tmp =>
    if s.pc = .install ∨ s.pc = .receive ∧ s.stops env.toEnvironment then
      let out := Updates.install P env.toEnvironment s.files tmp ⟨s.reads, none⟩ s.manifest
      some ({ s with files := out.1, installed := some out.2, pc := .respond }, [])
    else none
  | .go =>
    match s.pc, s.installed with
    | .respond, some out => some ({ s with pc := .closeWrite }, s.emit (.result (out.getD "")))
    | .closeWrite, _ => some ({ s with pc := .close }, s.emit .eof)
    | .close, _ => some ({ s with pc := .done, sentClose := true }, s.emit .close)
    | _, _ => none

def receive (s : Installer) (m : DownMsg) : Option (Installer × List UpMsg) :=
  if s.closed then none
  else
    match m with
    | .data b => some ({ s with buf := s.buf ++ b }, [])
    | .eof => some ({ s with eof := true }, [])
    | .close => some ({ s with closed := true, sentClose := true }, s.emit .close)

end Installer

def agent (P : Platform) : Links.Party Installer Installer.Act DownMsg UpMsg where
  step := Installer.step P
  receive := Installer.receive
  lost s := { s with closed := true, lost := true }

inductive SendPc where
  | copy
  | closeWrite
  | decode
  | close
  | done
  deriving DecidableEq

/-- `rest` is what is left of the binary and `failure` the error at its end; `outcome` is what
the handler answers and logs. -/
structure Sender where
  rest : Bytes
  failure : Option String
  results : List String
  eof : Bool
  closed : Bool
  sentClose : Bool
  lost : Bool
  outcome : Option (Except String Unit)
  pc : SendPc

namespace Sender

def init (bin : Stream) : Sender where
  rest := bin.bytes
  failure := bin.failure
  results := []
  eof := false
  closed := false
  sentClose := false
  lost := false
  outcome := none
  pc := .copy

def canSend (t : Sender) : Bool := !t.sentClose && !t.lost

def emit (t : Sender) (m : DownMsg) : List DownMsg := if t.canSend then [m] else []

def fail (t : Sender) (message : String) : Sender :=
  { t with outcome := some (.error message), pc := .close }

inductive Act where
  | copy (n : ℕ)
  | go
  | timeout
  deriving DecidableEq

def goStep (t : Sender) : Option (Sender × List DownMsg) :=
  match t.pc with
  | .closeWrite => some ({ t with pc := .decode }, t.emit .eof)
  | .decode =>
    match t.results with
    | error :: _ =>
      if error = "" then some ({ t with outcome := some (.ok ()), pc := .close }, [])
      else some (t.fail error, [])
    | [] => if t.eof ∨ t.closed then some (t.fail "the agent did not confirm the update", []) else none
  | .close => some ({ t with pc := .done, sentClose := true }, t.emit .close)
  | _ => none

def step (t : Sender) : Act → Option (Sender × List DownMsg)
  | .copy n =>
    if t.pc ≠ .copy then none
    else if t.rest = [] then
      match t.failure with
      | some e => some (t.fail ("sending the update failed: " ++ e), [])
      | none => some ({ t with pc := .closeWrite }, [])
    else if t.canSend then some ({ t with rest := t.rest.drop (n + 1) }, [.data (t.rest.take (n + 1))])
    else some (t.fail "sending the update failed: EOF", [])
  | .go => t.goStep
  | .timeout => if t.pc ≠ .done then some ({ t with sentClose := true }, t.emit .close) else none

def receive (t : Sender) (m : UpMsg) : Option (Sender × List DownMsg) :=
  if t.closed then none
  else
    match m with
    | .result error => some ({ t with results := t.results ++ [error] }, [])
    | .eof => some ({ t with eof := true }, [])
    | .close => some ({ t with closed := true, sentClose := true }, t.emit .close)

end Sender

def hub : Links.Party Sender Sender.Act UpMsg DownMsg where
  step := Sender.step
  receive := Sender.receive
  lost t := { t with closed := true, lost := true }

abbrev System := Links.Net Installer Sender DownMsg UpMsg
abbrev Action := Links.Action Installer.Act Sender.Act

def step (P : Platform) : System → Action → Option System := Links.step (agent P) hub

def init (m : Manifest) (files : Files) (bin : Stream) : System :=
  Links.Net.init (Installer.init m files) (Sender.init bin)

section install
variable {P : Platform} {env : Environment} {files : Files} {n : ℕ}

theorem swapWindows_ok (h : (swapWindows env files n).2 = none) :
    (swapWindows env files n).1 .exe = files (.tmp n) := by
  unfold swapWindows at h ⊢
  cases hmoved : rename files (env.error .renameOld) .exe .old with
  | error e => simp [hmoved] at h
  | ok moved =>
    have hkept : moved (.tmp n) = files (.tmp n) := rename_other (by simp) (by simp) hmoved
    simp only [hmoved] at h ⊢
    cases hplaced : rename moved (env.error .renameNew) (.tmp n) .exe with
    | ok placed => exact (rename_dst (by simp) hplaced).trans hkept
    | error e =>
      simp only [hplaced] at h
      split at h <;> cases h

theorem swap_ok (h : (swap P env files n).2 = none) : (swap P env files n).1 .exe = files (.tmp n) := by
  unfold swap at h ⊢
  split_ifs at h ⊢
  · exact (swapWindows_ok h).trans (remove_other (by simp))
  · cases hplaced : rename files (env.error .renameNew) (.tmp n) .exe with
    | ok placed => exact rename_dst (by simp) hplaced
    | error e => simp [hplaced] at h

/-- When `install` succeeds the executable is the described beginning of the stream, however
many calls have failed on the way. -/
theorem install_ok {s : Stream} {m : Manifest} (h : (install P env files n s m).2 = none) :
    (install P env files n s m).1 .exe = some (s.bytes.take m.size.toNat) ∧
      m.Describes P (s.bytes.take m.size.toNat) := by
  unfold install at h ⊢
  cases hcreate : env.error .createTemp with
  | some e => simp [hcreate] at h
  | none =>
    have hne : File.exe ≠ .tmp n := by simp
    simp only [hcreate] at h ⊢
    cases hcheck : checkReceived P env m (copy env s m.size) with
    | some e => simp [hcheck] at h
    | none =>
      simp only [hcheck] at h ⊢
      obtain ⟨hfile, hdescribed⟩ := received_of_checked hcheck
      refine ⟨?_, hdescribed⟩
      rw [remove_other hne, swap_ok h, Function.update_self, hfile]

theorem rename_worded {f : Files} {env : SystemCalls} {op : Operation} {src dst : File} {e : String}
    (h : rename f (env.error op) src dst = .error e) : e ≠ "" := by
  unfold rename at h
  split at h
  · rename_i e' _ herror
    cases h
    intro hempty
    exact env.worded op (hempty ▸ herror)
  · cases h
    decide
  · cases h

theorem swapWindows_worded (env : SystemCalls) (files : Files) (n : ℕ) :
    (swapWindows env.toEnvironment files n).2 ≠ some "" := by
  unfold swapWindows
  cases hmoved : rename files (env.error .renameOld) .exe .old with
  | error e => simpa using rename_worded hmoved
  | ok moved =>
    dsimp only
    cases hplaced : rename moved (env.error .renameNew) (.tmp n) .exe with
    | ok placed => simp
    | error e =>
      have hne := rename_worded hplaced
      dsimp only
      split <;> simpa using hne

theorem swap_worded (env : SystemCalls) (files : Files) (n : ℕ) :
    (swap P env.toEnvironment files n).2 ≠ some "" := by
  unfold swap
  split_ifs
  · exact swapWindows_worded env _ n
  · cases hplaced : rename files (env.error .renameNew) (.tmp n) .exe with
    | ok placed => simp
    | error e => simpa using rename_worded hplaced

theorem checkReceived_worded (env : SystemCalls) (m : Manifest) (copied : Copied) :
    checkReceived P env.toEnvironment m copied ≠ some "" := by
  unfold checkReceived
  split
  · simp
  · split_ifs
    · unfold checkRuns
      split
      · rename_i e _ hchmod
        intro hempty
        exact env.worded .chmod (hchmod.trans hempty)
      · simp
      · split_ifs <;> simp
    · simp

/-- An error of `install` is never taken for a success. -/
theorem install_worded (env : SystemCalls) (files : Files) (n : ℕ) (s : Stream) (m : Manifest) :
    (install P env.toEnvironment files n s m).2 ≠ some "" := by
  unfold install
  split
  · simp
  · dsimp only
    cases hcheck : checkReceived P env.toEnvironment m (copy env.toEnvironment s m.size) with
    | some e =>
      have hne := checkReceived_worded (P := P) env m (copy env.toEnvironment s m.size)
      rw [hcheck] at hne
      exact hne
    | none => exact swap_worded env _ n

end install

def Installer.Placed (P : Platform) (s : Installer) : Prop :=
  s.installed = some none →
    s.files .exe = some (s.reads.flatten.take s.manifest.size.toNat) ∧
      s.manifest.Describes P (s.reads.flatten.take s.manifest.size.toNat)

/-- What holds of the agent's side, with all it has sent and received. -/
structure Installer.Ok (P : Platform) (m : Manifest) (s : Installer) (sent : List UpMsg)
    (got : List DownMsg) : Prop where
  manifest : s.manifest = m
  received : s.reads.flatten ++ s.buf = downBytes got
  early : s.pc = .receive ∨ s.pc = .install → s.installed = none
  placed : s.Placed P
  worded : s.installed ≠ some (some "")
  answered : ∀ e, UpMsg.result e ∈ sent → ∃ out, s.installed = some out ∧ e = out.getD ""

namespace Installer
variable {P : Platform} {m : Manifest} {s s' : Installer} {sent out : List UpMsg} {got : List DownMsg}

theorem init_ok (P : Platform) (m : Manifest) (files : Files) : (init m files).Ok P m [] [] where
  manifest := rfl
  received := rfl
  early _ := rfl
  placed h := by cases h
  worded h := by cases h
  answered e h := by cases h

theorem mem_emit {msg msg' : UpMsg} (h : msg ∈ s.emit msg') : msg = msg' := by
  unfold emit at h
  split_ifs at h
  · exact List.mem_singleton.1 h
  · cases h

theorem Ok.silent (h : s.Ok P m sent got) (hpc : s.pc = .receive ∨ s.pc = .install) (e : String) :
    UpMsg.result e ∉ sent := by
  intro he
  obtain ⟨r, hr, -⟩ := h.answered e he
  rw [h.early hpc] at hr
  cases hr

theorem Ok.emit (h : s.Ok P m sent got) {msg : UpMsg} (hmsg : ∀ e, msg ≠ .result e) :
    s.Ok P m (sent ++ s.emit msg) got :=
  { h with
    answered := fun e he => by
      rcases List.mem_append.1 he with he | he
      · exact h.answered e he
      · exact absurd (mem_emit he).symm (hmsg e) }

theorem read_ok {n : ℕ} (h : s.Ok P m sent got) (hs : s.readStep n = some (s', out)) :
    s'.Ok P m (sent ++ out) got := by
  unfold readStep at hs
  split_ifs at hs with hpc hfull hbuf heof
  · cases hs
    rw [List.append_nil]
    have hnone := h.early (.inl (not_not.1 hpc))
    exact { h with early := fun _ => hnone }
  · cases hs
    rw [List.append_nil]
    have hnone := h.early (.inl (not_not.1 hpc))
    refine { h with received := ?_, placed := fun hp => ?_ }
    · rw [← h.received]
      simp
    · rw [hnone] at hp
      cases hp
  · cases hs
    rw [List.append_nil]
    have hnone := h.early (.inl (not_not.1 hpc))
    exact { h with early := fun _ => hnone }

theorem step_ok {a : Act} (h : s.Ok P m sent got) (hs : s.step P a = some (s', out)) :
    s'.Ok P m (sent ++ out) got := by
  cases a with
  | read n => exact read_ok h hs
  | install env tmp =>
    simp only [step] at hs
    split_ifs at hs with hpc
    cases hs
    rw [List.append_nil]
    have hbefore : s.pc = .receive ∨ s.pc = .install := hpc.elim .inr fun hstops => .inl hstops.1
    refine { h with
      early := by simp
      placed := fun hp => install_ok (Option.some.inj hp)
      worded := fun hempty => install_worded env _ _ _ _ (Option.some.inj hempty)
      answered := fun e he => absurd he (h.silent hbefore e) }
  | go =>
    simp only [step] at hs
    split at hs
    · rename_i r hpc hinstalled
      cases hs
      refine { h with early := by simp, answered := fun e he => ?_ }
      rcases List.mem_append.1 he with he | he
      · exact h.answered e he
      · cases mem_emit he
        exact ⟨r, hinstalled, rfl⟩
    · cases hs
      exact { h.emit (by simp) with early := by simp }
    · cases hs
      exact { h.emit (by simp) with early := by simp }
    · cases hs

theorem receive_ok {msg : DownMsg} (h : s.Ok P m sent got) (hs : s.receive msg = some (s', out)) :
    s'.Ok P m (sent ++ out) (got ++ [msg]) := by
  unfold receive at hs
  split_ifs at hs
  cases msg with
  | data b =>
    cases hs
    rw [List.append_nil]
    refine { h with received := ?_ }
    rw [downBytes_append, downBytes_one, ← h.received, List.append_assoc]
    rfl
  | eof =>
    cases hs
    rw [List.append_nil]
    refine { h with received := ?_ }
    rw [downBytes_append, downBytes_one, ← h.received]
    simp [DownMsg.bytes]
  | close =>
    cases hs
    refine { h.emit (by simp) with received := ?_ }
    rw [downBytes_append, downBytes_one, ← h.received]
    simp [DownMsg.bytes]

end Installer

theorem agent_keeps (P : Platform) (m : Manifest) : (agent P).Keeps (Installer.Ok P m) where
  step := Installer.step_ok
  receive := Installer.receive_ok
  lost h := { h with }

structure Sender.Ok (bin : Bytes) (t : Sender) (sent : List DownMsg) (got : List UpMsg) : Prop where
  copied : downBytes sent ++ t.rest = bin
  results : ∀ e ∈ t.results, UpMsg.result e ∈ got
  confirmed : t.outcome = some (.ok ()) → UpMsg.result "" ∈ got

namespace Sender
variable {bin : Bytes} {t t' : Sender} {sent out : List DownMsg} {got : List UpMsg}

theorem init_ok (bin : Stream) : (init bin).Ok bin.bytes [] [] where
  copied := rfl
  results e he := by cases he
  confirmed h := by cases h

theorem downBytes_emit {m : DownMsg} (h : m.bytes = []) : downBytes (t.emit m) = [] := by
  unfold emit
  split_ifs <;> simp [h]

theorem Ok.emit (h : t.Ok bin sent got) {m : DownMsg} (hm : m.bytes = []) :
    t.Ok bin (sent ++ t.emit m) got :=
  { h with copied := by rw [downBytes_append, downBytes_emit hm, List.append_nil, h.copied] }

theorem Ok.fail (h : t.Ok bin sent got) (message : String) : (t.fail message).Ok bin sent got :=
  { h with confirmed := fun hc => by cases hc }

theorem go_ok (h : t.Ok bin sent got) (hs : t.goStep = some (t', out)) :
    t'.Ok bin (sent ++ out) got := by
  unfold goStep at hs
  split at hs
  · cases hs
    exact { h.emit rfl with }
  · split at hs
    · rename_i e results hresults
      split_ifs at hs with hempty
      · cases hs
        rw [List.append_nil]
        refine { h with confirmed := fun _ => ?_ }
        rw [← hempty]
        exact h.results e (by simp [hresults])
      · cases hs
        rw [List.append_nil]
        exact h.fail e
    · split_ifs at hs
      cases hs
      rw [List.append_nil]
      exact h.fail _
  · cases hs
    exact { h.emit rfl with }
  · cases hs

theorem step_ok {a : Act} (h : t.Ok bin sent got) (hs : t.step a = some (t', out)) :
    t'.Ok bin (sent ++ out) got := by
  cases a with
  | copy n =>
    simp only [step] at hs
    split_ifs at hs with hpc hrest hsend
    · split at hs
      · cases hs
        rw [List.append_nil]
        exact h.fail _
      · cases hs
        rw [List.append_nil]
        exact { h with }
    · cases hs
      refine { h with copied := ?_ }
      rw [downBytes_append, downBytes_one, ← h.copied, List.append_assoc]
      congr 1
      exact List.take_append_drop (n + 1) t.rest
    · cases hs
      rw [List.append_nil]
      exact h.fail _
  | go => exact go_ok h hs
  | timeout =>
    simp only [step] at hs
    split_ifs at hs
    cases hs
    exact { h.emit rfl with }

theorem receive_ok {m : UpMsg} (h : t.Ok bin sent got) (hs : t.receive m = some (t', out)) :
    t'.Ok bin (sent ++ out) (got ++ [m]) := by
  have hold : t.Ok bin sent (got ++ [m]) :=
    { h with
      results := fun e he => List.mem_append_left _ (h.results e he)
      confirmed := fun hc => List.mem_append_left _ (h.confirmed hc) }
  unfold receive at hs
  split_ifs at hs
  cases m with
  | result error =>
    cases hs
    rw [List.append_nil]
    refine { hold with results := fun e he => ?_ }
    rcases List.mem_append.1 he with he | he
    · exact hold.results e he
    · rw [List.mem_singleton.1 he]
      simp
  | eof =>
    cases hs
    rw [List.append_nil]
    exact { hold with }
  | close =>
    cases hs
    exact { hold.emit rfl with }

end Sender

theorem hub_keeps (bin : Bytes) : hub.Keeps (Sender.Ok bin) where
  step := Sender.step_ok
  receive := Sender.receive_ok
  lost h := { h with }

theorem exec_inv {P : Platform} {m : Manifest} {files : Files} {bin : Stream} {acts : List Action}
    {g : System} (run : Runs.exec (step P) (init m files bin) acts = some g) :
    Links.Inv (Installer.Ok P m) (Sender.Ok bin.bytes) g :=
  Links.exec_inv (agent_keeps P m) (hub_keeps bin.bytes) (Installer.init_ok P m files)
    (Sender.init_ok bin) run

theorem reads_le {P : Platform} {m : Manifest} {bin : Bytes} {g : System}
    (h : Links.Inv (Installer.Ok P m) (Sender.Ok bin) g) : g.left.reads.flatten <+: bin :=
  calc g.left.reads.flatten <+: downBytes g.gotDown := h.left.received ▸ List.prefix_append _ _
    _ <+: downBytes g.sentDown := downBytes_mono h.down.done_le
    _ <+: bin := h.right.copied ▸ List.prefix_append _ _

/-- Whatever happens to the link and whenever the hub gives up: the hub reports an update as
installed only if the agent's executable is the signed beginning of the hub's binary. -/
theorem update_confirmed {P : Platform} {m : Manifest} {files : Files} {bin : Stream}
    {acts : List Action} {g : System} (run : Runs.exec (step P) (init m files bin) acts = some g)
    (hok : g.right.outcome = some (.ok ())) :
    g.left.files .exe = some (bin.bytes.take m.size.toNat) ∧
      m.Describes P (bin.bytes.take m.size.toNat) := by
  have hinv := exec_inv run
  have hreported : UpMsg.result "" ∈ g.sentUp := hinv.up.done_le.subset (hinv.right.confirmed hok)
  obtain ⟨out, hout, hempty⟩ := hinv.left.answered "" hreported
  have hnone : out = none := by
    cases out with
    | none => rfl
    | some e => exact absurd (hempty ▸ hout) hinv.left.worded
  obtain ⟨hexe, hdescribed⟩ := hinv.left.placed (hnone ▸ hout)
  rw [hinv.left.manifest] at hexe hdescribed
  -- the signed size was read in full
  have htake : g.left.reads.flatten.take m.size.toNat = bin.bytes.take m.size.toNat := by
    have hlength : (g.left.reads.flatten.take m.size.toNat).length = m.size.toNat := by
      have := hdescribed.1
      omega
    have hread := List.take_prefix m.size.toNat g.left.reads.flatten
    rw [List.prefix_iff_eq_take.1 (hread.trans (reads_le hinv)), hlength]
  rw [htake] at hexe hdescribed
  exact ⟨hexe, hdescribed⟩

def calls : SystemCalls := { working with worded := fun _ h => by cases h }

def transfer : List Action :=
  [.right (.copy 1), .toLeft, .left (.read 0), .right (.copy 4), .right (.copy 0), .left (.read 4),
   .left (.read 0), .left (.install calls 0), .right .go, .left .go, .toRight, .right .go]

theorem transfer_confirmed :
    (Runs.exec (step windows) (init replacement installed channel) transfer).bind
      (fun g => g.right.outcome.map Except.isOk) = some true := by
  decide +kernel

theorem update_confirmed_windows :
    ∃ g, Runs.exec (step windows) (init replacement installed channel) transfer = some g ∧
      g.left.files .exe = some [2, 7] := by
  obtain ⟨g, hg, hview⟩ := Option.bind_eq_some_iff.1 transfer_confirmed
  obtain ⟨out, hout, hisOk⟩ := Option.map_eq_some_iff.1 hview
  cases out with
  | error e => cases hisOk
  | ok u => exact ⟨g, hg, (update_confirmed hg hout).1⟩

end Lotse.UpdateChannel
