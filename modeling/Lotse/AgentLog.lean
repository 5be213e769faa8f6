import Lotse.Runs
import Lotse.Utf8

set_option autoImplicit false

/-!
# The log of the agent

`logFile` with its one previous file, over any number of starts of the agent. Every call of
the operating system may fail.
-/
namespace Lotse.AgentLog
open Utf8 (Bytes)

def maxLogSize : ℕ := 5 * 2 ^ 20

/-- The two files, and the `logFile` of the agent if it logs to a file: whether its file is
open and the size it has noted. `records` is what `Write` was given since the installation,
each record with what of it reached the file; no code reads it. -/
structure State where
  current : Option Bytes
  previous : Option Bytes
  log : Option (Bool × ℕ)
  records : List (Bytes × Bytes)

/-- How the calls go: `os.Rename`, `os.OpenFile`, `os.Stat` of the path, `Stat` of the open
file, and how much is written. -/
structure Oracle where
  rename : Bool
  opens : Bool
  stat : Bool
  fstat : Bool
  n : ℕ
  deriving DecidableEq

inductive Action where
  | start (o : Oracle)
  | write (p : Bytes) (o : Oracle)
  deriving DecidableEq

namespace State

def file (g : State) : Bytes := g.current.getD []
def old (g : State) : Bytes := g.previous.getD []

def logged (g : State) : Bytes := (g.records.map Prod.fst).flatten

def written (g : State) : Bytes := (g.records.map Prod.snd).flatten

def rename (g : State) (ok : Bool) : State :=
  match g.current with
  | some b => if ok then { g with current := none, previous := some b } else g
  | none => g

/-- `logFile.open`, for a `logFile` that had noted `size`. A failure leaves it closed. -/
def openFile (g : State) (size : ℕ) (o : Oracle) : State :=
  if o.opens then
    { g with current := some g.file, log := some (true, if o.fstat then g.file.length else size) }
  else { g with log := some (false, size) }

/-- `openLogFile`. Without a log file the agent logs to its standard error. -/
def openLogFile (g : State) (o : Oracle) : State :=
  let g := if o.stat ∧ maxLogSize < g.file.length then g.rename o.rename else g
  if o.opens then g.openFile 0 o else { g with log := none }

/-- `f.Write`, which gets `n` bytes into a file that is open. -/
def append (g : State) (p : Bytes) (n : ℕ) : State :=
  match g.log with
  | some (true, size) =>
    { g with
      current := some (g.file ++ p.take n)
      log := some (true, size + (p.take n).length)
      records := g.records ++ [(p, p.take n)] }
  | _ => { g with records := g.records ++ [(p, [])] }

def write (g : State) (p : Bytes) (o : Oracle) : State :=
  match g.log with
  | none => g
  | some (_, size) =>
    if maxLogSize < size + p.length then ((g.rename o.rename).openFile size o).append p o.n
    else g.append p o.n

end State

def step (g : State) : Action → Option State
  | .start o => some (g.openLogFile o)
  | .write p o => some (g.write p o)

def init : State := ⟨none, none, none, []⟩

namespace State
variable {g : State}

def Kept (g : State) : Prop := g.old ++ g.file <:+ g.written

theorem Kept.rename (h : g.Kept) (ok : Bool) : (g.rename ok).Kept := by
  unfold State.rename
  split
  · rename_i b hb
    split_ifs
    · have hfile : g.file <:+ g.written := (List.suffix_append _ _).trans h
      simpa [Kept, old, file, hb, written] using hfile
    · exact h
  · exact h

theorem Kept.openFile (h : g.Kept) (size : ℕ) (o : Oracle) : (g.openFile size o).Kept := by
  unfold State.openFile
  split_ifs <;> exact h

theorem written_concat (g : State) (current : Option Bytes) (log : Option (Bool × ℕ))
    (r : Bytes × Bytes) : ({ g with current, log, records := g.records ++ [r] } : State).written =
      g.written ++ r.2 := by
  simp [written]

theorem Kept.append (h : g.Kept) (p : Bytes) (n : ℕ) : (g.append p n).Kept := by
  unfold State.append Kept
  split
  · obtain ⟨t, ht⟩ := h
    rw [written_concat]
    refine ⟨t, ?_⟩
    change t ++ (g.old ++ (g.file ++ p.take n)) = g.written ++ p.take n
    rw [← ht]
    simp
  · rw [written_concat, List.append_nil]
    exact h

theorem Kept.start (h : g.Kept) (o : Oracle) : (g.openLogFile o).Kept := by
  have hrotated : (if o.stat ∧ maxLogSize < g.file.length then g.rename o.rename else g).Kept := by
    split_ifs
    · exact h.rename _
    · exact h
  unfold openLogFile
  dsimp only
  by_cases hopens : o.opens = true
  · rw [if_pos hopens]
    exact hrotated.openFile 0 o
  · rw [if_neg hopens]
    exact hrotated

theorem Kept.write (h : g.Kept) (p : Bytes) (o : Oracle) : (g.write p o).Kept := by
  unfold State.write
  split
  · exact h
  · split_ifs
    · exact ((h.rename _).openFile _ _).append _ _
    · exact h.append _ _

def Begun (g : State) : Prop := ∀ r ∈ g.records, r.2 <+: r.1

theorem rename_records (g : State) (ok : Bool) : (g.rename ok).records = g.records := by
  unfold State.rename
  split
  · split_ifs <;> rfl
  · rfl

theorem openFile_records (g : State) (size : ℕ) (o : Oracle) :
    (g.openFile size o).records = g.records := by
  unfold State.openFile
  split_ifs <;> rfl

theorem openLogFile_records (g : State) (o : Oracle) : (g.openLogFile o).records = g.records := by
  have hrotated : (if o.stat ∧ maxLogSize < g.file.length then g.rename o.rename else g).records =
      g.records := by
    split_ifs
    · exact g.rename_records _
    · rfl
  unfold State.openLogFile
  dsimp only
  by_cases hopens : o.opens = true
  · rw [if_pos hopens, openFile_records, hrotated]
  · rw [if_neg hopens, hrotated]

theorem Begun.append (h : g.Begun) (p : Bytes) (n : ℕ) : (g.append p n).Begun := by
  unfold State.append
  split
  · intro r hr
    rcases List.mem_append.1 hr with hr | hr
    · exact h r hr
    · rw [List.mem_singleton.1 hr]
      exact List.take_prefix _ _
  · intro r hr
    rcases List.mem_append.1 hr with hr | hr
    · exact h r hr
    · rw [List.mem_singleton.1 hr]
      exact List.nil_prefix

theorem Begun.write (h : g.Begun) (p : Bytes) (o : Oracle) : (g.write p o).Begun := by
  have hopen : ∀ size, ((g.rename o.rename).openFile size o).Begun := fun size => by
    rw [Begun, openFile_records, rename_records]
    exact h
  unfold State.write
  split
  · exact h
  · split_ifs
    · exact (hopen _).append _ _
    · exact h.append _ _

structure Whole (g : State) : Prop where
  opened : ∀ isOpen size, g.log = some (isOpen, size) → isOpen = true
  complete : ∀ r ∈ g.records, r.2 = r.1

theorem Whole.written (h : g.Whole) : g.written = g.logged :=
  congrArg List.flatten (List.map_congr_left h.complete)

theorem Whole.append (h : g.Whole) {p : Bytes} {n : ℕ} (hlog : g.log.isSome) (hn : p.length ≤ n) :
    (g.append p n).Whole := by
  obtain ⟨⟨isOpen, size⟩, hlog⟩ := Option.isSome_iff_exists.1 hlog
  obtain rfl := h.opened isOpen size hlog
  unfold State.append
  rw [hlog]
  refine ⟨fun isOpen size he => ?_, fun r hr => ?_⟩
  · cases he
    rfl
  · rcases List.mem_append.1 hr with hr | hr
    · exact h.complete r hr
    · rw [List.mem_singleton.1 hr]
      exact List.take_of_length_le hn

theorem openFile_whole {size : ℕ} {o : Oracle} (hopens : o.opens = true)
    (h : ∀ r ∈ g.records, r.2 = r.1) : (g.openFile size o).Whole := by
  unfold State.openFile
  rw [if_pos hopens]
  refine ⟨fun isOpen size he => ?_, h⟩
  cases he
  rfl

end State

/-- No call fails that a record of the action needs. -/
def Action.Complete : Action → Prop
  | start o => o.opens = true
  | write p o => o.opens = true ∧ p.length ≤ o.n

instance : (a : Action) → Decidable a.Complete
  | .start o => inferInstanceAs (Decidable (o.opens = true))
  | .write _ _ => inferInstanceAs (Decidable (_ ∧ _))

namespace State
variable {g : State}

theorem Whole.start (h : g.Whole) {o : Oracle} (hopens : o.opens = true) :
    (g.openLogFile o).Whole := by
  refine ⟨fun isOpen size he => ?_, by rw [openLogFile_records]; exact h.complete⟩
  unfold State.openLogFile State.openFile at he
  dsimp only at he
  rw [if_pos hopens, if_pos hopens] at he
  cases he
  rfl

theorem Whole.write (h : g.Whole) {p : Bytes} {o : Oracle} (hopens : o.opens = true)
    (hn : p.length ≤ o.n) : (g.write p o).Whole := by
  unfold State.write
  split
  · exact h
  · rename_i isOpen size hlog
    split_ifs
    · have hopen : ((g.rename o.rename).openFile size o).Whole :=
        openFile_whole hopens (by rw [rename_records]; exact h.complete)
      refine hopen.append ?_ hn
      unfold State.openFile
      rw [if_pos hopens]
      rfl
    · exact h.append (by rw [hlog]; rfl) hn

end State

/-- The calls that rotate the files do not fail, and a record has at most `m` bytes. -/
def Action.Fine (m : ℕ) : Action → Prop
  | start o => o.fstat = true
  | write p o => o.rename = true ∧ o.fstat = true ∧ p.length ≤ m

instance (m : ℕ) : (a : Action) → Decidable (a.Fine m)
  | .start o => inferInstanceAs (Decidable (o.fstat = true))
  | .write _ _ => inferInstanceAs (Decidable (_ ∧ _))

structure State.Sound (m : ℕ) (g : State) : Prop where
  file : g.file.length ≤ maxLogSize
  old : g.old.length ≤ maxLogSize
  all : g.old ++ g.file = g.written ∨ maxLogSize < g.old.length + m
  opened : ∀ size, g.log = some (true, size) → size = g.file.length ∧ g.current.isSome
  closed : ∀ size, g.log = some (false, size) → g.current = none

namespace State
variable {g : State} {m : ℕ}

theorem Sound.openFile (h : g.Sound m) {size : ℕ} {o : Oracle} (hstat : o.fstat = true)
    (hclosed : o.opens = false → g.current = none) : (g.openFile size o).Sound m := by
  unfold State.openFile
  rw [if_pos hstat]
  split_ifs with hopens
  · refine { file := h.file, old := h.old, all := h.all, opened := ?_, closed := ?_ }
    · intro n hn
      cases hn
      exact ⟨rfl, rfl⟩
    · intro n hn
      cases hn
  · have hnone := hclosed (by simpa using hopens)
    refine { file := h.file, old := h.old, all := h.all, opened := ?_, closed := ?_ }
    · intro n hn
      cases hn
    · exact fun n _ => hnone

@[simp] theorem openFile_file (g : State) (size : ℕ) (o : Oracle) :
    (g.openFile size o).file = g.file := by
  unfold State.openFile
  split_ifs <;> rfl

theorem Sound.append (h : g.Sound m) {p : Bytes} {n : ℕ}
    (hfits : g.log.any Prod.fst = true → g.file.length + p.length ≤ maxLogSize) :
    (g.append p n).Sound m := by
  unfold State.append
  split
  · rename_i size hlog
    have hlen := hfits (by rw [hlog]; rfl)
    have htake : (p.take n).length ≤ p.length := List.length_take_le' _ _
    refine { file := ?_, old := h.old, all := ?_, opened := ?_, closed := ?_ }
    · change (g.file ++ p.take n).length ≤ maxLogSize
      rw [List.length_append]
      omega
    · refine h.all.imp_left fun hall => ?_
      rw [written_concat, ← hall, List.append_assoc]
      rfl
    · intro n' hn
      cases hn
      refine ⟨?_, rfl⟩
      change size + (p.take n).length = (g.file ++ p.take n).length
      rw [(h.opened size hlog).1, List.length_append]
    · intro n' hn
      cases hn
  · refine { h with all := h.all.imp_left fun hall => ?_ }
    rw [written_concat, List.append_nil]
    exact hall

theorem Sound.rotate (h : g.Sound m) {isOpen : Bool} {size n : ℕ} (hlog : g.log = some (isOpen, size))
    (hfull : maxLogSize < size + n) (hn : n ≤ m) :
    (g.rename true).file = [] ∧ (g.rename true).current = none ∧
      ({ g.rename true with log := none } : State).Sound m := by
  cases isOpen with
  | false =>
    have hnone := h.closed size hlog
    have hsame : g.rename true = g := by
      unfold State.rename
      rw [hnone]
    rw [hsame]
    refine ⟨by rw [State.file, hnone]; rfl, hnone, ?_⟩
    exact { file := h.file, old := h.old, all := h.all, opened := nofun, closed := nofun }
  | true =>
    obtain ⟨hsize, hsome⟩ := h.opened size hlog
    obtain ⟨b, hb⟩ := Option.isSome_iff_exists.1 hsome
    have hfile : g.file = b := by rw [State.file, hb]; rfl
    have hmoved : g.rename true = { g with current := none, previous := some b } := by
      unfold State.rename
      rw [hb]
      rfl
    rw [hmoved]
    refine ⟨rfl, rfl, { file := Nat.zero_le _, old := ?_, all := .inr ?_, opened := nofun,
                        closed := nofun }⟩
    · exact hfile ▸ h.file
    · change maxLogSize < b.length + m
      rw [← hfile]
      omega

theorem Sound.write (hm : m ≤ maxLogSize) (h : g.Sound m) {p : Bytes} {o : Oracle}
    (hfine : (Action.write p o).Fine m) : (g.write p o).Sound m := by
  obtain ⟨hrename, hstat, hp⟩ := hfine
  unfold State.write
  split
  · exact h
  · rename_i isOpen size hlog
    split_ifs with hfull
    · rw [hrename]
      obtain ⟨hempty, hnone, hsound⟩ := h.rotate hlog hfull hp
      have hopen : ((g.rename true).openFile size o).Sound m := hsound.openFile hstat fun _ => hnone
      refine hopen.append fun _ => ?_
      rw [openFile_file, hempty, List.length_nil]
      omega
    · refine h.append fun hany => ?_
      rw [hlog] at hany
      obtain rfl : isOpen = true := hany
      have hsize := (h.opened size hlog).1
      omega

theorem Sound.start (h : g.Sound m) {o : Oracle} (hfine : (Action.start o).Fine m) :
    (g.openLogFile o).Sound m := by
  have hsmall : ¬ (o.stat ∧ maxLogSize < g.file.length) := fun hlarge => absurd hlarge.2 (not_lt.2 h.file)
  unfold openLogFile
  rw [if_neg hsmall]
  dsimp only
  by_cases hopens : o.opens = true
  · rw [if_pos hopens]
    exact h.openFile hfine fun hno => absurd (hopens.symm.trans hno) (by simp)
  · rw [if_neg hopens]
    exact { file := h.file, old := h.old, all := h.all, opened := nofun, closed := nofun }

end State

section runs
variable {acts : List Action} {g : State}

theorem kept_run (run : Runs.exec step init acts = some g) : g.Kept := by
  have hkeep : ∀ s a t, s.Kept → step s a = some t → t.Kept := by
    intro s a t hs hstep
    cases a with
    | start o =>
      cases hstep
      exact hs.start o
    | write p o =>
      cases hstep
      exact hs.write p o
  have hinit : init.Kept := List.suffix_refl []
  exact Runs.exec_invariant hkeep hinit run

theorem begun_run (run : Runs.exec step init acts = some g) : g.Begun := by
  have hkeep : ∀ s a t, s.Begun → step s a = some t → t.Begun := by
    intro s a t hs hstep
    cases a with
    | start o =>
      cases hstep
      rw [State.Begun, State.openLogFile_records]
      exact hs
    | write p o =>
      cases hstep
      exact hs.write p o
  have hinit : init.Begun := nofun
  exact Runs.exec_invariant hkeep hinit run

theorem whole_run (hcomplete : ∀ a ∈ acts, a.Complete) (run : Runs.exec step init acts = some g) :
    g.Whole := by
  have hkeep : ∀ s a t, s.Whole → a.Complete → step s a = some t → t.Whole := by
    intro s a t hs ha hstep
    cases a with
    | start o =>
      cases hstep
      exact hs.start ha
    | write p o =>
      cases hstep
      exact hs.write ha.1 ha.2
  have hinit : init.Whole := ⟨nofun, nofun⟩
  exact Runs.exec_guarded hkeep hinit (Runs.meets_of_mem hcomplete init) run

theorem sound_run {m : ℕ} (hm : m ≤ maxLogSize) (hfine : ∀ a ∈ acts, a.Fine m)
    (run : Runs.exec step init acts = some g) : g.Sound m := by
  have hkeep : ∀ s a t, s.Sound m → a.Fine m → step s a = some t → t.Sound m := by
    intro s a t hs ha hstep
    cases a with
    | start o =>
      cases hstep
      exact hs.start ha
    | write p o =>
      cases hstep
      exact hs.write hm ha
  have hinit : init.Sound m :=
    { file := Nat.zero_le _, old := Nat.zero_le _, all := .inl rfl, opened := nofun, closed := nofun }
  exact Runs.exec_guarded hkeep hinit (Runs.meets_of_mem hfine init) run

end runs

/-- In every run of the agent, over restarts and failures of the file system, the two files
hold the end of what has reached the log: of every record a beginning, in the order of the
records, and all of them if no file fails to open and no write stops short. While renaming
works and records have at most `m` bytes, neither file is larger than 5 MiB, and either
nothing was dropped or the previous file is full up to one record. -/
theorem log_keeps_end {acts : List Action} {g : State} (run : Runs.exec step init acts = some g) :
    g.old ++ g.file <:+ g.written ∧ (∀ r ∈ g.records, r.2 <+: r.1) ∧
    ((∀ a ∈ acts, a.Complete) → g.written = g.logged) ∧
    ∀ m ≤ maxLogSize, (∀ a ∈ acts, a.Fine m) →
      g.file.length ≤ maxLogSize ∧ g.old.length ≤ maxLogSize ∧
      (g.old ++ g.file = g.written ∨ maxLogSize < g.old.length + m) := by
  refine ⟨kept_run run, begun_run run, fun hcomplete => (whole_run hcomplete run).written, ?_⟩
  intro m hm hfine
  have hsound := sound_run hm hfine run
  exact ⟨hsound.file, hsound.old, hsound.all⟩

/-- A full log and two more records. -/
def threeRecords : List Action :=
  [.start ⟨true, true, true, true, 0⟩,
   .write (List.replicate maxLogSize 97) ⟨true, true, true, true, maxLogSize⟩,
   .write [98] ⟨true, true, true, true, 1⟩, .write [99] ⟨true, true, true, true, 1⟩]

theorem threeRecords_exec : Runs.exec step init threeRecords =
    some ⟨some [98, 99], some (List.replicate maxLogSize 97), some (true, 2),
      [(List.replicate maxLogSize 97, List.replicate maxLogSize 97), ([98], [98]), ([99], [99])]⟩ := by
  have hone : 1 < maxLogSize := by decide
  simp [threeRecords, Runs.exec, step, State.openLogFile, State.openFile, State.write, State.append,
    State.rename, State.file, init, hone]

theorem log_keeps_end_rotated : ∃ g, Runs.exec step init threeRecords = some g ∧
    g.file = [98, 99] ∧ g.old ++ g.file <:+ g.written ∧ g.written = g.logged ∧
    g.old.length ≤ maxLogSize := by
  have hfine : ∀ a ∈ threeRecords, a.Fine maxLogSize := by
    have hone : 1 ≤ maxLogSize := by decide
    simp [threeRecords, Action.Fine, hone]
  have hcomplete : ∀ a ∈ threeRecords, a.Complete := by
    simp [threeRecords, Action.Complete]
  obtain ⟨hend, -, hall, hsizes⟩ := log_keeps_end threeRecords_exec
  exact ⟨_, threeRecords_exec, rfl, hend, hall hcomplete, (hsizes maxLogSize le_rfl hfine).2.1⟩

end Lotse.AgentLog
