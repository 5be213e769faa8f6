import Lotse.UpdateMachine
import Lotse.Exclusion

set_option autoImplicit false

namespace Lotse.Updates
open Versions Tasks

def held (b : Bytes) : List Placement → Bytes
  | [] => b
  | p :: _ => p.bytes

structure Placement.Genuine (P : Platform) (p : Placement) : Prop where
  admitted : Admitted P p.disabled p.running p.manifest
  described : p.manifest.Describes P p.bytes

/-- The later of two starts runs the same version, or `exe` was replaced in between and it
runs a version that is greater. -/
def Later (t s : Start) : Prop :=
  t.placements = s.placements ∧ t.version = s.version ∨
    s.placements < t.placements ∧ ∃ c, parseVersion t.version = some c ∧
      ∀ cur, parseVersion s.version = some cur → compare c cur = .gt

theorem later_iff {t s : Start} : Later t s ↔
    t.placements = s.placements ∧ t.version = s.version ∨
      s.placements < t.placements ∧ newer t.version s.version := by
  rw [Later, newer_iff]

theorem later_trans {u t s : Start} (hut : Later u t) (hts : Later t s) : Later u s := by
  rw [later_iff] at hut hts ⊢
  rcases hut with ⟨hn, hv⟩ | ⟨hn, hv⟩ <;> rcases hts with ⟨hm, hw⟩ | ⟨hm, hw⟩
  · exact .inl ⟨hn.trans hm, hv.trans hw⟩
  · exact .inr ⟨hn ▸ hm, hv ▸ hw⟩
  · exact .inr ⟨hm ▸ hn, hw ▸ hv⟩
  · exact .inr ⟨hm.trans hn, newer_trans hv hw⟩

section invariant
variable (P : Platform) (b : Bytes)

def AdmittedNow (g : State) (m : Manifest) : Prop := Admitted P g.disableUpdates g.version m

def Received (g : State) (n : ℕ) (m : Manifest) : Prop :=
  ∃ data, g.files (.tmp n) = some data ∧ m.Describes P data

def MovedAway (g : State) : Prop :=
  g.files .exe = none ∧ g.files .old = some (held b g.placed)

inductive Outside (g : State) : List Instr → Prop where
  | done : Outside g []
  | configure (disable) : Outside g [.configure disable]
  | handleUpdate (extraData stream) : Outside g [.handleUpdate extraData stream]
  | compareAndSwap {m} (stream) (hm : AdmittedNow P g m) : Outside g [.compareAndSwap m stream]

inductive Inside (g : State) : List Instr → Prop where
  | executable {m} (stream) (hm : AdmittedNow P g m) : Inside g [.executable m stream, .release]
  | accept {m} (stream) (hm : AdmittedNow P g m) : Inside g [.accept m stream, .release]
  | createTemp {m} (stream) (hm : AdmittedNow P g m) : Inside g [.createTemp m stream, .release]
  | receive {m} (n stream) (hm : AdmittedNow P g m) : Inside g [.receive n m stream, .release]
  | chmod {n m} (hm : AdmittedNow P g m) (hr : Received P g n m) : Inside g [.chmod n m, .release]
  | runVersion {n m} (hm : AdmittedNow P g m) (hr : Received P g n m) :
    Inside g [.runVersion n m, .release]
  | rename {n m} (hm : AdmittedNow P g m) (hr : Received P g n m) : Inside g [.rename n m, .release]
  | removeOld {n m} (hw : P.goos = "windows") (hm : AdmittedNow P g m) (hr : Received P g n m) :
    Inside g [.removeOld n m, .release]
  | renameOld {n m} (hw : P.goos = "windows") (hm : AdmittedNow P g m) (hr : Received P g n m) :
    Inside g [.renameOld n m, .release]
  | renameNew {n m} (hm : AdmittedNow P g m) (hr : Received P g n m) (ha : MovedAway b g) :
    Inside g [.renameNew n m, .release]
  | restoreOld (n error) (ha : MovedAway b g) :
    Inside g [.restoreOld, .removeTmp n, .respond error, .release]
  | removeTmp (n error) : Inside g [.removeTmp n, .respond error, .release]
  | respond (error) : Inside g [.respond error, .release]
  | release : Inside g [.release]

structure Sound (g : State) : Prop where
  exe : P.goos = "windows" ∧ g.files .exe = none ∨ g.files .exe = some (held b g.placed)
  genuine : ∀ p ∈ g.placed, p.Genuine P
  started : ∃ s rest, g.starts = s :: rest ∧ s.version = g.version ∧
    s.placements ≤ g.placed.length ∧
    (s.placements = g.placed.length → P.reports (held b g.placed) = g.version) ∧
    (s.placements < g.placed.length → ∃ p ∈ g.placed.head?, p.running = g.version)
  ordered : SignedReports P → g.starts.Pairwise Later

structure Inv (c : Config State Instr) : Prop where
  sound : Sound P b c.global
  exclusive : Exclusive c.global.updating (Outside P c.global) (Inside P b c.global) c.tasks

end invariant

variable {P : Platform} {b : Bytes} {g g' : State}

section frames

theorem outside_frame (hd : g'.disableUpdates = g.disableUpdates) (hv : g'.version = g.version)
    {t : List Instr} (h : Outside P g t) : Outside P g' t := by
  cases h with
  | done => exact .done
  | configure disable => exact .configure disable
  | handleUpdate extraData stream => exact .handleUpdate extraData stream
  | compareAndSwap stream hm =>
    refine .compareAndSwap stream ?_
    rwa [AdmittedNow, hd, hv]

structure Undisturbed (g g' : State) : Prop where
  disableUpdates : g'.disableUpdates = g.disableUpdates
  version : g'.version = g.version
  files : g'.files = g.files
  placed : g'.placed = g.placed
  starts : g'.starts = g.starts

theorem inside_frame (h : Undisturbed g g') {t : List Instr} (hin : Inside P b g t) :
    Inside P b g' t := by
  have hadmitted : ∀ {m}, AdmittedNow P g m → AdmittedNow P g' m := fun hm => by
    rwa [AdmittedNow, h.disableUpdates, h.version]
  have hreceived : ∀ {n m}, Received P g n m → Received P g' n m := fun hr => by
    rwa [Received, h.files]
  have hmoved : MovedAway b g → MovedAway b g' := fun ha => by
    rwa [MovedAway, h.files, h.placed]
  cases hin with
  | executable stream hm => exact .executable stream (hadmitted hm)
  | accept stream hm => exact .accept stream (hadmitted hm)
  | createTemp stream hm => exact .createTemp stream (hadmitted hm)
  | receive n stream hm => exact .receive n stream (hadmitted hm)
  | chmod hm hr => exact .chmod (hadmitted hm) (hreceived hr)
  | runVersion hm hr => exact .runVersion (hadmitted hm) (hreceived hr)
  | rename hm hr => exact .rename (hadmitted hm) (hreceived hr)
  | removeOld hw hm hr => exact .removeOld hw (hadmitted hm) (hreceived hr)
  | renameOld hw hm hr => exact .renameOld hw (hadmitted hm) (hreceived hr)
  | renameNew hm hr ha => exact .renameNew (hadmitted hm) (hreceived hr) (hmoved ha)
  | restoreOld n error ha => exact .restoreOld n error (hmoved ha)
  | removeTmp n error => exact .removeTmp n error
  | respond error => exact .respond error
  | release => exact .release

theorem sound_frame (h : Sound P b g) (hexe : g'.files .exe = g.files .exe)
    (hplaced : g'.placed = g.placed) (hstarts : g'.starts = g.starts)
    (hversion : g'.version = g.version) : Sound P b g' := by
  constructor
  · rw [hexe, hplaced]
    exact h.exe
  · rw [hplaced]
    exact h.genuine
  · rw [hstarts, hversion, hplaced]
    exact h.started
  · rw [hstarts]
    exact h.ordered

end frames

section inside

structure Proceeds (P : Platform) (b : Bytes) (g g' : State) (t : List Instr) : Prop where
  sound : Sound P b g'
  inside : Inside P b g' t
  disableUpdates : g'.disableUpdates = g.disableUpdates
  version : g'.version = g.version
  updating : g'.updating = g.updating

theorem sound_write (h : Sound P b g) {f : File} (hf : f ≠ .exe) (content : Option Bytes) :
    Sound P b (g.write f content) :=
  sound_frame h (Function.update_of_ne hf.symm _ _) rfl rfl rfl

theorem received_write {n : ℕ} {m : Manifest} (h : Received P g n m) {f : File} (hf : f ≠ .tmp n)
    (content : Option Bytes) : Received P (g.write f content) n m := by
  obtain ⟨data, hdata, hm⟩ := h
  exact ⟨data, (Function.update_of_ne hf.symm _ _).trans hdata, hm⟩

theorem sound_place (h : Sound P b g) {n : ℕ} {m : Manifest} {data : Bytes}
    (hm : AdmittedNow P g m) (hdata : g.files (.tmp n) = some data) (hd : m.Describes P data) :
    Sound P b (g.place n m data) where
  exe := by
    refine .inr ?_
    change Function.update (Function.update g.files .exe (g.files (.tmp n))) (.tmp n) none .exe = _
    rw [Function.update_of_ne File.noConfusion, Function.update_self, hdata]
    rfl
  genuine p hp := by
    rcases List.mem_cons.1 hp with rfl | hp
    · exact ⟨hm, hd⟩
    · exact h.genuine p hp
  started := by
    obtain ⟨s, rest, hs, hv, hle, -, -⟩ := h.started
    refine ⟨s, rest, hs, hv, hle.trans (Nat.le_succ _), fun heq => ?_, fun _ => ⟨_, rfl, rfl⟩⟩
    change s.placements = g.placed.length + 1 at heq
    omega
  ordered := h.ordered

theorem place_proceeds (h : Sound P b g) {n : ℕ} {m : Manifest} (hm : AdmittedNow P g m)
    (hr : Received P g n m) {data : Bytes} (hdata : g.files (.tmp n) = some data) :
    Proceeds P b g (g.place n m data) [.removeTmp n, .respond none, .release] := by
  obtain ⟨data', hdata', hd⟩ := hr
  obtain rfl : data' = data := Option.some.inj (hdata'.symm.trans hdata)
  exact ⟨sound_place h hm hdata hd, .removeTmp n none, rfl, rfl, rfl⟩

theorem withFile_cases {o : Oracle} {f : File} {ok : Bytes → Outcome State Instr}
    {failed : String → Outcome State Instr} {motive : Outcome State Instr → Prop}
    (hok : ∀ data, g.files f = some data → motive (ok data)) (hfailed : ∀ e, motive (failed e)) :
    motive (withFile o g f ok failed) := by
  unfold withFile
  split
  · exact hfailed _
  · exact hfailed _
  · exact hok _ (by assumption)

theorem sound_moveAway (h : Sound P b g) (hw : P.goos = "windows") {data : Bytes}
    (hdata : g.files .exe = some data) : Sound P b (g.move .exe .old) ∧ MovedAway b (g.move .exe .old) := by
  have hexe : (g.move .exe .old).files .exe = none := by
    change Function.update (Function.update g.files .old (g.files .exe)) .exe none .exe = none
    exact Function.update_self ..
  have hold : (g.move .exe .old).files .old = some (held b g.placed) := by
    change Function.update (Function.update g.files .old (g.files .exe)) .exe none .old = _
    rw [Function.update_of_ne File.noConfusion, Function.update_self]
    exact h.exe.resolve_left fun hnone => Option.some_ne_none _ (hdata.symm.trans hnone.2)
  exact ⟨⟨.inl ⟨hw, hexe⟩, h.genuine, h.started, h.ordered⟩, hexe, hold⟩

theorem sound_restoreOld (h : Sound P b g) (ha : MovedAway b g) : Sound P b (g.move .old .exe) := by
  refine ⟨.inr ?_, h.genuine, h.started, h.ordered⟩
  change Function.update (Function.update g.files .exe (g.files .old)) .old none .exe = _
  rw [Function.update_of_ne File.noConfusion, Function.update_self, ha.2]
  rfl

theorem proceeds_reply (h : Sound P b g) (r : Reply) {t : List Instr}
    (hin : Inside P b (g.reply r) t) : Proceeds P b g (g.reply r) t :=
  ⟨sound_frame h rfl rfl rfl rfl, hin, rfl, rfl, rfl⟩

theorem proceeds_same (h : Sound P b g) {t : List Instr} (hin : Inside P b g t) :
    Proceeds P b g g t :=
  ⟨h, hin, rfl, rfl, rfl⟩

theorem proceeds_write (h : Sound P b g) {f : File} (hf : f ≠ .exe) {content : Option Bytes}
    {t : List Instr} (hin : Inside P b (g.write f content) t) :
    Proceeds P b g (g.write f content) t :=
  ⟨sound_write h hf content, hin, rfl, rfl, rfl⟩

theorem fail_proceeds (h : Sound P b g) (n : ℕ) (e : String) :
    Proceeds P b g (fail g n e).global ((fail g n e).resume [.release]) :=
  proceeds_same h (.removeTmp n (some e))

theorem receive_proceeds (h : Sound P b g) {o : Oracle} (n : ℕ) {m : Manifest} (stream : Bytes)
    (hm : AdmittedNow P g m) :
    Proceeds P b g (receive P o g n m stream).global
      ((receive P o g n m stream).resume [.release]) := by
  unfold receive
  cases o.error with
  | some e => exact fail_proceeds h n _
  | none =>
    dsimp only
    split_ifs with hd
    · exact proceeds_write h File.noConfusion (.chmod hm ⟨_, Function.update_self .., hd⟩)
    · exact proceeds_write h File.noConfusion (.removeTmp n _)

theorem runVersion_proceeds (h : Sound P b g) {o : Oracle} {n : ℕ} {m : Manifest}
    (hm : AdmittedNow P g m) (hr : Received P g n m) :
    Proceeds P b g (runVersion P o g n m).global ((runVersion P o g n m).resume [.release]) := by
  unfold runVersion
  cases o.error with
  | some e => exact fail_proceeds h n _
  | none =>
    dsimp only
    split_ifs with hreported hw
    · exact proceeds_same h (.removeOld hw hm hr)
    · exact proceeds_same h (.rename hm hr)
    · exact fail_proceeds h n _

theorem inside_step (h : Sound P b g) {ins : Instr} {rest : List Instr}
    (hin : Inside P b g (ins :: rest)) (hins : ins ≠ .release) {o : Oracle}
    {out : Outcome State Instr} (ho : atomic P o g ins = some out) :
    Proceeds P b g out.global (out.resume rest) := by
  cases hin with
  | executable stream hm =>
    simp only [atomic] at ho
    split at ho <;> cases ho
    · exact proceeds_reply h _ .release
    · exact proceeds_same h (.accept stream hm)
  | accept stream hm =>
    cases ho
    dsimp only [Outcome.resume_next]
    split_ifs
    · exact proceeds_same h (.createTemp stream hm)
    · exact proceeds_same h .release
  | createTemp stream hm =>
    simp only [atomic] at ho
    split at ho <;> cases ho
    · exact proceeds_same h (.respond _)
    · have hsound := sound_write h (f := .tmp g.nextTmp) File.noConfusion (some [])
      exact ⟨sound_frame hsound rfl rfl rfl rfl, .receive _ stream hm, rfl, rfl, rfl⟩
  | receive n stream hm =>
    cases ho
    exact receive_proceeds h n stream hm
  | chmod hm hr =>
    simp only [atomic] at ho
    split at ho <;> cases ho
    · exact fail_proceeds h _ _
    · exact proceeds_same h (.runVersion hm hr)
  | runVersion hm hr =>
    cases ho
    exact runVersion_proceeds h hm hr
  | rename hm hr =>
    cases ho
    exact withFile_cases (motive := fun out => Proceeds P b g out.global (out.resume [.release]))
      (fun data hdata => place_proceeds h hm hr hdata) (fun e => fail_proceeds h _ e)
  | removeOld hw hm hr =>
    cases ho
    dsimp only [Outcome.global_next, Outcome.resume_next]
    split_ifs
    · exact proceeds_write h File.noConfusion
        (.renameOld hw hm (received_write hr File.noConfusion none))
    · exact proceeds_same h (.renameOld hw hm hr)
  | renameOld hw hm hr =>
    cases ho
    refine withFile_cases (motive := fun out => Proceeds P b g out.global (out.resume [.release]))
      (fun data hdata => ?_) (fun e => fail_proceeds h _ e)
    obtain ⟨hsound, haway⟩ := sound_moveAway h hw hdata
    exact ⟨hsound, .renameNew hm (received_write (received_write hr File.noConfusion _)
      File.noConfusion none) haway, rfl, rfl, rfl⟩
  | renameNew hm hr ha =>
    cases ho
    exact withFile_cases (motive := fun out => Proceeds P b g out.global (out.resume [.release]))
      (fun data hdata => place_proceeds h hm hr hdata)
      (fun e => proceeds_same h (.restoreOld _ (some e) ha))
  | restoreOld n error ha =>
    cases ho
    exact withFile_cases
      (motive := fun out => Proceeds P b g out.global
        (out.resume [.removeTmp n, .respond error, .release]))
      (fun data _ => ⟨sound_restoreOld h ha, .removeTmp n error, rfl, rfl, rfl⟩)
      (fun e => proceeds_same h (.removeTmp n error))
  | removeTmp n error =>
    cases ho
    dsimp only [Outcome.global_next, Outcome.resume_next]
    split_ifs
    · exact proceeds_write h File.noConfusion (.respond error)
    · exact proceeds_same h (.respond error)
  | respond error =>
    cases ho
    exact proceeds_reply h _ .release
  | release => exact absurd rfl hins

end inside

section runs

theorem not_inside_of_outside {t : List Instr} (h : Outside P g t) : ¬ Inside P b g t := by
  cases h <;> rintro ⟨⟩

theorem inv_undisturbed {c : Config State Instr} {i : ℕ} {ins : Instr} (h : Inv P b c)
    (ht : c.tasks[i]? = some [ins]) (hout : Outside P c.global [ins])
    (hu : Undisturbed c.global g') (hflag : g'.updating = c.global.updating) {t : List Instr}
    (hnew : Outside P g' t) : Inv P b ⟨g', c.tasks.set i t⟩ := by
  refine ⟨sound_frame h.sound (by rw [hu.files]) hu.placed hu.starts hu.version, ?_⟩
  change Exclusive g'.updating _ _ _
  rw [hflag]
  exact h.exclusive.step_outside ht (not_inside_of_outside hout)
    (fun _ => outside_frame hu.disableUpdates hu.version) (fun _ => inside_frame hu) hnew

theorem inv_outside {c : Config State Instr} {i : ℕ} {ins : Instr} {rest : List Instr}
    (h : Inv P b c) (ht : c.tasks[i]? = some (ins :: rest))
    (hout : Outside P c.global (ins :: rest)) {o : Oracle} {out : Outcome State Instr}
    (ho : atomic P o c.global ins = some out) :
    Inv P b ⟨out.global, c.tasks.set i (out.resume rest)⟩ := by
  cases hout with
  | configure disable =>
    cases ho
    refine inv_undisturbed h ht (.configure disable) ?_ ?_ .done
    · exact ⟨rfl, rfl, rfl, rfl, rfl⟩
    · rfl
  | handleUpdate extraData stream =>
    simp only [atomic] at ho
    split at ho <;> cases ho
    · refine inv_undisturbed h ht (.handleUpdate ..) ?_ ?_ .done
      · exact ⟨rfl, rfl, rfl, rfl, rfl⟩
      · rfl
    · rename_i m hm
      exact inv_undisturbed h ht (.handleUpdate ..) ⟨rfl, rfl, rfl, rfl, rfl⟩ rfl
        (.compareAndSwap stream (admitted_of_checkUpdate hm))
  | compareAndSwap stream hm =>
    simp only [atomic] at ho
    split_ifs at ho with hflag <;> cases ho
    · refine inv_undisturbed h ht (.compareAndSwap stream hm) ?_ ?_ .done
      · exact ⟨rfl, rfl, rfl, rfl, rfl⟩
      · rfl
    · refine ⟨sound_frame h.sound rfl rfl rfl rfl, ?_⟩
      refine Exclusive.step_inside (fun j u _ hu => ?_) ht (.executable stream hm)
      have hfree := h.exclusive.free (Bool.eq_false_iff.2 hflag)
      refine outside_frame ?_ ?_ (hfree u (task_mem hu)) <;> rfl

theorem inv_run {c : Config State Instr} {i : ℕ} {ins : Instr} {rest : List Instr}
    (h : Inv P b c) (ht : c.tasks[i]? = some (ins :: rest)) {o : Oracle}
    {out : Outcome State Instr} (ho : atomic P o c.global ins = some out) :
    Inv P b ⟨out.global, c.tasks.set i (out.resume rest)⟩ := by
  rcases h.exclusive.outside_or_owner ht with hout | ⟨htaken, hin, hothers⟩
  · exact inv_outside h ht hout ho
  · by_cases hins : ins = .release
    · subst hins
      cases hin
      cases ho
      refine ⟨sound_frame h.sound rfl rfl rfl rfl, Exclusive.step_release (fun j u hj hu => ?_) .done⟩
      refine outside_frame ?_ ?_ (hothers j u hj hu) <;> rfl
    · have hp := inside_step h.sound hin hins ho
      refine ⟨hp.sound, ?_⟩
      change Exclusive out.global.updating _ _ _
      rw [hp.updating, htaken]
      exact Exclusive.step_inside
        (fun j u hj hu => outside_frame hp.disableUpdates hp.version (hothers j u hj hu)) ht hp.inside

/-- What is at `exe` when the agent starts is the binary of its last start, or the last
that `install` placed for it. -/
theorem sound_restart (h : Sound P b g) (hr : restart P g = some g') : Sound P b g' := by
  obtain ⟨data, hdata, rfl⟩ := Option.map_eq_some_iff.1 hr
  have hheld : data = held b g.placed := by
    rcases h.exe with ⟨-, hexe⟩ | hexe
    · rw [hdata] at hexe
      cases hexe
    · exact Option.some.inj (hdata.symm.trans hexe)
  obtain ⟨s, rest, hs, hv, hle, hsame, hmore⟩ := h.started
  refine ⟨?_, h.genuine, ?_, fun hsigned => ?_⟩
  · refine .inr ?_
    change Function.update g.files .old none .exe = some (held b g.placed)
    rw [Function.update_of_ne File.noConfusion, hdata, hheld]
  · exact ⟨_, _, rfl, rfl, le_rfl, fun _ => congrArg P.reports hheld.symm, fun hlt => absurd hlt (lt_irrefl _)⟩
  · have hlater : Later ⟨P.reports data, g.placed.length⟩ s := by
      rw [later_iff, hv]
      rcases hle.eq_or_lt with heq | hlt
      · exact .inl ⟨heq.symm, by rw [hheld, hsame heq]⟩
      · obtain ⟨p, hp, hrunning⟩ := hmore hlt
        obtain ⟨ps, hps⟩ := List.head?_eq_some_iff.1 hp
        have hgenuine := h.genuine p (hps ▸ List.mem_cons_self)
        have hreports : P.reports data = p.manifest.version := by
          rw [hheld, hps]
          exact hsigned _ _ hgenuine.admitted.verified hgenuine.described
        exact .inr ⟨hlt, by rw [hreports, ← hrunning]; exact hgenuine.admitted.newer⟩
    have hordered := h.ordered hsigned
    refine List.pairwise_cons.2 ⟨fun u hu => ?_, hordered⟩
    rw [hs] at hu hordered
    rcases List.mem_cons.1 hu with rfl | hu
    · exact hlater
    · exact later_trans hlater ((List.pairwise_cons.1 hordered).1 u hu)

theorem sound_initial (P : Platform) (b : Bytes) (disable : Bool) :
    Sound P b (initial P b disable) where
  exe := .inr rfl
  genuine _ hp := absurd hp List.not_mem_nil
  started := ⟨_, _, rfl, rfl, le_rfl, fun _ => rfl, fun h => absurd h (lt_irrefl _)⟩
  ordered _ := List.pairwise_singleton _ _

theorem outside_code (r : Request) : Outside P g (code r) := by
  cases r with
  | configure disable => exact .configure disable
  | openChannel extraData stream => exact .handleUpdate extraData stream

end runs

/-- Whatever channels a hub opens and whenever the agent restarts: `exe` holds the first
binary or the last that was placed there, unless a swap on Windows has moved it away; each
placed binary is that of a verified manifest for this platform, newer than the agent that
placed it, with updates enabled; and a later start never runs an older version. -/
theorem updates_go_forward (P : Platform) (b : Bytes) (disable : Bool)
    (acts : List (Action Oracle Request)) (c : Config State Instr)
    (he : Runs.exec (machine P).step (init P b disable) acts = some c) :
    (P.goos = "windows" ∧ c.global.files .exe = none ∨
      c.global.files .exe = some (held b c.global.placed)) ∧
      (∀ p ∈ c.global.placed, p.Genuine P) ∧
      (SignedReports P → c.global.starts.Pairwise Later) := by
  have h : Inv P b c := by
    refine Machine.invariant (machine P) (J := Inv P b) ?_ ?_ ?_ ?_ he
    · intro c r h
      exact ⟨h.sound, h.exclusive.start (outside_code r)⟩
    · intro c i ins rest o out h ht ho
      exact inv_run h ht ho
    · intro c g h hg
      obtain ⟨data, -, hflag⟩ := Option.map_eq_some_iff.1 hg
      refine ⟨sound_restart h.sound hg, ?_⟩
      subst hflag
      exact Exclusive.nil
    · exact ⟨sound_initial P b disable, Exclusive.nil⟩
  exact ⟨h.sound.exe, h.sound.genuine, h.sound.ordered⟩

def release : Manifest := ⟨"lotse-agent-linux-amd64", "1.1.0", 1, "02", ""⟩

def linux : Platform where
  goos := "linux"
  goarch := "amd64"
  exe := "/usr/local/bin/lotse-agent"
  unmarshal _ := some release
  decodeBase64 s := some (List.replicate (if s = "" then signatureSize else publicKeySize) 0)
  ed25519Verify _ msg _ := msg = release.text
  sha256 b := b
  quote s := s
  reports b := if hexEncode b = release.sha256 then release.version else "1.0.0"

theorem signedReports_linux : SignedReports linux := by
  intro m b hv hd
  obtain ⟨pub, sig, hsig⟩ := signed_of_verify hv
  have htext : m.text = release.text := of_decide_eq_true hsig
  have hrelease : release.message linux = .ok m.text := by
    rw [htext]
    decide +kernel
  obtain ⟨-, hversion, hsha⟩ := message_inj (message_of_verify hv) hrelease
  rw [hversion]
  exact if_pos (hd.2.trans hsha)

def steps (n : ℕ) : List (Action Oracle Request) :=
  List.replicate n (.run 0 ⟨none, "lotse-agent 1.1.0"⟩)

def updateRun : List (Action Oracle Request) :=
  [[.start (.openChannel [] [2, 7])], steps 12, [.restart, .restart]].flatten

theorem updates_go_forward_once : ∃ c,
    Runs.exec (machine linux).step (init linux [1] false) updateRun = some c ∧
      c.global.starts = [⟨"1.1.0", 1⟩, ⟨"1.1.0", 1⟩, ⟨"1.0.0", 0⟩] ∧
      (∀ p ∈ c.global.placed, p.Genuine linux) ∧ c.global.starts.Pairwise Later := by
  have hrun : (Runs.exec (machine linux).step (init linux [1] false) updateRun).map
      (fun c => c.global.starts) = some [⟨"1.1.0", 1⟩, ⟨"1.1.0", 1⟩, ⟨"1.0.0", 0⟩] := by
    decide +kernel
  obtain ⟨c, he, hstarts⟩ := Option.map_eq_some_iff.1 hrun
  obtain ⟨-, hgenuine, hordered⟩ := updates_go_forward linux [1] false updateRun c he
  exact ⟨c, he, hstarts, hgenuine, hordered signedReports_linux⟩

theorem restart_repeats_version : ∃ P b acts c, SignedReports P ∧
    Runs.exec (machine P).step (init P b false) acts = some c ∧
    (∀ s ∈ c.global.starts, (parseVersion s.version).isSome) ∧
    ¬ c.global.starts.Pairwise fun t s => newer t.version s.version := by
  refine ⟨linux, [1], [.restart], _, signedReports_linux, rfl, ?_⟩
  decide +kernel

end Lotse.Updates
