import Lotse.ScriptMachine

set_option autoImplicit false

namespace Lotse.Scripts
open RunOutput

def isFinal : Status → Bool
  | .done | .failed | .skipped | .canceled => true
  | .pending | .running => false

def Moves (a b : Status) : Prop := a = b ∨ a = .pending ∨ a = .running ∧ isFinal b = true

theorem Moves.refl (a : Status) : Moves a a := .inl rfl

theorem Moves.trans {a b c : Status} (hab : Moves a b) (hbc : Moves b c) : Moves a c := by
  rcases hab with rfl | rfl | ⟨rfl, hb⟩
  · exact hbc
  · exact .inr (.inl rfl)
  · rcases hbc with rfl | rfl | ⟨rfl, -⟩
    · exact .inr (.inr ⟨rfl, hb⟩)
    · cases hb
    · cases hb

namespace Pc

def Fits : Pc → Status → Prop
  | .select, s | .runOn, s | .lookup, s | .openChannel, s | .sendScript, s | .running, s =>
    s = .pending
  | .read, s | .await, s => s = .running
  | .closeChannel, s | .release, s | .wgDone, s | .finished, s => isFinal s = true

def hasSlot : Pc → Bool
  | .lookup | .openChannel | .sendScript | .running | .read | .await | .closeChannel => true
  | _ => false

def noSlot : Pc → Bool
  | .select | .wgDone | .finished => true
  | _ => false

def hasChannel : Pc → Bool
  | .sendScript | .running | .read | .await | .closeChannel => true
  | _ => false

theorem hasSlot_of_hasChannel {pc : Pc} (h : pc.hasChannel) : pc.hasSlot := by
  cases pc <;> first | rfl | cases h

end Pc

structure TargetOk (canceled : Bool) (t : Goroutine) (status : Status) : Prop where
  fits : t.pc.Fits status
  slot : t.pc.hasSlot → t.slot = true
  entered : t.pc = .runOn → t.slot = true ∨ canceled = true
  free : t.pc.noSlot → t.slot = false
  channel : t.channel = true → t.pc.hasChannel
  exit : ∀ code ∈ t.exit, code ∈ t.received
  done : status = .done → 0 ∈ t.received

structure GoEffect (g : State) (i : ℕ) (t : Goroutine) (s : Slot) (run : RunOutput.State)
    (t' : Goroutine) (s' : Slot) : Prop where
  slots : run.slots = g.run.slots.set i s'
  stored : run.stored = g.run.stored
  systemID : s'.target.systemID = s.target.systemID
  moves : Moves s.target.status s'.target.status
  ok : TargetOk g.canceled t' s'.target.status
  slot : t'.slot = true → t.slot = true ∨ g.gs.countP (·.slot) < runParallel

section goStep
variable {g : State} {i : ℕ} {t t' : Goroutine} {s : Slot} {o : Oracle} {run : RunOutput.State}

theorem go_finish {status : Status} {message : String} {code : Option ℤ}
    (hmoves : Moves s.target.status status) (hok : TargetOk g.canceled t' status)
    (hslot : t'.slot = true → t.slot = true) :
    GoEffect g i t s (update g.run i s status message code) t'
      { s with target := { s.target with status, error := message, exitCode := code } } :=
  ⟨rfl, rfl, rfl, hmoves, hok, fun h => .inl (hslot h)⟩

theorem go_stay (hs : g.run.slots[i]? = some s) (hok : TargetOk g.canceled t' s.target.status)
    (hslot : t'.slot = true → t.slot = true ∨ g.gs.countP (·.slot) < runParallel) :
    GoEffect g i t s g.run t' s := by
  obtain ⟨hi, rfl⟩ := List.getElem?_eq_some_iff.1 hs
  exact ⟨(List.set_getElem_self hi).symm, rfl, rfl, .refl _, hok, hslot⟩

theorem go_write (p : Utf8.Bytes) (hok : TargetOk g.canceled t' s.target.status)
    (hslot : t'.slot = true → t.slot = true) :
    GoEffect g i t s (write g.run i s p) t' (s.write p) := by
  have hslots : (write g.run i s p).slots = g.run.slots.set i (s.write p) := by
    unfold write
    dsimp only
    split_ifs <;> rfl
  have hstored : (write g.run i s p).stored = g.run.stored := by
    unfold write
    dsimp only
    split_ifs <;> rfl
  exact ⟨hslots, hstored, rfl, .refl _, hok, fun h => .inl (hslot h)⟩

theorem go_release {status : Status} {message : String} (ok : TargetOk g.canceled t s.target.status)
    (hpending : s.target.status = .pending) (hfinal : isFinal status = true)
    (hdone : status ≠ .done) (hclosed : t.pc.hasChannel = false) :
    GoEffect g i t s (update g.run i s status message none) { t with pc := .release }
      { s with target := { s.target with status, error := message, exitCode := none } } := by
  have hchannel : ¬ t.channel = true := fun h => by
    have := ok.channel h
    rw [hclosed] at this
    cases this
  exact go_finish (.inr (.inl hpending))
    ⟨hfinal, nofun, nofun, nofun, fun h => absurd h hchannel, ok.exit, fun h => absurd h hdone⟩ id

theorem go_closeChannel {status : Status} {message : String} {code : Option ℤ}
    (ok : TargetOk g.canceled t s.target.status) (hmoves : Moves s.target.status status)
    (hslot : t.pc.hasSlot) (hfinal : isFinal status = true)
    (hdone : status = .done → 0 ∈ t.received) :
    GoEffect g i t s (update g.run i s status message code) { t with pc := .closeChannel }
      { s with target := { s.target with status, error := message, exitCode := code } } :=
  go_finish hmoves ⟨hfinal, fun _ => ok.slot hslot, nofun, nofun, fun _ => rfl, ok.exit, hdone⟩ id

theorem isFinal_lostResult (canceled timedOut : Bool) :
    isFinal (lostResult canceled timedOut).1 = true ∧ (lostResult canceled timedOut).1 ≠ .done := by
  cases canceled <;> cases timedOut <;> decide

theorem goStep_effect (hs : g.run.slots[i]? = some s) (ok : TargetOk g.canceled t s.target.status)
    (h : goStep g i t s o = some (run, t')) : ∃ s', GoEffect g i t s run t' s' := by
  have hfits := ok.fits
  have hslot := ok.slot
  have hchannel := ok.channel
  cases hpc : t.pc <;> simp only [goStep, hpc] at h <;> rw [hpc] at hfits hslot hchannel
  case select =>
    split_ifs at h with htake hfree hcancel
    · cases h
      exact ⟨s, go_stay hs ⟨hfits, nofun, fun _ => .inl rfl, nofun, hchannel, ok.exit, ok.done⟩
        fun _ => .inr hfree⟩
    · cases h
      exact ⟨s, go_stay hs ⟨hfits, nofun, fun _ => .inr hcancel, nofun, hchannel, ok.exit, ok.done⟩
        .inl⟩
  case runOn =>
    split_ifs at h with hcancel
    · cases h
      exact ⟨_, go_release ok hfits rfl nofun (by rw [hpc]; rfl)⟩
    · cases h
      have htaken : t.slot = true := (ok.entered hpc).resolve_right hcancel
      exact ⟨s, go_stay hs ⟨hfits, fun _ => htaken, nofun, nofun, hchannel, ok.exit, ok.done⟩ .inl⟩
  case lookup =>
    split at h
    · cases h
      exact ⟨_, go_release ok hfits rfl nofun (by rw [hpc]; rfl)⟩
    · cases h
      exact ⟨s, go_stay hs
        ⟨hfits, fun _ => hslot rfl, nofun, nofun, hchannel, ok.exit, ok.done⟩ .inl⟩
  case openChannel =>
    split at h
    · cases h
      exact ⟨_, go_release ok hfits rfl nofun (by rw [hpc]; rfl)⟩
    · cases h
      exact ⟨s, go_stay hs
        ⟨hfits, fun _ => hslot rfl, nofun, nofun, fun _ => rfl, ok.exit, ok.done⟩ .inl⟩
  case sendScript =>
    split_ifs at h
    · cases h
      exact ⟨s, go_stay hs
        ⟨hfits, fun _ => hslot rfl, nofun, nofun, fun _ => rfl, ok.exit, ok.done⟩ .inl⟩
    · cases h
      exact ⟨_, go_closeChannel ok (.inr (.inl hfits)) (by rw [hpc]; rfl) rfl nofun⟩
  case running =>
    cases h
    exact ⟨_, go_finish (.inr (.inl hfits))
      ⟨rfl, fun _ => hslot rfl, nofun, nofun, fun _ => rfl, ok.exit, nofun⟩ id⟩
  case read =>
    cases h
    have hok : TargetOk g.canceled { t with pc := if o.eof then .await else .read }
        s.target.status := by
      cases o.eof <;>
        exact ⟨hfits, fun _ => hslot rfl, nofun, nofun, fun _ => rfl, ok.exit, ok.done⟩
    by_cases hchunk : o.chunk = []
    · rw [if_pos hchunk]
      exact ⟨s, go_stay hs hok .inl⟩
    · rw [if_neg hchunk]
      exact ⟨_, go_write _ hok id⟩
  case await =>
    have hmoves : ∀ {status}, isFinal status = true → Moves s.target.status status :=
      fun hf => .inr (.inr ⟨hfits, hf⟩)
    split_ifs at h
    · obtain ⟨code, hcode, h⟩ := Option.bind_eq_some_iff.1 h
      cases h
      have hfinal : isFinal (if code = 0 then .done else .failed) = true := by split_ifs <;> rfl
      refine ⟨_, go_closeChannel ok (hmoves hfinal) (by rw [hpc]; rfl) hfinal fun hdone => ?_⟩
      split_ifs at hdone with hzero
      exact ok.exit 0 (hzero ▸ hcode)
    · cases h
      obtain ⟨hfinal, hlost⟩ := isFinal_lostResult g.canceled t.timedOut
      exact ⟨_, go_closeChannel ok (hmoves hfinal) (by rw [hpc]; rfl) hfinal (absurd · hlost)⟩
  case closeChannel =>
    cases h
    exact ⟨s, go_stay hs ⟨hfits, nofun, nofun, nofun, nofun, ok.exit, ok.done⟩ .inl⟩
  case release =>
    cases h
    exact ⟨s, go_stay hs ⟨hfits, nofun, nofun, fun _ => rfl, hchannel, ok.exit, ok.done⟩ nofun⟩
  case wgDone =>
    cases h
    have hfree : t.slot = false := ok.free (by rw [hpc]; rfl)
    exact ⟨s, go_stay hs ⟨hfits, nofun, nofun, fun _ => hfree, hchannel, ok.exit, ok.done⟩ .inl⟩
  case finished => cases h

end goStep

structure Inv (ids : List ℤ) (g : State) : Prop where
  length : g.gs.length = g.run.slots.length
  targets : ∀ (i : ℕ) (t : Goroutine) (s : Slot), g.gs[i]? = some t → g.run.slots[i]? = some s →
    TargetOk g.canceled t s.target.status
  slots : g.gs.countP (·.slot) ≤ runParallel
  systems : g.run.slots.map (·.target.systemID) = ids
  waited : g.main ≠ .wait → ∀ t ∈ g.gs, t.pc = .finished
  stored : ∀ r ∈ g.run.stored,
    r.map (·.systemID) = ids ∧ ∀ target ∈ r, isFinal target.status = true
  saved : g.main = .close ∨ g.main = .ended → g.run.stored.isSome

structure Changes (g g' : State) (i : ℕ) (t t' : Goroutine) (s s' : Slot) : Prop where
  goroutine : g.gs[i]? = some t
  target : g.run.slots[i]? = some s
  effect : GoEffect g i t s g'.run t' s'
  finished : t.pc = .finished → t'.pc = .finished
  gs : g'.gs = g.gs.set i t'
  canceled : g'.canceled = g.canceled
  main : g'.main = g.main

section runs
variable {ids : List ℤ} {g g' : State} {i : ℕ} {t t' : Goroutine} {s s' : Slot} {a : Action}

theorem Inv.target_of_goroutine (inv : Inv ids g) (ht : g.gs[i]? = some t) :
    ∃ s, g.run.slots[i]? = some s ∧ TargetOk g.canceled t s.target.status := by
  obtain ⟨hi, -⟩ := List.getElem?_eq_some_iff.1 ht
  rw [inv.length] at hi
  exact ⟨_, List.getElem?_eq_getElem hi, inv.targets i t _ ht (List.getElem?_eq_getElem hi)⟩

theorem Inv.ok_of_mem (inv : Inv ids g) (ht : t ∈ g.gs) :
    ∃ status, TargetOk g.canceled t status := by
  obtain ⟨i, hi⟩ := List.mem_iff_getElem?.1 ht
  obtain ⟨s, -, ok⟩ := inv.target_of_goroutine hi
  exact ⟨_, ok⟩

theorem TargetOk.receive {c : Bool} {status : Status} (ok : TargetOk c t status) (code : ℕ) :
    TargetOk c (t.receive code) status := by
  refine ⟨ok.fits, ok.slot, ok.entered, ok.free, ok.channel, fun k hk => ?_,
    fun h => List.mem_cons_of_mem _ (ok.done h)⟩
  cases Option.some.inj hk
  cases hexit : t.exit with
  | none => exact List.mem_cons_self
  | some first => exact List.mem_cons_of_mem _ (ok.exit first hexit)

theorem changes_of_go {o : Oracle} (inv : Inv ids g) (h : step g (.go i o) = some g') :
    ∃ t t' s s', Changes g g' i t t' s s' := by
  rw [step] at h
  split at h
  · rename_i t s ht hs
    obtain ⟨⟨run, t'⟩, hgo, rfl⟩ := Option.map_eq_some_iff.1 h
    obtain ⟨s', he⟩ := goStep_effect hs (inv.targets i t s ht hs) hgo
    have hpc : t.pc = .finished → t'.pc = .finished := fun hpc => by
      simp only [goStep, hpc] at hgo
      cases hgo
    exact ⟨t, t', s, s', ht, hs, he, hpc, rfl, rfl, rfl⟩
  · cases h

theorem step_cases (inv : Inv ids g) (h : step g a = some g') :
    (∃ i t t' s s', Changes g g' i t t' s s') ∨ g' = { g with canceled := true } ∨
      (g.main = .wait ∧ (∀ t ∈ g.gs, t.pc = .finished) ∧ g' = { g with main := .finishRun }) ∨
      (g.main = .finishRun ∧
        g' = { g with main := .close, run := { g.run with stored := some (snapshot g.run) } }) ∨
      g.main = .close ∧ g' = { g with main := .ended, run := close g.run } := by
  cases a with
  | go i o =>
    exact .inl ⟨i, changes_of_go inv h⟩
  | exitStatus i code =>
    simp only [step] at h
    split at h
    · rename_i t ht
      split_ifs at h
      cases h
      obtain ⟨s, hs, ok⟩ := inv.target_of_goroutine ht
      exact .inl ⟨i, t, _, s, s, ht, hs, go_stay hs (ok.receive code) .inl, id, rfl, rfl, rfl⟩
    · cases h
  | deadline i =>
    simp only [step] at h
    split at h
    · rename_i t ht
      split_ifs at h
      cases h
      obtain ⟨s, hs, ok⟩ := inv.target_of_goroutine ht
      have hok : TargetOk g.canceled { t with timedOut := true } s.target.status :=
        ⟨ok.fits, ok.slot, ok.entered, ok.free, ok.channel, ok.exit, ok.done⟩
      exact .inl ⟨i, t, _, s, s, ht, hs, go_stay hs hok .inl, id, rfl, rfl, rfl⟩
    · cases h
  | cancel =>
    cases h
    exact .inr (.inl rfl)
  | main =>
    simp only [step] at h
    cases hmain : g.main with
    | wait =>
      simp only [hmain] at h
      split_ifs at h with hall
      cases h
      exact .inr (.inr (.inl ⟨rfl, hall, rfl⟩))
    | finishRun =>
      simp only [hmain] at h
      cases h
      exact .inr (.inr (.inr (.inl ⟨rfl, rfl⟩)))
    | close =>
      simp only [hmain] at h
      cases h
      exact .inr (.inr (.inr (.inr ⟨rfl, rfl⟩)))
    | ended =>
      simp only [hmain] at h
      cases h

theorem countP_slot_set (ht : g.gs[i]? = some t) (hslots : g.gs.countP (·.slot) ≤ runParallel)
    (h : t'.slot = true → t.slot = true ∨ g.gs.countP (·.slot) < runParallel) :
    (g.gs.set i t').countP (·.slot) ≤ runParallel := by
  obtain ⟨hi, rfl⟩ := List.getElem?_eq_some_iff.1 ht
  rw [List.countP_set hi]
  have hpos : g.gs[i].slot = true → 0 < g.gs.countP (·.slot) := fun h =>
    List.countP_pos_iff.2 ⟨_, List.getElem_mem hi, h⟩
  split_ifs with hold hnew hnew
  · have := hpos hold
    omega
  · omega
  · have := (h hnew).resolve_left hold
    omega
  · omega

theorem Inv.changes (inv : Inv ids g) (hc : Changes g g' i t t' s s') : Inv ids g' := by
  have he := hc.effect
  have hslots := he.slots
  refine ⟨?_, fun j u v hu hv => ?_, ?_, ?_, fun hm u hu => ?_, fun r hr => ?_, fun hm => ?_⟩
  · rw [hc.gs, hslots, List.length_set, List.length_set, inv.length]
  · rw [hc.gs] at hu
    rw [hslots] at hv
    rw [hc.canceled]
    by_cases hij : i = j
    · subst hij
      rw [List.getElem?_set_self (List.getElem?_eq_some_iff.1 hc.goroutine).1] at hu
      rw [List.getElem?_set_self (List.getElem?_eq_some_iff.1 hc.target).1] at hv
      cases hu
      cases hv
      exact he.ok
    · rw [List.getElem?_set_ne hij] at hu hv
      exact inv.targets j u v hu hv
  · rw [hc.gs]
    exact countP_slot_set hc.goroutine inv.slots he.slot
  · obtain ⟨hi, hget⟩ := List.getElem?_eq_some_iff.1 hc.target
    rw [hslots, List.map_set, he.systemID, ← hget, ← List.map_set, List.set_getElem_self hi]
    exact inv.systems
  · rw [hc.main] at hm
    rw [hc.gs] at hu
    rcases List.mem_or_eq_of_mem_set hu with hu | rfl
    · exact inv.waited hm u hu
    · exact hc.finished (inv.waited hm t (List.mem_of_getElem? hc.goroutine))
  · rw [he.stored] at hr
    exact inv.stored r hr
  · rw [hc.main] at hm
    rw [he.stored]
    exact inv.saved hm

theorem Inv.step (inv : Inv ids g) (h : step g a = some g') : Inv ids g' := by
  rcases step_cases inv h with ⟨i, t, t', s, s', hc⟩ | rfl | ⟨-, hall, rfl⟩ | ⟨hmain, rfl⟩ |
    ⟨hmain, rfl⟩
  · exact inv.changes hc
  · have htargets : ∀ (i : ℕ) (t : Goroutine) (s : Slot), g.gs[i]? = some t →
        g.run.slots[i]? = some s → TargetOk true t s.target.status := fun i t s ht hs =>
      let ok := inv.targets i t s ht hs
      ⟨ok.fits, ok.slot, fun _ => .inr rfl, ok.free, ok.channel, ok.exit, ok.done⟩
    exact ⟨inv.length, htargets, inv.slots, inv.systems, inv.waited, inv.stored, inv.saved⟩
  · exact ⟨inv.length, inv.targets, inv.slots, inv.systems, fun _ => hall, inv.stored, nofun⟩
  · -- every goroutine has ended, so that the statuses in the snapshot are final
    have hall : ∀ t ∈ g.gs, t.pc = .finished := inv.waited (by rw [hmain]; nofun)
    have hfinal : ∀ target ∈ snapshot g.run, isFinal target.status = true := by
      intro target htarget
      obtain ⟨s, hs, rfl⟩ := List.mem_map.1 htarget
      obtain ⟨i, hi⟩ := List.mem_iff_getElem?.1 hs
      obtain ⟨hlt, -⟩ := List.getElem?_eq_some_iff.1 hi
      rw [← inv.length] at hlt
      have ht := List.getElem?_eq_getElem hlt
      have hfits := (inv.targets i _ s ht hi).fits
      rw [hall _ (List.getElem_mem hlt)] at hfits
      exact hfits
    have hids : (snapshot g.run).map (·.systemID) = ids := by
      rw [← inv.systems, snapshot, List.map_map]
      rfl
    refine ⟨inv.length, inv.targets, inv.slots, inv.systems, fun _ => hall, fun r hr => ?_,
      fun _ => rfl⟩
    cases hr
    exact ⟨hids, hfinal⟩
  · exact ⟨inv.length, inv.targets, inv.slots, inv.systems,
      fun _ => inv.waited (by rw [hmain]; nofun), inv.stored, fun _ => inv.saved (.inl hmain)⟩

theorem Inv.init (shell : String) (systems : List ℤ) :
    Inv (systems.insertionSort (· ≤ ·)).dedup (init shell systems) := by
  refine ⟨List.length_map _, fun i t s ht hs => ?_, ?_, ?_, (absurd rfl ·), nofun, nofun⟩
  · obtain ⟨u, -, rfl⟩ := List.mem_map.1 (List.mem_of_getElem? ht)
    obtain ⟨id, -, rfl⟩ := List.mem_map.1 (List.mem_of_getElem? hs)
    exact ⟨rfl, nofun, nofun, fun _ => rfl, nofun, nofun, nofun⟩
  · have hzero : (Scripts.init shell systems).gs.countP (·.slot) = 0 :=
      List.countP_eq_zero.2 fun t ht => by
        obtain ⟨u, -, rfl⟩ := List.mem_map.1 ht
        nofun
    rw [hzero]
    exact Nat.zero_le _
  · simp only [Scripts.init, newRun, List.map_map]
    exact List.map_id _

theorem step_moves (inv : Inv ids g) (h : Scripts.step g a = some g') {j : ℕ}
    (hs : g.run.slots[j]? = some s) :
    ∃ s', g'.run.slots[j]? = some s' ∧ s'.target.systemID = s.target.systemID ∧
      Moves s.target.status s'.target.status := by
  rcases step_cases inv h with ⟨i, t, t', u, u', hc⟩ | rfl | ⟨-, -, rfl⟩ | ⟨-, rfl⟩ | ⟨-, rfl⟩
  · rw [hc.effect.slots]
    by_cases hij : i = j
    · subst hij
      cases hs.symm.trans hc.target
      exact ⟨u', List.getElem?_set_self (List.getElem?_eq_some_iff.1 hs).1, hc.effect.systemID,
        hc.effect.moves⟩
    · exact ⟨s, by rwa [List.getElem?_set_ne hij], rfl, .refl _⟩
  all_goals exact ⟨s, hs, rfl, .refl _⟩

theorem run_moves {acts : List Action} (inv : Inv ids g) (hs : g.run.slots[i]? = some s)
    (h : Runs.exec Scripts.step g acts = some g') :
    ∃ s', g'.run.slots[i]? = some s' ∧ s'.target.systemID = s.target.systemID ∧
      Moves s.target.status s'.target.status := by
  induction acts generalizing g s with
  | nil =>
    cases h
    exact ⟨s, hs, rfl, .refl _⟩
  | cons a acts ih =>
    obtain ⟨g₁, hstep, hrest⟩ := Runs.exec_cons_some h
    obtain ⟨s₁, hs₁, hid₁, hmoves₁⟩ := step_moves inv hstep hs
    obtain ⟨s', hs', hid, hmoves⟩ := ih (inv.step hstep) hs₁ hrest
    exact ⟨s', hs', hid.trans hid₁, hmoves₁.trans hmoves⟩

theorem Inv.open_channels (inv : Inv ids g) : g.gs.countP (·.channel) ≤ runParallel := by
  have hmono : g.gs.countP (·.channel) ≤ g.gs.countP (·.slot) :=
    List.countP_mono_left fun t ht hchannel => by
      obtain ⟨status, ok⟩ := inv.ok_of_mem ht
      exact ok.slot (Pc.hasSlot_of_hasChannel (ok.channel hchannel))
  exact hmono.trans inv.slots

def Pc.rank : Pc → ℕ
  | .select => 11
  | .runOn => 10
  | .lookup => 9
  | .openChannel => 8
  | .sendScript => 7
  | .running => 6
  | .read => 5
  | .await => 4
  | .closeChannel => 3
  | .release => 2
  | .wgDone => 1
  | .finished => 0

def State.rank (g : State) : ℕ := (g.gs.map (·.pc.rank)).sum

def gone : Oracle := ⟨true, none, none, false, [], true, false⟩

theorem goStep_gone (hpc : t.pc ≠ .finished)
    (hfree : t.pc = .select → g.gs.countP (·.slot) < runParallel) :
    ∃ out, goStep g i t s gone = some out ∧ out.2.pc.rank < t.pc.rank := by
  cases h : t.pc <;> simp only [goStep, h]
  case select =>
    rw [if_pos (hfree h)]
    exact ⟨_, rfl, by simp [Pc.rank]⟩
  case runOn => split_ifs <;> exact ⟨_, rfl, by simp [Pc.rank]⟩
  case finished => exact absurd h hpc
  all_goals exact ⟨_, rfl, by simp [Pc.rank, gone]⟩

theorem rank_set (ht : g.gs[i]? = some t) (h : t'.pc.rank < t.pc.rank) :
    ((g.gs.set i t').map (·.pc.rank)).sum < g.rank := by
  obtain ⟨hi, rfl⟩ := List.getElem?_eq_some_iff.1 ht
  have hold : g.rank = ((g.gs.set i g.gs[i]).map (·.pc.rank)).sum := by
    rw [List.set_getElem_self hi]
    rfl
  rw [hold, List.map_set, List.map_set, List.sum_set, List.sum_set, List.length_map, if_pos hi,
    if_pos hi]
  omega

/-- A goroutine past `select` can go on. If there is none, every slot is free. -/
theorem exists_enabled (inv : Inv ids g) (h : ∃ t ∈ g.gs, t.pc ≠ .finished) :
    ∃ (i : ℕ) (t : Goroutine), g.gs[i]? = some t ∧ t.pc ≠ .finished ∧
      (t.pc = .select → g.gs.countP (·.slot) < runParallel) := by
  by_cases hbusy : ∃ t ∈ g.gs, t.pc ≠ .finished ∧ t.pc ≠ .select
  · obtain ⟨t, ht, hpc, hselect⟩ := hbusy
    obtain ⟨i, hi⟩ := List.mem_iff_getElem?.1 ht
    exact ⟨i, t, hi, hpc, fun h => absurd h hselect⟩
  · have hfree : g.gs.countP (·.slot) = 0 := List.countP_eq_zero.2 fun t ht => by
      obtain ⟨status, ok⟩ := inv.ok_of_mem ht
      have hno : t.pc.noSlot := by
        by_contra hslot
        have hout : ∀ pc : Pc, pc.noSlot → t.pc ≠ pc := fun pc h hpc => hslot (hpc ▸ h)
        exact hbusy ⟨t, ht, hout .finished rfl, hout .select rfl⟩
      rw [ok.free hno]
      nofun
    obtain ⟨t, ht, hpc⟩ := h
    obtain ⟨i, hi⟩ := List.mem_iff_getElem?.1 ht
    exact ⟨i, t, hi, hpc, fun _ => by rw [hfree]; decide⟩

theorem can_store_finished (inv : Inv ids g) (hall : ∀ t ∈ g.gs, t.pc = .finished) :
    ∃ acts g', Runs.exec Scripts.step g acts = some g' ∧ g'.run.stored.isSome := by
  cases hmain : g.main with
  | wait =>
    have hwait : Scripts.step g .main = some { g with main := .finishRun } := by
      simp only [Scripts.step, hmain]
      rw [if_pos hall]
    exact ⟨[.main, .main], _, by rw [Runs.exec_cons, hwait]; rfl, rfl⟩
  | finishRun =>
    exact ⟨[.main], _, by simp only [Runs.exec_cons, Scripts.step, hmain]; rfl, rfl⟩
  | close => exact ⟨[], g, rfl, inv.saved (.inl hmain)⟩
  | ended => exact ⟨[], g, rfl, inv.saved (.inr hmain)⟩

theorem can_store (inv : Inv ids g) :
    ∃ acts g', Runs.exec Scripts.step g acts = some g' ∧ g'.run.stored.isSome := by
  induction hn : g.rank using Nat.strong_induction_on generalizing g with
  | _ n ih =>
    by_cases hall : ∀ t ∈ g.gs, t.pc = .finished
    · exact can_store_finished inv hall
    · push Not at hall
      obtain ⟨i, t, ht, hpc, hfree⟩ := exists_enabled inv hall
      obtain ⟨s, hs, -⟩ := inv.target_of_goroutine ht
      obtain ⟨out, hout, hrank⟩ := goStep_gone (i := i) (s := s) hpc hfree
      have hstep : Scripts.step g (.go i gone) = some (setGo { g with run := out.1 } i out.2) := by
        simp only [Scripts.step, ht, hs, hout, Option.map_some]
      have hlt : (setGo { g with run := out.1 } i out.2).rank < n := hn ▸ rank_set ht hrank
      obtain ⟨acts, g', hexec, hstored⟩ := ih _ hlt (inv.step hstep) rfl
      refine ⟨.go i gone :: acts, g', ?_, hstored⟩
      rw [Runs.exec_cons, hstep]
      exact hexec

theorem Inv.exec {shell : String} {systems : List ℤ} {acts : List Action}
    (h : Runs.exec Scripts.step (Scripts.init shell systems) acts = some g) :
    Inv (systems.insertionSort (· ≤ ·)).dedup g :=
  Runs.exec_invariant (fun _ _ _ inv hs => inv.step hs) (Inv.init shell systems) h

end runs

/-- In every state that a run over `systems` reaches, and with every continuation of it: a
status only moves forward, from pending through running to a final one that stays; at most
`runParallel` channels are open; what is stored has one entry for each requested system, all
of them final; a target that is done received exit status 0; and the run can still be
completed. -/
theorem targets_settle_once (shell : String) (systems : List ℤ) (acts later : List Action)
    (g g' : State) (hrun : Runs.exec step (init shell systems) acts = some g)
    (hlater : Runs.exec step g later = some g') :
    (∀ s ∈ (init shell systems).run.slots, s.target.status = .pending) ∧
    (∀ (i : ℕ) (s : Slot), g.run.slots[i]? = some s → ∃ s' : Slot, g'.run.slots[i]? = some s' ∧
      s'.target.systemID = s.target.systemID ∧ Moves s.target.status s'.target.status) ∧
    g.gs.countP (·.channel) ≤ runParallel ∧
    (∀ r : List RunTarget, g.run.stored = some r → (r.map (·.systemID)).Nodup ∧
      (∀ id, id ∈ r.map (·.systemID) ↔ id ∈ systems) ∧ ∀ t ∈ r, isFinal t.status = true) ∧
    (∀ (i : ℕ) (t : Goroutine) (s : Slot), g.gs[i]? = some t → g.run.slots[i]? = some s →
      s.target.status = .done → 0 ∈ t.received) ∧
    ∃ rest stored, Runs.exec step g rest = some stored ∧ stored.run.stored.isSome := by
  have inv := Inv.exec hrun
  refine ⟨fun s hs => ?_, fun i s hs => run_moves inv hs hlater, inv.open_channels,
    fun r hr => ?_, fun i t s ht hs => (inv.targets i t s ht hs).done, can_store inv⟩
  · obtain ⟨id, -, rfl⟩ := List.mem_map.1 hs
    rfl
  · obtain ⟨hids, hfinal⟩ := inv.stored r hr
    rw [hids]
    refine ⟨List.nodup_dedup _, fun id => ?_, hfinal⟩
    rw [List.mem_dedup, List.mem_insertionSort]

def canceledRun : List Action :=
  let found : Oracle := { gone with agent := some ⟨true, "linux"⟩, accepted := true, eof := false }
  [List.replicate 6 (.go 1 found), [.go 1 { found with chunk := [104, 105] }],
    List.replicate 3 (.go 0 gone), [.cancel, .exitStatus 1 0],
    [.go 1 { gone with takeExit := true }, .go 1 { gone with takeExit := true }],
    List.replicate 3 (.go 1 gone), List.replicate 2 (.go 0 gone)].flatten

theorem targets_settle_once_canceled :
    ∃ g, Runs.exec step (init "sh" [3, 1, 3]) (canceledRun ++ [.main, .main]) = some g ∧
      g.run.stored.map (·.map fun t => (t.systemID, t.status)) =
        some [(1, .skipped), (3, .done)] ∧
      g.gs.countP (·.channel) ≤ runParallel := by
  have h : (Runs.exec step (init "sh" [3, 1, 3]) (canceledRun ++ [.main, .main])).map
      (fun g => g.run.stored.map (·.map fun t => (t.systemID, t.status))) =
      some (some [(1, .skipped), (3, .done)]) := by decide +kernel
  obtain ⟨g, hg, hstored⟩ := Option.map_eq_some_iff.1 h
  exact ⟨g, hg, hstored, (targets_settle_once "sh" [3, 1, 3] _ [] g g hg rfl).2.2.1⟩

end Lotse.Scripts
