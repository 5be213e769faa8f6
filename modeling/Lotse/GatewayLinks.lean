import Lotse.GatewayMachine

set_option autoImplicit false

namespace Lotse.Gateway
open Alerts Samples Rows Tasks

def fingerprintOf (g : State) (id : ℕ+) : Option ℕ := (g.system id).map SystemRow.fingerprint

def drops (id : ℕ+) : Instr → Bool
  | .deleteRow x => x = id
  | .dropLink x => x = id
  | _ => false

def Dropping (cfg : Config State Instr) (id : ℕ+) : Prop := ∃ t ∈ cfg.tasks, ∃ ins ∈ t, drops id ins

instance (cfg : Config State Instr) (id : ℕ+) : Decidable (Dropping cfg id) :=
  inferInstanceAs (Decidable (∃ t ∈ cfg.tasks, ∃ ins ∈ t, drops id ins))

def deletes : Instr → Bool
  | .lookupSystem _ | .deleteRow _ | .dropLink _ | .resetAlerts .. => true
  | _ => false

def DeletionInProgress (cfg : Config State Instr) : Prop := ∃ t ∈ cfg.tasks, ∃ ins ∈ t, deletes ins

instance (cfg : Config State Instr) : Decidable (DeletionInProgress cfg) :=
  inferInstanceAs (Decidable (∃ t ∈ cfg.tasks, ∃ ins ∈ t, deletes ins))

/-- Every connection that has passed the re-check has the key of the system's row, and
so has the sender of every sample in the system's state. -/
structure Belong (g : State) : Prop where
  links : ∀ id ac, g.agents id = some ac → ac.checked = true →
    fingerprintOf g id = some ac.fingerprint
  samples : ∀ id ref, g.states id = some ref → ∀ s ∈ g.heap.getD ref [],
    fingerprintOf g id = some s.fingerprint

def LinksBelong (cfg : Config State Instr) : Prop := ¬ DeletionInProgress cfg → Belong cfg.global

/-- The condition on a step, in the state before it: where a connection passes the
re-check, because it finds a row or because its query fails, the row is that of the
connection's key, and where a sample finds its system connected, the row is that of the
sender's key; unless a deletion will still drop link and state. -/
def SameMachine (cfg : Config State Instr) : Instr → Prop
  | .recheck id cid _ ok => (query ok (cfg.global.system id)).passes →
      ∀ ac ∈ cfg.global.agents id, ac.cid = cid →
        fingerprintOf cfg.global id = some ac.fingerprint ∨ Dropping cfg id
  | .liveState id fingerprint _ _ => (cfg.global.agents id).isSome →
      fingerprintOf cfg.global id = some fingerprint ∨ Dropping cfg id
  | _ => True

instance (cfg : Config State Instr) : (ins : Instr) → Decidable (SameMachine cfg ins)
  | .recheck id cid _ ok => inferInstanceAs (Decidable (
      (query ok (cfg.global.system id)).passes → ∀ ac ∈ cfg.global.agents id, ac.cid = cid →
        fingerprintOf cfg.global id = some ac.fingerprint ∨ Dropping cfg id))
  | .liveState id fingerprint _ _ => inferInstanceAs (Decidable ((cfg.global.agents id).isSome →
      fingerprintOf cfg.global id = some fingerprint ∨ Dropping cfg id))
  | .admitAgent .. | .validEnrollToken .. | .createSystem .. | .register .. | .agentOnline _
  | .refuse .. | .serve .. | .record .. | .addSample .. | .evaluateMetrics .. | .unregister ..
  | .agentOffline _ | .lookupSystem _ | .deleteRow _ | .dropLink _ | .resetAlerts .. | .now
  | .systems _ | .evaluateOffline .. | .pruneAlerts | .tick _ => .isTrue trivial

/-- The invariant, for the systems a deletion will still drop and for the samples that
`record` will still add to a state. -/
structure LinkInv (g : State) (dropping : ℕ+ → Prop) (adding : ℕ → ℕ → Prop) : Prop where
  links : ∀ id ac, g.agents id = some ac → ac.checked = true →
    fingerprintOf g id = some ac.fingerprint ∨ dropping id
  samples : ∀ id ref, g.states id = some ref →
    (∃ fingerprint, fingerprintOf g id = some fingerprint ∧
      (∀ s ∈ g.heap.getD ref [], s.fingerprint = fingerprint) ∧
      ∀ f, adding ref f → f = fingerprint) ∨ dropping id
  live : ∀ id ref, g.states id = some ref → ref < g.heap.length
  adds : ∀ ref f, adding ref f → ref < g.heap.length
  inj : ∀ a b ref, g.states a = some ref → g.states b = some ref → a = b

section state
variable {g g' : State} {D D' : ℕ+ → Prop} {A A' : ℕ → ℕ → Prop} {id : ℕ+}

theorem LinkInv.mono (inv : LinkInv g D A) (hagents : g'.agents = g.agents)
    (hstates : g'.states = g.states) (hheap : g'.heap = g.heap) (hsystems : g'.systems = g.systems)
    (hD : ∀ id, D id → D' id) (hA : ∀ ref f, A' ref f → A ref f) : LinkInv g' D' A' := by
  have hfp : fingerprintOf g' = fingerprintOf g := by
    funext id
    rw [fingerprintOf, State.system, hsystems]
    rfl
  refine ⟨?_, ?_, ?_, ?_, ?_⟩
  · rw [hagents, hfp]
    exact fun id ac hac hc => (inv.links id ac hac hc).imp_right (hD id)
  · rw [hstates, hheap, hfp]
    intro id ref href
    rcases inv.samples id ref href with ⟨fp, hrow, hs, ha⟩ | hd
    · exact .inl ⟨fp, hrow, hs, fun f hf => ha f (hA ref f hf)⟩
    · exact .inr (hD id hd)
  · rw [hstates, hheap]
    exact inv.live
  · rw [hheap]
    exact fun ref f hf => inv.adds ref f (hA ref f hf)
  · rw [hstates]
    exact inv.inj

theorem linkInv_createSystem {row : SystemRow} (inv : LinkInv g D A) (hrow : g.system row.id = none) :
    LinkInv (g.createSystem row) D A := by
  have hfp : ∀ x fp, fingerprintOf g x = some fp → fingerprintOf (g.createSystem row) x = some fp := by
    intro x fp hx
    have hne : row.id ≠ x := by
      rintro rfl
      rw [fingerprintOf, hrow] at hx
      cases hx
    rw [fingerprintOf, State.system, State.createSystem, lookup_append_ne hne]
    exact hx
  refine ⟨fun x ac hac hc => (inv.links x ac hac hc).imp_left (hfp x _), ?_, inv.live, inv.adds, inv.inj⟩
  intro x ref href
  rcases inv.samples x ref href with ⟨fp, hx, hs, ha⟩ | hd
  · exact .inl ⟨fp, hfp x fp hx, hs, ha⟩
  · exact .inr hd

theorem linkInv_deleteRow (inv : LinkInv g D A) (hD : ∀ x, D x → D' x) (hid : D' id) :
    LinkInv (g.deleteRow id) D' A := by
  have hfp : ∀ x, x ≠ id → fingerprintOf (g.deleteRow id) x = fingerprintOf g x := by
    intro x hx
    rw [fingerprintOf, State.system, State.deleteRow, lookup_erase_ne hx]
    rfl
  refine ⟨?_, ?_, inv.live, inv.adds, inv.inj⟩
  · intro x ac hac hc
    by_cases hx : x = id
    · exact .inr (hx ▸ hid)
    · rw [hfp x hx]
      exact (inv.links x ac hac hc).imp_right (hD x)
  · intro x ref href
    by_cases hx : x = id
    · exact .inr (hx ▸ hid)
    · rw [hfp x hx]
      exact (inv.samples x ref href).imp_right (hD x)

theorem linkInv_agents {conn : Option AgentConn} (id : ℕ+) (inv : LinkInv g D A)
    (hconn : ∀ ac, conn = some ac → ac.checked = true →
      fingerprintOf g id = some ac.fingerprint ∨ D id) :
    LinkInv { g with agents := Function.update g.agents id conn } D A := by
  refine ⟨?_, inv.samples, inv.live, inv.adds, inv.inj⟩
  intro x ac hac hc
  simp only [Function.update_apply] at hac
  split_ifs at hac with hx
  · subst hx
    exact hconn ac hac hc
  · exact inv.links x ac hac hc

theorem linkInv_unlink (inv : LinkInv g D A) (cid : ℕ) : LinkInv (g.unlink id cid) D A := by
  unfold State.unlink
  split_ifs
  · exact linkInv_agents id inv (by rintro ac ⟨⟩)
  · exact inv

theorem linkInv_pass {cid : ℕ} (inv : LinkInv g D A)
    (hok : ∀ ac ∈ g.agents id, ac.cid = cid →
      fingerprintOf g id = some ac.fingerprint ∨ D id) : LinkInv (g.pass id cid) D A := by
  unfold State.pass
  split_ifs with hcur
  · refine linkInv_agents id inv ?_
    intro ac hac _
    obtain ⟨old, hold, rfl⟩ := Option.map_eq_some_iff.1 hac
    exact hok old hold (by simpa [State.current, hold] using hcur)
  · exact inv

theorem linkInv_dropLink (inv : LinkInv g D A) (hD : ∀ x, x ≠ id → D x → D' x) :
    LinkInv (g.dropLink id) D' A := by
  have hstate : ∀ x ref, (g.dropLink id).states x = some ref → x ≠ id ∧ g.states x = some ref := by
    intro x ref h
    simp only [State.dropLink, Function.update_apply] at h
    split_ifs at h with hx
    exact ⟨hx, h⟩
  refine ⟨?_, ?_, ?_, inv.adds, ?_⟩
  · intro x ac hac hc
    simp only [State.dropLink, Function.update_apply] at hac
    split_ifs at hac with hx
    exact (inv.links x ac hac hc).imp_right (hD x hx)
  · intro x ref href
    obtain ⟨hx, href⟩ := hstate x ref href
    exact (inv.samples x ref href).imp_right (hD x hx)
  · exact fun x ref href => inv.live x ref (hstate x ref href).2
  · exact fun a b ref ha hb => inv.inj a b ref (hstate a ref ha).2 (hstate b ref hb).2

theorem linkInv_liveState_old {ref fp : ℕ} (inv : LinkInv g D A) (href : g.states id = some ref)
    (hok : fingerprintOf g id = some fp ∨ D id)
    (hA : ∀ r f, A' r f → A r f ∨ (r = ref ∧ f = fp)) : LinkInv g D A' := by
  refine ⟨inv.links, ?_, inv.live, ?_, inv.inj⟩
  · intro x r hr
    rcases inv.samples x r hr with ⟨fp', hrow, hs, ha⟩ | hd
    · by_cases hx : x = id
      · subst hx
        refine hok.imp_left fun hfp => ⟨fp', hrow, hs, fun f hf => ?_⟩
        rcases hA r f hf with hf | ⟨-, rfl⟩
        · exact ha f hf
        · exact Option.some.inj (hfp.symm.trans hrow)
      · refine .inl ⟨fp', hrow, hs, fun f hf => ?_⟩
        rcases hA r f hf with hf | ⟨rfl, -⟩
        · exact ha f hf
        · exact absurd (inv.inj x id r hr href) hx
    · exact .inr hd
  · intro r f hf
    rcases hA r f hf with hf | ⟨rfl, -⟩
    · exact inv.adds r f hf
    · exact inv.live id r href

theorem linkInv_liveState_new {fp : ℕ} (inv : LinkInv g D A)
    (hok : fingerprintOf g id = some fp ∨ D id)
    (hA : ∀ r f, A' r f → A r f ∨ (r = g.heap.length ∧ f = fp)) :
    LinkInv { g with
      states := Function.update g.states id (some g.heap.length)
      heap := g.heap ++ [[]] } D A' := by
  have hlen : (g.heap ++ [[]]).length = g.heap.length + 1 := by simp
  have hstate : ∀ x r, Function.update g.states id (some g.heap.length) x = some r →
      (x = id ∧ r = g.heap.length) ∨ (x ≠ id ∧ g.states x = some r ∧ r < g.heap.length) := by
    intro x r h
    simp only [Function.update_apply] at h
    split_ifs at h with hx
    · exact .inl ⟨hx, (Option.some.inj h).symm⟩
    · exact .inr ⟨hx, h, inv.live x r h⟩
  refine ⟨inv.links, ?_, ?_, ?_, ?_⟩
  · intro x r hr
    rcases hstate x r hr with ⟨rfl, rfl⟩ | ⟨-, hr, hlt⟩
    · refine hok.imp_left fun hfp => ⟨fp, hfp, by simp, fun f hf => ?_⟩
      rcases hA _ f hf with hf | ⟨-, rfl⟩
      · exact absurd (inv.adds _ f hf) (lt_irrefl _)
      · rfl
    · rcases inv.samples x r hr with ⟨fp', hrow, hs, ha⟩ | hd
      · refine .inl ⟨fp', hrow, ?_, fun f hf => ?_⟩
        · rwa [List.getD_eq_getElem?_getD, List.getElem?_append_left hlt, ← List.getD_eq_getElem?_getD]
        · rcases hA r f hf with hf | ⟨rfl, -⟩
          · exact ha f hf
          · exact absurd hlt (lt_irrefl _)
      · exact .inr hd
  · intro x r hr
    rw [hlen]
    rcases hstate x r hr with ⟨-, rfl⟩ | ⟨-, -, hlt⟩ <;> omega
  · intro r f hf
    rw [hlen]
    rcases hA r f hf with hf | ⟨rfl, -⟩
    · have := inv.adds r f hf
      omega
    · omega
  · intro a b r ha hb
    rcases hstate a r ha with ⟨rfl, rfl⟩ | ⟨-, ha, hlt⟩ <;>
      rcases hstate b _ hb with ⟨rfl, hr⟩ | ⟨-, hb, hlt'⟩
    · rfl
    · omega
    · omega
    · exact inv.inj a b r ha hb

theorem linkInv_liveState {fp : ℕ} (inv : LinkInv g D A) (hok : fingerprintOf g id = some fp ∨ D id)
    (hA : ∀ r f, A' r f → A r f ∨ (r = (g.liveState id).2 ∧ f = fp)) :
    LinkInv (g.liveState id).1 D A' := by
  unfold State.liveState at hA ⊢
  split at hA
  · rename_i ref href
    exact linkInv_liveState_old inv href hok hA
  · exact linkInv_liveState_new inv hok hA

theorem linkInv_addSample {ref : ℕ} {s : Sample} (inv : LinkInv g D A) (hs : A ref s.fingerprint)
    (hA : ∀ r f, A' r f → A r f) : LinkInv (g.addSample ref s) D A' := by
  have hlen : (g.addSample ref s).heap.length = g.heap.length := List.length_modify ..
  have hmem : ∀ r, ∀ x ∈ (g.addSample ref s).heap.getD r [], x ∈ g.heap.getD r [] ∨ (r = ref ∧ x = s) := by
    intro r x hx
    simp only [State.addSample, List.getD_eq_getElem?_getD, List.getElem?_modify] at hx ⊢
    by_cases hr : ref = r
    · subst hr
      cases hg : g.heap[ref]? with
      | none => simp [hg] at hx
      | some xs =>
        simpa [hg] using hx
    · simp only [if_neg hr] at hx
      left
      simpa using hx
  refine ⟨inv.links, ?_, ?_, ?_, inv.inj⟩
  · intro x r hr
    rcases inv.samples x r hr with ⟨fp, hrow, hsame, ha⟩ | hd
    · refine .inl ⟨fp, hrow, fun y hy => ?_, fun f hf => ha f (hA r f hf)⟩
      rcases hmem r y hy with hy | ⟨rfl, rfl⟩
      · exact hsame y hy
      · exact ha _ hs
    · exact .inr hd
  · rw [hlen]
    exact inv.live
  · rw [hlen]
    exact fun r f hf => inv.adds r f (hA r f hf)

end state

def Adding (cfg : Config State Instr) (ref fingerprint : ℕ) : Prop :=
  ∃ t ∈ cfg.tasks, ∃ m, .addSample ref fingerprint m ∈ t

section step
variable {cfg : Config State Instr} {i : ℕ} {ins : Instr} {rest : List Instr} {o : Oracle}

def after (cfg : Config State Instr) (i : ℕ) (ins : Instr) (rest : List Instr) (o : Oracle) :
    Config State Instr :=
  ⟨(atomic o cfg.global ins).1, cfg.tasks.set i ((atomic o cfg.global ins).2 ++ rest)⟩

theorem dropping_kept {id : ℕ+} (hi : cfg.tasks[i]? = some (ins :: rest)) (hne : ins ≠ .dropLink id)
    (hd : Dropping cfg id) : Dropping (after cfg i ins rest o) id := by
  obtain ⟨t, ht, x, hx, hdrop⟩ := hd
  rcases mem_task_set hi ht with rfl | ht
  · rcases List.mem_cons.1 hx with rfl | hx
    · refine ⟨_, new_mem_set hi, .dropLink id, ?_, by simp [drops]⟩
      cases x <;> simp only [drops, Bool.false_eq_true, decide_eq_true_eq] at hdrop
      · subst hdrop
        simp [atomic]
      · exact absurd (by rw [hdrop]) hne
    · exact ⟨_, new_mem_set hi, x, List.mem_append_right _ hx, hdrop⟩
  · exact ⟨t, ht, x, hx, hdrop⟩

theorem adding_back {ref f : ℕ} (hi : cfg.tasks[i]? = some (ins :: rest))
    (ha : Adding (after cfg i ins rest o) ref f) : Adding cfg ref f ∨
    ∃ id m now, ins = .liveState id f m now ∧ ¬ (cfg.global.agents id).isNone ∧
      ref = (cfg.global.liveState id).2 := by
  obtain ⟨t, ht, m, hm⟩ := ha
  rcases mem_set_task ht with rfl | ht
  · rcases List.mem_append.1 hm with hm | hm
    · right
      cases ins with
      | liveState id fingerprint m' now =>
        simp only [atomic] at hm
        split_ifs at hm with hnone
        · cases hm
        · simp only [List.mem_cons, Instr.addSample.injEq, reduceCtorEq, List.not_mem_nil,
            or_false] at hm
          obtain ⟨rfl, rfl, rfl⟩ := hm
          exact ⟨id, m, now, rfl, hnone, rfl⟩
      | admitAgent | serve =>
        simp only [atomic] at hm
        split at hm <;> simp at hm
      | validEnrollToken | createSystem | recheck | unregister | lookupSystem =>
        simp only [atomic] at hm
        split_ifs at hm <;> simp at hm
      | _ => simp [atomic] at hm
    · exact .inl ⟨_, task_mem hi, m, List.mem_cons_of_mem _ hm⟩
  · exact .inl ⟨t, ht, m, hm⟩

theorem linkInv_frame (hi : cfg.tasks[i]? = some (ins :: rest)) (hdrop : ∀ x, ins ≠ .dropLink x)
    (hlive : ∀ x f m t, ins ≠ .liveState x f m t)
    (inv : LinkInv (atomic o cfg.global ins).1 (Dropping cfg) (Adding cfg)) :
    LinkInv (after cfg i ins rest o).global (Dropping (after cfg i ins rest o))
      (Adding (after cfg i ins rest o)) := by
  refine inv.mono rfl rfl rfl rfl (fun x => dropping_kept hi (hdrop x)) fun ref f h => ?_
  rcases adding_back hi h with h | ⟨id, m, now, he, -⟩
  · exact h
  · exact absurd he (hlive id f m now)

theorem linkInv_step_liveState {id : ℕ+} {fp : ℕ} {m : Metrics} {now : ℤ}
    (inv : LinkInv cfg.global (Dropping cfg) (Adding cfg)) (hok : SameMachine cfg (.liveState id fp m now))
    (hi : cfg.tasks[i]? = some (.liveState id fp m now :: rest)) :
    LinkInv (after cfg i (.liveState id fp m now) rest o).global
      (Dropping (after cfg i (.liveState id fp m now) rest o))
      (Adding (after cfg i (.liveState id fp m now) rest o)) := by
  have hD : ∀ x, Dropping cfg x → Dropping (after cfg i (.liveState id fp m now) rest o) x :=
    fun x => dropping_kept hi Instr.noConfusion
  have hglobal : (after cfg i (.liveState id fp m now) rest o).global =
      if (cfg.global.agents id).isNone then cfg.global else (cfg.global.liveState id).1 := by
    simp only [after, atomic]
    split_ifs <;> rfl
  rw [hglobal]
  split_ifs with hnone
  · refine inv.mono rfl rfl rfl rfl hD fun ref f h => ?_
    rcases adding_back hi h with h | ⟨x, m', t, he, hx, -⟩
    · exact h
    · cases he
      exact absurd hnone hx
  · have hrow := hok (by simpa [Option.isSome_iff_ne_none] using hnone)
    have hadd : ∀ ref f, Adding (after cfg i (.liveState id fp m now) rest o) ref f →
        Adding cfg ref f ∨ (ref = (cfg.global.liveState id).2 ∧ f = fp) := by
      intro ref f h
      rcases adding_back hi h with h | ⟨x, m', t, he, -, hr⟩
      · exact .inl h
      · cases he
        exact .inr ⟨hr, rfl⟩
    exact (linkInv_liveState inv hrow hadd).mono rfl rfl rfl rfl hD fun _ _ h => h

theorem linkInv_step (inv : LinkInv cfg.global (Dropping cfg) (Adding cfg))
    (hok : SameMachine cfg ins) (hi : cfg.tasks[i]? = some (ins :: rest)) :
    LinkInv (after cfg i ins rest o).global (Dropping (after cfg i ins rest o))
      (Adding (after cfg i ins rest o)) := by
  cases ins with
  | liveState id fingerprint m now => exact linkInv_step_liveState inv hok hi
  | dropLink id =>
    refine LinkInv.mono (linkInv_dropLink inv fun x hx => ?_) rfl rfl rfl rfl (fun _ h => h)
      fun ref f h => (adding_back hi h).resolve_right (by rintro ⟨x, m, t, he, -⟩; cases he)
    exact dropping_kept hi fun he => hx (by cases he; rfl)
  | addSample ref fingerprint m =>
    refine linkInv_frame hi (fun _ => Instr.noConfusion) (fun _ _ _ _ => Instr.noConfusion) ?_
    exact linkInv_addSample inv ⟨_, task_mem hi, m, List.mem_cons_self⟩ fun _ _ h => h
  | deleteRow id =>
    refine linkInv_frame hi (fun _ => Instr.noConfusion) (fun _ _ _ _ => Instr.noConfusion) ?_
    exact linkInv_deleteRow inv (fun _ h => h) ⟨_, task_mem hi, _, List.mem_cons_self, by simp [drops]⟩
  | register id fingerprint =>
    refine linkInv_frame hi (fun _ => Instr.noConfusion) (fun _ _ _ _ => Instr.noConfusion) ?_
    refine LinkInv.mono (linkInv_agents id inv ?_) rfl rfl rfl rfl (fun _ h => h) fun _ _ h => h
    · rintro ac ⟨⟩ hc
      cases hc
  | recheck id cid fingerprint ok =>
    refine linkInv_frame hi (fun _ => Instr.noConfusion) (fun _ _ _ _ => Instr.noConfusion) ?_
    simp only [atomic]
    split_ifs with hpass
    · exact linkInv_pass inv (hok hpass)
    · exact inv
  | createSystem fingerprint name =>
    refine linkInv_frame hi (fun _ => Instr.noConfusion) (fun _ _ _ _ => Instr.noConfusion) ?_
    simp only [atomic]
    split_ifs
    · exact inv
    · exact linkInv_createSystem inv (lookup_nextPos _ _)
  | refuse id cid | unregister id cid =>
    refine linkInv_frame hi (fun _ => Instr.noConfusion) (fun _ _ _ _ => Instr.noConfusion) ?_
    exact linkInv_unlink inv cid
  | admitAgent | serve =>
    refine linkInv_frame hi (fun _ => Instr.noConfusion) (fun _ _ _ _ => Instr.noConfusion) ?_
    simp only [atomic]
    split <;> exact inv
  | _ =>
    refine linkInv_frame hi (fun _ => Instr.noConfusion) (fun _ _ _ _ => Instr.noConfusion) ?_
    exact inv.mono rfl rfl rfl rfl (fun _ h => h) fun _ _ h => h

end step

theorem linkInv_start {cfg : Config State Instr} (inv : LinkInv cfg.global (Dropping cfg) (Adding cfg))
    (r : Request) : LinkInv cfg.global (Dropping ⟨cfg.global, cfg.tasks ++ [code r]⟩)
      (Adding ⟨cfg.global, cfg.tasks ++ [code r]⟩) := by
  refine inv.mono rfl rfl rfl rfl ?_ ?_
  · rintro id ⟨t, ht, x, hx, hd⟩
    exact ⟨t, List.mem_append_left _ ht, x, hx, hd⟩
  · rintro ref f ⟨t, ht, m, hm⟩
    rcases List.mem_append.1 ht with ht | ht
    · exact ⟨t, ht, m, hm⟩
    · rw [List.mem_singleton.1 ht] at hm
      cases r <;> simp [code] at hm

/-- In every run in which the connections that pass the re-check and the samples find the row
of their own machine, links and samples belong to the system of the row. -/
theorem links_belong {stored : RuleTable} {now : ℤ} {acts : List (Action Oracle Request)}
    {cfg : Config State Instr}
    (hm : Runs.Meets machine.step (Machine.Guard SameMachine) (init stored now) acts)
    (he : Runs.exec machine.step (init stored now) acts = some cfg) : LinksBelong cfg := by
  have empty : ∀ g : State, (∀ id, g.agents id = none) → (∀ id, g.states id = none) →
      LinkInv g (Dropping ⟨g, []⟩) (Adding ⟨g, []⟩) := by
    intro g hagents hstates
    refine ⟨?_, ?_, ?_, ?_, ?_⟩
    · intro id ac h
      cases (hagents id).symm.trans h
    · intro id ref h
      cases (hstates id).symm.trans h
    · intro id ref h
      cases (hstates id).symm.trans h
    · rintro ref f ⟨t, ht, -⟩
      cases ht
    · intro a b ref h
      cases (hstates a).symm.trans h
  have inv : LinkInv cfg.global (Dropping cfg) (Adding cfg) := by
    refine machine.guarded_invariant (J := fun c => LinkInv c.global (Dropping c) (Adding c))
      (fun _ r h => linkInv_start h r) ?_ ?_ ?_ hm he
    · intro c i ins rest o out inv hok hi ho
      cases ho
      exact linkInv_step inv hok hi
    · rintro c g - ⟨⟩
      exact empty _ (fun _ => rfl) fun _ => rfl
    · exact empty _ (fun _ => rfl) fun _ => rfl
  intro idle
  have settled : ∀ id, ¬ Dropping cfg id := by
    rintro id ⟨t, ht, x, hx, hd⟩
    refine idle ⟨t, ht, x, hx, ?_⟩
    cases x <;> first | rfl | cases hd
  refine ⟨fun id ac hac hc => (inv.links id ac hac hc).resolve_right (settled id), ?_⟩
  intro id ref href s hs
  obtain ⟨fp, hrow, hsame, -⟩ := (inv.samples id ref href).resolve_right (settled id)
  rw [hsame s hs]
  exact hrow

def noRules : RuleTable := ⟨[], List.nodup_nil⟩

theorem links_belong_reused_id : ∃ acts cfg,
    Runs.Meets machine.step (Machine.Guard SameMachine) (init noRules 0) acts ∧
    Runs.exec machine.step (init noRules 0) acts = some cfg ∧
    cfg.global.agents 1 = some ⟨1, 8, true⟩ ∧ cfg.global.states 1 = some 1 ∧ LinksBelong cfg := by
  let acts := .start (.serveAgent 7 "web") :: steps 0 11 ++ .start (.deleteSystem 1) ::
    steps 1 4 ++ .start (.serveAgent 8 "db") :: steps 2 11
  have hm : Runs.Meets machine.step (Machine.Guard SameMachine) (init noRules 0) acts := by decide
  exact ⟨acts, _, hm, rfl, by decide, by decide, links_belong hm rfl⟩

/-- The system of key 7 is deleted after its admission, and key 8 enrolls under the same
id before key 7 is registered: its re-check finds a row, but not its own. -/
theorem link_of_another_machine : ∃ acts cfg,
    Runs.exec machine.step (init noRules 0) acts = some cfg ∧ ¬ LinksBelong cfg := by
  refine ⟨.start (.serveAgent 7 "web") :: steps 0 3 ++ .start (.deleteSystem 1) ::
    steps 1 4 ++ .start (.serveAgent 8 "db") :: steps 2 3 ++ steps 0 3, _, rfl, ?_⟩
  intro h
  have hrow := (h (by decide)).links 1 ⟨0, 7, true⟩ rfl rfl
  exact absurd hrow (by decide)

end Lotse.Gateway
