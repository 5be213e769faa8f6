import Lotse.RuleMachine

set_option autoImplicit false

namespace Lotse.Rules
open Alerts Rows Tasks

def Current (g : State) : Prop := g.alerts.rules = g.db.rules.filter AlertRule.enabled

instance (g : State) : Decidable (Current g) := inferInstanceAs (Decidable (_ = _))

def EvaluatesStored (g : State) : Prop :=
  (∀ system m now, ∀ c ∈ metricCalls g.alerts system m now, c.rule ∈ g.db.rules) ∧
    ∀ systems online now, ∀ c ∈ offlineCalls g.alerts systems online now, c.rule ∈ g.db.rules

theorem Current.evaluates {g : State} (h : Current g) : EvaluatesStored g := by
  have stored : ∀ r ∈ g.alerts.rules, r ∈ g.db.rules := by
    intro r hr
    rw [h] at hr
    exact List.mem_of_mem_filter hr
  refine ⟨fun system m now c hc => ?_, fun systems online now c hc => ?_⟩
  · obtain ⟨r, hr, hcall⟩ := List.mem_filterMap.1 hc
    split_ifs at hcall
    obtain ⟨v, -, rfl⟩ := Option.map_eq_some_iff.1 hcall
    exact stored r hr
  · obtain ⟨r, hr, hcall⟩ := List.mem_flatMap.1 hc
    split_ifs at hcall
    · cases hcall
    · obtain ⟨s, -, rfl⟩ := List.mem_map.1 hcall
      exact stored r hr

def Instr.reloads : Instr → Bool
  | .resetRule _ | .detach .. | .deleteNotifier _ | .reload => true
  | _ => false

def Reloading (ts : List (List Instr)) : Prop := ∃ t ∈ ts, ∃ j ∈ t, j.reloads

instance (ts : List (List Instr)) : Decidable (Reloading ts) :=
  inferInstanceAs (Decidable (∃ t ∈ ts, ∃ j ∈ t, j.reloads))

/-- The condition on a step, in the state before it: a deleted system has no enabled rule
of its own, or some handler will read the rules again; and the statements of
`deleteNotifier` find the rows they change. -/
def Reloaded (cfg : Config State Instr) : Instr → Prop
  | .deleteSystem id => (∀ r ∈ cfg.global.db.rules, r.systemID = some id → r.enabled = false) ∨
      Reloading cfg.tasks
  | .detach id (r :: _) => id ∈ r.notifiers →
      (∃ q ∈ cfg.global.db.rules, q.id = r.id) ∧ ∀ s ∈ r.systemID, s ∈ cfg.global.db.systems
  | .deleteNotifier id => id ∈ cfg.global.db.notifiers
  | _ => True

instance (cfg : Config State Instr) : (ins : Instr) → Decidable (Reloaded cfg ins)
  | .deleteSystem id => inferInstanceAs (Decidable
      ((∀ r ∈ cfg.global.db.rules, r.systemID = some id → r.enabled = false) ∨ Reloading cfg.tasks))
  | .detach id (r :: _) => inferInstanceAs (Decidable (id ∈ r.notifiers →
      (∃ q ∈ cfg.global.db.rules, q.id = r.id) ∧ ∀ s ∈ r.systemID, s ∈ cfg.global.db.systems))
  | .deleteNotifier id => inferInstanceAs (Decidable (id ∈ cfg.global.db.notifiers))
  | .detach _ [] | .findRule .. | .validateRule .. | .findSystem .. | .findNotifiers ..
  | .saveRule _ | .findDeleted _ | .deleteRule _ | .resetRule _ | .findNotifier _ | .readRules _
  | .reload | .lookupSystem _ | .resetSystem _ | .createSystem | .tick _ => .isTrue trivial

theorem reloading_of_ahead {ts : List (List Instr)} {j : Instr} (h : Ahead ts j) (hj : j.reloads) :
    Reloading ts := by
  obtain ⟨t, ht, hmem⟩ := h
  exact ⟨t, ht, j, hmem, hj⟩

theorem Reloading.ahead {ts : List (List Instr)} (h : Reloading ts) :
    ∃ j : Instr, j.reloads ∧ Ahead ts j := by
  obtain ⟨t, ht, j, hmem, hj⟩ := h
  exact ⟨j, hj, t, ht, hmem⟩

def Instr.quiet : Instr → Bool
  | .saveRule _ | .deleteRule _ | .resetRule _ | .detach .. | .deleteNotifier _ | .reload
  | .deleteSystem _ => false
  | _ => true

theorem reloads_of_quiet {ins : Instr} (h : ins.quiet) : ins.reloads = false := by
  cases ins <;> first | rfl | cases h

theorem quiet_frame (g : State) {ins : Instr} (h : ins.quiet) :
    (atomic g ins).global.db.rules = g.db.rules ∧
      (atomic g ins).global.alerts.rules = g.alerts.rules := by
  cases ins with
  | findRule | validateRule | findSystem | findDeleted | findNotifier | lookupSystem =>
    simp only [atomic]
    split <;> exact ⟨rfl, rfl⟩
  | findNotifiers d notifiers =>
    cases notifiers with
    | nil => exact ⟨rfl, rfl⟩
    | cons =>
      simp only [atomic]
      split <;> exact ⟨rfl, rfl⟩
  | readRules | resetSystem | createSystem | tick => exact ⟨rfl, rfl⟩
  | _ => cases h

section step
variable {cfg : Config State Instr} {i : ℕ} {ins : Instr} {rest : List Instr}

theorem reloading_kept (hi : cfg.tasks[i]? = some (ins :: rest)) (hins : ins.reloads = false)
    (h : Reloading cfg.tasks) :
    Reloading (cfg.tasks.set i ((atomic cfg.global ins).resume rest)) := by
  obtain ⟨j, hj, hahead⟩ := h.ahead
  refine reloading_of_ahead (ahead_kept hi (rest_subset_resume _ _ _) ?_ hahead) hj
  rintro rfl
  cases hj.symm.trans hins

theorem settled_step (hi : cfg.tasks[i]? = some (ins :: rest)) (hins : ins.reloads = false)
    (h : Current cfg.global ∨ Reloading cfg.tasks)
    (hdb : (atomic cfg.global ins).global.db.rules.filter AlertRule.enabled =
      cfg.global.db.rules.filter AlertRule.enabled)
    (halerts : (atomic cfg.global ins).global.alerts.rules = cfg.global.alerts.rules) :
    Current (atomic cfg.global ins).global ∨
      Reloading (cfg.tasks.set i ((atomic cfg.global ins).resume rest)) := by
  refine h.imp (fun hc => ?_) (reloading_kept hi hins)
  unfold Current
  rw [hdb, halerts]
  exact hc

theorem code_reloads (hi : cfg.tasks[i]? = some (ins :: rest)) (j : Instr) (hj : j.reloads)
    (hcode : j ∈ (atomic cfg.global ins).code) :
    Reloading (cfg.tasks.set i ((atomic cfg.global ins).resume rest)) :=
  reloading_of_ahead (ahead_code hi hcode) hj

theorem failed_step (hi : cfg.tasks[i]? = some (ins :: rest)) (hins : ins.reloads = false)
    (h : Current cfg.global ∨ Reloading cfg.tasks)
    (hfail : atomic cfg.global ins = internalError cfg.global) :
    Current (atomic cfg.global ins).global ∨
      Reloading (cfg.tasks.set i ((atomic cfg.global ins).resume rest)) :=
  settled_step hi hins h (by rw [hfail]; rfl) (by rw [hfail]; rfl)

theorem current_step (h : Current cfg.global ∨ Reloading cfg.tasks) (hok : Reloaded cfg ins)
    (hi : cfg.tasks[i]? = some (ins :: rest)) :
    Current (atomic cfg.global ins).global ∨
      Reloading (cfg.tasks.set i ((atomic cfg.global ins).resume rest)) := by
  by_cases hquiet : ins.quiet
  · obtain ⟨hdb, halerts⟩ := quiet_frame cfg.global hquiet
    exact settled_step hi (reloads_of_quiet hquiet) h (by rw [hdb]) halerts
  cases ins with
  | saveRule d =>
    cases hs : cfg.global.db.saveRule d with
    | none => exact failed_step hi rfl h (by simp [atomic, hs])
    | some res => exact .inr (code_reloads hi (.resetRule res.2.id) rfl (by simp [atomic, hs, Outcome.code]))
  | deleteRule id =>
    cases hs : cfg.global.db.deleteRule id with
    | none => exact failed_step hi rfl h (by simp [atomic, hs])
    | some db => exact .inr (code_reloads hi (.resetRule id) rfl (by simp [atomic, hs, Outcome.code]))
  | resetRule id =>
    left
    simp [Current, atomic, State.reply, State.resetAlerts, resetAlerts]
  | detach id rules =>
    right
    cases rules with
    | nil => exact code_reloads hi (.deleteNotifier id) rfl (by simp [atomic, Outcome.code])
    | cons r rules =>
      refine code_reloads hi (.detach id rules) rfl ?_
      by_cases hmem : id ∈ r.notifiers
      · obtain ⟨hrow, hscope⟩ := hok hmem
        obtain ⟨db, hdb⟩ : ∃ db, cfg.global.db.updateRule (detached id r) = some db :=
          Database.updateRule_ok hrow hscope
        simp [atomic, hmem, hdb, Outcome.code]
      · simp [atomic, hmem, Outcome.code]
  | deleteNotifier id =>
    right
    refine code_reloads hi .reload rfl ?_
    have hmem : id ∈ cfg.global.db.notifiers := hok
    simp [atomic, Database.deleteNotifier, hmem, Outcome.code]
  | reload => exact .inl rfl
  | deleteSystem id =>
    rcases hok with hnone | hreload
    · refine settled_step hi rfl h ?_ rfl
      -- the cascade takes no rule that is enabled
      simp only [atomic, Outcome.global_next, Database.deleteSystem, List.filter_filter]
      refine List.filter_congr fun r hr => ?_
      by_cases hs : r.systemID = some id
      · simp [hnone r hr hs]
      · simp [hs]
    · exact .inr (reloading_kept hi rfl hreload)
  | _ => exact absurd rfl hquiet

end step

/-- In every run that deletes no system with an enabled rule of its own, the engine has the
stored enabled rules whenever no handler is in progress, and evaluates only those. -/
theorem engine_rules_current {db : Database} {now : ℤ} {acts : List (Action Unit Request)}
    {cfg : Config State Instr}
    (hm : Runs.Meets machine.step (Machine.Guard Reloaded) (init db now) acts)
    (he : Runs.exec machine.step (init db now) acts = some cfg) (hidle : Idle cfg) :
    Current cfg.global ∧ EvaluatesStored cfg.global := by
  have inv : Current cfg.global ∨ Reloading cfg.tasks := by
    refine machine.guarded_invariant (J := fun c => Current c.global ∨ Reloading c.tasks) ?_ ?_ ?_ ?_ hm he
    · intro c r h
      refine h.imp_right fun hr => ?_
      obtain ⟨j, hj, hahead⟩ := hr.ahead
      exact reloading_of_ahead (ahead_start.2 (.inl hahead)) hj
    · rintro c i ins rest o out h hok hi ⟨⟩
      exact current_step h hok hi
    · rintro c g - ⟨⟩
      exact .inl rfl
    · exact .inl rfl
  have current : Current cfg.global := by
    refine inv.resolve_right fun hr => ?_
    obtain ⟨j, -, hahead⟩ := hr.ahead
    exact hidle.not_ahead j hahead
  exact ⟨current, current.evaluates⟩

def oneRule (system : Option ℕ+) (h : ∀ s ∈ system, s ∈ [1]) : Database where
  systems := [1]
  rules := [⟨1, "CPU", system, .cpu, 90, 300, [1], true⟩]
  notifiers := [1]
  sorted := List.pairwise_singleton _ _
  inScope := by simpa using h

def steps (i n : ℕ) : List (Action Unit Request) := List.replicate n (.run i ())

def deletions : List (Action Unit Request) :=
  .start (.deleteNotifier 1) :: steps 0 6 ++ .start (.deleteSystem 1) :: steps 1 3

theorem engine_rules_current_deletions : ∃ cfg,
    Runs.Meets machine.step (Machine.Guard Reloaded) (init (oneRule none nofun) 0) deletions ∧
    Runs.exec machine.step (init (oneRule none nofun) 0) deletions = some cfg ∧ Idle cfg ∧
    cfg.global.db.rules = [⟨1, "CPU", none, .cpu, 90, 300, [], true⟩] ∧
    Current cfg.global ∧ EvaluatesStored cfg.global := by
  have hm : Runs.Meets machine.step (Machine.Guard Reloaded) (init (oneRule none nofun) 0)
      deletions := by decide +kernel
  exact ⟨_, hm, rfl, by decide, by decide, engine_rules_current hm rfl (by decide)⟩

/-- The rule of a deleted system stays in the engine. A new system is given the same id, and
its samples are evaluated against the rule. -/
theorem deleted_rule_evaluated : ∃ cfg,
    Runs.exec machine.step (init (oneRule (some 1) (by simp)) 0)
      (.start (.deleteSystem 1) :: steps 0 3 ++ .start .enroll :: steps 1 1) = some cfg ∧
    Idle cfg ∧ cfg.global.db.systems = [1] ∧ cfg.global.db.rules = [] ∧
    ¬ Current cfg.global ∧
    ∀ m now, ∃ c ∈ metricCalls cfg.global.alerts 1 m now, c.rule ∉ cfg.global.db.rules :=
  ⟨_, rfl, by decide, rfl, rfl, by decide, fun _ _ => ⟨_, List.mem_cons_self, List.not_mem_nil⟩⟩

end Lotse.Rules
