import Lotse.AdminMachine
import Lotse.AlertEngine

set_option autoImplicit false

/-!
# Alert rules and notification channels

The handlers that change `alert_rules`, one instruction for each SQL statement and each
critical section of the alert engine, and the other things that change the table: a
deleted system takes its rules along. Statements fail on an unknown row and on the
foreign key of a rule.
-/
namespace Lotse.Rules
open Alerts Rows Tasks
open Admins (trimSpace maxNameLen Reply)

/-- The tables, by the ids of systems and channels and by the rows of the rules in the
order of their ids. -/
structure Database where
  systems : List ℕ+
  rules : List AlertRule
  notifiers : List ℕ+
  sorted : (rules.map AlertRule.id).Pairwise (· < ·)
  inScope : ∀ r ∈ rules, ∀ s ∈ r.systemID, s ∈ systems

structure Draft where
  id : Option ℕ+
  name : String
  systemID : Option ℕ+
  metric : Metric
  threshold : ℚ
  duration : ℕ
  notifiers : List ℕ+
  enabled : Bool
  deriving DecidableEq

def Draft.rule (d : Draft) (id : ℕ+) : AlertRule :=
  ⟨id, d.name, d.systemID, d.metric, d.threshold, d.duration, d.notifiers, d.enabled⟩

theorem lt_nextPos {rows : List AlertRule} {r : AlertRule} (h : r ∈ rows) :
    r.id < nextPos AlertRule.id rows :=
  @id_lt_nextId AlertRule rows r (fun r => (r.id : ℕ)) h

namespace Database

def ruleByID (db : Database) (id : ℤ) : Option AlertRule := db.rules.find? fun r => (r.id : ℤ) = id

def systemByID (db : Database) (id : ℤ) : Option ℕ+ := db.systems.find? fun s => (s : ℤ) = id

def notifierByID (db : Database) (id : ℤ) : Option ℕ+ := db.notifiers.find? fun n => (n : ℤ) = id

def createSystem (db : Database) : Database where
  systems := db.systems ++ [nextPos id db.systems]
  rules := db.rules
  notifiers := db.notifiers
  sorted := db.sorted
  inScope r hr s hs := List.mem_append_left _ (db.inScope r hr s hs)

/-- Rules of one system go with it, by `ON DELETE CASCADE`. -/
def deleteSystem (db : Database) (id : ℕ+) : Database where
  systems := db.systems.filter (· ≠ id)
  rules := db.rules.filter (·.systemID ≠ some id)
  notifiers := db.notifiers
  sorted := db.sorted.sublist (List.filter_sublist.map _)
  inScope := by
    intro r hr s hs
    obtain ⟨hr, hne⟩ := List.mem_filter.1 hr
    refine List.mem_filter.2 ⟨db.inScope r hr s hs, ?_⟩
    simp only [decide_eq_true_eq] at hne ⊢
    rintro rfl
    exact hne hs

def deleteRule (db : Database) (id : ℕ+) : Option Database :=
  if ∃ r ∈ db.rules, r.id = id then
    some { db with
      rules := db.rules.filter (·.id ≠ id)
      sorted := db.sorted.sublist (List.filter_sublist.map _)
      inScope := fun r hr => db.inScope r (List.mem_of_mem_filter hr) }
  else none

def deleteNotifier (db : Database) (id : ℕ+) : Option Database :=
  if id ∈ db.notifiers then some { db with notifiers := db.notifiers.filter (· ≠ id) } else none

def insertRule (db : Database) (d : Draft) : Option (Database × AlertRule) :=
  let r := d.rule (nextPos AlertRule.id db.rules)
  if h : ∀ s ∈ r.systemID, s ∈ db.systems then
    some ({ db with
      rules := db.rules ++ [r]
      sorted := by
        rw [List.map_append, List.pairwise_append]
        refine ⟨db.sorted, List.pairwise_singleton _ _, ?_⟩
        intro x hx y hy
        obtain ⟨q, hq, rfl⟩ := List.mem_map.1 hx
        rw [List.map_singleton, List.mem_singleton] at hy
        subst hy
        exact lt_nextPos hq
      inScope := by
        intro q hq
        rcases List.mem_append.1 hq with hq | hq
        · exact db.inScope q hq
        · rw [List.mem_singleton.1 hq]
          exact h }, r)
  else none

def updateRule (db : Database) (r : AlertRule) : Option Database :=
  if h : (∃ q ∈ db.rules, q.id = r.id) ∧ ∀ s ∈ r.systemID, s ∈ db.systems then
    some { db with
      rules := update AlertRule.id r.id (fun _ => r) db.rules
      sorted := by
        have hids : (update AlertRule.id r.id (fun _ => r) db.rules).map AlertRule.id =
            db.rules.map AlertRule.id := by
          rw [update, List.map_map]
          refine List.map_congr_left fun q _ => ?_
          by_cases hq : q.id = r.id <;> simp [hq]
        rw [hids]
        exact db.sorted
      inScope := by
        intro q hq
        obtain ⟨p, hp, rfl⟩ := List.mem_map.1 hq
        split_ifs
        · exact h.2
        · exact db.inScope p hp }
  else none

theorem updateRule_ok {db : Database} {r : AlertRule} (hrow : ∃ q ∈ db.rules, q.id = r.id)
    (hscope : ∀ s ∈ r.systemID, s ∈ db.systems) : ∃ db', db.updateRule r = some db' := by
  unfold updateRule
  rw [dif_pos ⟨hrow, hscope⟩]
  exact ⟨_, rfl⟩

def saveRule (db : Database) (d : Draft) : Option (Database × AlertRule) :=
  match d.id with
  | none => db.insertRule d
  | some id => (db.updateRule (d.rule id)).map fun db => (db, d.rule id)

end Database

structure RuleInput where
  name : String
  systemID : Option ℤ
  metric : String
  threshold : ℚ
  duration : ℤ
  notifiers : List ℤ
  enabled : Bool
  deriving DecidableEq

/-- The conditions a rule can watch, with the label and whether the value is a percentage. -/
def alertMetrics : String → Option (Metric × String × Bool)
  | "offline" => some (.offline, "Offline", false)
  | "cpu" => some (.cpu, "CPU", true)
  | "memory" => some (.memory, "Memory", true)
  | "disk" => some (.disk, "Disk", true)
  | "load" => some (.load, "Load", false)
  | _ => none

/-- `validateRule` up to the statements that look for the system and the channels. -/
def validateRule (id : Option ℕ+) (r : RuleInput) : Except String Draft :=
  match alertMetrics r.metric with
  | none => .error "choose what the rule watches"
  | some (metric, label, percent) =>
    let name := if trimSpace r.name = "" then label else trimSpace r.name
    if maxNameLen < name.length then .error "name must be at most 64 characters"
    else if metric = .offline ∧ r.duration < 30 then
      .error "wait at least 30 seconds before reporting a system as offline"
    else if metric ≠ .offline ∧ percent ∧ (r.threshold ≤ 0 ∨ 100 ≤ r.threshold) then
      .error "the threshold must be between 0 and 100 %"
    else if metric ≠ .offline ∧ ¬ percent ∧ r.threshold ≤ 0 then
      .error "the threshold must be above 0"
    else if r.duration < 0 ∨ 86400 < r.duration then
      .error "the duration must be between 0 seconds and 24 hours"
    else .ok ⟨id, name, none, metric, if metric = .offline then 0 else r.threshold,
      r.duration.toNat, [], r.enabled⟩

def detached (id : ℕ+) (r : AlertRule) : AlertRule := { r with notifiers := r.notifiers.erase id }

inductive Instr where
  | findRule (id : ℤ) (r : RuleInput)
  | validateRule (id : Option ℕ+) (r : RuleInput)
  | findSystem (d : Draft) (system : ℤ) (notifiers : List ℤ)
  | findNotifiers (d : Draft) (notifiers : List ℤ)
  | saveRule (d : Draft)
  | findDeleted (id : ℤ)
  | deleteRule (id : ℕ+)
  | resetRule (id : ℕ+)
  | findNotifier (id : ℤ)
  | readRules (id : ℕ+)
  | detach (id : ℕ+) (rules : List AlertRule)
  | deleteNotifier (id : ℕ+)
  | reload
  | lookupSystem (id : ℤ)
  | deleteSystem (id : ℕ+)
  | resetSystem (id : ℕ+)
  | createSystem
  | tick (elapsed : ℕ)
  deriving DecidableEq

inductive Request where
  | saveAlertRule (id : Option ℤ) (r : RuleInput)
  | deleteAlertRule (id : ℤ)
  | deleteNotifier (id : ℤ)
  | deleteSystem (id : ℤ)
  | enroll
  | tick (elapsed : ℕ)
  deriving DecidableEq

/-- `saved` and `deleted` are history that no code reads: the rule as the last
`saveAlertRule` of it left it, or the first row, and the channels that were deleted. -/
structure State where
  clock : ℤ
  db : Database
  alerts : Alerts.State
  replies : List Reply
  saved : ℕ+ → Option AlertRule
  deleted : List ℕ+

namespace State

def reply (g : State) (r : Reply) : State := { g with replies := g.replies ++ [r] }

def save (g : State) (db : Database) (r : AlertRule) : State :=
  { g with db, saved := Function.update g.saved r.id (some r) }

def resetAlerts (g : State) (ruleID systemID : ℕ) : State :=
  { g with alerts := Alerts.resetAlerts true g.db.rules g.alerts ruleID systemID g.clock }

def reloadRules (g : State) : State :=
  { g with alerts := { g.alerts with rules := g.db.rules.filter AlertRule.enabled } }

end State

def fail (g : State) (status : ℕ) (message : String) : Outcome State Instr :=
  .next (g.reply (.error status message)) []

def internalError (g : State) : Outcome State Instr := fail g 500 "internal error"

def code : Request → List Instr
  | .saveAlertRule none r => [.validateRule none r]
  | .saveAlertRule (some id) r => [.findRule id r]
  | .deleteAlertRule id => [.findDeleted id]
  | .deleteNotifier id => [.findNotifier id]
  | .deleteSystem id => [.lookupSystem id]
  | .enroll => [.createSystem]
  | .tick elapsed => [.tick elapsed]

def atomic (g : State) : Instr → Outcome State Instr
  | .findRule id r =>
    match g.db.ruleByID id with
    | none => fail g 404 "rule not found"
    | some rule => .next g [.validateRule (some rule.id) r]
  | .validateRule id r =>
    match validateRule id r with
    | .error message => fail g 400 message
    | .ok d => .next g [match r.systemID with
        | none => .findNotifiers d r.notifiers
        | some system => .findSystem d system r.notifiers]
  | .findSystem d system notifiers =>
    match g.db.systemByID system with
    | none => fail g 400 "that system does not exist"
    | some system => .next g [.findNotifiers { d with systemID := some system } notifiers]
  | .findNotifiers d [] => .next g [.saveRule d]
  | .findNotifiers d (id :: notifiers) =>
    match g.db.notifierByID id with
    | none => fail g 400 "a selected notification channel does not exist"
    | some id => .next g [.findNotifiers { d with notifiers := d.notifiers ++ [id] } notifiers]
  | .saveRule d =>
    match g.db.saveRule d with
    | none => internalError g
    | some (db, r) => .next (g.save db r) [.resetRule r.id]
  | .findDeleted id =>
    match g.db.ruleByID id with
    | none => fail g 404 "rule not found"
    | some rule => .next g [.deleteRule rule.id]
  | .deleteRule id =>
    match g.db.deleteRule id with
    | none => internalError g
    | some db => .next { g with db } [.resetRule id]
  | .resetRule id => .next ((g.resetAlerts id 0).reply .ok) []
  | .findNotifier id =>
    match g.db.notifierByID id with
    | none => fail g 404 "channel not found"
    | some id => .next g [.readRules id]
  | .readRules id => .next g [.detach id g.db.rules]
  | .detach id [] => .next g [.deleteNotifier id]
  | .detach id (r :: rules) =>
    if id ∈ r.notifiers then
      match g.db.updateRule (detached id r) with
      | none => internalError g
      | some db => .next { g with db } [.detach id rules]
    else .next g [.detach id rules]
  | .deleteNotifier id =>
    match g.db.deleteNotifier id with
    | none => internalError g
    | some db => .next { g with db, deleted := id :: g.deleted } [.reload]
  | .reload => .next (g.reloadRules.reply .ok) []
  | .lookupSystem id =>
    match g.db.systemByID id with
    | none => fail g 404 "system not found"
    | some id => .next g [.deleteSystem id]
  | .deleteSystem id => .next { g with db := g.db.deleteSystem id } [.resetSystem id]
  | .resetSystem id => .next ((g.resetAlerts 0 id).reply .ok) []
  | .createSystem => .next ({ g with db := g.db.createSystem }.reply .ok) []
  | .tick elapsed => .next { g with clock := g.clock + elapsed } []

def restart (g : State) : State := { g with alerts := loadAlerts g.db.rules g.alerts g.clock }

def machine : Machine State Instr Unit Request :=
  ⟨code, fun _ g ins => some (atomic g ins), fun g => some (restart g)⟩

def init (db : Database) (now : ℤ) : Config State Instr :=
  ⟨⟨now, db, initial db.rules now, [], fun id => lookup AlertRule.id id db.rules, []⟩, []⟩

def Idle (cfg : Config State Instr) : Prop := ∀ t ∈ cfg.tasks, t = []

instance (cfg : Config State Instr) : Decidable (Idle cfg) :=
  inferInstanceAs (Decidable (∀ t ∈ cfg.tasks, t = []))

theorem Idle.not_ahead {cfg : Config State Instr} (h : Idle cfg) (ins : Instr) :
    ¬ Ahead cfg.tasks ins := by
  rintro ⟨t, ht, hmem⟩
  rw [h t ht] at hmem
  cases hmem

theorem rest_subset_resume (g : State) (ins : Instr) (rest : List Instr) :
    rest ⊆ (atomic g ins).resume rest := by
  have next : ∃ g' code, atomic g ins = .next g' code := by
    cases ins <;> simp only [atomic, fail, internalError]
    all_goals
      (repeat' split) <;> exact ⟨_, _, rfl⟩
  obtain ⟨g', code, h⟩ := next
  rw [h]
  exact List.subset_append_right _ _

end Lotse.Rules
