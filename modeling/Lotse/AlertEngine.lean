import Lotse.Samples
import Lotse.Rows

set_option autoImplicit false

/-!
# The alert engine

Rules, the state of each rule/system pair and the `alerts` table. Times are
nanoseconds, `none` is the zero time. Ids are positive, since `resetAlerts` takes 0
for "not this one".
-/
namespace Lotse.Alerts
open Samples Rows

inductive Metric where
  | offline
  | cpu
  | memory
  | disk
  | load
  deriving DecidableEq

structure AlertRule where
  id : ℕ+
  name : String
  systemID : Option ℕ+
  metric : Metric
  threshold : ℚ
  duration : ℕ
  notifiers : List ℕ+
  enabled : Bool
  deriving DecidableEq

structure AlertKey where
  rule : ℕ+
  system : ℕ+
  deriving DecidableEq

structure Alert where
  id : ℕ
  ruleID : ℕ+
  ruleName : String
  systemID : ℕ+
  systemName : String
  metric : Metric
  threshold : ℚ
  value : ℚ
  startedAt : ℤ
  resolvedAt : Option ℤ
  deriving DecidableEq

def Alert.key (a : Alert) : AlertKey := ⟨a.ruleID, a.systemID⟩

def Alert.active (a : Alert) : Bool := a.resolvedAt.isNone

def Alert.resolve (time : ℤ) (a : Alert) : Alert := { a with resolvedAt := some time }

structure AlertState where
  since : Option ℤ
  clearSince : Option ℤ
  alert : Option Alert
  deriving DecidableEq

structure AlertEvent where
  rule : AlertRule
  alert : Alert
  firing : Bool
  value : ℚ
  deriving DecidableEq

def second : ℤ := 1000000000

def unix (time : ℤ) : ℤ := time / second

def alertClearDelay : ℤ := 60 * second

def alertRetention : ℤ := 90 * 24 * 3600 * second

/-- The engine and its table. `inserted` and `closed` are the rows that `CreateAlert`
has added and `ResolveAlert` has closed so far; no code reads them. -/
structure State where
  rules : List AlertRule
  states : AlertKey → Option AlertState
  offline : ℕ+ → Option ℤ
  started : ℤ
  alerts : List Alert
  inserted : List Alert
  closed : List Alert

namespace State

def alertOf (w : State) (k : AlertKey) : Option Alert := (w.states k).bind AlertState.alert

def setState (w : State) (k : AlertKey) (st : Option AlertState) : State :=
  { w with states := Function.update w.states k st }

def createAlert (w : State) (a : Alert) : State × Alert :=
  let a := { a with id := nextId Alert.id w.alerts, resolvedAt := none }
  ({ w with alerts := w.alerts ++ [a], inserted := w.inserted ++ [a] }, a)

def resolveAlert (w : State) (id : ℕ) (time : ℤ) : State :=
  { w with
    alerts := w.alerts.map fun a => if a.id = id ∧ a.active then a.resolve time else a
    closed := w.closed ++ w.alerts.filter fun a => a.id = id ∧ a.active }

def resolveAlertsWhere (w : State) (ruleID systemID : ℕ) (time : ℤ) : State :=
  { w with alerts := w.alerts.map fun a =>
      if a.active ∧ ((ruleID ≠ 0 ∧ a.ruleID = ruleID) ∨ (systemID ≠ 0 ∧ a.systemID = systemID)) then
        a.resolve time else a }

def pruneAlerts (w : State) (now : ℤ) : State :=
  { w with alerts := w.alerts.filter fun a =>
      ¬ a.resolvedAt.any fun time => time < unix (now - alertRetention) }

def activeAlerts (w : State) : List Alert :=
  (w.alerts.filter Alert.active).insertionSort fun a b => b.startedAt ≤ a.startedAt

end State

def appliesTo (r : AlertRule) (system : ℕ+) : Bool := r.systemID = none ∨ r.systemID = some system

def percent (used total : ℕ) : Option ℚ :=
  if total = 0 then none else some (float64 (float64 (float64 used / float64 total) * 100))

-- not above a threshold of 7 without the rounding
example : percent 7 100 = some (7 + 1 / 2 ^ 50) := by decide +kernel

def metricValue (metric : Metric) (m : Metrics) : Option ℚ :=
  match metric with
  | .offline => none
  | .cpu => some m.cpu
  | .memory => percent m.memUsed m.memTotal
  | .disk => percent m.diskUsed m.diskTotal
  | .load => some m.load1

structure Call where
  rule : AlertRule
  system : ℕ+
  holds : Bool
  value : ℚ
  since : ℤ
  now : ℤ
  clearDelay : ℤ

def Call.key (c : Call) : AlertKey := ⟨c.rule.id, c.system⟩

def Call.alert (c : Call) (name : String) (since : ℤ) : Alert where
  id := 0
  ruleID := c.rule.id
  ruleName := c.rule.name
  systemID := c.system
  systemName := name
  metric := c.rule.metric
  threshold := c.rule.threshold
  value := c.value
  startedAt := unix since
  resolvedAt := none

/-- What the store answers during an evaluation: the names of the systems, and whether
the write for a pair succeeds. -/
structure Answers where
  name : ℕ+ → String
  ok : AlertKey → Bool

def step (store : Answers) (w : State) (c : Call) : State × Option AlertEvent :=
  let st := (w.states c.key).getD ⟨none, none, none⟩
  if c.holds then
    let since := st.since.getD c.since
    let w := w.setState c.key (some ⟨some since, none, st.alert⟩)
    if st.alert.isSome ∨ c.now - since < c.rule.duration * second then (w, none)
    else if ¬ store.ok c.key then (w, none)
    else
      let (w, a) := w.createAlert (c.alert (store.name c.system) since)
      (w.setState c.key (some ⟨some since, none, some a⟩), some ⟨c.rule, a, true, c.value⟩)
  else
    match st.alert with
    | none => (w.setState c.key none, none)
    | some a =>
      let clearSince := st.clearSince.getD c.now
      if c.now - clearSince < c.clearDelay then
        (w.setState c.key (some ⟨none, some clearSince, some a⟩), none)
      else
        let w := w.setState c.key none
        (if store.ok c.key then w.resolveAlert a.id (unix c.now) else w,
          some ⟨c.rule, a, false, c.value⟩)

/-- The loop of an evaluation: every call of `step` in order, and the events. -/
def stepAll (store : Answers) (w : State) (calls : List Call) : State × List AlertEvent :=
  calls.foldl (fun acc c =>
    let (w, event) := step store acc.1 c
    (w, acc.2 ++ event.toList)) (w, [])

def metricCalls (w : State) (system : ℕ+) (m : Metrics) (now : ℤ) : List Call :=
  w.rules.filterMap fun r =>
    if r.metric = .offline ∨ ¬ appliesTo r system then none
    else (metricValue r.metric m).map fun v =>
      ⟨r, system, r.threshold < v, v, now, now, alertClearDelay⟩

def evaluateMetrics (store : Answers) (w : State) (system : ℕ+) (m : Metrics) (now : ℤ) :
    State × List AlertEvent :=
  stepAll store w (metricCalls w system m now)

def offlineCalls (w : State) (systems : List ℕ+) (online : ℕ+ → Bool) (now : ℤ) : List Call :=
  w.rules.flatMap fun r =>
    if r.metric ≠ .offline then []
    else (systems.filter (appliesTo r)).map fun system =>
      ⟨r, system, !online system, 0, (w.offline system).getD w.started, now, 0⟩

/-- The critical section of `evaluateOffline`, for the systems it has read before. -/
def evaluateOffline (store : Answers) (w : State) (systems : List ℕ+) (online : ℕ+ → Bool)
    (now : ℤ) : State × List AlertEvent :=
  stepAll store w (offlineCalls w systems online now)

def agentOnline (w : State) (system : ℕ+) : State :=
  { w with offline := Function.update w.offline system none }

def agentOffline (w : State) (system : ℕ+) (now : ℤ) : State :=
  { w with offline := Function.update w.offline system (some now) }

/-- `stored` are the rows of `alert_rules`. A failing statement is only logged. -/
def resetAlerts (ok : Bool) (stored : List AlertRule) (w : State) (ruleID systemID : ℕ)
    (now : ℤ) : State :=
  let w := if ok then w.resolveAlertsWhere ruleID systemID (unix now) else w
  { w with
    states := fun k => if k.rule = ruleID ∨ k.system = systemID then none else w.states k
    offline := fun system => if system = systemID then none else w.offline system
    rules := if ruleID ≠ 0 then stored.filter AlertRule.enabled else w.rules }

def restore (active : List Alert) : AlertKey → Option AlertState :=
  active.foldl (fun states a =>
    Function.update states a.key (some ⟨some (a.startedAt * second), none, some a⟩)) fun _ => none

/-- A new process: `loadAlerts` reads the rules and restores the firing alerts. -/
def loadAlerts (stored : List AlertRule) (w : State) (now : ℤ) : State :=
  { w with
    rules := stored.filter AlertRule.enabled
    states := restore w.activeAlerts
    offline := fun _ => none
    started := now }

def initial (stored : List AlertRule) (now : ℤ) : State :=
  ⟨stored.filter AlertRule.enabled, fun _ => none, fun _ => none, now, [], [], []⟩

theorem restore_spec (active : List Alert) (k : AlertKey) :
    (∃ a ∈ active, a.key = k ∧
      restore active k = some ⟨some (a.startedAt * second), none, some a⟩) ∨
    ((∀ a ∈ active, a.key ≠ k) ∧ restore active k = none) := by
  induction active using List.reverseRecOn with
  | nil => exact .inr ⟨nofun, rfl⟩
  | append_singleton active b ih =>
    have hlast : restore (active ++ [b]) = Function.update (restore active) b.key
        (some ⟨some (b.startedAt * second), none, some b⟩) := List.foldl_concat ..
    rw [hlast, Function.update_apply]
    split_ifs with hk
    · exact .inl ⟨b, by simp, hk.symm, rfl⟩
    · rcases ih with ⟨a, ha, hak, hr⟩ | ⟨hno, hr⟩
      · exact .inl ⟨a, List.mem_append_left _ ha, hak, hr⟩
      · refine .inr ⟨fun a ha => ?_, hr⟩
        rcases List.mem_append.1 ha with ha | ha
        · exact hno a ha
        · rw [List.mem_singleton.1 ha]
          exact Ne.symm hk

section step
variable {store : Answers} {w : State} {c : Call}

def sinceOf (w : State) (c : Call) : ℤ := ((w.states c.key).bind AlertState.since).getD c.since

inductive StepEffect (store : Answers) (w : State) (c : Call) :
    State → Option AlertEvent → Prop where
  | waits (hc : c.holds = true) :
      StepEffect store w c
        (w.setState c.key (some ⟨some (sinceOf w c), none, w.alertOf c.key⟩)) none
  | fires (hc : c.holds = true) (hn : w.alertOf c.key = none)
      (due : c.rule.duration * second ≤ c.now - sinceOf w c) (a : Alert) (hk : a.key = c.key) :
      StepEffect store w c
        ((w.createAlert a).1.setState c.key
          (some ⟨some (sinceOf w c), none, some (w.createAlert a).2⟩))
        (some ⟨c.rule, (w.createAlert a).2, true, c.value⟩)
  | forgets (hc : c.holds = false) (hn : w.alertOf c.key = none) :
      StepEffect store w c (w.setState c.key none) none
  | clears (hc : c.holds = false) (a : Alert) (ha : w.alertOf c.key = some a) (since : ℤ) :
      StepEffect store w c (w.setState c.key (some ⟨none, some since, some a⟩)) none
  | resolves (hc : c.holds = false) (a : Alert) (ha : w.alertOf c.key = some a) (time : ℤ) :
      StepEffect store w c ((w.setState c.key none).resolveAlert a.id time)
        (some ⟨c.rule, a, false, c.value⟩)
  | unresolved (hc : c.holds = false) (a : Alert) (ha : w.alertOf c.key = some a)
      (failed : store.ok c.key = false) :
      StepEffect store w c (w.setState c.key none) (some ⟨c.rule, a, false, c.value⟩)

theorem setState_createAlert (w : State) (k : AlertKey) (st st' : Option AlertState) (a : Alert) :
    ((w.setState k st).createAlert a).1.setState k st' = (w.createAlert a).1.setState k st' := by
  simp [State.setState, State.createAlert]

theorem getD_state (w : State) (c : Call) :
    ((w.states c.key).getD ⟨none, none, none⟩).alert = w.alertOf c.key ∧
      ((w.states c.key).getD ⟨none, none, none⟩).since.getD c.since = sinceOf w c := by
  unfold State.alertOf sinceOf
  cases w.states c.key <;> exact ⟨rfl, rfl⟩

theorem step_effect (store : Answers) (w : State) (c : Call) :
    StepEffect store w c (step store w c).1 (step store w c).2 := by
  obtain ⟨halert, hsince⟩ := getD_state w c
  unfold step
  simp only [halert, hsince]
  cases hc : c.holds with
  | true =>
    simp only [if_true]
    split_ifs with hwait hok
    · exact .waits hc
    · rw [setState_createAlert]
      have hn : w.alertOf c.key = none := by
        rw [← Option.not_isSome_iff_eq_none]
        exact fun h => hwait (.inl h)
      exact .fires hc hn (by omega) _ rfl
    · exact .waits hc
  | false =>
    simp only [Bool.false_eq_true, if_false]
    cases ha : w.alertOf c.key with
    | none => exact .forgets hc ha
    | some a =>
      simp only
      split_ifs with hwait hok
      · exact .clears hc a ha _
      · exact .resolves hc a ha _
      · exact .unresolved hc a ha (by simpa using hok)

theorem step_frame (store : Answers) (w : State) (c : Call) :
    (step store w c).1.rules = w.rules ∧ (step store w c).1.offline = w.offline ∧
      (step store w c).1.started = w.started := by
  have effect := step_effect store w c
  generalize (step store w c).1 = w' at effect
  generalize (step store w c).2 = event at effect
  cases effect <;> exact ⟨rfl, rfl, rfl⟩

theorem stepAll_invariant {J : State → List AlertEvent → Prop} {calls : List Call} (h : J w [])
    (keep : ∀ w events, ∀ c ∈ calls, J w events →
      J (step store w c).1 (events ++ (step store w c).2.toList)) :
    J (stepAll store w calls).1 (stepAll store w calls).2 := by
  suffices hall : ∀ acc : State × List AlertEvent, J acc.1 acc.2 →
      let out := calls.foldl (fun acc c =>
        ((step store acc.1 c).1, acc.2 ++ (step store acc.1 c).2.toList)) acc
      J out.1 out.2 from hall (w, []) h
  induction calls with
  | nil => exact fun _ h => h
  | cons c calls ih =>
    intro acc hacc
    exact ih (fun w events d hd => keep w events d (List.mem_cons_of_mem _ hd)) _
      (keep acc.1 acc.2 c List.mem_cons_self hacc)

theorem stepAll_cons (store : Answers) (w : State) (c : Call) (calls : List Call) :
    stepAll store w (c :: calls) =
      ((stepAll store (step store w c).1 calls).1,
        (step store w c).2.toList ++ (stepAll store (step store w c).1 calls).2) := by
  have hacc : ∀ (v : State) (events : List AlertEvent),
      calls.foldl (fun acc c => ((step store acc.1 c).1, acc.2 ++ (step store acc.1 c).2.toList))
        (v, events) = ((stepAll store v calls).1, events ++ (stepAll store v calls).2) := by
    induction calls with
    | nil => exact fun v events => by simp [stepAll]
    | cons d calls ih =>
      intro v events
      rw [stepAll, List.foldl_cons, List.foldl_cons, ih, ih]
      simp
  exact hacc _ _

theorem stepAll_frame (store : Answers) (w : State) (calls : List Call) :
    (stepAll store w calls).1.rules = w.rules ∧ (stepAll store w calls).1.offline = w.offline ∧
      (stepAll store w calls).1.started = w.started := by
  refine stepAll_invariant (J := fun v _ => v.rules = w.rules ∧ v.offline = w.offline ∧
    v.started = w.started) ⟨rfl, rfl, rfl⟩ ?_
  rintro v events c - ⟨hr, ho, hs⟩
  obtain ⟨hr', ho', hs'⟩ := step_frame store v c
  exact ⟨hr'.trans hr, ho'.trans ho, hs'.trans hs⟩

end step

end Lotse.Alerts
