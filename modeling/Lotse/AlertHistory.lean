import Lotse.AlertAgreement
import Lotse.Hysteresis

set_option autoImplicit false

namespace Lotse.Alerts
open Samples Rows Hysteresis

structure Sample where
  names : ℕ+ → String
  metrics : Metrics
  now : ℤ

def Sample.op (system : ℕ+) (s : Sample) : Op := .evaluateMetrics s.names system s.metrics s.now

structure Point where
  value : ℚ
  time : ℤ
  deriving DecidableEq

def Sample.point (metric : Metric) (s : Sample) : Option Point :=
  (metricValue metric s.metrics).map fun v => ⟨v, s.now⟩

def history (metric : Metric) (samples : List Sample) : List Point :=
  samples.filterMap (Sample.point metric)

def Point.reading (r : AlertRule) (p : Point) : Reading := ⟨r.threshold < p.value, p.time⟩

def readings (r : AlertRule) (samples : List Sample) : List Reading :=
  (history r.metric samples).map (Point.reading r)

def AlertRule.rise (r : AlertRule) : ℤ := r.duration * second

def AlertRule.step (r : AlertRule) : Watch → Reading → Watch := Watch.step r.rise alertClearDelay

/-- The state of a pair is a watch, with the second in which the run began for its start. -/
structure Tracks (st : Option AlertState) (s : Watch) : Prop where
  since : st.bind AlertState.since = s.since
  clearSince : st.bind AlertState.clearSince = s.calmSince
  alert : (st.bind AlertState.alert).map Alert.startedAt = s.on.map unix

theorem tracks_none : Tracks none .off := ⟨rfl, rfl, rfl⟩

section pair
variable {store : Answers} {w : State} {c : Call} {k : AlertKey} {s : Watch}

theorem states_setState_self (w : State) (k : AlertKey) (st : Option AlertState) :
    (w.setState k st).states k = st := Function.update_self ..

theorem states_setState_ne {j : AlertKey} (h : j ≠ k) (st : Option AlertState) :
    (w.setState k st).states j = w.states j := Function.update_of_ne h _ _

theorem step_states_ne (store : Answers) (w : State) (h : k ≠ c.key) :
    (step store w c).1.states k = w.states k := by
  have effect := step_effect store w c
  generalize (step store w c).1 = w' at effect
  generalize (step store w c).2 = event at effect
  cases effect with
  | waits | forgets | clears | unresolved => exact states_setState_ne h _
  | fires _ _ _ a => exact states_setState_ne (w := (w.createAlert a).1) h _
  | resolves => exact states_setState_ne h _

theorem Tracks.fields {st : Option AlertState} (h : Tracks st s) :
    (st.getD ⟨none, none, none⟩).since = s.since ∧
      (st.getD ⟨none, none, none⟩).clearSince = s.calmSince ∧
      (st.getD ⟨none, none, none⟩).alert.map Alert.startedAt = s.on.map unix := by
  obtain ⟨hs, hc, ha⟩ := h
  cases st with
  | none => exact ⟨hs, hc, ha⟩
  | some st => exact ⟨hs, hc, ha⟩

theorem map_eq_map_none {st : AlertState} (h : st.alert.map Alert.startedAt = s.on.map unix) :
    st.alert = none ↔ s.on = none := by
  rw [← Option.map_eq_none_iff (f := Alert.startedAt), h, Option.map_eq_none_iff]

theorem tracks_step_holds (hok : store.ok c.key) (hc : c.holds = true) (hsince : c.since = c.now)
    (h : Tracks (w.states c.key) s) :
    Tracks ((step store w c).1.states c.key) (s.step c.rule.rise c.clearDelay ⟨c.holds, c.now⟩) := by
  obtain ⟨hs, -, ha⟩ := h.fields
  have hnone := map_eq_map_none ha
  unfold step
  simp only [hc, if_true, hs, hsince, Watch.step]
  generalize (w.states c.key).getD ⟨none, none, none⟩ = st at ha hnone
  by_cases hfire : st.alert = none ∧ c.rule.rise ≤ c.now - s.since.getD c.now
  · have hwait : ¬ (st.alert.isSome ∨ c.now - s.since.getD c.now < c.rule.duration * second) := by
      rw [hfire.1]
      have := hfire.2
      simp only [AlertRule.rise] at this
      simp [this]
    rw [if_neg hwait, if_neg (by simp [hok]), if_pos ⟨hnone.1 hfire.1, hfire.2⟩]
    rw [states_setState_self]
    exact ⟨rfl, rfl, rfl⟩
  · have hwait : st.alert.isSome ∨ c.now - s.since.getD c.now < c.rule.duration * second := by
      by_contra hno
      push Not at hno
      exact hfire ⟨Option.not_isSome_iff_eq_none.1 hno.1, hno.2⟩
    rw [if_pos hwait, if_neg (by rwa [← hnone]), states_setState_self]
    exact ⟨rfl, rfl, ha⟩

theorem tracks_step_clear (hok : store.ok c.key) (hc : c.holds = false)
    (h : Tracks (w.states c.key) s) :
    Tracks ((step store w c).1.states c.key) (s.step c.rule.rise c.clearDelay ⟨c.holds, c.now⟩) := by
  obtain ⟨-, hcs, ha⟩ := h.fields
  have hnone := map_eq_map_none ha
  unfold step
  simp only [hc, Bool.false_eq_true, if_false, hcs, Watch.step]
  generalize (w.states c.key).getD ⟨none, none, none⟩ = st at ha hnone
  cases halert : st.alert with
  | none =>
    rw [hnone.1 halert, states_setState_self]
    exact tracks_none
  | some a =>
    obtain ⟨start, hstart⟩ := Option.ne_none_iff_exists'.1 (mt hnone.2 (by simp [halert]))
    rw [hstart]
    by_cases hlong : c.clearDelay ≤ c.now - s.calmSince.getD c.now
    · simp only [if_neg (not_lt.2 hlong), if_pos hlong, hok, if_true]
      change Tracks ((w.setState c.key none).states c.key) .off
      rw [states_setState_self]
      exact tracks_none
    · simp only [if_pos (not_le.1 hlong), if_neg hlong]
      rw [states_setState_self]
      rw [halert, hstart] at ha
      exact ⟨rfl, rfl, ha⟩

theorem tracks_step (hok : store.ok c.key) (hsince : c.since = c.now)
    (h : Tracks (w.states c.key) s) :
    Tracks ((step store w c).1.states c.key)
      (s.step c.rule.rise c.clearDelay ⟨c.holds, c.now⟩) := by
  cases hc : c.holds with
  | true => exact hc ▸ tracks_step_holds hok hc hsince h
  | false => exact hc ▸ tracks_step_clear hok hc h

theorem step_other (store : Answers) {log : List Entry} (agree : Agree w log) (h : c.key ≠ k) :
    (step store w c).1.states k = w.states k ∧
      (step store w c).1.alerts.filter (·.key = k) = w.alerts.filter (·.key = k) := by
  refine ⟨step_states_ne store w h.symm, ?_⟩
  have effect := step_effect store w c
  generalize (step store w c).1 = w' at effect
  generalize (step store w c).2 = event at effect
  cases effect with
  | waits | forgets | clears | unresolved => rfl
  | fires _ _ _ a hk =>
    change (w.alerts ++ [(w.createAlert a).2]).filter _ = _
    have hkey : (w.createAlert a).2.key ≠ k := hk ▸ h
    simp [List.filter_append, hkey]
  | resolves _ a ha time =>
    obtain ⟨hmem, hkey, -⟩ := (agree.held c.key a).1 ha
    change (w.alerts.map fun b => if b.id = a.id ∧ b.active then b.resolve time else b).filter _ = _
    have hsame : ∀ b : Alert, (if b.id = a.id ∧ b.active then b.resolve time else b).key = b.key := by
      intro b
      split_ifs <;> rfl
    rw [List.filter_map]
    simp only [Function.comp_def, hsame]
    refine (List.map_congr_left ?_).trans (List.map_id _)
    intro b hb
    obtain ⟨hb, hbk⟩ := List.mem_filter.1 hb
    rw [if_neg]
    · rfl
    · rintro ⟨hid, -⟩
      have hba : b = a := List.inj_on_of_nodup_map agree.ids hb hmem hid
      exact h (hkey ▸ hba ▸ of_decide_eq_true hbk)

theorem stepAll_fst (store : Answers) (w : State) (calls : List Call) :
    (stepAll store w calls).1 = calls.foldl (fun w c => (step store w c).1) w := by
  induction calls generalizing w with
  | nil => rfl
  | cons c calls ih => rw [stepAll_cons, ih, List.foldl_cons]

theorem foldl_step_states_ne (store : Answers) (w : State) {calls : List Call}
    (h : ∀ c ∈ calls, k ≠ c.key) :
    (calls.foldl (fun w c => (step store w c).1) w).states k = w.states k := by
  induction calls generalizing w with
  | nil => rfl
  | cons c calls ih =>
    rw [List.foldl_cons, ih _ fun c hc => h c (List.mem_cons_of_mem _ hc),
      step_states_ne store w (h c List.mem_cons_self)]

end pair

section evaluate
variable {store : Answers} {w : State} {r : AlertRule} {system : ℕ+} {m : Metrics} {now : ℤ}
  {s : Watch}

theorem metricCalls_rule {c : Call} (h : c ∈ metricCalls w system m now) :
    c.rule ∈ w.rules ∧ c.system = system ∧ (metricValue c.rule.metric m).isSome := by
  obtain ⟨q, hq, hc⟩ := List.mem_filterMap.1 h
  split_ifs at hc
  obtain ⟨v, hv, rfl⟩ := Option.map_eq_some_iff.1 hc
  exact ⟨hq, rfl, by simp [hv]⟩

theorem evaluateMetrics_tracks (ids : (w.rules.map AlertRule.id).Nodup) (hr : r ∈ w.rules)
    (hm : r.metric ≠ .offline) (happly : appliesTo r system) (hok : ∀ k, store.ok k) {v : ℚ}
    (hv : metricValue r.metric m = some v) (h : Tracks (w.states ⟨r.id, system⟩) s) :
    Tracks ((evaluateMetrics store w system m now).1.states ⟨r.id, system⟩)
      (r.step s (Point.reading r ⟨v, now⟩)) := by
  -- the rule's own call, between the calls of the rules before and after it
  obtain ⟨before, after, hrules⟩ := List.append_of_mem hr
  let call (q : AlertRule) : Option Call :=
    if q.metric = .offline ∨ ¬ appliesTo q system then none
    else (metricValue q.metric m).map fun v =>
      ⟨q, system, q.threshold < v, v, now, now, alertClearDelay⟩
  let own : Call := ⟨r, system, r.threshold < v, v, now, now, alertClearDelay⟩
  have hown : call r = some own := by simp [call, own, hm, happly, hv]
  have hcalls : metricCalls w system m now =
      before.filterMap call ++ own :: after.filterMap call := by
    change w.rules.filterMap call = _
    rw [hrules, List.filterMap_append, List.filterMap_cons, hown]
  rw [hrules, List.map_append, List.map_cons, List.nodup_append, List.nodup_cons] at ids
  have hother : ∀ rules : List AlertRule, r.id ∉ rules.map AlertRule.id →
      ∀ c ∈ rules.filterMap call, (⟨r.id, system⟩ : AlertKey) ≠ c.key := by
    intro rules hnot c hc hkey
    obtain ⟨q, hq, hcq⟩ := List.mem_filterMap.1 hc
    simp only [call] at hcq
    split_ifs at hcq
    obtain ⟨u, -, rfl⟩ := Option.map_eq_some_iff.1 hcq
    exact hnot (List.mem_map.2 ⟨q, hq, (congrArg AlertKey.rule hkey).symm⟩)
  have hbefore : r.id ∉ before.map AlertRule.id := fun hmem =>
    ids.2.2 _ hmem _ List.mem_cons_self rfl
  rw [evaluateMetrics, stepAll_fst, hcalls, List.foldl_append, List.foldl_cons,
    foldl_step_states_ne store _ (hother after ids.2.1.1)]
  have hprev := foldl_step_states_ne store w (hother before hbefore)
  exact tracks_step (c := own) (hok _) rfl (hprev ▸ h)

theorem evaluateMetrics_undefined {log : List Entry} (agree : Agree w log) (hok : ∀ k, store.ok k)
    (ids : (w.rules.map AlertRule.id).Nodup) (hr : r ∈ w.rules)
    (hv : metricValue r.metric m = none) :
    (evaluateMetrics store w system m now).1.states ⟨r.id, system⟩ = w.states ⟨r.id, system⟩ ∧
      (evaluateMetrics store w system m now).1.alerts.filter (·.key = ⟨r.id, system⟩) =
        w.alerts.filter (·.key = ⟨r.id, system⟩) := by
  have hall : ∀ c ∈ metricCalls w system m now, c.key ≠ ⟨r.id, system⟩ := by
    intro c hc hkey
    obtain ⟨hrule, -, hsome⟩ := metricCalls_rule hc
    have heq : c.rule = r := List.inj_on_of_nodup_map ids hrule hr (congrArg AlertKey.rule hkey)
    rw [heq, hv] at hsome
    cases hsome
  suffices hinv : Agree (evaluateMetrics store w system m now).1
      (log ++ (evaluateMetrics store w system m now).2.map .event) ∧ _ from hinv.2
  refine stepAll_invariant (J := fun v events => Agree v (log ++ events.map .event) ∧
    v.states ⟨r.id, system⟩ = w.states ⟨r.id, system⟩ ∧
    v.alerts.filter (·.key = ⟨r.id, system⟩) = w.alerts.filter (·.key = ⟨r.id, system⟩)) ?_ ?_
  · exact ⟨by simpa using agree, rfl, rfl⟩
  · rintro v events c hc ⟨hagree, hstates, hrows⟩
    obtain ⟨hs, hf⟩ := step_other store hagree (hall c hc)
    refine ⟨?_, hs.trans hstates, hf.trans hrows⟩
    rw [List.map_append, ← List.append_assoc]
    exact agree_step (hok c.key) hagree

end evaluate

theorem run_append (stored : List AlertRule) (now : ℤ) (ops : List Op) (op : Op) :
    Hub.run stored now (ops ++ [op]) = (Hub.run stored now ops).apply op := List.foldl_concat ..

theorem readings_snoc (r : AlertRule) (samples : List Sample) (s : Sample) :
    readings r (samples ++ [s]) =
      readings r samples ++ ((s.point r.metric).map (Point.reading r)).toList := by
  rw [readings, history, List.filterMap_append, List.map_append]
  cases h : s.point r.metric <;> simp [h, readings, history]

section samples
variable {stored : List AlertRule} {now : ℤ} {ops : List Op} {r : AlertRule} {system : ℕ+}

theorem run_tracks (ids : ((Hub.run stored now ops).state.rules.map AlertRule.id).Nodup)
    (hr : r ∈ (Hub.run stored now ops).state.rules) (hm : r.metric ≠ .offline)
    (happly : appliesTo r system)
    (hnone : (Hub.run stored now ops).state.states ⟨r.id, system⟩ = none) (samples : List Sample) :
    let h := Hub.run stored now (ops ++ samples.map (Sample.op system))
    h.state.rules = (Hub.run stored now ops).state.rules ∧
      Tracks (h.state.states ⟨r.id, system⟩) ((readings r samples).foldl r.step .off) := by
  induction samples using List.reverseRecOn with
  | nil =>
    simp only [List.map_nil, List.append_nil]
    exact ⟨trivial, hnone ▸ tracks_none⟩
  | append_singleton samples s ih =>
    obtain ⟨hrules, htracks⟩ := ih
    simp only [List.map_append, List.map_singleton, ← List.append_assoc, run_append]
    have agree := agree_run stored now (ops ++ samples.map (Sample.op system))
    generalize Hub.run stored now (ops ++ samples.map (Sample.op system)) = h at *
    rw [← hrules] at ids hr
    change (evaluateMetrics _ h.state system s.metrics s.now).1.rules = _ ∧
      Tracks ((evaluateMetrics _ h.state system s.metrics s.now).1.states _) _
    rw [readings_snoc, List.foldl_append]
    refine ⟨(stepAll_frame _ _ _).1.trans hrules, ?_⟩
    cases hv : metricValue r.metric s.metrics with
    | none =>
      rw [(evaluateMetrics_undefined agree (fun _ => rfl) ids hr hv).1]
      simpa [Sample.point, hv] using htracks
    | some v =>
      simpa [Sample.point, hv] using evaluateMetrics_tracks ids hr hm happly (fun _ => rfl) hv htracks

def reading (r : AlertRule) (samples : List Sample) : ℕ → Reading := nth (readings r samples)

theorem monotonic_reading {samples : List Sample}
    (sorted : (samples.map Sample.now).Pairwise (· ≤ ·)) :
    Monotonic (reading r samples) (readings r samples).length := by
  have htimes : ((readings r samples).map Reading.time).Pairwise (· ≤ ·) := by
    refine sorted.sublist ?_
    induction samples using List.reverseRecOn with
    | nil => exact List.Sublist.refl _
    | append_singleton samples s ih =>
      rw [readings_snoc, List.map_append, List.map_append]
      refine (ih (List.pairwise_append.1 (List.map_append ▸ sorted)).1).append ?_
      cases hv : metricValue r.metric s.metrics <;> simp [Sample.point, hv, Point.reading]
  intro i j hij hj
  rcases hij.eq_or_lt with rfl | hlt
  · exact le_refl _
  · have hi : i < (readings r samples).length := hlt.trans hj
    rw [reading, nth, nth, List.getD_eq_getElem _ _ hi, List.getD_eq_getElem _ _ hj]
    have := List.pairwise_iff_getElem.1 htimes i j (by simpa using hi) (by simpa using hj) hlt
    simpa using this

/-- Threshold alerts fire and clear as the history of the values says, with the start of
the run in which they fired, and undefined values change nothing. -/
theorem threshold_alert (ids : ((Hub.run stored now ops).state.rules.map AlertRule.id).Nodup)
    (hr : r ∈ (Hub.run stored now ops).state.rules) (hm : r.metric ≠ .offline)
    (happly : appliesTo r system)
    (hnone : (Hub.run stored now ops).state.states ⟨r.id, system⟩ = none) (samples : List Sample)
    (sorted : (samples.map Sample.now).Pairwise (· ≤ ·)) :
    let w := (Hub.run stored now (ops ++ samples.map (Sample.op system))).state
    let x := reading r samples
    let n := (history r.metric samples).length
    ((∃ a ∈ w.alerts, a.key = ⟨r.id, system⟩ ∧ a.active) ↔ On r.rise alertClearDelay x n) ∧
    (∀ a ∈ w.alerts, a.key = ⟨r.id, system⟩ → a.active →
      ∃ j k, Unbroken x true j (k + 1) ∧ k < n ∧ r.rise ≤ (x k).time - (x j).time ∧
        ¬ On r.rise alertClearDelay x k ∧ (∀ m, k < m → m < n → ¬ Calm alertClearDelay x k m) ∧
        a.startedAt = unix (x j).time) ∧
    ∀ names m now, metricValue r.metric m = none →
      let w' := (evaluateMetrics (succeeding names) w system m now).1
      w'.states ⟨r.id, system⟩ = w.states ⟨r.id, system⟩ ∧
        w'.alerts.filter (·.key = ⟨r.id, system⟩) = w.alerts.filter (·.key = ⟨r.id, system⟩) := by
  intro w x n
  obtain ⟨hrules, htracks⟩ := run_tracks ids hr hm happly hnone samples
  have agree := agree_run stored now (ops ++ samples.map (Sample.op system))
  have hn : n = (readings r samples).length := by simp [n, readings]
  have mono : Monotonic x n := hn ▸ monotonic_reading sorted
  have hwatch : (readings r samples).foldl r.step .off = watch r.rise alertClearDelay x n := by
    rw [hn]
    exact watch_nth _ _ _
  rw [hwatch] at htracks
  have halert : (w.alertOf ⟨r.id, system⟩).map Alert.startedAt =
      (watch r.rise alertClearDelay x n).on.map unix := htracks.alert
  refine ⟨?_, ?_, ?_⟩
  · rw [← watch_on_iff mono]
    constructor
    · rintro ⟨a, ha, hkey, hactive⟩ hoff
      rw [(agree.held _ a).2 ⟨ha, hkey, hactive⟩, hoff] at halert
      cases halert
    · intro hon
      cases ha : w.alertOf ⟨r.id, system⟩ with
      | none =>
        rw [ha] at halert
        exact absurd (Option.map_eq_none_iff.1 halert.symm) hon
      | some a => exact ⟨a, (agree.held _ a).1 ha⟩
  · intro a ha hkey hactive
    rw [(agree.held _ a).2 ⟨ha, hkey, hactive⟩] at halert
    obtain ⟨t, ht, hstart⟩ := Option.map_eq_some_iff.1 halert.symm
    obtain ⟨j, k, hj, rfl, hk, hrise, hoff, hquiet⟩ := (watch_traces _ _ mono).on_some t ht
    exact ⟨j, k, hj, hk, hrise, hoff, hquiet, hstart.symm⟩
  · intro names m now hv
    exact evaluateMetrics_undefined agree (fun _ => rfl) (hrules ▸ ids) (hrules ▸ hr) hv

def busyRule : AlertRule := ⟨1, "Busy", none, .cpu, 50, 60, [], true⟩

def busyAt (seconds : ℤ) : Sample :=
  ⟨fun _ => "web-1", ⟨80, 0, 0, 0, 0, 0, 0, 0, 0, 0, 0, 0, 0, 0⟩, seconds * second⟩

/-- Busy for 61 seconds: the alert of the second sample is still active after the third. -/
theorem threshold_alert_busy :
    On busyRule.rise alertClearDelay (reading busyRule [busyAt 0, busyAt 61, busyAt 120]) 3 := by
  refine (@threshold_alert [busyRule] 0 [] busyRule 1 (by decide) (by decide) (by decide)
    (by decide) rfl [busyAt 0, busyAt 61, busyAt 120] (by decide)).1.1 ?_
  decide +kernel

end samples

end Lotse.Alerts
