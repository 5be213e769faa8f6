import Lotse.AlertHistory
import Lotse.Runs

set_option autoImplicit false

namespace Lotse.Alerts
open Samples Rows Runs

inductive Evaluation where
  | metrics (store : Answers) (system : ℕ+) (m : Metrics) (now : ℤ)
  | offline (store : Answers) (systems : List ℕ+) (online : ℕ+ → Bool) (now : ℤ)

namespace Evaluation

def store : Evaluation → Answers
  | metrics store _ _ _ => store
  | offline store _ _ _ => store

def calls (w : State) : Evaluation → List Call
  | metrics _ system m now => metricCalls w system m now
  | offline _ systems online now => offlineCalls w systems online now

end Evaluation

def Hub.evaluate (h : Hub) : Evaluation → Hub
  | .metrics store system m now => h.dispatch (evaluateMetrics store h.state system m now)
  | .offline store systems online now => h.dispatch (evaluateOffline store h.state systems online now)

/-- `step` gets to `ResolveAlert`: the pair has an alert and is back to normal for long enough. -/
def ResolveDue (w : State) (c : Call) : Prop :=
  c.holds = false ∧ w.alertOf c.key ≠ none ∧
    c.clearDelay ≤ c.now - ((w.states c.key).bind AlertState.clearSince).getD c.now

instance (w : State) (c : Call) : Decidable (ResolveDue w c) :=
  inferInstanceAs (Decidable (_ ∧ _))

def ResolvesStored (store : Answers) (w : State) (calls : List Call) : Prop :=
  Meets (fun w c => some (step store w c).1) (fun w c => ResolveDue w c → store.ok c.key = true)
    w calls

instance (store : Answers) (w : State) (calls : List Call) :
    Decidable (ResolvesStored store w calls) :=
  inferInstanceAs (Decidable (Meets _ _ w calls))

/-- The events are the rows that were created and closed, and every unresolved row is the
alert of its pair's state. -/
structure Remembered (h : Hub) : Prop where
  firings : firings h.history = h.state.inserted
  resolutions : resolutions h.history = h.state.closed
  held : ∀ a ∈ h.state.alerts, a.active → h.state.alertOf a.key = some a

structure Short (w : State) (log : List Entry) : Prop where
  ids : (w.alerts.map Alert.id).Nodup
  missing : w.closed.length < (resolutions log).length

section step
variable {store : Answers} {w : State} {c : Call} {log : List Entry}

theorem resolutions_append (log more : List Entry) :
    resolutions (log ++ more) = resolutions log ++ resolutions more := List.filterMap_append

theorem clearSince_getD (w : State) (c : Call) :
    ((w.states c.key).getD ⟨none, none, none⟩).clearSince =
      (w.states c.key).bind AlertState.clearSince := by
  cases w.states c.key <;> rfl

/-- Apart from `ResolveAlert`, a failed write is as if nothing was due yet. -/
theorem step_failing (failed : store.ok c.key = false) (hdue : ¬ ResolveDue w c) :
    ∃ st : Option AlertState, st.bind AlertState.alert = w.alertOf c.key ∧
      step store w c = (w.setState c.key st, none) := by
  obtain ⟨halert, hsince⟩ := getD_state w c
  unfold step
  simp only [halert, hsince, clearSince_getD]
  cases hc : c.holds with
  | true =>
    refine ⟨some ⟨some (sinceOf w c), none, w.alertOf c.key⟩, rfl, ?_⟩
    simp [failed]
  | false =>
    simp only [Bool.false_eq_true, if_false]
    cases ha : w.alertOf c.key with
    | none => exact ⟨none, rfl, rfl⟩
    | some a =>
      have hearly : c.now - ((w.states c.key).bind AlertState.clearSince).getD c.now <
          c.clearDelay := by
        by_contra hlate
        exact hdue ⟨hc, by simp [ha], by omega⟩
      exact ⟨some ⟨none, some _, some a⟩, rfl, if_pos hearly⟩

theorem step_lost (failed : store.ok c.key = false) (hdue : ResolveDue w c) :
    ∃ a, step store w c = (w.setState c.key none, some ⟨c.rule, a, false, c.value⟩) := by
  obtain ⟨hc, halert, hlate⟩ := hdue
  obtain ⟨a, ha⟩ := Option.ne_none_iff_exists'.1 halert
  obtain ⟨hstate, -⟩ := getD_state w c
  refine ⟨a, ?_⟩
  unfold step
  simp only [hstate, hc, ha, clearSince_getD, Bool.false_eq_true, if_false]
  rw [if_neg (by omega), failed]
  rfl

theorem agree_step_failing (h : Agree w log) (hok : ResolveDue w c → store.ok c.key = true) :
    Agree (step store w c).1 (log ++ (step store w c).2.toList.map .event) := by
  cases hstore : store.ok c.key with
  | true => exact agree_step hstore h
  | false =>
    have hdue : ¬ ResolveDue w c := fun hdue => by simp [hok hdue] at hstore
    obtain ⟨st, hst, hstep⟩ := step_failing hstore hdue
    rw [hstep]
    exact (List.append_nil log).symm ▸ agree_setState h hst

theorem short_of_lost (h : Agree w log) (hdue : ResolveDue w c) (failed : store.ok c.key = false) :
    Short (step store w c).1 (log ++ (step store w c).2.toList.map .event) := by
  obtain ⟨a, hstep⟩ := step_lost failed hdue
  rw [hstep]
  refine ⟨h.ids, ?_⟩
  rw [resolutions_append, h.resolutions]
  simp [resolutions, State.setState]

theorem closed_le_one (ids : (w.alerts.map Alert.id).Nodup) (id : ℕ) :
    (w.alerts.filter fun b => b.id = id ∧ b.active).length ≤ 1 := by
  cases h : w.alerts.filter fun b => b.id = id ∧ b.active with
  | nil => exact Nat.zero_le _
  | cons b rest =>
    have hb : b ∈ w.alerts.filter fun b => b.id = id ∧ b.active := h ▸ List.mem_cons_self
    obtain ⟨hmem, hrow⟩ := List.mem_filter.1 hb
    obtain ⟨rfl, hactive⟩ := of_decide_eq_true hrow
    rw [← h, filter_id_active ids hmem hactive]
    rfl

theorem short_step (h : Short w log) :
    Short (step store w c).1 (log ++ (step store w c).2.toList.map .event) := by
  obtain ⟨ids, missing⟩ := h
  have effect := step_effect store w c
  generalize (step store w c).1 = w' at effect
  generalize (step store w c).2 = event at effect
  cases effect with
  | waits | forgets | clears =>
    refine ⟨ids, ?_⟩
    simpa [State.setState] using missing
  | unresolved =>
    refine ⟨ids, ?_⟩
    rw [resolutions_append, List.length_append]
    exact missing.trans_le (Nat.le_add_right _ _)
  | fires _ _ _ a =>
    refine ⟨nodup_append ids (lookup_nextId _), ?_⟩
    simpa [resolutions_append, resolutions, State.setState, State.createAlert] using missing
  | resolves _ a ha time =>
    have hone := closed_le_one ids a.id
    refine ⟨?_, ?_⟩
    · change ((w.alerts.map _).map Alert.id).Nodup
      rw [map_id_resolve]
      exact ids
    · change (w.closed ++ w.alerts.filter _).length < _
      rw [resolutions_append, List.length_append, List.length_append]
      change _ + _ < _ + 1
      omega

theorem short_stepAll (h : Short w log) (calls : List Call) :
    Short (stepAll store w calls).1 (log ++ (stepAll store w calls).2.map .event) := by
  refine stepAll_invariant (J := fun w events => Short w (log ++ events.map .event)) ?_ ?_
  · simpa using h
  · intro w events c _ hw
    rw [List.map_append, ← List.append_assoc]
    exact short_step hw

theorem agree_or_short (store : Answers) (h : Agree w log) (calls : List Call) :
    (ResolvesStored store w calls →
      Agree (stepAll store w calls).1 (log ++ (stepAll store w calls).2.map .event)) ∧
    (¬ ResolvesStored store w calls →
      Short (stepAll store w calls).1 (log ++ (stepAll store w calls).2.map .event)) := by
  induction calls generalizing w log with
  | nil => exact ⟨fun _ => by simpa [stepAll] using h, fun hno => absurd trivial hno⟩
  | cons c calls ih =>
    rw [stepAll_cons, List.map_append, ← List.append_assoc]
    by_cases hok : ResolveDue w c → store.ok c.key = true
    · obtain ⟨hagree, hshort⟩ := ih (agree_step_failing h hok)
      refine ⟨fun hmeets => hagree (hmeets.2 _ rfl), fun hno => hshort fun hmeets => hno ?_⟩
      refine ⟨hok, ?_⟩
      rintro _ ⟨⟩
      exact hmeets
    · refine ⟨fun hmeets => absurd hmeets.1 hok, fun _ => ?_⟩
      push Not at hok
      exact short_stepAll (short_of_lost h hok.1 (Bool.not_eq_true _ ▸ hok.2)) calls

end step

theorem evaluate_eq (h : Hub) (e : Evaluation) :
    h.evaluate e = h.dispatch (stepAll e.store h.state (e.calls h.state)) := by
  cases e <;> rfl

def Stored (h : Hub) (e : Evaluation) : Prop := ResolvesStored e.store h.state (e.calls h.state)

instance (h : Hub) (e : Evaluation) : Decidable (Stored h e) :=
  inferInstanceAs (Decidable (ResolvesStored _ _ _))

theorem evaluations_agree {h : Hub} (agree : Agree h.state h.history) (evals : List Evaluation) :
    (Meets (fun h e => some (h.evaluate e)) Stored h evals →
      Agree (evals.foldl Hub.evaluate h).state (evals.foldl Hub.evaluate h).history) ∧
    (¬ Meets (fun h e => some (h.evaluate e)) Stored h evals →
      Short (evals.foldl Hub.evaluate h).state (evals.foldl Hub.evaluate h).history) := by
  have hshort : ∀ (evals : List Evaluation) (h : Hub), Short h.state h.history →
      Short (evals.foldl Hub.evaluate h).state (evals.foldl Hub.evaluate h).history := by
    intro evals
    induction evals with
    | nil => exact fun _ hs => hs
    | cons e evals ih =>
      intro h hs
      refine ih _ ?_
      rw [evaluate_eq]
      exact short_stepAll hs _
  induction evals generalizing h with
  | nil => exact ⟨fun _ => agree, fun hno => absurd trivial hno⟩
  | cons e evals ih =>
    obtain ⟨hkept, hlost⟩ := agree_or_short e.store agree (e.calls h.state)
    by_cases hstored : Stored h e
    · have hnext : Agree (h.evaluate e).state (h.evaluate e).history := by
        rw [evaluate_eq]
        exact hkept hstored
      obtain ⟨hagree, hmissing⟩ := ih hnext
      refine ⟨fun hmeets => hagree (hmeets.2 _ rfl), fun hno => hmissing fun hmeets => hno ?_⟩
      refine ⟨hstored, ?_⟩
      rintro _ ⟨⟩
      exact hmeets
    · refine ⟨fun hmeets => absurd hmeets.1 hstored, fun _ => hshort evals _ ?_⟩
      rw [evaluate_eq]
      exact hlost hstored

structure Fresh (w : State) : Prop where
  states : ∀ k, w.states k = none
  resolved : ∀ a ∈ w.alerts, a.active = false
  ids : (w.alerts.map Alert.id).Nodup
  history : w.inserted = [] ∧ w.closed = []

theorem agree_fresh {w : State} (h : Fresh w) : Agree w [] where
  ids := h.ids
  held k a := by
    rw [State.alertOf, h.states]
    constructor
    · intro hnone
      cases hnone
    · rintro ⟨ha, -, hactive⟩
      rw [h.resolved a ha] at hactive
      cases hactive
  firings := h.history.1.symm
  resolutions := h.history.2.symm
  alternating e before after heq := by simp at heq
  firing k := by
    rw [State.alertOf, h.states]
    rfl

/-- No failed write is forgotten exactly if no `ResolveAlert` of the run fails. -/
theorem failed_writes_remembered {w : State} (fresh : Fresh w) (evals : List Evaluation) :
    Remembered (evals.foldl Hub.evaluate ⟨w, []⟩) ↔
      Meets (fun h e => some (h.evaluate e)) Stored ⟨w, []⟩ evals := by
  obtain ⟨hagree, hshort⟩ := evaluations_agree (h := ⟨w, []⟩) (agree_fresh fresh) evals
  constructor
  · intro hrem
    by_contra hno
    have hmissing := (hshort hno).missing
    rw [hrem.resolutions] at hmissing
    exact lt_irrefl _ hmissing
  · intro hmeets
    have agree := hagree hmeets
    exact ⟨agree.firings, agree.resolutions, fun a ha hactive =>
      (agree.held a.key a).2 ⟨ha, rfl, hactive⟩⟩

def spikeRule : AlertRule := ⟨1, "Spike", none, .cpu, 50, 0, [], true⟩

def cpuSample (ok : Bool) (cpu : ℚ) (seconds : ℤ) : Evaluation :=
  .metrics ⟨fun _ => "web-1", fun _ => ok⟩ 1 ⟨cpu, 0, 0, 0, 0, 0, 0, 0, 0, 0, 0, 0, 0, 0⟩
    (seconds * second)

theorem fresh_initial (stored : List AlertRule) (now : ℤ) : Fresh (initial stored now) :=
  ⟨fun _ => rfl, by simp [initial], List.nodup_nil, rfl, rfl⟩

theorem failed_writes_remembered_retried :
    Remembered ([cpuSample false 80 0, cpuSample false 80 10, cpuSample true 80 20].foldl
      Hub.evaluate ⟨initial [spikeRule] 0, []⟩) :=
  (failed_writes_remembered (fresh_initial [spikeRule] 0) _).2 (by decide +kernel)

/-- `ResolveAlert` fails once: the resolved event is sent, and the row stays unresolved
without a state that would close it. -/
theorem failed_resolve_forgotten :
    let h := [cpuSample true 80 0, cpuSample true 10 10, cpuSample false 10 70].foldl
      Hub.evaluate ⟨initial [spikeRule] 0, []⟩
    ¬ Remembered h ∧ h.state.alerts.any (fun a => a.active && (h.state.alertOf a.key).isNone) := by
  refine ⟨fun h => absurd h.resolutions ?_, ?_⟩
  · decide +kernel
  · decide +kernel

end Lotse.Alerts
