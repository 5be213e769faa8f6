import Lotse.GatewayMachine

set_option autoImplicit false

namespace Lotse.Gateway
open Alerts Samples Rows Tasks

def NoGoneAlerts (g : State) : Prop :=
  ∀ id ∈ g.gone, ∀ a ∈ g.alerts.alerts, a.active → a.systemID ≠ id

instance (g : State) : Decidable (NoGoneAlerts g) :=
  inferInstanceAs (Decidable (∀ id ∈ g.gone, ∀ a ∈ g.alerts.alerts, a.active → a.systemID ≠ id))

/-- The rule of the call is not due: its condition does not hold, or has not held for
the rule's duration. -/
def NotDue (w : Alerts.State) (c : Call) : Prop :=
  c.holds = true → c.now - sinceOf w c < c.rule.duration * second

instance (w : Alerts.State) (c : Call) : Decidable (NotDue w c) := inferInstanceAs (Decidable (_ → _))

/-- The condition on a step, in the state before it: at an evaluation no rule is due for a
system whose deletion has returned, and where the statement of `resetAlerts` fails, the
deleted system has no active alert. -/
def LateNotDue (cfg : Config State Instr) : Instr → Prop
  | .evaluateMetrics id m now => id ∈ cfg.global.gone →
      ∀ c ∈ metricCalls cfg.global.alerts id m now, NotDue cfg.global.alerts c
  | .evaluateOffline now systems =>
      ∀ c ∈ offlineCalls cfg.global.alerts systems cfg.global.online now,
        c.system ∈ cfg.global.gone → NotDue cfg.global.alerts c
  | .resetAlerts id ok => ok = false → ∀ a ∈ cfg.global.alerts.alerts, a.active → a.systemID ≠ id
  | _ => True

instance (cfg : Config State Instr) : (ins : Instr) → Decidable (LateNotDue cfg ins)
  | .evaluateMetrics id m now => inferInstanceAs (Decidable (id ∈ cfg.global.gone →
      ∀ c ∈ metricCalls cfg.global.alerts id m now, NotDue cfg.global.alerts c))
  | .evaluateOffline now systems => inferInstanceAs (Decidable (
      ∀ c ∈ offlineCalls cfg.global.alerts systems cfg.global.online now,
        c.system ∈ cfg.global.gone → NotDue cfg.global.alerts c))
  | .resetAlerts id ok => inferInstanceAs (Decidable (ok = false →
      ∀ a ∈ cfg.global.alerts.alerts, a.active → a.systemID ≠ id))
  | .admitAgent .. | .validEnrollToken .. | .createSystem .. | .register .. | .agentOnline _
  | .recheck .. | .refuse .. | .serve .. | .record .. | .liveState .. | .addSample ..
  | .unregister .. | .agentOffline _ | .lookupSystem _ | .deleteRow _ | .dropLink _
  | .now | .systems _ | .pruneAlerts | .tick _ => .isTrue trivial

section evaluate
variable {store : Answers} {w w' : Alerts.State} {gone : List ℕ+} {calls : List Call} {c d : Call}

def Fewer (w' w : Alerts.State) : Prop := ∀ a ∈ w'.alerts, a.active → a ∈ w.alerts

def Spared (gone : List ℕ+) (w : Alerts.State) : Prop :=
  ∀ a ∈ w.alerts, a.active → a.systemID ∉ gone

theorem Spared.fewer (h : Spared gone w) (hf : Fewer w' w) : Spared gone w' :=
  fun a ha hactive => h a (hf a ha hactive) hactive

theorem fewer_resolveAlert (w : Alerts.State) (id : ℕ) (time : ℤ) :
    Fewer (w.resolveAlert id time) w := by
  intro a ha hactive
  obtain ⟨b, hb, rfl⟩ := List.mem_map.1 ha
  split_ifs at hactive ⊢
  · cases hactive
  · exact hb

theorem step_spared (hok : c.system ∈ gone → NotDue w c) (h : Spared gone w) :
    Spared gone (step store w c).1 := by
  have effect := step_effect store w c
  generalize (step store w c).1 = w' at effect
  generalize (step store w c).2 = event at effect
  cases effect with
  | fires hc hn due a hk =>
    intro b hb hactive
    rcases List.mem_append.1 hb with hb | hb
    · exact h b hb hactive
    · obtain rfl := List.mem_singleton.1 hb
      intro hgone
      have hsys : a.systemID = c.system := congrArg AlertKey.system hk
      have := hok (hsys ▸ hgone) hc
      omega
  | resolves hc a ha time =>
    exact Spared.fewer (w := w.setState c.key none) h (fewer_resolveAlert _ _ _)
  | _ => exact h

theorem sinceOf_setState_ne {st : Option AlertState} {k : AlertKey} (hk : d.key ≠ k) :
    sinceOf (w.setState k st) d = sinceOf w d := by
  unfold sinceOf
  rw [show (w.setState k st).states d.key = w.states d.key from Function.update_of_ne hk _ _]

theorem sinceOf_setState_self {since : ℤ} {clear : Option ℤ} {a : Option Alert} :
    sinceOf (w.setState c.key (some ⟨some since, clear, a⟩)) c = since := by
  unfold sinceOf
  rw [show (w.setState c.key (some ⟨some since, clear, a⟩)).states c.key = some ⟨some since, clear, a⟩
    from Function.update_self ..]
  rfl

theorem step_notDue (hkey : d.key = c.key → d = c) (hd : NotDue w d) :
    NotDue (step store w c).1 d := by
  have effect := step_effect store w c
  generalize (step store w c).1 = w' at effect
  generalize (step store w c).2 = event at effect
  by_cases hk : d.key = c.key
  · obtain rfl := hkey hk
    cases effect with
    | waits hc =>
      intro hh
      rw [sinceOf_setState_self]
      exact hd hh
    | fires hc hn due a =>
      intro hh
      rw [sinceOf_setState_self]
      exact hd hh
    | forgets hc | clears hc | resolves hc | unresolved hc =>
      intro hh
      rw [hc] at hh
      cases hh
  · intro hh
    have hsame : sinceOf w' d = sinceOf w d := by
      cases effect with
      | waits | forgets | clears | unresolved => exact sinceOf_setState_ne hk
      | fires hc hn due a => exact sinceOf_setState_ne (w := (w.createAlert a).1) hk
      | resolves => exact sinceOf_setState_ne hk
    rw [hsame]
    exact hd hh

theorem stepAll_spared (hkey : ∀ c ∈ calls, ∀ d ∈ calls, d.key = c.key → d = c)
    (hok : ∀ c ∈ calls, c.system ∈ gone → NotDue w c) (h : Spared gone w) :
    Spared gone (stepAll store w calls).1 := by
  suffices hall : Spared gone (stepAll store w calls).1 ∧
      ∀ c ∈ calls, c.system ∈ gone → NotDue (stepAll store w calls).1 c from hall.1
  refine stepAll_invariant (J := fun w _ => Spared gone w ∧
    ∀ c ∈ calls, c.system ∈ gone → NotDue w c) ⟨h, hok⟩ ?_
  rintro w events c hc ⟨h, hok⟩
  exact ⟨step_spared (hok c hc) h, fun d hd hgone => step_notDue (hkey c hc d hd) (hok d hd hgone)⟩

theorem metricCalls_key {id : ℕ+} {m : Metrics} {now : ℤ} (hids : (w.rules.map AlertRule.id).Nodup) :
    ∀ c ∈ metricCalls w id m now, ∀ d ∈ metricCalls w id m now, d.key = c.key → d = c := by
  intro c hc d hd hk
  obtain ⟨r, hr, hcr⟩ := List.mem_filterMap.1 hc
  obtain ⟨q, hq, hdq⟩ := List.mem_filterMap.1 hd
  have hrule : ∀ {r : AlertRule} {c : Call}, (if r.metric = .offline ∨ ¬ appliesTo r id then none
      else (metricValue r.metric m).map fun v =>
        (⟨r, id, r.threshold < v, v, now, now, alertClearDelay⟩ : Call)) = some c → c.rule = r := by
    intro r c h
    split_ifs at h
    obtain ⟨v, -, rfl⟩ := Option.map_eq_some_iff.1 h
    rfl
  have hid : q.id = r.id := by
    rw [← hrule hcr, ← hrule hdq]
    exact congrArg AlertKey.rule hk
  obtain rfl := List.inj_on_of_nodup_map hids hq hr hid
  exact Option.some.inj (hdq.symm.trans hcr)

theorem offlineCalls_key {systems : List ℕ+} {online : ℕ+ → Bool} {now : ℤ}
    (hids : (w.rules.map AlertRule.id).Nodup) :
    ∀ c ∈ offlineCalls w systems online now, ∀ d ∈ offlineCalls w systems online now,
      d.key = c.key → d = c := by
  have hshape : ∀ c ∈ offlineCalls w systems online now, c.rule ∈ w.rules ∧
      c = ⟨c.rule, c.system, !online c.system, 0, (w.offline c.system).getD w.started, now, 0⟩ := by
    intro c hc
    obtain ⟨r, hr, hc⟩ := List.mem_flatMap.1 hc
    split_ifs at hc
    · cases hc
    · obtain ⟨id, -, rfl⟩ := List.mem_map.1 hc
      exact ⟨hr, rfl⟩
  intro c hc d hd hk
  obtain ⟨hcr, hc⟩ := hshape c hc
  obtain ⟨hdr, hd⟩ := hshape d hd
  have hrule := List.inj_on_of_nodup_map hids hdr hcr (congrArg AlertKey.rule hk)
  have hsys : d.system = c.system := congrArg AlertKey.system hk
  rw [hc, hd, hrule, hsys]

end evaluate

structure AlertInv (g : State) : Prop where
  ids : (g.alerts.rules.map AlertRule.id).Nodup
  spared : Spared g.gone g.alerts

section step
variable {g g' : State} {id : ℕ+}

theorem AlertInv.keep (inv : AlertInv g) (hrules : g'.alerts.rules = g.alerts.rules)
    (hrows : Fewer g'.alerts g.alerts) (hgone : g'.gone ⊆ g.gone) : AlertInv g' :=
  ⟨hrules ▸ inv.ids, fun a ha hactive hmem =>
    inv.spared.fewer hrows a ha hactive (hgone hmem)⟩

theorem AlertInv.frame (inv : AlertInv g) (h : g'.alerts = g.alerts ∧ g'.gone = g.gone) :
    AlertInv g' :=
  ⟨h.1 ▸ inv.ids, h.1 ▸ h.2 ▸ inv.spared⟩

theorem unlink_frame (g : State) (id : ℕ+) (cid : ℕ) :
    (g.unlink id cid).alerts = g.alerts ∧ (g.unlink id cid).gone = g.gone := by
  unfold State.unlink
  split_ifs <;> exact ⟨rfl, rfl⟩

theorem pass_frame (g : State) (id : ℕ+) (cid : ℕ) :
    (g.pass id cid).alerts = g.alerts ∧ (g.pass id cid).gone = g.gone := by
  unfold State.pass
  split_ifs <;> exact ⟨rfl, rfl⟩

theorem liveState_frame (g : State) (id : ℕ+) :
    (g.liveState id).1.alerts = g.alerts ∧ (g.liveState id).1.gone = g.gone := by
  unfold State.liveState
  split <;> exact ⟨rfl, rfl⟩

theorem resetAlerts_closes (stored : List AlertRule) (w : Alerts.State) (id : ℕ+) (now : ℤ) :
    Fewer (Alerts.resetAlerts true stored w 0 id now) w ∧
      ∀ a ∈ (Alerts.resetAlerts true stored w 0 id now).alerts, a.active → a.systemID ≠ id := by
  have hrow : ∀ a ∈ (Alerts.resetAlerts true stored w 0 id now).alerts, a.active →
      a ∈ w.alerts ∧ a.systemID ≠ id := by
    intro a ha hactive
    obtain ⟨b, hb, rfl⟩ := List.mem_map.1 ha
    split_ifs at hactive ⊢ with hif
    · cases hactive
    · refine ⟨hb, fun he => hif ⟨hactive, .inr ⟨id.ne_zero, congrArg PNat.val he⟩⟩⟩
  exact ⟨fun a ha hactive => (hrow a ha hactive).1, fun a ha hactive => (hrow a ha hactive).2⟩

theorem alertInv_resetAlerts {ok : Bool} (inv : AlertInv g)
    (hok : ok = false → ∀ a ∈ g.alerts.alerts, a.active → a.systemID ≠ id) :
    AlertInv (g.resetAlerts id ok) := by
  obtain ⟨hfewer, hclosed⟩ :
      Fewer (Alerts.resetAlerts ok g.stored.rows g.alerts 0 id g.clock) g.alerts ∧
      ∀ a ∈ (Alerts.resetAlerts ok g.stored.rows g.alerts 0 id g.clock).alerts, a.active →
        a.systemID ≠ id := by
    cases ok with
    | true => exact resetAlerts_closes g.stored.rows g.alerts id g.clock
    | false => exact ⟨fun a ha _ => ha, hok rfl⟩
  have hrules : (g.resetAlerts id ok).alerts.rules = g.alerts.rules := by
    cases ok <;> rfl
  refine ⟨hrules ▸ inv.ids, fun a ha hactive hmem => ?_⟩
  have hold : a.systemID ∉ g.gone := inv.spared.fewer hfewer a ha hactive
  simp only [State.resetAlerts] at hmem
  split_ifs at hmem
  · exact hold hmem
  · rcases List.mem_cons.1 hmem with he | hmem
    · exact hclosed a ha hactive he
    · exact hold hmem

theorem alertInv_evaluate {store : Answers} {calls : List Call} (inv : AlertInv g)
    (hkey : ∀ c ∈ calls, ∀ d ∈ calls, d.key = c.key → d = c)
    (hok : ∀ c ∈ calls, c.system ∈ g.gone → NotDue g.alerts c) :
    AlertInv { g with alerts := (stepAll store g.alerts calls).1 } := by
  refine ⟨?_, stepAll_spared hkey hok inv.spared⟩
  rw [(stepAll_frame store g.alerts calls).1]
  exact inv.ids

theorem metricCalls_system {w : Alerts.State} {m : Metrics} {now : ℤ} {c : Call}
    (h : c ∈ metricCalls w id m now) : c.system = id := by
  obtain ⟨r, -, hc⟩ := List.mem_filterMap.1 h
  split_ifs at hc
  obtain ⟨v, -, rfl⟩ := Option.map_eq_some_iff.1 hc
  rfl

theorem alertInv_step {cfg : Config State Instr} {ins : Instr} (o : Oracle)
    (inv : AlertInv cfg.global) (hok : LateNotDue cfg ins) :
    AlertInv (atomic o cfg.global ins).1 := by
  cases ins with
  | evaluateMetrics id m now =>
    refine alertInv_evaluate inv (metricCalls_key inv.ids) fun c hc hgone => ?_
    rw [metricCalls_system hc] at hgone
    exact hok hgone c hc
  | evaluateOffline now systems => exact alertInv_evaluate inv (offlineCalls_key inv.ids) hok
  | resetAlerts id ok => exact alertInv_resetAlerts inv hok
  | pruneAlerts =>
    exact inv.keep rfl (fun a ha _ => List.mem_of_mem_filter ha) (List.Subset.refl _)
  | createSystem fingerprint name =>
    simp only [atomic]
    split_ifs
    · exact inv
    · exact inv.keep rfl (fun a ha _ => ha) fun id hid => List.mem_of_mem_filter hid
  | admitAgent | serve =>
    simp only [atomic]
    split <;> exact inv
  | recheck id cid fingerprint ok =>
    simp only [atomic]
    split_ifs
    · exact inv.frame (pass_frame _ _ _)
    · exact inv
  | liveState id fingerprint m now =>
    simp only [atomic]
    split_ifs
    · exact inv
    · exact inv.frame (liveState_frame _ _)
  | refuse | unregister => exact inv.frame (unlink_frame _ _ _)
  | agentOnline | agentOffline => exact inv.keep rfl (fun a ha _ => ha) (List.Subset.refl _)
  | _ => exact inv.frame ⟨rfl, rfl⟩

end step

/-- In every run in which no evaluation finds a rule due for a deleted system and no reset
fails that has an alert to close, deleted systems have no active alert. -/
theorem no_gone_alerts {stored : RuleTable} {now : ℤ} {acts : List (Action Oracle Request)}
    {cfg : Config State Instr}
    (hm : Runs.Meets machine.step (Machine.Guard LateNotDue) (init stored now) acts)
    (he : Runs.exec machine.step (init stored now) acts = some cfg) : NoGoneAlerts cfg.global := by
  have loaded : ∀ t : RuleTable, ((t.rows.filter AlertRule.enabled).map AlertRule.id).Nodup :=
    fun t => t.ids.sublist (List.filter_sublist.map _)
  have inv : AlertInv cfg.global := by
    refine machine.guarded_invariant (J := fun c => AlertInv c.global) (fun _ _ h => h) ?_ ?_ ?_ hm he
    · intro c i ins rest o out inv hok hi ho
      cases ho
      exact alertInv_step o inv hok
    · rintro c g inv ⟨⟩
      exact ⟨loaded c.global.stored, inv.spared⟩
    · exact ⟨loaded stored, fun a ha => absurd ha List.not_mem_nil⟩
  intro id hid a ha hactive he
  exact inv.spared a ha hactive (he ▸ hid)

def cpuRule : RuleTable := ⟨[⟨1, "CPU", none, .cpu, 90, 0, [], true⟩], by simp⟩

/-- An agent enrolls as system 1 and sends a sample; what is left to `record` is the
evaluation of the alerts. -/
def sampleInFlight : List (Action Oracle Request) := .start (.serveAgent 7 "web") :: steps 0 10

theorem no_gone_alerts_delete : ∃ acts cfg,
    Runs.Meets machine.step (Machine.Guard LateNotDue) (init cpuRule 0) acts ∧
    Runs.exec machine.step (init cpuRule 0) acts = some cfg ∧ cfg.global.gone = [1] ∧
    cfg.global.alerts.alerts.length = 1 ∧ NoGoneAlerts cfg.global := by
  let acts := sampleInFlight ++ steps 0 1 ++ .start (.deleteSystem 1) :: steps 1 4
  have hm : Runs.Meets machine.step (Machine.Guard LateNotDue) (init cpuRule 0) acts := by decide
  exact ⟨acts, _, hm, rfl, by decide, by decide, no_gone_alerts hm rfl⟩

/-- The system is deleted while `record` is between the check of its link and the
evaluation of the alerts: the late sample fires an alert that nothing closes. -/
theorem gone_system_alerts : ∃ acts cfg,
    Runs.exec machine.step (init cpuRule 0) acts = some cfg ∧ ¬ NoGoneAlerts cfg.global :=
  ⟨sampleInFlight ++ .start (.deleteSystem 1) :: steps 1 4 ++ steps 0 1, _, rfl, by decide⟩

end Lotse.Gateway
