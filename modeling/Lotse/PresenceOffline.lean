import Lotse.PresenceMachine

set_option autoImplicit false

namespace Lotse.Presence
open Alerts Tasks

/-- The system had no connection throughout the duration of the rule, or has not
connected since the hub started that long ago. -/
def Firing.Justified (f : Firing) : Prop :=
  f.online = false ∧ f.duration * second ≤ f.now - f.ended.getD f.started

instance (f : Firing) : Decidable f.Justified := inferInstanceAs (Decidable (_ ∧ _))

def NoFalseAlerts (g : State) : Prop := ∀ f ∈ g.fired, f.Justified

instance (g : State) : Decidable (NoFalseAlerts g) :=
  inferInstanceAs (Decidable (∀ f ∈ g.fired, f.Justified))

def Pending (cfg : Config State Instr) (id : ℕ+) : Prop := ∃ t ∈ cfg.tasks, .agentOffline id ∈ t

instance (cfg : Config State Instr) (id : ℕ+) : Decidable (Pending cfg id) :=
  inferInstanceAs (Decidable (∃ t ∈ cfg.tasks, .agentOffline id ∈ t))

def watches (r : AlertRule) (id : ℕ+) : Bool := r.metric = .offline ∧ appliesTo r id

/-- The condition on a step, in the state before it: `agentOnline` runs while the system
is connected; a connection is removed only after an evaluation has seen it, so that no
pair still waits with an older start; and no evaluation gives a pair its start
between the removal of a connection and its `agentOffline`. -/
def Orderly (cfg : Config State Instr) : Instr → Prop
  | .agentOnline id => (cfg.global.agents id).isSome
  | .unregister id conn => cfg.global.agents id = some conn →
      ∀ r ∈ cfg.global.alerts.rules, watches r id →
        ∀ st ∈ cfg.global.alerts.states ⟨r.id, id⟩, st.alert.isSome
  | .evaluateOffline _ systems => ∀ id ∈ systems, cfg.global.agents id = none → Pending cfg id →
      ∀ r ∈ cfg.global.alerts.rules, watches r id → (cfg.global.alerts.states ⟨r.id, id⟩).isSome
  | _ => True

instance (cfg : Config State Instr) : (ins : Instr) → Decidable (Orderly cfg ins)
  | .agentOnline id => inferInstanceAs (Decidable ((cfg.global.agents id).isSome = true))
  | .unregister id conn => inferInstanceAs (Decidable (cfg.global.agents id = some conn →
      ∀ r ∈ cfg.global.alerts.rules, watches r id →
        ∀ st ∈ cfg.global.alerts.states ⟨r.id, id⟩, st.alert.isSome))
  | .evaluateOffline _ systems => inferInstanceAs (Decidable (∀ id ∈ systems,
      cfg.global.agents id = none → Pending cfg id → ∀ r ∈ cfg.global.alerts.rules,
        watches r id → (cfg.global.alerts.states ⟨r.id, id⟩).isSome))
  | .register _ | .publish .. | .serve | .flushState | .agentOffline _ | .now | .systems _
  | .tick _ => .isTrue trivial

def NotSince (g : State) (id : ℕ+) (since : ℤ) : Prop := (g.ended id).getD g.alerts.started ≤ since

/-- Every pair that waits for a system without a connection counts from a time since
which the system has not been connected. -/
def Waiting (g : State) (w : Alerts.State) : Prop :=
  ∀ r ∈ g.alerts.rules, ∀ id, watches r id → g.agents id = none →
    ∀ st, w.states ⟨r.id, id⟩ = some st → st.alert = none →
      ∃ since, st.since = some since ∧ NotSince g id since

structure Inv (g : State) (pending : ℕ+ → Prop) : Prop where
  past : ∀ id time, g.ended id = some time → time ≤ g.clock
  unseen : ∀ id, g.ended id = none → g.alerts.offline id = none ∧ ¬ pending id
  offline : ∀ id time, g.agents id = none → g.ended id = some time → ¬ pending id →
    ∃ since, g.alerts.offline id = some since ∧ time ≤ since
  waiting : Waiting g g.alerts
  fired : NoFalseAlerts g

section evaluate
variable {g : State} {store : Answers} {now : ℤ} {systems : List ℕ+}

theorem mem_offlineCalls {w : Alerts.State} {online : ℕ+ → Bool} {c : Call}
    (h : c ∈ offlineCalls w systems online now) :
    c.rule ∈ w.rules ∧ watches c.rule c.system ∧ c.system ∈ systems ∧
      c.holds = !online c.system ∧ c.since = (w.offline c.system).getD w.started ∧ c.now = now := by
  obtain ⟨r, hr, hc⟩ := List.mem_flatMap.1 h
  split_ifs at hc with hm
  · cases hc
  · obtain ⟨id, hid, rfl⟩ := List.mem_map.1 hc
    obtain ⟨hsys, happ⟩ := List.mem_filter.1 hid
    exact ⟨hr, by simpa [watches] using ⟨not_not.1 hm, happ⟩, hsys, rfl, rfl, rfl⟩

/-- A call may set the start of its pair only to a time since which the system has not
been connected. -/
def CallOk (g : State) (w : Alerts.State) (c : Call) : Prop :=
  c.holds = true → (w.states c.key).isSome ∨ NotSince g c.system c.since

theorem notSince_sinceOf {w : Alerts.State} {c : Call} (hw : Waiting g w) (hr : c.rule ∈ g.alerts.rules)
    (hwatch : watches c.rule c.system) (hoff : g.agents c.system = none) (hc : c.holds = true)
    (hok : CallOk g w c) (hn : w.alertOf c.key = none) : NotSince g c.system (sinceOf w c) := by
  unfold sinceOf
  cases hst : w.states c.key with
  | none =>
    rcases hok hc with h | h
    · rw [hst] at h
      cases h
    · exact h
  | some st =>
    have halert : st.alert = none := by simpa [State.alertOf, hst] using hn
    obtain ⟨since, hs, hns⟩ := hw c.rule hr c.system hwatch hoff st hst halert
    simpa [hs] using hns

theorem waiting_setState {w : Alerts.State} {k : AlertKey} {new : Option AlertState}
    (hw : Waiting g w) (hnew : ∀ st, new = some st → st.alert = none → g.agents k.system = none →
      ∃ since, st.since = some since ∧ NotSince g k.system since) :
    Waiting g (w.setState k new) := by
  intro r hr id hwatch hoff st hst halert
  simp only [Alerts.State.setState, Function.update_apply] at hst
  split_ifs at hst with hk
  · subst hk
    exact hnew st hst halert hoff
  · exact hw r hr id hwatch hoff st hst halert

theorem callOk_setState {w : Alerts.State} {c d : Call} {new : Option AlertState}
    (hsame : d.system = c.system → d.holds = c.holds) (hnew : c.holds = true → new.isSome)
    (hd : CallOk g w d) : CallOk g (w.setState c.key new) d := by
  intro hholds
  by_cases hk : d.key = c.key
  · have hsys : d.system = c.system := congrArg AlertKey.system hk
    left
    simpa [Alerts.State.setState, hk] using hnew ((hsame hsys).symm.trans hholds)
  · simpa [Alerts.State.setState, hk] using hd hholds

def calls (g : State) (systems : List ℕ+) (now : ℤ) : List Call :=
  offlineCalls g.alerts systems (fun id => (g.agents id).isSome) now

theorem calls_spec {c : Call} (h : c ∈ calls g systems now) :
    c.rule ∈ g.alerts.rules ∧ watches c.rule c.system ∧ c.now = now ∧
      (c.holds = true ↔ g.agents c.system = none) := by
  obtain ⟨hr, hwatch, -, hholds, -, hnow⟩ := mem_offlineCalls h
  exact ⟨hr, hwatch, hnow, by rw [hholds]; simp⟩

theorem waiting_step {w : Alerts.State} {c : Call} (hc : c ∈ calls g systems now)
    (hw : Waiting g w) (hok : CallOk g w c) : Waiting g (step store w c).1 := by
  obtain ⟨hr, hwatch, -, -⟩ := calls_spec hc
  have effect := step_effect store w c
  generalize (step store w c).1 = w' at effect
  generalize (step store w c).2 = event at effect
  cases effect with
  | waits hh =>
    refine waiting_setState hw ?_
    rintro st ⟨⟩ halert ho
    exact ⟨_, rfl, notSince_sinceOf hw hr hwatch ho hh hok halert⟩
  | fires hh hn due a hk =>
    refine waiting_setState (w := (w.createAlert a).1) hw ?_
    rintro st ⟨⟩ halert
    cases halert
  | clears hh a =>
    refine waiting_setState hw ?_
    rintro st ⟨⟩ halert
    cases halert
  | forgets | unresolved | resolves =>
    refine waiting_setState hw ?_
    rintro st hst
    cases hst

theorem callOk_step {w : Alerts.State} {c d : Call} (hc : c ∈ calls g systems now)
    (hd : d ∈ calls g systems now) (hok : CallOk g w d) : CallOk g (step store w c).1 d := by
  have hsame : d.system = c.system → d.holds = c.holds := by
    intro hsys
    rw [Bool.eq_iff_iff, (calls_spec hc).2.2.2, (calls_spec hd).2.2.2, hsys]
  have effect := step_effect store w c
  generalize (step store w c).1 = w' at effect
  generalize (step store w c).2 = event at effect
  cases effect with
  | waits | clears => exact callOk_setState hsame (fun _ => rfl) hok
  | fires hh hn due a hk =>
    exact callOk_setState (w := (w.createAlert a).1) hsame (fun _ => rfl) hok
  | forgets hh | unresolved hh | resolves hh =>
    refine callOk_setState hsame ?_ hok
    rw [hh]
    intro h
    cases h

theorem justified_step {w : Alerts.State} {c : Call} {e : AlertEvent} (hc : c ∈ calls g systems now)
    (hw : Waiting g w) (hok : CallOk g w c) (he : (step store w c).2 = some e)
    (hf : e.firing = true) : (g.firing now e).Justified := by
  obtain ⟨hr, hwatch, rfl, hholds⟩ := calls_spec hc
  have effect := step_effect store w c
  rw [he] at effect
  generalize (step store w c).1 = w' at effect
  cases effect with
  | fires hh hn due a hk =>
    have hsys : (w.createAlert a).2.systemID = c.system := congrArg AlertKey.system hk
    have hoff := hholds.1 hh
    have hns := notSince_sinceOf hw hr hwatch hoff hh hok hn
    unfold NotSince at hns
    refine ⟨?_, ?_⟩
    · simp [State.firing, hsys, hoff]
    · simp only [State.firing, hsys]
      omega
  | resolves | unresolved => cases hf

theorem evaluate_spec (store : Answers) (hw : Waiting g g.alerts)
    (hok : ∀ c ∈ calls g systems now, CallOk g g.alerts c) :
    let out := stepAll store g.alerts (calls g systems now)
    Waiting g out.1 ∧ ∀ e ∈ out.2, e.firing = true → (g.firing now e).Justified := by
  intro out
  suffices h : Waiting g out.1 ∧ (∀ c ∈ calls g systems now, CallOk g out.1 c) ∧
      ∀ e ∈ out.2, e.firing = true → (g.firing now e).Justified from ⟨h.1, h.2.2⟩
  refine stepAll_invariant (J := fun w events => Waiting g w ∧
    (∀ c ∈ calls g systems now, CallOk g w c) ∧
      ∀ e ∈ events, e.firing = true → (g.firing now e).Justified)
    ⟨hw, hok, fun e he => absurd he List.not_mem_nil⟩ ?_
  rintro w events c hc ⟨hw, hok, hev⟩
  refine ⟨waiting_step hc hw (hok c hc), fun d hd => callOk_step hc hd (hok d hd), ?_⟩
  intro e he hf
  rcases List.mem_append.1 he with he | he
  · exact hev e he hf
  · exact justified_step hc hw (hok c hc) (Option.mem_toList.1 he) hf

end evaluate

section state
variable {g : State} {P P' : ℕ+ → Prop} {id : ℕ+}

theorem inv_register (inv : Inv g P) (id : ℕ+) : Inv (g.register id) P := by
  have hagents : ∀ x, (g.register id).agents x = none → g.agents x = none := by
    intro x hx
    simp only [State.register, Function.update_apply] at hx
    split_ifs at hx
    exact hx
  exact ⟨inv.past, inv.unseen, fun x time hx => inv.offline x time (hagents x hx),
    fun r hr x hwatch hx => inv.waiting r hr x hwatch (hagents x hx), inv.fired⟩

theorem inv_agentOnline (inv : Inv g P) (hon : (g.agents id).isSome) :
    Inv { g with alerts := agentOnline g.alerts id } P := by
  refine ⟨inv.past, ?_, ?_, inv.waiting, inv.fired⟩
  · intro x hx
    refine ⟨?_, (inv.unseen x hx).2⟩
    simp only [agentOnline, Function.update_apply]
    split_ifs
    · rfl
    · exact (inv.unseen x hx).1
  · intro x time hx hended hp
    have hne : x ≠ id := by
      rintro rfl
      rw [show g.agents x = none from hx] at hon
      cases hon
    simpa [agentOnline, hne] using inv.offline x time hx hended hp

theorem inv_remove (inv : Inv g P) (hp : P' id) (hother : ∀ x, x ≠ id → (P' x ↔ P x))
    (hseen : ∀ r ∈ g.alerts.rules, watches r id → ∀ st ∈ g.alerts.states ⟨r.id, id⟩, st.alert.isSome) :
    Inv (g.remove id) P' := by
  have hsame : ∀ x, x ≠ id → (g.remove id).agents x = g.agents x ∧ (g.remove id).ended x = g.ended x :=
    fun x hx => ⟨Function.update_of_ne hx _ _, Function.update_of_ne hx _ _⟩
  have hended : (g.remove id).ended id = some g.clock := Function.update_self ..
  refine ⟨?_, ?_, ?_, ?_, inv.fired⟩
  · intro x time hx
    by_cases hne : x = id
    · subst hne
      rw [hended] at hx
      cases hx
      exact le_rfl
    · exact inv.past x time ((hsame x hne).2 ▸ hx)
  · intro x hx
    by_cases hne : x = id
    · subst hne
      rw [hended] at hx
      cases hx
    · rw [hother x hne]
      exact inv.unseen x ((hsame x hne).2 ▸ hx)
  · intro x time hx htime hnp
    by_cases hne : x = id
    · subst hne
      exact absurd hp hnp
    · rw [(hsame x hne).1] at hx
      rw [(hsame x hne).2] at htime
      exact inv.offline x time hx htime ((hother x hne).not.1 hnp)
  · intro r hr x hwatch hx st hst halert
    by_cases hne : x = id
    · subst hne
      have := hseen r hr hwatch st hst
      rw [halert] at this
      cases this
    · rw [(hsame x hne).1] at hx
      obtain ⟨since, hs, hns⟩ := inv.waiting r hr x hwatch hx st hst halert
      refine ⟨since, hs, ?_⟩
      unfold NotSince at hns ⊢
      rw [(hsame x hne).2]
      exact hns

theorem inv_agentOffline (inv : Inv g P) (hp : P id) (hsub : ∀ x, P' x → P x)
    (hother : ∀ x, x ≠ id → P x → P' x) :
    Inv { g with alerts := agentOffline g.alerts id g.clock } P' := by
  refine ⟨inv.past, ?_, ?_, inv.waiting, inv.fired⟩
  · intro x hx
    obtain ⟨hoff, hnp⟩ := inv.unseen x hx
    have hne : x ≠ id := by
      rintro rfl
      exact hnp hp
    exact ⟨by simpa [agentOffline, hne] using hoff, fun h => hnp (hsub x h)⟩
  · intro x time hx hended hnp
    by_cases hne : x = id
    · subst hne
      exact ⟨g.clock, by simp [agentOffline], inv.past x time hended⟩
    · obtain ⟨since, hs, hle⟩ := inv.offline x time hx hended fun h => hnp (hother x hne h)
      exact ⟨since, by simpa [agentOffline, hne] using hs, hle⟩

theorem inv_evaluate {store : Answers} {now : ℤ} {systems : List ℕ+} (inv : Inv g P)
    (hlate : ∀ id ∈ systems, g.agents id = none → P id →
      ∀ r ∈ g.alerts.rules, watches r id → (g.alerts.states ⟨r.id, id⟩).isSome) :
    Inv (g.evaluateOffline store now systems) P := by
  have hok : ∀ c ∈ calls g systems now, CallOk g g.alerts c := by
    intro c hc hholds
    obtain ⟨hr, hwatch, hsys, -, hsince, -⟩ := mem_offlineCalls hc
    have hoff := (calls_spec hc).2.2.2.1 hholds
    by_cases hp : P c.system
    · exact .inl (hlate c.system hsys hoff hp c.rule hr hwatch)
    · right
      unfold NotSince
      rw [hsince]
      cases hended : g.ended c.system with
      | none =>
        rw [(inv.unseen _ hended).1]
      | some time =>
        obtain ⟨since, hs, hle⟩ := inv.offline _ time hoff hended hp
        rw [hs]
        exact hle
  obtain ⟨hrules, hoffline, hstarted⟩ := stepAll_frame store g.alerts (calls g systems now)
  obtain ⟨hwaiting, hjust⟩ := evaluate_spec store inv.waiting hok
  have halerts : (g.evaluateOffline store now systems).alerts =
      (stepAll store g.alerts (calls g systems now)).1 := rfl
  refine ⟨inv.past, ?_, ?_, ?_, ?_⟩
  · rw [halerts, hoffline]
    exact inv.unseen
  · rw [halerts, hoffline]
    exact inv.offline
  · intro r hr x hwatch hx st hst halert
    rw [halerts, hrules] at hr
    obtain ⟨since, hs, hns⟩ := hwaiting r hr x hwatch hx st hst halert
    refine ⟨since, hs, ?_⟩
    unfold NotSince at hns ⊢
    rw [halerts, hstarted]
    exact hns
  · intro f hf
    rcases List.mem_append.1 hf with hf | hf
    · exact inv.fired f hf
    · obtain ⟨e, he, rfl⟩ := List.mem_map.1 hf
      obtain ⟨he, hfiring⟩ := List.mem_filter.1 he
      exact hjust e he hfiring

theorem inv_tick (inv : Inv g P) (elapsed : ℕ) : Inv { g with clock := g.clock + elapsed } P :=
  ⟨fun x time hx => by have := inv.past x time hx; simp only; omega, inv.unseen, inv.offline,
    inv.waiting, inv.fired⟩

end state

section step
variable {cfg : Config State Instr} {i : ℕ} {ins : Instr} {rest : List Instr} {o : Oracle}
  {out : Outcome State Instr} {id : ℕ+}

theorem rest_subset_resume {g : State} (h : atomic o g ins = some out) : rest ⊆ out.resume rest := by
  cases ins with
  | unregister id conn =>
    simp only [atomic] at h
    split_ifs at h <;> cases h
    · exact List.subset_append_right _ _
    · exact List.subset_append_right _ _
  | _ =>
    cases h
    exact List.subset_append_right _ _

theorem pending_kept (hi : cfg.tasks[i]? = some (ins :: rest))
    (h : atomic o cfg.global ins = some out) (hne : ins ≠ .agentOffline id) (hp : Pending cfg id) :
    Pending ⟨out.global, cfg.tasks.set i (out.resume rest)⟩ id :=
  ahead_kept hi (rest_subset_resume h) hne.symm hp

theorem pending_back (hi : cfg.tasks[i]? = some (ins :: rest))
    (h : atomic o cfg.global ins = some out)
    (hp : Pending ⟨out.global, cfg.tasks.set i (out.resume rest)⟩ id) :
    Pending cfg id ∨ ∃ conn, ins = .unregister id conn ∧ cfg.global.agents id = some conn := by
  refine (ahead_back hi hp).symm.imp_right fun hmem => ?_
  cases ins with
  | unregister id' conn =>
    simp only [atomic] at h
    split_ifs at h with hcur <;> cases h <;> simp [Outcome.code] at hmem
    subst hmem
    exact ⟨conn, rfl, hcur⟩
  | _ =>
    cases h
    simp [Outcome.code] at hmem

theorem pending_iff (hi : cfg.tasks[i]? = some (ins :: rest))
    (h : atomic o cfg.global ins = some out) (hoff : ins ≠ .agentOffline id)
    (hun : ∀ conn, ins ≠ .unregister id conn) :
    Pending ⟨out.global, cfg.tasks.set i (out.resume rest)⟩ id ↔ Pending cfg id := by
  constructor
  · intro hp
    rcases pending_back hi h hp with hp | ⟨conn, hins, -⟩
    · exact hp
    · exact absurd hins (hun conn)
  · exact pending_kept hi h hoff

theorem inv_step (inv : Inv cfg.global (Pending cfg)) (hok : Orderly cfg ins)
    (hi : cfg.tasks[i]? = some (ins :: rest)) (h : atomic o cfg.global ins = some out) :
    Inv out.global (Pending ⟨out.global, cfg.tasks.set i (out.resume rest)⟩) := by
  have same : (∀ x, ins ≠ .agentOffline x) → (∀ x conn, ins ≠ .unregister x conn) →
      Pending ⟨out.global, cfg.tasks.set i (out.resume rest)⟩ = Pending cfg :=
    fun hoff hun => funext fun x => propext (pending_iff hi h (hoff x) (hun x))
  cases ins with
  | unregister id conn =>
    have hother : ∀ x, x ≠ id →
        (Pending ⟨out.global, cfg.tasks.set i (out.resume rest)⟩ x ↔ Pending cfg x) :=
      fun x hx => pending_iff hi h nofun fun c hc => hx (by cases hc; rfl)
    by_cases hcur : cfg.global.agents id = some conn
    · simp only [atomic, if_pos hcur, Option.some.injEq] at h
      subst h
      exact inv_remove inv ⟨_, new_mem_set hi, by simp⟩ hother (hok hcur)
    · have hsame : Pending ⟨out.global, cfg.tasks.set i (out.resume rest)⟩ = Pending cfg := by
        funext x
        refine propext ⟨fun hp => ?_, pending_kept hi h nofun⟩
        rcases pending_back hi h hp with hp | ⟨c, hins, hc⟩
        · exact hp
        · cases hins
          exact absurd hc hcur
      rw [hsame]
      simp only [atomic, if_neg hcur, Option.some.injEq] at h
      subst h
      exact inv
  | agentOffline id =>
    have hhead : Pending cfg id := ⟨_, task_mem hi, List.mem_cons_self⟩
    have hsub : ∀ x, Pending ⟨out.global, cfg.tasks.set i (out.resume rest)⟩ x → Pending cfg x := by
      intro x hx
      rcases pending_back hi h hx with hx | ⟨conn, hins, -⟩
      · exact hx
      · cases hins
    have hother : ∀ x, x ≠ id → Pending cfg x →
        Pending ⟨out.global, cfg.tasks.set i (out.resume rest)⟩ x :=
      fun x hx => pending_kept hi h fun hc => hx (by cases hc; rfl)
    cases h
    exact inv_agentOffline inv hhead hsub hother
  | register id =>
    rw [same nofun nofun]
    cases h
    exact inv_register inv id
  | agentOnline id =>
    rw [same nofun nofun]
    cases h
    exact inv_agentOnline inv hok
  | evaluateOffline now systems =>
    rw [same nofun nofun]
    cases h
    exact inv_evaluate inv hok
  | tick elapsed =>
    rw [same nofun nofun]
    cases h
    exact inv_tick inv elapsed
  | publish id online =>
    rw [same nofun nofun]
    cases h
    exact ⟨inv.past, inv.unseen, inv.offline, inv.waiting, inv.fired⟩
  | serve | flushState | now | systems =>
    rw [same nofun nofun]
    cases h
    exact inv

end step

theorem inv_start {cfg : Config State Instr} (inv : Inv cfg.global (Pending cfg)) (r : Request) :
    Inv cfg.global (Pending ⟨cfg.global, cfg.tasks ++ [code r]⟩) := by
  have same : Pending ⟨cfg.global, cfg.tasks ++ [code r]⟩ = Pending cfg := by
    funext id
    refine propext (ahead_start.trans (or_iff_left ?_))
    cases r <;> simp [code]
  rw [same]
  exact inv

theorem inv_restart {g : State} {P : ℕ+ → Prop} (inv : Inv g P) : Inv (restart g) fun _ => False := by
  refine ⟨nofun, fun _ _ => ⟨rfl, id⟩, nofun, ?_, inv.fired⟩
  intro r _ x _ _ st hst halert
  rcases restore_spec g.alerts.activeAlerts ⟨r.id, x⟩ with ⟨a, -, -, hr⟩ | ⟨-, hr⟩
  · cases hr.symm.trans hst
    cases halert
  · cases hr.symm.trans hst

/-- In every run whose steps are orderly, every offline alert is justified. -/
theorem no_false_alerts {stored : List AlertRule} {now : ℤ} {acts : List (Action Oracle Request)}
    {cfg : Config State Instr} (hm : Runs.Meets machine.step (Machine.Guard Orderly) (init stored now) acts)
    (he : Runs.exec machine.step (init stored now) acts = some cfg) : NoFalseAlerts cfg.global := by
  have nobody : ∀ g : State, Pending ⟨g, []⟩ = fun _ => False := fun g => by
    funext id
    simp [Pending]
  have inv : Inv cfg.global (Pending cfg) := by
    refine machine.guarded_invariant (J := fun c => Inv c.global (Pending c))
      (fun _ r h => inv_start h r) (fun _ _ _ _ _ _ h hok hi ho => inv_step h hok hi ho) ?_ ?_ hm he
    · rintro c g h ⟨⟩
      rw [nobody]
      exact inv_restart h
    · unfold init
      rw [nobody]
      refine ⟨nofun, fun _ _ => ⟨rfl, id⟩, nofun, ?_, fun f hf => absurd hf List.not_mem_nil⟩
      intro r _ x _ _ st hst
      cases hst
  exact inv.fired

def offlineRule : AlertRule := ⟨1, "Offline", none, .offline, 0, 30, [], true⟩

def steps (i n : ℕ) : List (Action Oracle Request) :=
  List.replicate n (.run i ⟨[1], ⟨fun _ => "web", fun _ => true⟩⟩)

def connected : List (Action Oracle Request) :=
  .start (.tick 100000000000) :: steps 0 1 ++ .start (.connect 1) :: steps 1 4

theorem no_false_alerts_disconnect : ∃ acts cfg,
    Runs.Meets machine.step (Machine.Guard Orderly) (init [offlineRule] 0) acts ∧
    Runs.exec machine.step (init [offlineRule] 0) acts = some cfg ∧
    cfg.global.fired.length = 1 ∧ NoFalseAlerts cfg.global := by
  let acts := connected ++ .start .evaluateOffline :: steps 2 3 ++ steps 1 4 ++
    .start (.tick 40000000000) :: steps 3 1 ++ .start .evaluateOffline :: steps 4 3
  have hm : Runs.Meets machine.step (Machine.Guard Orderly) (init [offlineRule] 0) acts := by decide
  exact ⟨acts, _, hm, rfl, by decide, no_false_alerts hm rfl⟩

/-- An evaluation between the removal of the connection and `agentOffline` finds no
offline time, takes the start of the hub instead and reports the system at once. -/
theorem false_alert : ∃ acts cfg,
    Runs.exec machine.step (init [offlineRule] 0) acts = some cfg ∧ ¬ NoFalseAlerts cfg.global :=
  ⟨connected ++ steps 1 1 ++ .start .evaluateOffline :: steps 2 3, _, rfl, by decide⟩

end Lotse.Presence
