import Lotse.AlertEngine

set_option autoImplicit false

namespace Lotse.Alerts
open Samples Rows

inductive Entry where
  | event (e : AlertEvent)
  | reset (ruleID systemID : ℕ)

def covers (ruleID systemID : ℕ) (k : AlertKey) : Prop := k.rule = ruleID ∨ k.system = systemID

instance (ruleID systemID : ℕ) (k : AlertKey) : Decidable (covers ruleID systemID k) :=
  inferInstanceAs (Decidable (_ ∨ _))

/-- The entry ends a firing of the pair: a resolved event or a reset that covers it. -/
def Entry.ends (k : AlertKey) : Entry → Prop
  | .event e => e.alert.key = k ∧ e.firing = false
  | .reset ruleID systemID => covers ruleID systemID k

def firings (log : List Entry) : List Alert := log.filterMap fun
  | .event e => if e.firing then some e.alert else none
  | .reset _ _ => none

def resolutions (log : List Entry) : List Alert := log.filterMap fun
  | .event e => if e.firing then none else some e.alert
  | .reset _ _ => none

def follow (k : AlertKey) (on : Bool) : Entry → Bool
  | .event e => if e.alert.key = k then e.firing else on
  | .reset ruleID systemID => if covers ruleID systemID k then false else on

def firingAfter (k : AlertKey) (log : List Entry) : Bool := log.foldl (follow k) false

/-- A firing event comes only while the pair does not count as firing. -/
def Alternating (log : List Entry) : Prop :=
  ∀ e before after, log = before ++ .event e :: after → e.firing →
    firingAfter e.alert.key before = false

theorem firingAfter_append (k : AlertKey) (log more : List Entry) :
    firingAfter k (log ++ more) = more.foldl (follow k) (firingAfter k log) :=
  List.foldl_append

theorem firingAfter_snoc (k : AlertKey) (log : List Entry) (x : Entry) :
    firingAfter k (log ++ [x]) = follow k (firingAfter k log) x := by
  simp [firingAfter_append]

theorem alternating_snoc {log : List Entry} {x : Entry} (h : Alternating log)
    (hx : ∀ e, x = .event e → e.firing → firingAfter e.alert.key log = false) :
    Alternating (log ++ [x]) := by
  intro e before after heq hf
  rcases List.eq_nil_or_concat after with rfl | ⟨after, y, rfl⟩
  · obtain ⟨rfl, hy⟩ := List.append_inj' heq rfl
    exact hx e (List.cons.inj hy).1 hf
  · rw [List.concat_eq_append, ← List.cons_append, ← List.append_assoc] at heq
    obtain ⟨rfl, -⟩ := List.append_inj' heq rfl
    exact h e before after rfl hf

theorem foldl_follow_of_not_ends {k : AlertKey} {log : List Entry}
    (h : ∀ x ∈ log, ¬ x.ends k) : log.foldl (follow k) true = true := by
  induction log with
  | nil => rfl
  | cons x log ih =>
    have hx := h x List.mem_cons_self
    have hfollow : follow k true x = true := by
      cases x with
      | event e =>
        simp only [Entry.ends, not_and, Bool.not_eq_false] at hx
        simp only [follow]
        split_ifs with hk
        · exact hx hk
        · rfl
      | reset ruleID systemID => simp [follow, show ¬ covers ruleID systemID k from hx]
    rw [List.foldl_cons, hfollow]
    exact ih fun y hy => h y (List.mem_cons_of_mem _ hy)

theorem Alternating.between {before mid after : List Entry} {e f : AlertEvent}
    (h : Alternating (before ++ .event e :: mid ++ .event f :: after)) (he : e.firing)
    (hf : f.firing) (hk : e.alert.key = f.alert.key) : ∃ x ∈ mid, x.ends e.alert.key := by
  by_contra hno
  simp only [not_exists, not_and] at hno
  have hfalse := h f (before ++ .event e :: mid) after rfl hf
  rw [← hk, firingAfter_append, List.foldl_cons] at hfalse
  have hon : follow e.alert.key (firingAfter e.alert.key before) (.event e) = true := by
    simpa [follow] using he
  rw [hon, foldl_follow_of_not_ends hno] at hfalse
  cases hfalse

structure Agree (w : State) (log : List Entry) : Prop where
  ids : (w.alerts.map Alert.id).Nodup
  held : ∀ k a, w.alertOf k = some a ↔ a ∈ w.alerts ∧ a.key = k ∧ a.active
  firings : firings log = w.inserted
  resolutions : resolutions log = w.closed
  alternating : Alternating log
  firing : ∀ k, firingAfter k log = (w.alertOf k).isSome

@[simp] theorem setState_alertOf (w : State) (k j : AlertKey) (st : Option AlertState) :
    (w.setState k st).alertOf j = if j = k then st.bind AlertState.alert else w.alertOf j := by
  simp only [State.alertOf, State.setState, Function.update_apply]
  split_ifs <;> rfl

@[simp] theorem resolveAlert_alertOf (w : State) (id : ℕ) (time : ℤ) (k : AlertKey) :
    (w.resolveAlert id time).alertOf k = w.alertOf k := rfl

@[simp] theorem createAlert_alertOf (w : State) (a : Alert) (k : AlertKey) :
    (w.createAlert a).1.alertOf k = w.alertOf k := rfl

section rows
variable {p : Alert → Prop} [DecidablePred p] {time : ℤ} {alerts : List Alert} {a x : Alert}

theorem mem_resolve_active (hx : x.active) :
    x ∈ alerts.map (fun a => if p a then a.resolve time else a) ↔ x ∈ alerts ∧ ¬ p x := by
  constructor
  · intro h
    obtain ⟨y, hy, rfl⟩ := List.mem_map.1 h
    split_ifs at hx ⊢ with hp
    · cases hx
    · exact ⟨hy, hp⟩
  · rintro ⟨h, hp⟩
    exact List.mem_map.2 ⟨x, h, if_neg hp⟩

theorem map_id_resolve :
    (alerts.map fun a => if p a then a.resolve time else a).map Alert.id = alerts.map Alert.id := by
  rw [List.map_map]
  apply List.map_congr_left
  intro a _
  simp only [Function.comp]
  split_ifs <;> rfl

theorem filter_id_active (ids : (alerts.map Alert.id).Nodup) (ha : a ∈ alerts) (hactive : a.active) :
    alerts.filter (fun b => b.id = a.id ∧ b.active) = [a] := by
  refine filter_eq_singleton ids.of_map ha fun b hb => ?_
  constructor
  · exact fun h => List.inj_on_of_nodup_map ids hb ha h.1
  · rintro rfl
    exact ⟨rfl, hactive⟩

end rows

section step
variable {store : Answers} {w : State} {log : List Entry}

theorem Agree.quiet {w' : State} (h : Agree w log) (ids : (w'.alerts.map Alert.id).Nodup)
    (rows : ∀ a, a.active → (a ∈ w'.alerts ↔ a ∈ w.alerts)) (hi : w'.inserted = w.inserted)
    (hc : w'.closed = w.closed) (hk : ∀ k, w'.alertOf k = w.alertOf k) : Agree w' log := by
  refine ⟨ids, ?_, h.firings.trans hi.symm, h.resolutions.trans hc.symm, h.alternating, ?_⟩
  · intro k a
    rw [hk, h.held]
    constructor
    · rintro ⟨ha, hkey, hactive⟩
      exact ⟨(rows a hactive).2 ha, hkey, hactive⟩
    · rintro ⟨ha, hkey, hactive⟩
      exact ⟨(rows a hactive).1 ha, hkey, hactive⟩
  · intro k
    rw [hk, h.firing]

theorem agree_fires {c : Call} {a : Alert} {since : ℤ} (h : Agree w log) (hk : a.key = c.key)
    (hn : w.alertOf c.key = none) :
    Agree ((w.createAlert a).1.setState c.key (some ⟨some since, none, some (w.createAlert a).2⟩))
      (log ++ [.event ⟨c.rule, (w.createAlert a).2, true, c.value⟩]) := by
  have hkey : (w.createAlert a).2.key = c.key := hk
  have hactive : (w.createAlert a).2.active := rfl
  have hfresh : lookup Alert.id (w.createAlert a).2.id w.alerts = none := lookup_nextId _
  have hrows : (w.createAlert a).1.alerts = w.alerts ++ [(w.createAlert a).2] := rfl
  have hinserted : (w.createAlert a).1.inserted = w.inserted ++ [(w.createAlert a).2] := rfl
  have hclosed : (w.createAlert a).1.closed = w.closed := rfl
  generalize (w.createAlert a).2 = b at *
  refine ⟨?_, ?_, ?_, ?_, ?_, ?_⟩
  · change ((w.createAlert a).1.alerts.map Alert.id).Nodup
    rw [hrows]
    exact nodup_append h.ids hfresh
  · intro k x
    change _ ↔ x ∈ (w.createAlert a).1.alerts ∧ _
    rw [hrows, setState_alertOf, List.mem_append, List.mem_singleton]
    split_ifs with hkc
    · subst hkc
      constructor
      · intro hx
        cases hx
        exact ⟨.inr rfl, hkey, hactive⟩
      · rintro ⟨hx | rfl, hxk, hxa⟩
        · rw [(h.held c.key x).2 ⟨hx, hxk, hxa⟩] at hn
          cases hn
        · rfl
    · rw [createAlert_alertOf, h.held]
      constructor
      · exact fun hx => ⟨.inl hx.1, hx.2⟩
      · rintro ⟨hx | rfl, hxk, hxa⟩
        · exact ⟨hx, hxk, hxa⟩
        · exact absurd (hxk.symm.trans hkey) hkc
  · change _ = (w.createAlert a).1.inserted
    rw [hinserted, ← h.firings]
    simp [firings]
  · change _ = (w.createAlert a).1.closed
    rw [hclosed, ← h.resolutions]
    simp [resolutions]
  · refine alternating_snoc h.alternating fun e he _ => ?_
    cases he
    rw [hkey, h.firing, hn]
    rfl
  · intro k
    rw [firingAfter_snoc, h.firing, setState_alertOf, createAlert_alertOf]
    simp only [follow, hkey, eq_comm (a := k)]
    split_ifs <;> rfl

theorem agree_resolves {c : Call} {a : Alert} {time : ℤ} (h : Agree w log)
    (ha : w.alertOf c.key = some a) :
    Agree ((w.setState c.key none).resolveAlert a.id time)
      (log ++ [.event ⟨c.rule, a, false, c.value⟩]) := by
  obtain ⟨hmem, hkey, hactive⟩ := (h.held c.key a).1 ha
  have hrows : ((w.setState c.key none).resolveAlert a.id time).alerts =
      w.alerts.map fun b => if b.id = a.id ∧ b.active then b.resolve time else b := rfl
  refine ⟨?_, ?_, ?_, ?_, ?_, ?_⟩
  · rw [hrows, map_id_resolve]
    exact h.ids
  · intro k x
    rw [resolveAlert_alertOf, setState_alertOf, hrows]
    split_ifs with hkc
    · subst hkc
      refine ⟨nofun, ?_⟩
      rintro ⟨hx, hxk, hxa⟩
      obtain ⟨hx, hopen⟩ := (mem_resolve_active hxa).1 hx
      have hxs := (h.held c.key x).2 ⟨hx, hxk, hxa⟩
      rw [ha] at hxs
      cases hxs
      exact absurd ⟨rfl, hactive⟩ hopen
    · rw [h.held]
      constructor
      · rintro ⟨hx, hxk, hxa⟩
        refine ⟨(mem_resolve_active hxa).2 ⟨hx, fun hp => hkc ?_⟩, hxk, hxa⟩
        rw [← hxk, ← hkey, List.inj_on_of_nodup_map h.ids hx hmem hp.1]
      · rintro ⟨hx, hxk, hxa⟩
        exact ⟨((mem_resolve_active hxa).1 hx).1, hxk, hxa⟩
  · rw [show ((w.setState c.key none).resolveAlert a.id time).inserted = w.inserted from rfl,
      ← h.firings]
    simp [firings]
  · rw [show ((w.setState c.key none).resolveAlert a.id time).closed =
      w.closed ++ w.alerts.filter (fun b => b.id = a.id ∧ b.active) from rfl,
      filter_id_active h.ids hmem hactive, ← h.resolutions]
    simp [resolutions]
  · exact alternating_snoc h.alternating fun e he hf => by cases he; cases hf
  · intro k
    rw [firingAfter_snoc, h.firing, resolveAlert_alertOf, setState_alertOf]
    simp only [follow, hkey, eq_comm (a := k)]
    split_ifs <;> rfl

theorem agree_setState {k : AlertKey} {st : Option AlertState} (h : Agree w log)
    (hst : st.bind AlertState.alert = w.alertOf k) : Agree (w.setState k st) log := by
  refine h.quiet h.ids (fun _ _ => Iff.rfl) rfl rfl fun j => ?_
  rw [setState_alertOf]
  split_ifs with hj
  · rw [hst, hj]
  · rfl

theorem agree_step {c : Call} (hok : store.ok c.key) (h : Agree w log) :
    Agree (step store w c).1 (log ++ (step store w c).2.toList.map .event) := by
  have effect := step_effect store w c
  generalize (step store w c).1 = w' at effect
  generalize (step store w c).2 = event at effect
  cases effect with
  | waits => exact (List.append_nil log).symm ▸ agree_setState h rfl
  | forgets _ hn => exact (List.append_nil log).symm ▸ agree_setState h hn.symm
  | clears _ a ha => exact (List.append_nil log).symm ▸ agree_setState h ha.symm
  | fires _ hn _ a hk => exact agree_fires h hk hn
  | resolves _ a ha => exact agree_resolves h ha
  | unresolved _ a ha failed =>
    rw [hok] at failed
    cases failed

theorem agree_stepAll (hok : ∀ k, store.ok k) (h : Agree w log) (calls : List Call) :
    Agree (stepAll store w calls).1 (log ++ (stepAll store w calls).2.map .event) := by
  refine stepAll_invariant (J := fun w events => Agree w (log ++ events.map .event)) ?_ ?_
  · simpa using h
  · intro w events c _ hw
    rw [List.map_append, ← List.append_assoc]
    exact agree_step (hok c.key) hw

theorem covers_iff (ruleID systemID : ℕ) (a : Alert) :
    ((ruleID ≠ 0 ∧ a.ruleID = ruleID) ∨ (systemID ≠ 0 ∧ a.systemID = systemID)) ↔
      covers ruleID systemID a.key := by
  have hr := a.ruleID.ne_zero
  have hs := a.systemID.ne_zero
  unfold covers Alert.key
  constructor
  · rintro (⟨-, h⟩ | ⟨-, h⟩)
    · exact .inl h
    · exact .inr h
  · rintro (h | h)
    · exact .inl ⟨h ▸ hr, h⟩
    · exact .inr ⟨h ▸ hs, h⟩

theorem agree_reset {stored : List AlertRule} {ruleID systemID : ℕ} {now : ℤ} (h : Agree w log) :
    Agree (resetAlerts true stored w ruleID systemID now) (log ++ [.reset ruleID systemID]) := by
  have hrows : (resetAlerts true stored w ruleID systemID now).alerts = w.alerts.map fun a =>
      if a.active ∧ ((ruleID ≠ 0 ∧ a.ruleID = ruleID) ∨ (systemID ≠ 0 ∧ a.systemID = systemID)) then
        a.resolve (unix now) else a := rfl
  have halert : ∀ k, (resetAlerts true stored w ruleID systemID now).alertOf k =
      if covers ruleID systemID k then none else w.alertOf k := by
    intro k
    have hstate : (resetAlerts true stored w ruleID systemID now).states k =
        if covers ruleID systemID k then none else w.states k := rfl
    rw [State.alertOf, hstate]
    split_ifs <;> rfl
  have hinserted : (resetAlerts true stored w ruleID systemID now).inserted = w.inserted := rfl
  have hclosed : (resetAlerts true stored w ruleID systemID now).closed = w.closed := rfl
  refine ⟨?_, ?_, ?_, ?_, ?_, ?_⟩
  · rw [hrows, map_id_resolve]
    exact h.ids
  · intro k x
    rw [halert, hrows]
    split_ifs with hk
    · refine ⟨nofun, ?_⟩
      rintro ⟨hx, rfl, hxa⟩
      exact absurd ⟨hxa, (covers_iff _ _ _).2 hk⟩ ((mem_resolve_active hxa).1 hx).2
    · rw [h.held]
      constructor
      · rintro ⟨hx, rfl, hxa⟩
        exact ⟨(mem_resolve_active hxa).2 ⟨hx, fun hp => hk ((covers_iff _ _ _).1 hp.2)⟩, rfl, hxa⟩
      · rintro ⟨hx, hxk, hxa⟩
        exact ⟨((mem_resolve_active hxa).1 hx).1, hxk, hxa⟩
  · rw [hinserted, ← h.firings]
    simp [firings]
  · rw [hclosed, ← h.resolutions]
    simp [resolutions]
  · exact alternating_snoc h.alternating fun e he _ => Entry.noConfusion he
  · intro k
    rw [firingAfter_snoc, h.firing, halert]
    simp only [follow]
    split_ifs <;> rfl

theorem agree_prune {now : ℤ} (h : Agree w log) : Agree (w.pruneAlerts now) log := by
  refine h.quiet (h.ids.sublist (List.filter_sublist.map _)) ?_ rfl rfl fun _ => rfl
  intro a ha
  have hnone : a.resolvedAt = none := by simpa [Alert.active] using ha
  simp [State.pruneAlerts, hnone]

theorem mem_activeAlerts {a : Alert} : a ∈ w.activeAlerts ↔ a ∈ w.alerts ∧ a.active := by
  simp [State.activeAlerts]

theorem agree_load {stored : List AlertRule} {now : ℤ} (h : Agree w log) :
    Agree (loadAlerts stored w now) log := by
  refine h.quiet h.ids (fun _ _ => Iff.rfl) rfl rfl fun k => ?_
  change (restore w.activeAlerts k).bind AlertState.alert = _
  rcases restore_spec w.activeAlerts k with ⟨a, ha, hk, hr⟩ | ⟨hno, hr⟩
  · obtain ⟨hmem, hactive⟩ := mem_activeAlerts.1 ha
    rw [hr, (h.held k a).2 ⟨hmem, hk, hactive⟩]
    rfl
  · rw [hr]
    symm
    change w.alertOf k = none
    rw [Option.eq_none_iff_forall_ne_some]
    intro a ha
    obtain ⟨hmem, hk, hactive⟩ := (h.held k a).1 ha
    exact hno a (mem_activeAlerts.2 ⟨hmem, hactive⟩) hk

end step

inductive Op where
  | evaluateMetrics (names : ℕ+ → String) (system : ℕ+) (m : Metrics) (now : ℤ)
  | evaluateOffline (names : ℕ+ → String) (systems : List ℕ+) (online : ℕ+ → Bool) (now : ℤ)
  | agentOnline (system : ℕ+)
  | agentOffline (system : ℕ+) (now : ℤ)
  | resetAlerts (stored : List AlertRule) (ruleID systemID : ℕ) (now : ℤ)
  | pruneAlerts (now : ℤ)
  | restart (stored : List AlertRule) (now : ℤ)

structure Hub where
  state : State
  history : List Entry

def succeeding (names : ℕ+ → String) : Answers := ⟨names, fun _ => true⟩

def Hub.dispatch (h : Hub) (out : State × List AlertEvent) : Hub :=
  ⟨out.1, h.history ++ out.2.map .event⟩

def Hub.apply (h : Hub) : Op → Hub
  | .evaluateMetrics names system m now =>
    h.dispatch (evaluateMetrics (succeeding names) h.state system m now)
  | .evaluateOffline names systems online now =>
    h.dispatch (evaluateOffline (succeeding names) h.state systems online now)
  | .agentOnline system => { h with state := agentOnline h.state system }
  | .agentOffline system now => { h with state := agentOffline h.state system now }
  | .resetAlerts stored ruleID systemID now =>
    ⟨resetAlerts true stored h.state ruleID systemID now, h.history ++ [.reset ruleID systemID]⟩
  | .pruneAlerts now => { h with state := h.state.pruneAlerts now }
  | .restart stored now => { h with state := loadAlerts stored h.state now }

def Hub.run (stored : List AlertRule) (now : ℤ) (ops : List Op) : Hub :=
  ops.foldl Hub.apply ⟨initial stored now, []⟩

theorem agree_apply {h : Hub} (agree : Agree h.state h.history) (op : Op) :
    Agree (h.apply op).state (h.apply op).history := by
  cases op with
  | evaluateMetrics names system m now => exact agree_stepAll (fun _ => rfl) agree _
  | evaluateOffline names systems online now => exact agree_stepAll (fun _ => rfl) agree _
  | agentOnline system => exact agree.quiet agree.ids (fun _ _ => Iff.rfl) rfl rfl fun _ => rfl
  | agentOffline system now => exact agree.quiet agree.ids (fun _ _ => Iff.rfl) rfl rfl fun _ => rfl
  | resetAlerts stored ruleID systemID now => exact agree_reset agree
  | pruneAlerts now => exact agree_prune agree
  | restart stored now => exact agree_load agree

theorem agree_run (stored : List AlertRule) (now : ℤ) (ops : List Op) :
    Agree (Hub.run stored now ops).state (Hub.run stored now ops).history := by
  have hinit : Agree (initial stored now) [] := by
    refine ⟨List.nodup_nil, fun k a => ⟨nofun, fun h => absurd h.1 List.not_mem_nil⟩, rfl, rfl, ?_,
      fun _ => rfl⟩
    intro e before after heq
    simp at heq
  induction ops using List.reverseRecOn with
  | nil => exact hinit
  | append_singleton ops op ih =>
    have hlast : Hub.run stored now (ops ++ [op]) = (Hub.run stored now ops).apply op :=
      List.foldl_concat ..
    rw [hlast]
    exact agree_apply ih op

theorem Agree.active_rows {w : State} {log : List Entry} (h : Agree w log) (k : AlertKey) :
    (w.alerts.filter fun a => a.key = k ∧ a.active) = (w.alertOf k).toList := by
  cases halert : w.alertOf k with
  | none =>
    rw [Option.toList_none, List.filter_eq_nil_iff]
    intro a ha hp
    have hrow := of_decide_eq_true hp
    rw [(h.held k a).2 ⟨ha, hrow⟩] at halert
    cases halert
  | some a =>
    obtain ⟨hmem, hrow⟩ := (h.held k a).1 halert
    refine filter_eq_singleton h.ids.of_map hmem fun b hb => ?_
    constructor
    · intro hb'
      have hsome := (h.held k b).2 ⟨hb, hb'⟩
      rw [halert] at hsome
      exact (Option.some.inj hsome).symm
    · rintro rfl
      exact hrow

/-- The engine and the table agree after every run, the events are the rows created and
closed, and a pair fires again only after a resolved event or a reset. -/
theorem alerts_agree (stored : List AlertRule) (now : ℤ) (ops : List Op) :
    let h := Hub.run stored now ops
    (∀ k, (h.state.alerts.filter fun a => a.key = k ∧ a.active).length ≤ 1) ∧
    (∀ k a, h.state.alertOf k = some a ↔ a ∈ h.state.alerts ∧ a.key = k ∧ a.active) ∧
    firings h.history = h.state.inserted ∧ resolutions h.history = h.state.closed ∧
    ∀ before mid after e f, h.history = before ++ .event e :: mid ++ .event f :: after →
      e.firing → f.firing → e.alert.key = f.alert.key → ∃ x ∈ mid, x.ends e.alert.key := by
  intro h
  have agree : Agree h.state h.history := agree_run stored now ops
  refine ⟨fun k => ?_, agree.held, agree.firings, agree.resolutions, ?_⟩
  · rw [agree.active_rows]
    cases h.state.alertOf k <;> simp
  · intro before mid after e f heq he hf hk
    have halt := agree.alternating
    rw [heq] at halt
    exact halt.between he hf hk

end Lotse.Alerts
