import Lotse.RuleEdits

set_option autoImplicit false

namespace Lotse.Rules
open Alerts Rows Tasks

def without (id : ℕ+) (r : AlertRule) : AlertRule :=
  { r with notifiers := r.notifiers.filter (· ≠ id) }

/-- The channel is gone from every stored rule and from the engine, and nothing else changed. -/
structure Detached (id : ℕ+) (g g' : State) : Prop where
  stored : g'.db.rules = g.db.rules.map (without id)
  engine : g'.alerts.rules = (g.db.rules.map (without id)).filter AlertRule.enabled

theorem completes_cons {g g' : State} {ins : Instr} {rest : List Instr} :
    machine.Completes g (ins :: rest) g' ↔
      machine.Completes (atomic g ins).global ((atomic g ins).resume rest) g' := by
  constructor
  · intro h
    cases h with
    | cons head tail =>
      cases head
      exact tail
  · exact fun h => .cons (o := ()) rfl h

theorem completes_nil {g g' : State} : machine.Completes g [] g' ↔ g' = g := by
  constructor
  · intro h
    cases h
    rfl
  · rintro rfl
    exact .nil _

section detach
variable {id : ℕ+} {r : AlertRule}

theorem detached_of_notMem (h : id ∉ r.notifiers) : detached id r = r := by
  rw [detached, List.erase_of_not_mem h]

theorem erase_eq_filter {l : List ℕ+} (h : l.count id ≤ 1) : l.erase id = l.filter (· ≠ id) := by
  induction l with
  | nil => rfl
  | cons n l ih =>
    by_cases hn : n = id
    · subst hn
      rw [List.count_cons_self] at h
      have hnot : n ∉ l := List.count_eq_zero.1 (by omega)
      rw [List.erase_cons_head, List.filter_cons_of_neg (by simp)]
      symm
      rw [List.filter_eq_self]
      intro m hm
      simpa using ne_of_mem_of_not_mem hm hnot
    · rw [List.count_cons_of_ne hn] at h
      rw [List.erase_cons_tail (by simpa using hn), List.filter_cons_of_pos (by simpa using hn), ih h]

/-- One occurrence is all of them exactly if there is at most one. -/
theorem detached_eq_without : detached id r = without id r ↔ r.notifiers.count id ≤ 1 := by
  constructor
  · intro h
    have hcount := congrArg (fun r => r.notifiers.count id) h
    have hgone : (r.notifiers.filter (· ≠ id)).count id = 0 :=
      List.count_eq_zero_of_not_mem (by simp)
    simp only [detached, without, List.count_erase_self, hgone] at hcount
    omega
  · intro h
    rw [detached, without, erase_eq_filter h]

theorem updateRule_rules {db db' : Database} (h : db.updateRule r = some db') :
    db'.rules = update AlertRule.id r.id (fun _ => r) db.rules := by
  unfold Database.updateRule at h
  split_ifs at h
  cases h
  rfl

theorem completes_detach (id : ℕ+) {rest : List AlertRule} {g : State} {done : List AlertRule}
    (hrules : g.db.rules = done ++ rest) :
    ∃ g₁ : State, g₁.db.rules = done ++ rest.map (detached id) ∧
      g₁.db.notifiers = g.db.notifiers ∧ g₁.alerts = g.alerts ∧
      ∀ tail g', machine.Completes g (.detach id rest :: tail) g' ↔
        machine.Completes g₁ (.deleteNotifier id :: tail) g' := by
  induction rest generalizing g done with
  | nil => exact ⟨g, hrules, rfl, rfl, fun tail g' => completes_cons⟩
  | cons r rest ih =>
    by_cases hmem : id ∈ r.notifiers
    · have hr : r ∈ g.db.rules := by simp [hrules]
      obtain ⟨db, hdb⟩ : ∃ db, g.db.updateRule (detached id r) = some db :=
        Database.updateRule_ok ⟨r, hr, rfl⟩ (g.db.inScope r hr)
      have hids : (g.db.rules.map AlertRule.id).Nodup := g.db.sorted.imp ne_of_lt
      have hnext : db.rules = (done ++ [detached id r]) ++ rest := by
        rw [updateRule_rules hdb, hrules, List.append_assoc]
        exact update_append_cons (hrules ▸ hids)
      obtain ⟨g₁, hrows, hn, ha, hall⟩ := ih (g := { g with db }) hnext
      refine ⟨g₁, ?_, hn.trans (updateRule_notifiers hdb), ha, ?_⟩
      · simpa using hrows
      · intro tail g'
        rw [completes_cons]
        simp only [atomic, if_pos hmem, hdb]
        exact hall tail g'
    · obtain ⟨g₁, hrows, hn, ha, hall⟩ := ih (hrules.trans (List.append_cons done r rest))
      refine ⟨g₁, ?_, hn, ha, ?_⟩
      · simpa [detached_of_notMem hmem] using hrows
      · intro tail g'
        rw [completes_cons]
        simp only [atomic, if_neg hmem]
        exact hall tail g'

theorem notifierByID_of_mem {db : Database} (h : id ∈ db.notifiers) :
    db.notifierByID id = some id := by
  cases hfind : db.notifierByID id with
  | none => exact absurd (List.find?_eq_none.1 hfind id h) (by simp)
  | some n => rw [show n = id by exact_mod_cast (byID_eq hfind).2]

theorem notifierByID_of_notMem {db : Database} (h : id ∉ db.notifiers) :
    db.notifierByID id = none := by
  rw [Database.notifierByID, List.find?_eq_none]
  intro n hn he
  have heq : n = id := by simpa using he
  exact h (heq ▸ hn)

theorem completes_deleteNotifier {g : State} (hid : id ∈ g.db.notifiers) :
    ∃ g₁ : State, g₁.db.rules = g.db.rules.map (detached id) ∧
      g₁.alerts.rules = (g.db.rules.map (detached id)).filter AlertRule.enabled ∧
      ∀ g', machine.Completes g (code (.deleteNotifier id)) g' ↔ g' = g₁ := by
  obtain ⟨g₁, hrows, hn, ha, hall⟩ := completes_detach id (List.nil_append g.db.rules).symm
  have hfind := notifierByID_of_mem hid
  have hdelete : g₁.db.deleteNotifier id =
      some { g₁.db with notifiers := g₁.db.notifiers.filter (· ≠ id) } := if_pos (hn ▸ hid)
  refine ⟨{ g₁ with
    db := { g₁.db with notifiers := g₁.db.notifiers.filter (· ≠ id) }
    deleted := id :: g₁.deleted }.reloadRules.reply .ok, hrows, ?_, ?_⟩
  · change g₁.db.rules.filter _ = _
    rw [hrows]
    rfl
  · intro g'
    rw [code, completes_cons]
    simp only [atomic, hfind]
    rw [Outcome.resume_next, List.append_nil, completes_cons]
    change machine.Completes g [.detach id g.db.rules] g' ↔ _
    rw [hall, completes_cons]
    simp only [atomic, hdelete]
    change machine.Completes _ [.reload] g' ↔ _
    rw [completes_cons]
    exact completes_nil

theorem completes_notFound {g : State} (hid : id ∉ g.db.notifiers) (g' : State) :
    machine.Completes g (code (.deleteNotifier id)) g' ↔
      g' = g.reply (.error 404 "channel not found") := by
  rw [code, completes_cons]
  simp only [atomic, notifierByID_of_notMem hid]
  exact completes_nil

theorem map_without {rules : List AlertRule} (h : ∀ r ∈ rules, id ∉ r.notifiers) :
    rules.map (without id) = rules := by
  refine (List.map_congr_left ?_).trans (List.map_id _)
  intro r hr
  rw [← detached_eq_without.2 (by simp [List.count_eq_zero_of_not_mem (h r hr)])]
  exact detached_of_notMem (h r hr)

end detach

/-- Deleting a channel detaches it completely exactly if no rule lists it twice. -/
theorem deleteNotifier_detaches {g : State}
    (accepted : ∀ r ∈ g.db.rules, ∀ n ∈ r.notifiers, n ∈ g.db.notifiers)
    (current : g.alerts.rules = g.db.rules.filter AlertRule.enabled) (id : ℕ+) :
    (∃ g' acts, machine.Completes g (code (.deleteNotifier id)) g' ∧
      Runs.exec machine.step ⟨g, [code (.deleteNotifier id)]⟩ acts = some ⟨g', [[]]⟩) ∧
    ∀ g', machine.Completes g (code (.deleteNotifier id)) g' →
      (Detached id g g' ↔ ∀ r ∈ g.db.rules, r.notifiers.count id ≤ 1) := by
  have runs : ∀ g', machine.Completes g (code (.deleteNotifier id)) g' →
      ∃ g' acts, machine.Completes g (code (.deleteNotifier id)) g' ∧
        Runs.exec machine.step ⟨g, [code (.deleteNotifier id)]⟩ acts = some ⟨g', [[]]⟩ := by
    intro g' h
    obtain ⟨acts, -, hexec⟩ := h.exec [code (.deleteNotifier id)] 0 rfl
    exact ⟨g', acts, h, hexec⟩
  by_cases hid : id ∈ g.db.notifiers
  · obtain ⟨g₁, hrows, hengine, hall⟩ := completes_deleteNotifier hid
    refine ⟨runs g₁ ((hall g₁).2 rfl), ?_⟩
    intro g' h
    rw [(hall g').1 h]
    constructor
    · intro hdet r hr
      have hmap := hrows.symm.trans hdet.stored
      exact detached_eq_without.1 (List.map_inj_left.1 hmap r hr)
    · intro hcount
      have hmap : g.db.rules.map (detached id) = g.db.rules.map (without id) :=
        List.map_congr_left fun r hr => detached_eq_without.2 (hcount r hr)
      exact ⟨hmap ▸ hrows, hmap ▸ hengine⟩
  · -- no rule lists an id that no channel has
    have hnone : ∀ r ∈ g.db.rules, id ∉ r.notifiers := fun r hr hmem => hid (accepted r hr id hmem)
    have hmap := map_without hnone
    refine ⟨runs _ ((completes_notFound hid _).2 rfl), ?_⟩
    intro g' h
    rw [(completes_notFound hid g').1 h]
    constructor
    · intro _ r hr
      simp [List.count_eq_zero_of_not_mem (hnone r hr)]
    · intro _
      exact ⟨hmap.symm, hmap.symm ▸ current⟩

def listing (notifiers : List ℕ+) : Database where
  systems := [1]
  rules := [⟨1, "CPU", none, .cpu, 90, 300, notifiers, true⟩]
  notifiers := [1, 2]
  sorted := List.pairwise_singleton _ _
  inScope := by simp

theorem deleteNotifier_detaches_once : ∃ g' : State,
    machine.Completes (init (listing [2, 1]) 0).global (code (.deleteNotifier 1)) g' ∧
    Detached 1 (init (listing [2, 1]) 0).global g' := by
  obtain ⟨⟨g', -, h, -⟩, hall⟩ := deleteNotifier_detaches (g := (init (listing [2, 1]) 0).global)
    (by decide) rfl 1
  exact ⟨g', h, (hall g' h).2 (by decide)⟩

/-- A rule is saved that lists channel 1 twice, and then the channel is deleted: the rule
still lists it, in the table and in the engine. -/
theorem deleted_channel_listed : ∃ saved cfg,
    Runs.exec machine.step (init (listing []) 0)
      (.start (.saveAlertRule (some 1) ⟨"CPU", none, "cpu", 90, 300, [1, 2, 1], true⟩) ::
        steps 0 8) = some saved ∧
    Runs.exec machine.step saved (.start (.deleteNotifier 1) :: steps 1 6) = some cfg ∧
    Idle cfg ∧ cfg.global.replies = [.ok, .ok] ∧
    cfg.global.db.rules.map AlertRule.notifiers = [[2, 1]] ∧
    cfg.global.alerts.rules.map AlertRule.notifiers = [[2, 1]] ∧
    ¬ Detached 1 saved.global cfg.global := by
  refine ⟨_, _, rfl, rfl, by decide +kernel, by decide +kernel, by decide +kernel,
    by decide +kernel, fun h => absurd h.stored ?_⟩
  decide +kernel

end Lotse.Rules
