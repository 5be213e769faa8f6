import Lotse.RuleReload

set_option autoImplicit false

namespace Lotse.Rules
open Alerts Rows Tasks

/-- Every stored rule is as it was last saved, without the channels that were deleted. -/
def AsSaved (g : State) : Prop :=
  ∀ r ∈ g.db.rules, ∃ s ∈ g.saved r.id,
    r = { s with notifiers := s.notifiers.filter (· ∉ g.deleted) }

instance (g : State) : Decidable (AsSaved g) := inferInstanceAs (Decidable (∀ r ∈ g.db.rules, _))

/-- Requests to save a rule, with no channel listed twice, and to delete a channel. -/
def Edits : Action Unit Request → Prop
  | .start (.saveAlertRule _ r) => r.notifiers.Nodup
  | .start (.deleteNotifier _) => True
  | .start _ => False
  | .run .. => True
  | .restart => False

instance : (a : Action Unit Request) → Decidable (Edits a)
  | .start (.saveAlertRule _ r) => inferInstanceAs (Decidable r.notifiers.Nodup)
  | .start (.deleteNotifier _) | .run .. => .isTrue trivial
  | .start (.deleteAlertRule _) | .start (.deleteSystem _) | .start .enroll | .start (.tick _)
  | .restart => .isFalse id

/-- The condition on a step, in the state before it: the channels of a rule that is saved
still exist, a row that is written back is still the one that was read, apart from the
channel, and no rule lists a channel that is deleted. -/
def UpToDate (cfg : Config State Instr) : Instr → Prop
  | .saveRule d => ∀ n ∈ d.notifiers, n ∈ cfg.global.db.notifiers
  | .detach id (r :: _) => id ∈ r.notifiers →
      ∃ q ∈ cfg.global.db.rules, detached id q = detached id r
  | .deleteNotifier id => ∀ r ∈ cfg.global.db.rules, id ∉ r.notifiers
  | _ => True

instance (cfg : Config State Instr) : (ins : Instr) → Decidable (UpToDate cfg ins)
  | .saveRule d => inferInstanceAs (Decidable (∀ n ∈ d.notifiers, n ∈ cfg.global.db.notifiers))
  | .detach id (r :: _) => inferInstanceAs (Decidable (id ∈ r.notifiers →
      ∃ q ∈ cfg.global.db.rules, detached id q = detached id r))
  | .deleteNotifier id => inferInstanceAs (Decidable (∀ r ∈ cfg.global.db.rules, id ∉ r.notifiers))
  | .detach _ [] | .findRule .. | .validateRule .. | .findSystem .. | .findNotifiers ..
  | .findDeleted _ | .deleteRule _ | .resetRule _ | .findNotifier _ | .readRules _
  | .reload | .lookupSystem _ | .deleteSystem _ | .resetSystem _ | .createSystem | .tick _ =>
    .isTrue trivial

def Deleting (ts : List (List Instr)) (id : ℕ+) : Prop :=
  Ahead ts (.deleteNotifier id) ∨ ∃ rules, Ahead ts (.detach id rules)

/-- What is known of the instructions ahead: the channels of a draft are distinct, and the
channel that a handler deletes was there when it looked. -/
def InstrOk (g : State) : Instr → Prop
  | .findRule _ r | .validateRule _ r => r.notifiers.Nodup
  | .findSystem d _ notifiers => d.notifiers = [] ∧ notifiers.Nodup
  | .findNotifiers d notifiers => (d.notifiers.map (fun n : ℕ+ => (n : ℤ)) ++ notifiers).Nodup
  | .saveRule d => d.notifiers.Nodup
  | .readRules id | .detach id _ | .deleteNotifier id => id ∈ g.db.notifiers ∨ id ∈ g.deleted
  | .resetRule _ | .findNotifier _ | .reload => True
  | .findDeleted _ | .deleteRule _ | .lookupSystem _ | .deleteSystem _ | .resetSystem _
  | .createSystem | .tick _ => False

/-- A row differs from the rule as it was saved in channels that are deleted or about to be. -/
def RowOk (g : State) (ts : List (List Instr)) (r : AlertRule) : Prop :=
  ∃ s ∈ g.saved r.id, s.notifiers.Nodup ∧ ∃ gone : List ℕ+,
    r = { s with notifiers := s.notifiers.filter (· ∉ gone) } ∧
      ∀ n ∈ gone, n ∈ g.deleted ∨ Deleting ts n

structure Kept (cfg : Config State Instr) : Prop where
  code : ∀ t ∈ cfg.tasks, ∀ j ∈ t, InstrOk cfg.global j
  channels : ∀ n ∈ cfg.global.db.notifiers, n ∉ cfg.global.deleted
  listed : ∀ r ∈ cfg.global.db.rules, ∀ n ∈ r.notifiers, n ∉ cfg.global.deleted
  rows : ∀ r ∈ cfg.global.db.rules, RowOk cfg.global cfg.tasks r

theorem Kept.asSaved {cfg : Config State Instr} (h : Kept cfg) (hidle : Idle cfg) :
    AsSaved cfg.global := by
  intro r hr
  obtain ⟨s, hs, -, gone, heq, hgone⟩ := h.rows r hr
  refine ⟨s, hs, heq.trans ?_⟩
  congr 1
  refine List.filter_congr fun n hn => ?_
  rw [decide_eq_decide, not_iff_not]
  constructor
  · intro hmem
    rcases hgone n hmem with hdel | hdel | ⟨rules, hdel⟩
    · exact hdel
    · exact absurd hdel (hidle.not_ahead _)
    · exact absurd hdel (hidle.not_ahead _)
  · intro hdel
    by_contra hn'
    refine h.listed r hr n ?_ hdel
    rw [heq]
    exact List.mem_filter.2 ⟨hn, by simpa using hn'⟩

theorem mem_updateRule {db db' : Database} {r q : AlertRule} (h : db.updateRule r = some db')
    (hq : q ∈ db'.rules) : q = r ∨ q ∈ db.rules ∧ q.id ≠ r.id := by
  unfold Database.updateRule at h
  split_ifs at h
  cases h
  obtain ⟨p, hp, rfl⟩ := List.mem_map.1 hq
  split_ifs with hid
  · exact .inl rfl
  · exact .inr ⟨hp, hid⟩

theorem updateRule_notifiers {db db' : Database} {r : AlertRule} (h : db.updateRule r = some db') :
    db'.notifiers = db.notifiers := by
  unfold Database.updateRule at h
  split_ifs at h
  cases h
  rfl

theorem saveRule_spec {db db' : Database} {d : Draft} {r : AlertRule}
    (h : db.saveRule d = some (db', r)) :
    db'.notifiers = db.notifiers ∧ r.notifiers = d.notifiers ∧
      ∀ q ∈ db'.rules, q = r ∨ q ∈ db.rules ∧ q.id ≠ r.id := by
  unfold Database.saveRule at h
  split at h
  · unfold Database.insertRule at h
    dsimp only at h
    split_ifs at h
    cases h
    refine ⟨rfl, rfl, fun q hq => ?_⟩
    rcases List.mem_append.1 hq with hq | hq
    · exact .inr ⟨hq, (lt_nextPos hq).ne⟩
    · exact .inl (List.mem_singleton.1 hq)
  · obtain ⟨db'', hup, heq⟩ := Option.map_eq_some_iff.1 h
    cases heq
    exact ⟨updateRule_notifiers hup, rfl, fun q hq => mem_updateRule hup hq⟩

theorem validateRule_notifiers {id : Option ℕ+} {r : RuleInput} {d : Draft}
    (h : validateRule id r = .ok d) : d.notifiers = [] := by
  unfold validateRule at h
  split at h
  · cases h
  · dsimp only at h
    split_ifs at h <;> cases h <;> rfl

theorem byID_eq {ids : List ℕ+} {id : ℤ} {n : ℕ+}
    (h : (ids.find? fun m : ℕ+ => (m : ℤ) = id) = some n) : n ∈ ids ∧ (n : ℤ) = id :=
  ⟨List.mem_of_find?_eq_some h, by simpa using List.find?_some h⟩

theorem InstrOk.mono {g g' : State} {j : Instr} (h : InstrOk g j)
    (hknown : ∀ n, n ∈ g.db.notifiers ∨ n ∈ g.deleted → n ∈ g'.db.notifiers ∨ n ∈ g'.deleted) :
    InstrOk g' j := by
  cases j with
  | readRules | detach | deleteNotifier => exact hknown _ h
  | _ => exact h

theorem RowOk.mono {g g' : State} {ts ts' : List (List Instr)} {r : AlertRule} (h : RowOk g ts r)
    (hsaved : g'.saved r.id = g.saved r.id)
    (hgone : ∀ n, n ∈ g.deleted ∨ Deleting ts n → n ∈ g'.deleted ∨ Deleting ts' n) :
    RowOk g' ts' r := by
  obtain ⟨s, hs, hd, gone, heq, hg⟩ := h
  refine ⟨s, ?_, hd, gone, heq, fun n hn => hgone n (hg n hn)⟩
  rw [hsaved]
  exact hs

theorem RowOk.detached {g : State} {ts : List (List Instr)} {r : AlertRule} {id : ℕ+}
    (h : RowOk g ts r) (hdel : Deleting ts id) : RowOk g ts (detached id r) := by
  obtain ⟨s, hs, hd, gone, heq, hg⟩ := h
  refine ⟨s, hs, hd, id :: gone, ?_, ?_⟩
  · have hnodup : (s.notifiers.filter (· ∉ gone)).Nodup := hd.filter _
    rw [heq]
    unfold Rules.detached
    congr 1
    rw [hnodup.erase_eq_filter, List.filter_filter]
    refine List.filter_congr fun n _ => ?_
    by_cases hn : n = id <;> simp [hn]
  · intro n hn
    rcases List.mem_cons.1 hn with rfl | hn
    · exact .inr hdel
    · exact hg n hn

section step
variable {cfg : Config State Instr} {i : ℕ} {ins : Instr} {rest : List Instr}

theorem deleting_kept (hi : cfg.tasks[i]? = some (ins :: rest)) {n : ℕ+}
    (hdelete : ins ≠ .deleteNotifier n) (hdetach : ∀ rules, ins ≠ .detach n rules)
    (h : Deleting cfg.tasks n) :
    Deleting (cfg.tasks.set i ((atomic cfg.global ins).resume rest)) n := by
  rcases h with h | ⟨rules, h⟩
  · exact .inl (ahead_kept hi (rest_subset_resume _ _ _) hdelete.symm h)
  · exact .inr ⟨rules, ahead_kept hi (rest_subset_resume _ _ _) (hdetach rules).symm h⟩

theorem kept_still (h : Kept cfg) (hi : cfg.tasks[i]? = some (ins :: rest))
    (hdb : (atomic cfg.global ins).global.db = cfg.global.db)
    (hsaved : (atomic cfg.global ins).global.saved = cfg.global.saved)
    (hdeleted : (atomic cfg.global ins).global.deleted = cfg.global.deleted)
    (hcode : ∀ j ∈ (atomic cfg.global ins).code, InstrOk cfg.global j)
    (hdel : ∀ n, Deleting cfg.tasks n →
      n ∈ cfg.global.deleted ∨ Deleting (cfg.tasks.set i ((atomic cfg.global ins).resume rest)) n) :
    Kept ⟨(atomic cfg.global ins).global, cfg.tasks.set i ((atomic cfg.global ins).resume rest)⟩ := by
  have mono {j : Instr} (hj : InstrOk cfg.global j) : InstrOk (atomic cfg.global ins).global j :=
    hj.mono fun n hn => by rwa [hdb, hdeleted]
  refine ⟨forall_step hi h.code (fun j => mono) fun j hj => mono (hcode j hj), ?_, ?_, ?_⟩
  · rw [hdb, hdeleted]
    exact h.channels
  · rw [hdb, hdeleted]
    exact h.listed
  · intro r hr
    rw [hdb] at hr
    refine (h.rows r hr).mono (by rw [hsaved]) fun n hn => ?_
    rw [hdeleted]
    exact hn.elim .inl (hdel n)

theorem kept_written {g' : State} {code : List Instr} {r : AlertRule} (h : Kept cfg)
    (hi : cfg.tasks[i]? = some (ins :: rest)) (hnot : g'.db.notifiers = cfg.global.db.notifiers)
    (hdeleted : g'.deleted = cfg.global.deleted)
    (hrows : ∀ q ∈ g'.db.rules,
      q = r ∨ q ∈ cfg.global.db.rules ∧ g'.saved q.id = cfg.global.saved q.id)
    (hlisted : ∀ n ∈ r.notifiers, n ∉ cfg.global.deleted)
    (hrow : RowOk g' (cfg.tasks.set i ((Outcome.next g' code).resume rest)) r)
    (hcode : ∀ j ∈ code, InstrOk g' j)
    (hdel : ∀ n, Deleting cfg.tasks n →
      Deleting (cfg.tasks.set i ((Outcome.next g' code).resume rest)) n) :
    Kept ⟨g', cfg.tasks.set i ((Outcome.next g' code).resume rest)⟩ := by
  have mono {j : Instr} (hj : InstrOk cfg.global j) : InstrOk g' j :=
    hj.mono fun n hn => by rwa [hnot, hdeleted]
  refine ⟨forall_step hi h.code (fun j => mono) hcode, ?_, fun q hq => ?_, fun q hq => ?_⟩
  · rw [hnot, hdeleted]
    exact h.channels
  · rw [hdeleted]
    rcases hrows q hq with rfl | ⟨hq, -⟩
    · exact hlisted
    · exact h.listed q hq
  · rcases hrows q hq with rfl | ⟨hq, hsaved⟩
    · exact hrow
    · refine (h.rows q hq).mono hsaved fun n hn => ?_
      rw [hdeleted]
      exact hn.imp_right (hdel n)

theorem kept_saveRule {d : Draft} (h : Kept cfg) (hok : UpToDate cfg (.saveRule d))
    (hi : cfg.tasks[i]? = some (.saveRule d :: rest)) :
    Kept ⟨(atomic cfg.global (.saveRule d)).global,
      cfg.tasks.set i ((atomic cfg.global (.saveRule d)).resume rest)⟩ := by
  have hnodup : d.notifiers.Nodup := h.code _ (task_mem hi) _ List.mem_cons_self
  have hdel : ∀ n, Deleting cfg.tasks n →
      Deleting (cfg.tasks.set i ((atomic cfg.global (.saveRule d)).resume rest)) n :=
    fun n hn => deleting_kept hi (by simp) (by simp) hn
  cases hs : cfg.global.db.saveRule d with
  | none =>
    have hfail : atomic cfg.global (.saveRule d) = internalError cfg.global := by simp [atomic, hs]
    refine kept_still h hi (by rw [hfail]; rfl) (by rw [hfail]; rfl) (by rw [hfail]; rfl) ?_
      fun n hn => .inr (hdel n hn)
    intro j hj
    rw [hfail] at hj
    cases hj
  | some res =>
    obtain ⟨db, r⟩ := res
    obtain ⟨hnot, hr, hrows⟩ := saveRule_spec hs
    have hout : atomic cfg.global (.saveRule d) = .next (cfg.global.save db r) [.resetRule r.id] := by
      simp [atomic, hs]
    rw [hout] at hdel ⊢
    have hchannel : ∀ n ∈ r.notifiers, n ∉ cfg.global.deleted := by
      rw [hr]
      exact fun n hn => h.channels n (hok n hn)
    rw [← hr] at hnodup
    have hothers : ∀ q ∈ (cfg.global.save db r).db.rules, q = r ∨ q ∈ cfg.global.db.rules ∧
        (cfg.global.save db r).saved q.id = cfg.global.saved q.id := by
      intro q hq
      refine (hrows q hq).imp_right fun hold => ⟨hold.1, ?_⟩
      simp [State.save, hold.2]
    refine kept_written h hi hnot rfl hothers hchannel ⟨r, by simp [State.save], hnodup, [],
      by simp, fun _ hn => absurd hn List.not_mem_nil⟩ ?_ hdel
    intro j hj
    rw [List.mem_singleton.1 hj]
    trivial

theorem kept_detach {id : ℕ+} {rules : List AlertRule} (h : Kept cfg)
    (hok : UpToDate cfg (.detach id rules)) (hi : cfg.tasks[i]? = some (.detach id rules :: rest)) :
    Kept ⟨(atomic cfg.global (.detach id rules)).global,
      cfg.tasks.set i ((atomic cfg.global (.detach id rules)).resume rest)⟩ := by
  have hknown : id ∈ cfg.global.db.notifiers ∨ id ∈ cfg.global.deleted :=
    h.code _ (task_mem hi) _ List.mem_cons_self
  -- the handler goes on to delete the channel, and the others are not disturbed
  have hother : ∀ n, n ≠ id → Deleting cfg.tasks n →
      Deleting (cfg.tasks.set i ((atomic cfg.global (.detach id rules)).resume rest)) n :=
    fun n hne hn => deleting_kept hi (by simp) (fun _ he => hne (by cases he; rfl)) hn
  have hdel : ∀ n, Deleting (cfg.tasks.set i ((atomic cfg.global (.detach id rules)).resume rest)) id →
      Deleting cfg.tasks n →
      Deleting (cfg.tasks.set i ((atomic cfg.global (.detach id rules)).resume rest)) n := by
    intro n hself hn
    by_cases hne : n = id
    · exact hne ▸ hself
    · exact hother n hne hn
  cases rules with
  | nil =>
    have hself : Deleting (cfg.tasks.set i ((atomic cfg.global (.detach id [])).resume rest)) id :=
      .inl (ahead_code hi (by simp [atomic, Outcome.code]))
    refine kept_still h hi rfl rfl rfl ?_ fun n hn => .inr (hdel n hself hn)
    intro j hj
    rw [List.mem_singleton.1 hj]
    exact hknown
  | cons r rules =>
    by_cases hmem : id ∈ r.notifiers
    · obtain ⟨q, hq, hsame⟩ := hok hmem
      have hid : (detached id q).id = (detached id r).id := by rw [hsame]
      have hscope : (detached id q).systemID = (detached id r).systemID := by rw [hsame]
      obtain ⟨db, hdb⟩ : ∃ db, cfg.global.db.updateRule (detached id r) = some db := by
        refine Database.updateRule_ok ⟨q, hq, hid⟩ ?_
        rw [← hscope]
        exact cfg.global.db.inScope q hq
      have hout : atomic cfg.global (.detach id (r :: rules)) =
          .next { cfg.global with db } [.detach id rules] := by simp [atomic, hmem, hdb]
      have hself : Deleting (cfg.tasks.set i
          ((atomic cfg.global (.detach id (r :: rules))).resume rest)) id :=
        .inr ⟨rules, ahead_code hi (by simp [hout, Outcome.code])⟩
      have hdel := fun n => hdel n hself
      rw [hout] at hdel hself ⊢
      have hnot := updateRule_notifiers hdb
      refine kept_written h hi hnot rfl
        (fun p hp => (mem_updateRule hdb hp).imp_right fun hold => ⟨hold.1, rfl⟩) ?_ ?_ ?_ hdel
      · rw [← hsame]
        exact fun n hn => h.listed q hq n (List.mem_of_mem_erase hn)
      · rw [← hsame]
        refine RowOk.detached ?_ hself
        exact (h.rows q hq).mono rfl fun n hn => hn.imp_right (hdel n)
      · intro j hj
        rw [List.mem_singleton.1 hj]
        exact hknown.imp_left fun hn => hnot.symm ▸ hn
    · have hout : atomic cfg.global (.detach id (r :: rules)) = .next cfg.global [.detach id rules] := by
        simp [atomic, hmem]
      have hself : Deleting (cfg.tasks.set i
          ((atomic cfg.global (.detach id (r :: rules))).resume rest)) id :=
        .inr ⟨rules, ahead_code hi (by simp [hout, Outcome.code])⟩
      refine kept_still h hi (by rw [hout]; rfl) (by rw [hout]; rfl) (by rw [hout]; rfl) ?_
        fun n hn => .inr (hdel n hself hn)
      intro j hj
      rw [hout, Outcome.code, List.mem_singleton] at hj
      rw [hj]
      exact hknown

theorem kept_deleteNotifier {id : ℕ+} (h : Kept cfg) (hok : UpToDate cfg (.deleteNotifier id))
    (hi : cfg.tasks[i]? = some (.deleteNotifier id :: rest)) :
    Kept ⟨(atomic cfg.global (.deleteNotifier id)).global,
      cfg.tasks.set i ((atomic cfg.global (.deleteNotifier id)).resume rest)⟩ := by
  have hknown : id ∈ cfg.global.db.notifiers ∨ id ∈ cfg.global.deleted :=
    h.code _ (task_mem hi) _ List.mem_cons_self
  have hother : ∀ n, n ≠ id → Deleting cfg.tasks n →
      Deleting (cfg.tasks.set i ((atomic cfg.global (.deleteNotifier id)).resume rest)) n :=
    fun n hne hn => deleting_kept hi (by simpa using Ne.symm hne) (by simp) hn
  by_cases hmem : id ∈ cfg.global.db.notifiers
  · have hout : atomic cfg.global (.deleteNotifier id) =
        .next { cfg.global with
          db := { cfg.global.db with notifiers := cfg.global.db.notifiers.filter (· ≠ id) }
          deleted := id :: cfg.global.deleted } [.reload] := by
      simp [atomic, Database.deleteNotifier, hmem]
    rw [hout] at hother ⊢
    refine ⟨forall_step hi h.code (fun j hj => hj.mono fun n hn => ?_) ?_, ?_, ?_, ?_⟩
    · by_cases hne : n = id
      · exact .inr (List.mem_cons.2 (.inl hne))
      · exact hn.imp (fun hn => List.mem_filter.2 ⟨hn, by simpa using hne⟩) (List.mem_cons_of_mem _)
    · intro j hj
      rw [List.mem_singleton.1 hj]
      trivial
    · intro n hn hd
      obtain ⟨hn, hne⟩ := List.mem_filter.1 hn
      rcases List.mem_cons.1 hd with rfl | hd
      · simp at hne
      · exact h.channels n hn hd
    · intro r hr n hn hd
      rcases List.mem_cons.1 hd with rfl | hd
      · exact hok r hr hn
      · exact h.listed r hr n hn hd
    · intro r hr
      refine (h.rows r hr).mono rfl fun n hn => ?_
      by_cases hne : n = id
      · exact .inl (List.mem_cons.2 (.inl hne))
      · exact hn.imp (List.mem_cons_of_mem _) (hother n hne)
  · have hout : atomic cfg.global (.deleteNotifier id) = internalError cfg.global := by
      simp [atomic, Database.deleteNotifier, hmem]
    refine kept_still h hi (by rw [hout]; rfl) (by rw [hout]; rfl) (by rw [hout]; rfl) ?_ fun n hn => ?_
    · intro j hj
      rw [hout] at hj
      cases hj
    · by_cases hne : n = id
      · exact .inl (hne ▸ hknown.resolve_left hmem)
      · exact .inr (hother n hne hn)

end step

structure Reads (g : State) (ins : Instr) (out : Outcome State Instr) : Prop where
  db : out.global.db = g.db
  saved : out.global.saved = g.saved
  deleted : out.global.deleted = g.deleted
  code : InstrOk g ins → ∀ j ∈ out.code, InstrOk g j

theorem reads_fail (g : State) (ins : Instr) (status : ℕ) (message : String) :
    Reads g ins (fail g status message) :=
  ⟨rfl, rfl, rfl, fun _ _ hj => absurd hj List.not_mem_nil⟩

theorem reads_next {g : State} {ins j : Instr} (h : InstrOk g ins → InstrOk g j) :
    Reads g ins (.next g [j]) := by
  refine ⟨rfl, rfl, rfl, fun hins j' hj => ?_⟩
  rw [List.mem_singleton.1 hj]
  exact h hins

theorem reads_validateRule (g : State) (id : Option ℕ+) (r : RuleInput) :
    Reads g (.validateRule id r) (atomic g (.validateRule id r)) := by
  simp only [atomic]
  split
  · exact reads_fail ..
  · rename_i d hd
    have hnil := validateRule_notifiers hd
    cases hs : r.systemID with
    | none => exact reads_next fun h => by simpa [InstrOk, hnil] using h
    | some system => exact reads_next fun h => ⟨hnil, h⟩

theorem reads_findNotifiers (g : State) (d : Draft) (notifiers : List ℤ) :
    Reads g (.findNotifiers d notifiers) (atomic g (.findNotifiers d notifiers)) := by
  cases notifiers with
  | nil =>
    refine reads_next fun h => List.Nodup.of_map (fun n : ℕ+ => (n : ℤ)) ?_
    simpa [InstrOk] using h
  | cons id notifiers =>
    simp only [atomic]
    split
    · exact reads_fail ..
    · rename_i n hn
      obtain ⟨-, rfl⟩ := byID_eq hn
      exact reads_next fun h => by simpa [InstrOk] using h

theorem reads_atomic (g : State) {ins : Instr} (hok : InstrOk g ins) (hsave : ∀ d, ins ≠ .saveRule d)
    (hdelete : ∀ n, ins ≠ .deleteNotifier n) (hdetach : ∀ n rules, ins ≠ .detach n rules) :
    Reads g ins (atomic g ins) := by
  cases ins with
  | saveRule d => exact absurd rfl (hsave d)
  | deleteNotifier n => exact absurd rfl (hdelete n)
  | detach n rules => exact absurd rfl (hdetach n rules)
  | findRule id r =>
    simp only [atomic]
    split
    · exact reads_fail ..
    · exact reads_next fun h => h
  | validateRule id r => exact reads_validateRule g id r
  | findSystem d system notifiers =>
    simp only [atomic]
    split
    · exact reads_fail ..
    · exact reads_next fun h => by simpa [InstrOk, h.1] using h.2
  | findNotifiers d notifiers => exact reads_findNotifiers g d notifiers
  | findNotifier id =>
    simp only [atomic]
    split
    · exact reads_fail ..
    · rename_i n hn
      exact reads_next fun _ => .inl (byID_eq hn).1
  | readRules id => exact reads_next fun h => h
  | resetRule id => exact ⟨rfl, rfl, rfl, fun _ _ hj => absurd hj List.not_mem_nil⟩
  | reload => exact ⟨rfl, rfl, rfl, fun _ _ hj => absurd hj List.not_mem_nil⟩
  | _ => exact hok.elim

theorem kept_step {cfg : Config State Instr} {i : ℕ} {ins : Instr} {rest : List Instr}
    (h : Kept cfg) (hok : UpToDate cfg ins) (hi : cfg.tasks[i]? = some (ins :: rest)) :
    Kept ⟨(atomic cfg.global ins).global, cfg.tasks.set i ((atomic cfg.global ins).resume rest)⟩ := by
  have hhead : InstrOk cfg.global ins := h.code _ (task_mem hi) _ List.mem_cons_self
  by_cases hsave : ∃ d, ins = .saveRule d
  · obtain ⟨d, rfl⟩ := hsave
    exact kept_saveRule h hok hi
  by_cases hdelete : ∃ n, ins = .deleteNotifier n
  · obtain ⟨n, rfl⟩ := hdelete
    exact kept_deleteNotifier h hok hi
  by_cases hdetach : ∃ n rules, ins = .detach n rules
  · obtain ⟨n, rules, rfl⟩ := hdetach
    exact kept_detach h hok hi
  push Not at hsave hdelete hdetach
  have reads := reads_atomic cfg.global hhead hsave hdelete hdetach
  exact kept_still h hi reads.db reads.saved reads.deleted (reads.code hhead)
    fun n hn => .inr (deleting_kept hi (hdelete n) (hdetach n) hn)

theorem kept_start {cfg : Config State Instr} (h : Kept cfg) {r : Request} (hr : Edits (.start r)) :
    Kept ⟨cfg.global, cfg.tasks ++ [code r]⟩ := by
  refine ⟨forall_start h.code ?_, h.channels, h.listed, fun q hq => ?_⟩
  · intro j hj
    match r, hr with
    | .saveAlertRule none r, hr | .saveAlertRule (some id) r, hr =>
      rw [List.mem_singleton.1 hj]
      exact hr
    | .deleteNotifier id, _ =>
      rw [List.mem_singleton.1 hj]
      trivial
  · refine (h.rows q hq).mono rfl fun n hn => hn.imp_right ?_
    exact Or.imp (fun hn => ahead_start.2 (.inl hn)) fun ⟨rules, hn⟩ => ⟨rules, ahead_start.2 (.inl hn)⟩

theorem kept_init {db : Database} (now : ℤ) (hdb : ∀ r ∈ db.rules, r.notifiers.Nodup) :
    Kept (init db now) := by
  refine ⟨nofun, fun _ _ => List.not_mem_nil, fun _ _ _ _ => List.not_mem_nil, fun r hr => ?_⟩
  change r ∈ db.rules at hr
  have hlookup : lookup AlertRule.id r.id db.rules = some r := by
    obtain ⟨q, hq⟩ := exists_lookup (k := AlertRule.id) hr
    have hids : (db.rules.map AlertRule.id).Nodup := db.sorted.imp ne_of_lt
    rw [hq, List.inj_on_of_nodup_map hids (lookup_mem hq) hr (lookup_key hq)]
  exact ⟨r, hlookup, hdb r hr, [], by simp, fun _ hn => absurd hn List.not_mem_nil⟩

/-- In every run of edits and deletions of channels whose handlers write only what they
found up to date, every rule is as it was last saved, without the deleted channels, when
all of them have completed. -/
theorem rules_as_saved {db : Database} {now : ℤ} (hdb : ∀ r ∈ db.rules, r.notifiers.Nodup)
    {acts : List (Action Unit Request)} {cfg : Config State Instr}
    (hedits : ∀ a ∈ acts, Edits a)
    (hm : Runs.Meets machine.step (Machine.Guard UpToDate) (init db now) acts)
    (he : Runs.exec machine.step (init db now) acts = some cfg) (hidle : Idle cfg) :
    AsSaved cfg.global := by
  refine Kept.asSaved ?_ hidle
  refine Runs.exec_guarded ?_ (kept_init now hdb)
    (Runs.meets_and (Runs.meets_of_mem hedits (init db now)) hm) he
  rintro c a d h ⟨hedit, hguard⟩ hs
  cases a with
  | start r =>
    cases hs
    exact kept_start h hedit
  | run i o =>
    obtain ⟨ins, rest, out, hi, ho, rfl⟩ := Machine.step_run hs
    cases ho
    exact kept_step h (Machine.guard_run hguard hi) hi
  | restart => exact hedit.elim

def edit : Request :=
  .saveAlertRule (some 1) ⟨"CPU", none, "cpu", 80, 300, [1], true⟩

def editedFirst : List (Action Unit Request) :=
  .start edit :: steps 0 6 ++ .start (.deleteNotifier 1) :: steps 1 6

theorem rules_as_saved_edited_first : ∃ cfg,
    (∀ a ∈ editedFirst, Edits a) ∧
    Runs.Meets machine.step (Machine.Guard UpToDate) (init (oneRule none nofun) 0) editedFirst ∧
    Runs.exec machine.step (init (oneRule none nofun) 0) editedFirst = some cfg ∧ Idle cfg ∧
    cfg.global.db.rules = [⟨1, "CPU", none, .cpu, 80, 300, [], true⟩] ∧ AsSaved cfg.global := by
  have hedits : ∀ a ∈ editedFirst, Edits a := by decide
  have hm : Runs.Meets machine.step (Machine.Guard UpToDate) (init (oneRule none nofun) 0)
      editedFirst := by decide +kernel
  refine ⟨_, hedits, hm, rfl, by decide +kernel, by decide +kernel, ?_⟩
  exact rules_as_saved (by decide) hedits hm rfl (by decide +kernel)

/-- The rule is edited after `deleteNotifier` has read it: the row that is written back has
the threshold from before the edit. -/
theorem edit_overwritten : ∃ cfg,
    Runs.exec machine.step (init (oneRule none nofun) 0)
      (.start (.deleteNotifier 1) :: steps 0 2 ++ .start edit :: steps 1 6 ++ steps 0 4) = some cfg ∧
    Idle cfg ∧ cfg.global.replies = [.ok, .ok] ∧
    (cfg.global.saved 1).map AlertRule.threshold = some 80 ∧
    cfg.global.db.rules.map AlertRule.threshold = [90] ∧ ¬ AsSaved cfg.global :=
  ⟨_, rfl, by decide +kernel, by decide +kernel, by decide +kernel, by decide +kernel,
    by decide +kernel⟩

end Lotse.Rules
