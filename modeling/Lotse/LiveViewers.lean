import Lotse.LiveMachine

set_option autoImplicit false

namespace Lotse.Live
open Tasks

def ChangePending (ts : List (List Instr)) : Prop :=
  ∃ viewer, Ahead ts (.onChange viewer) ∨ Ahead ts (.viewersChanged viewer)

def TimerOutstanding (cfg : Config State Instr) : Prop :=
  cfg.global.armed ≠ [] ∨ Ahead cfg.tasks .idle ∨ Ahead cfg.tasks .goIdle

def Completed (ts : List (List Instr)) (viewer : ℕ) : Prop :=
  ¬ Ahead ts (.onChange viewer) ∧ ¬ Ahead ts (.viewersChanged viewer)

/-- `miscounted` and `unseen` are about the holder of `h.mu`: a viewer it counted may be
gone and another one may have come, and their calls wait for the lock. -/
structure Follows (cfg : Config State Instr) : Prop where
  timer : ∀ t ∈ cfg.global.idleTimer, t ∈ cfg.global.armed ∨ Ahead cfg.tasks .idle
  miscounted : ∀ count ∈ cfg.global.held, count ≠ 0 → cfg.global.subs = [] →
    ∃ viewer, Ahead cfg.tasks (.onChange viewer)
  unseen : cfg.global.held = some 0 → ∀ viewer ∈ cfg.global.subs, Ahead cfg.tasks (.onChange viewer)
  idle : cfg.global.live = false → cfg.global.subs ≠ [] → ChangePending cfg.tasks
  live : cfg.global.live = true → cfg.global.subs = [] → ChangePending cfg.tasks ∨ TimerOutstanding cfg

def Instr.awaited : Instr → Bool
  | .onChange _ | .viewersChanged _ | .idle | .goIdle => true
  | _ => false

theorem ChangePending.mono {ts ts' : List (List Instr)}
    (h : ∀ j : Instr, j.awaited → Ahead ts j → Ahead ts' j) :
    ChangePending ts → ChangePending ts' := by
  rintro ⟨viewer, hp | hp⟩
  · exact ⟨viewer, .inl (h _ rfl hp)⟩
  · exact ⟨viewer, .inr (h _ rfl hp)⟩

theorem TimerOutstanding.mono {cfg cfg' : Config State Instr}
    (h : ∀ j : Instr, j.awaited → Ahead cfg.tasks j → Ahead cfg'.tasks j)
    (harmed : cfg.global.armed ≠ [] → cfg'.global.armed ≠ []) :
    TimerOutstanding cfg → TimerOutstanding cfg' :=
  Or.imp harmed (Or.imp (h _ rfl) (h _ rfl))

theorem Follows.congr {cfg cfg' : Config State Instr} (f : Follows cfg)
    (h : ∀ j : Instr, j.awaited → Ahead cfg.tasks j → Ahead cfg'.tasks j)
    (hsubs : cfg'.global.subs = cfg.global.subs) (hlive : cfg'.global.live = cfg.global.live)
    (htimer : cfg'.global.idleTimer = cfg.global.idleTimer)
    (harmed : cfg'.global.armed = cfg.global.armed) (hheld : cfg'.global.held = cfg.global.held) :
    Follows cfg' := by
  refine ⟨?_, ?_, ?_, ?_, ?_⟩
  · rw [htimer, harmed]
    exact fun t ht => (f.timer t ht).imp_right (h _ rfl)
  · rw [hheld, hsubs]
    exact fun count hc hn hs => (f.miscounted count hc hn hs).imp fun v hv => h _ rfl hv
  · rw [hheld, hsubs]
    exact fun hc v hv => h _ rfl (f.unseen hc v hv)
  · rw [hlive, hsubs]
    exact fun hl hs => (f.idle hl hs).mono h
  · rw [hlive, hsubs]
    exact fun hl hs => (f.live hl hs).imp (·.mono h) (·.mono h (by rw [harmed]; exact id))

theorem linkStep_frame {gone : Bool} {g : State} {ins : Instr} {out : Outcome State Instr}
    (h : linkStep gone g ins = some out) :
    out.global.subs = g.subs ∧ out.global.live = g.live ∧ out.global.idleTimer = g.idleTimer ∧
      out.global.armed = g.armed ∧ out.global.held = g.held := by
  cases ins with
  | send k =>
    obtain ⟨m, -, rfl⟩ := Option.map_eq_some_iff.1 h
    dsimp only [Outcome.global_next]
    split <;> exact ⟨rfl, rfl, rfl, rfl, rfl⟩
  | drain conn | put conn =>
    obtain ⟨m, -, rfl⟩ := Option.map_eq_some_iff.1 h
    exact ⟨rfl, rfl, rfl, rfl, rfl⟩
  | _ =>
    simp only [linkStep] at h
    (repeat' split at h) <;> cases h <;> exact ⟨rfl, rfl, rfl, rfl, rfl⟩

theorem viewersChanged_pos (g : State) {count : ℕ} (h : count ≠ 0) :
    (g.viewersChanged count).subs = g.subs ∧ (g.viewersChanged count).live = true ∧
      (g.viewersChanged count).idleTimer = none := by
  unfold State.viewersChanged
  rw [if_pos (Nat.pos_of_ne_zero h)]
  dsimp only
  split
  · exact ⟨rfl, ‹_›, rfl⟩
  · exact ⟨rfl, rfl, rfl⟩

theorem viewersChanged_zero (g : State) :
    g.viewersChanged 0 = if g.live ∧ g.idleTimer = none then g.startIdleTimer else g := rfl

section step
variable {cfg : Config State Instr} {i : ℕ} {ins : Instr} {rest : List Instr} {gone : Bool}
  {out : Outcome State Instr} {viewer : ℕ}

theorem ahead_still (hi : cfg.tasks[i]? = some (ins :: rest))
    (h : atomic gone cfg.global ins = some out) {j : Instr} (hne : j ≠ ins)
    (hj : Ahead cfg.tasks j) : Ahead (cfg.tasks.set i (out.resume rest)) j :=
  ahead_kept hi (rest_subset_resume h) hne hj

theorem counted {g : State} {P : ℕ → Prop} (h : g.held = some g.subs.length) :
    (∀ count ∈ g.held, count ≠ 0 → g.subs = [] → ∃ viewer, P viewer) ∧
      (g.held = some 0 → ∀ viewer ∈ g.subs, P viewer) := by
  rw [h]
  constructor
  · rintro count ⟨⟩ hn hs
    exact absurd (List.length_eq_zero_iff.2 hs) hn
  · intro hzero v hv
    rw [List.length_eq_zero_iff.1 (Option.some.inj hzero)] at hv
    cases hv

theorem follows_subscribe (f : Follows cfg) (hi : cfg.tasks[i]? = some (.subscribe :: rest))
    (h : atomic gone cfg.global .subscribe = some out) :
    Follows ⟨out.global, cfg.tasks.set i (out.resume rest)⟩ := by
  have kept {j : Instr} := ahead_still (j := j) hi h
  have hcall : Ahead (cfg.tasks.set i (out.resume rest)) (.onChange cfg.global.nextViewer) := by
    cases h
    exact ahead_code hi List.mem_cons_self
  cases h
  refine ⟨fun t ht => (f.timer t ht).imp_right (kept nofun), fun _ _ _ _ => ⟨_, hcall⟩, ?_,
    fun _ _ => ⟨_, .inl hcall⟩, fun _ _ => .inl ⟨_, .inl hcall⟩⟩
  intro hheld v hv
  rcases List.mem_cons.1 hv with rfl | hv
  · exact hcall
  · exact kept nofun (f.unseen hheld v hv)

theorem follows_unsubscribe (f : Follows cfg)
    (hi : cfg.tasks[i]? = some (.unsubscribe viewer :: rest))
    (h : atomic gone cfg.global (.unsubscribe viewer) = some out) :
    Follows ⟨out.global, cfg.tasks.set i (out.resume rest)⟩ := by
  have kept {j : Instr} := ahead_still (j := j) hi h
  have hcall : Ahead (cfg.tasks.set i (out.resume rest)) (.onChange viewer) := by
    cases h
    exact ahead_code hi List.mem_cons_self
  cases h
  refine ⟨fun t ht => (f.timer t ht).imp_right (kept nofun), fun _ _ _ _ => ⟨_, hcall⟩, ?_,
    fun _ _ => ⟨_, .inl hcall⟩, fun _ _ => .inl ⟨_, .inl hcall⟩⟩
  intro hheld v hv
  exact kept nofun (f.unseen hheld v (List.mem_of_mem_erase hv))

theorem follows_onChange (f : Follows cfg) (hi : cfg.tasks[i]? = some (.onChange viewer :: rest))
    (h : atomic gone cfg.global (.onChange viewer) = some out) :
    Follows ⟨out.global, cfg.tasks.set i (out.resume rest)⟩ := by
  have kept {j : Instr} := ahead_still (j := j) hi h
  simp only [atomic, viewerStep] at h
  split_ifs at h
  cases h
  have hcall : ChangePending (cfg.tasks.set i (.viewersChanged viewer :: rest)) :=
    ⟨viewer, .inr ⟨_, new_mem_set hi, List.mem_cons_self⟩⟩
  exact ⟨fun t ht => (f.timer t ht).imp_right (kept (by simp)), (counted rfl).1, (counted rfl).2,
    fun _ _ => hcall, fun _ _ => .inl hcall⟩

theorem follows_viewersChanged (f : Follows cfg)
    (hi : cfg.tasks[i]? = some (.viewersChanged viewer :: rest))
    (h : atomic gone cfg.global (.viewersChanged viewer) = some out) :
    Follows ⟨out.global, cfg.tasks.set i (out.resume rest)⟩ := by
  have kept {j : Instr} := ahead_still (j := j) hi h
  obtain ⟨count, hheld, rfl⟩ := Option.map_eq_some_iff.1 h
  by_cases hcount : count = 0
  · subst hcount
    -- every viewer that is there by now has come after the count
    have hnew : ∀ v ∈ cfg.global.subs, ChangePending (cfg.tasks.set i ([] ++ rest)) :=
      fun v hv => ⟨v, .inl (kept nofun (f.unseen hheld v hv))⟩
    have hidle : cfg.global.subs ≠ [] → ChangePending (cfg.tasks.set i ([] ++ rest)) := by
      intro hs
      obtain ⟨v, hv⟩ := List.exists_mem_of_ne_nil _ hs
      exact hnew v hv
    simp only [Outcome.global_next, Outcome.resume_next, viewersChanged_zero]
    split_ifs with hstart
    · refine ⟨?_, nofun, nofun, fun _ => hidle, fun _ _ => .inr (.inl (List.cons_ne_nil _ _))⟩
      rintro t ⟨⟩
      exact .inl List.mem_cons_self
    · refine ⟨fun t ht => (f.timer t ht).imp_right (kept nofun), nofun, nofun, fun _ => hidle, ?_⟩
      intro hlive _
      obtain ⟨t, ht⟩ := Option.ne_none_iff_exists'.1 fun hn => hstart ⟨hlive, hn⟩
      right
      rcases f.timer t ht with harmed | hfired
      · exact .inl (List.ne_nil_of_mem harmed)
      · exact .inr (.inl (kept nofun hfired))
  · obtain ⟨hsubs, hlive, htimer⟩ := viewersChanged_pos cfg.global hcount
    refine ⟨?_, nofun, nofun, ?_, ?_⟩
    · intro t ht
      rw [Outcome.global_next] at ht
      cases htimer.symm.trans ht
    · intro hl
      cases hlive.symm.trans hl
    · intro _ hs
      -- the viewers that were counted are gone
      obtain ⟨v, hv⟩ := f.miscounted count hheld hcount (hsubs.symm.trans hs)
      exact .inl ⟨v, .inl (kept nofun hv)⟩

theorem follows_fire {timer : ℕ} (f : Follows cfg)
    (hi : cfg.tasks[i]? = some (.fire timer :: rest))
    (h : atomic gone cfg.global (.fire timer) = some out) :
    Follows ⟨out.global, cfg.tasks.set i (out.resume rest)⟩ := by
  have kept (j : Instr) (hj : j.awaited) := ahead_still (j := j) hi h (by rintro rfl; cases hj)
  simp only [atomic, viewerStep] at h
  split_ifs at h
  cases h
  have hcall : Ahead (cfg.tasks.set i (.idle :: rest)) .idle :=
    ⟨_, new_mem_set hi, List.mem_cons_self⟩
  refine ⟨fun _ _ => .inr hcall, fun count hc hn hs => ?_, fun hheld v hv => ?_,
    fun hl hs => (f.idle hl hs).mono kept, fun _ _ => .inr (.inr (.inl hcall))⟩
  · obtain ⟨v, hv⟩ := f.miscounted count hc hn hs
    exact ⟨v, kept _ rfl hv⟩
  · exact kept _ rfl (f.unseen hheld v hv)

theorem follows_idle (f : Follows cfg) (hi : cfg.tasks[i]? = some (.idle :: rest))
    (h : atomic gone cfg.global .idle = some out) :
    Follows ⟨out.global, cfg.tasks.set i (out.resume rest)⟩ := by
  have kept {j : Instr} := ahead_still (j := j) hi h
  have pending (hp : ChangePending cfg.tasks) :
      ChangePending (cfg.tasks.set i (out.resume rest)) := by
    obtain ⟨v, hv⟩ := hp
    exact ⟨v, hv.imp (kept (by simp)) (kept (by simp))⟩
  simp only [atomic, viewerStep] at h
  split_ifs at h with hheld hlive
  · cases h
    have hcall : Ahead (cfg.tasks.set i (.goIdle :: rest)) .goIdle :=
      ⟨_, new_mem_set hi, List.mem_cons_self⟩
    exact ⟨by simp, (counted rfl).1, (counted rfl).2, fun hl hs => pending (f.idle hl hs),
      fun _ _ => .inr (.inr (.inr hcall))⟩
  · cases h
    refine ⟨by simp, fun count hc => ?_, fun hzero => ?_, fun hl hs => pending (f.idle hl hs),
      fun hl => absurd hl hlive⟩
    · cases hheld.symm.trans hc
    · cases hheld.symm.trans hzero

theorem follows_goIdle (f : Follows cfg) (hi : cfg.tasks[i]? = some (.goIdle :: rest))
    (h : atomic gone cfg.global .goIdle = some out) :
    Follows ⟨out.global, cfg.tasks.set i (out.resume rest)⟩ := by
  have kept {j : Instr} := ahead_still (j := j) hi h
  obtain ⟨count, hheld, rfl⟩ := Option.map_eq_some_iff.1 h
  by_cases hcount : count = 0
  · subst hcount
    refine ⟨fun t ht => (f.timer t ht).imp_right (kept nofun), nofun, nofun, ?_, nofun⟩
    intro _ hs
    obtain ⟨v, hv⟩ := List.exists_mem_of_ne_nil _ hs
    exact ⟨v, .inl (kept nofun (f.unseen hheld v hv))⟩
  · simp only [Outcome.global_next, State.goIdle, if_neg hcount]
    refine ⟨fun t ht => (f.timer t ht).imp_right (kept nofun), nofun, nofun, ?_, ?_⟩
    · intro hl hs
      obtain ⟨v, hv⟩ := f.idle hl hs
      exact ⟨v, hv.imp (kept nofun) (kept nofun)⟩
    · intro _ hs
      obtain ⟨v, hv⟩ := f.miscounted count hheld hcount hs
      exact .inl ⟨v, .inl (kept nofun hv)⟩

theorem follows_step (f : Follows cfg) (hi : cfg.tasks[i]? = some (ins :: rest))
    (h : atomic gone cfg.global ins = some out) :
    Follows ⟨out.global, cfg.tasks.set i (out.resume rest)⟩ := by
  cases ins with
  | subscribe => exact follows_subscribe f hi h
  | onChange => exact follows_onChange f hi h
  | viewersChanged => exact follows_viewersChanged f hi h
  | unsubscribe => exact follows_unsubscribe f hi h
  | fire => exact follows_fire f hi h
  | idle => exact follows_idle f hi h
  | goIdle => exact follows_goIdle f hi h
  | stream =>
    have kept {j : Instr} := ahead_still (j := j) hi h
    cases h
    exact f.congr (fun j hj => kept (by rintro rfl; cases hj)) rfl rfl rfl rfl rfl
  | _ =>
    have kept {j : Instr} := ahead_still (j := j) hi h
    simp only [atomic] at h
    obtain ⟨hsubs, hlive, htimer, harmed, hheld⟩ := linkStep_frame h
    exact f.congr (fun j hj => kept (by rintro rfl; cases hj)) hsubs hlive htimer harmed hheld

end step

theorem follows_start {cfg : Config State Instr} (f : Follows cfg) (r : Request) :
    Follows ⟨cfg.global, cfg.tasks ++ [code r]⟩ :=
  f.congr (fun _ _ h => ahead_start.2 (.inl h)) rfl rfl rfl rfl rfl

theorem follows_reachable {acts : List (Action Bool Request)} {cfg : Config State Instr}
    (he : Runs.exec machine.step init acts = some cfg) : Follows cfg := by
  refine machine.invariant (J := Follows) (fun _ r f => follows_start f r)
    (fun _ _ _ _ _ _ f hi h => follows_step f hi h) nofun ?_ he
  exact ⟨nofun, nofun, nofun, fun _ hs => absurd rfl hs, nofun⟩

theorem live_kept {gone : Bool} {g : State} {ins : Instr} {out : Outcome State Instr}
    (h : atomic gone g ins = some out) (hne : ins ≠ .goIdle) (hlive : g.live = true) :
    out.global.live = true := by
  cases ins with
  | goIdle => exact absurd rfl hne
  | viewersChanged =>
    obtain ⟨count, -, rfl⟩ := Option.map_eq_some_iff.1 h
    by_cases hcount : count = 0
    · subst hcount
      rw [Outcome.global_next, viewersChanged_zero]
      split <;> exact hlive
    · exact (viewersChanged_pos g hcount).2.1
  | onChange | fire | idle =>
    simp only [atomic, viewerStep] at h
    split_ifs at h
    cases h
    exact hlive
  | subscribe | unsubscribe | stream =>
    cases h
    exact hlive
  | _ =>
    simp only [atomic] at h
    exact (linkStep_frame h).2.1.trans hlive

/-- The callback counted no viewer, and whoever subscribed since then waits for the lock. -/
theorem turned_off {cfg d : Config State Instr} {a : Action Bool Request} (f : Follows cfg)
    (hs : machine.step cfg a = some d) (hlive : cfg.global.live = true)
    (hoff : d.global.live = false) {viewer : ℕ} (hv : viewer ∈ d.global.subs) :
    Ahead d.tasks (.onChange viewer) := by
  cases a with
  | start r =>
    cases hs
    cases hlive.symm.trans hoff
  | restart => cases hs
  | run i gone =>
    obtain ⟨ins, rest, out, hi, h, rfl⟩ := Machine.step_run hs
    by_cases hne : ins = .goIdle
    · subst hne
      have hrest : rest ⊆ out.resume rest :=
        rest_subset_resume (show atomic gone cfg.global .goIdle = some out from h)
      obtain ⟨count, hheld, rfl⟩ := Option.map_eq_some_iff.1 h
      by_cases hcount : count = 0
      · subst hcount
        exact ahead_kept hi hrest nofun (f.unseen hheld viewer hv)
      · simp only [Outcome.global_next, State.goIdle, if_neg hcount] at hoff
        cases hlive.symm.trans hoff
    · cases (live_kept h hne hlive).symm.trans hoff

theorem live_follows_viewers {acts : List (Action Bool Request)} {cfg : Config State Instr}
    (he : Runs.exec machine.step init acts = some cfg) :
    (cfg.global.live = false → cfg.global.subs ≠ [] → ChangePending cfg.tasks) ∧
    (cfg.global.live = true → cfg.global.subs = [] →
      ChangePending cfg.tasks ∨ TimerOutstanding cfg) ∧
    ∀ a d, machine.step cfg a = some d → cfg.global.live = true → d.global.live = false →
      ∀ viewer ∈ d.global.subs, ¬ Completed d.tasks viewer := by
  have f := follows_reachable he
  refine ⟨f.idle, f.live, ?_⟩
  intro a d hs hlive hoff viewer hv hc
  exact hc.1 (turned_off f hs hlive hoff hv)

def steps (i n : ℕ) : List (Action Bool Request) := List.replicate n (.run i false)

def reopened : List (Action Bool Request) :=
  .start .events :: steps 0 7 ++ .start (.fire 0) :: steps 1 1 ++ .start .events :: steps 2 3

theorem live_follows_viewers_reopened : ∃ cfg, Runs.exec machine.step init reopened = some cfg ∧
    (cfg.global.live = true ∧ cfg.global.subs = [1] ∧ Ahead cfg.tasks .idle) ∧
    ∀ a d, machine.step cfg a = some d → cfg.global.live = true → d.global.live = false →
      ∀ viewer ∈ d.global.subs, ¬ Completed d.tasks viewer :=
  ⟨_, rfl, by decide, (@live_follows_viewers reopened _ rfl).2.2⟩

end Lotse.Live
