import Lotse.PresenceOffline

set_option autoImplicit false

namespace Lotse.Presence
open Alerts Tasks

def Coming (ts : List (List Instr)) (id : ℕ+) : Prop :=
  Ahead ts (.publish id true) ∨ Ahead ts (.agentOnline id)

def Going (ts : List (List Instr)) (id : ℕ+) : Prop :=
  Ahead ts (.agentOffline id) ∨ Ahead ts (.publish id false)

instance (ts : List (List Instr)) (id : ℕ+) : Decidable (Coming ts id) :=
  inferInstanceAs (Decidable (_ ∨ _))
instance (ts : List (List Instr)) (id : ℕ+) : Decidable (Going ts id) :=
  inferInstanceAs (Decidable (_ ∨ _))

/-- What the clients and the alert engine were told agrees with the map. -/
structure Agrees (g : State) (id : ℕ+) : Prop where
  status : g.status id = some true ↔ (g.agents id).isSome
  offline : (g.agents id).isSome → g.alerts.offline id = none

instance (g : State) (id : ℕ+) : Decidable (Agrees g id) :=
  decidable_of_iff ((g.status id = some true ↔ (g.agents id).isSome) ∧
    ((g.agents id).isSome → g.alerts.offline id = none)) ⟨fun h => ⟨h.1, h.2⟩, fun h => ⟨h.1, h.2⟩⟩

/-- The condition on a step, in the state before it: what the clients and the alert engine
are told agrees with the map, or what will correct it is still ahead. -/
def InTurn (cfg : Config State Instr) : Instr → Prop
  | .publish id true => (cfg.global.agents id).isSome ∨ Ahead cfg.tasks (.publish id false)
  | .publish id false => cfg.global.agents id = none ∨ Ahead cfg.tasks (.publish id true)
  | .agentOffline id => cfg.global.agents id = none ∨ Ahead cfg.tasks (.agentOnline id)
  | _ => True

instance (cfg : Config State Instr) : (ins : Instr) → Decidable (InTurn cfg ins)
  | .publish _ true | .publish _ false | .agentOffline _ => inferInstanceAs (Decidable (_ ∨ _))
  | .register _ | .agentOnline _ | .serve | .unregister .. | .flushState | .now | .systems _
  | .evaluateOffline .. | .tick _ => .isTrue trivial

structure Told (g : State) (ts : List (List Instr)) (id : ℕ+) : Prop where
  online : (g.agents id).isSome → ¬ Ahead ts (.publish id true) → g.status id = some true
  offline : g.agents id = none → ¬ Ahead ts (.publish id false) → g.status id ≠ some true
  clear : (g.agents id).isSome → ¬ Ahead ts (.agentOnline id) → g.alerts.offline id = none

theorem Told.agrees {g : State} {ts : List (List Instr)} {id : ℕ+} (h : Told g ts id)
    (hcoming : ¬ Coming ts id) (hgoing : ¬ Going ts id) : Agrees g id := by
  have ⟨htrue, honline⟩ := not_or.1 hcoming
  have ⟨_, hfalse⟩ := not_or.1 hgoing
  refine ⟨⟨fun hs => ?_, fun ha => h.online ha htrue⟩, fun ha => h.clear ha honline⟩
  cases ha : g.agents id with
  | none => exact absurd hs (h.offline ha hfalse)
  | some conn => rfl

def Instr.tells (id : ℕ+) (ins : Instr) : Prop :=
  (∃ online, ins = .publish id online) ∨ ins = .agentOnline id

theorem Told.congr {g g' : State} {ts ts' : List (List Instr)} {id : ℕ+} (h : Told g ts id)
    (same : ∀ j : Instr, j.tells id → (Ahead ts' j ↔ Ahead ts j)) (ha : g'.agents id = g.agents id)
    (hs : g'.status id = g.status id) (ho : g'.alerts.offline id = g.alerts.offline id) :
    Told g' ts' id := by
  refine ⟨?_, ?_, ?_⟩
  · rw [same (.publish id true) (.inl ⟨true, rfl⟩), ha, hs]
    exact h.online
  · rw [same (.publish id false) (.inl ⟨false, rfl⟩), ha, hs]
    exact h.offline
  · rw [same (.agentOnline id) (.inr rfl), ha, ho]
    exact h.clear

section step
variable {cfg : Config State Instr} {i : ℕ} {ins : Instr} {rest : List Instr} {o : Oracle}
  {out : Outcome State Instr} {id : ℕ+}

theorem told_frame (h : Told cfg.global cfg.tasks id) (hi : cfg.tasks[i]? = some (ins :: rest))
    (hrest : rest ⊆ out.resume rest) (hins : ¬ ins.tells id) (hcode : ∀ j ∈ out.code, ¬ j.tells id)
    (ha : out.global.agents id = cfg.global.agents id)
    (hs : out.global.status id = cfg.global.status id)
    (ho : out.global.alerts.offline id = cfg.global.alerts.offline id) :
    Told out.global (cfg.tasks.set i (out.resume rest)) id := by
  refine h.congr (fun j hj => ?_) ha hs ho
  exact ahead_same hi hrest (fun he => hins (he ▸ hj)) fun hmem => hcode j hmem hj

theorem told_register (hi : cfg.tasks[i]? = some (.register id :: rest))
    (ho : atomic o cfg.global (.register id) = some out) :
    Told out.global (cfg.tasks.set i (out.resume rest)) id := by
  cases ho
  have hnew : ((cfg.global.register id).agents id).isSome := by simp [State.register]
  refine ⟨fun _ hn => ?_, fun hnone => ?_, fun _ hn => ?_⟩
  · exact absurd (ahead_code hi (by simp [Outcome.code])) hn
  · rw [Outcome.global_next] at hnone
    rw [hnone] at hnew
    cases hnew
  · exact absurd (ahead_code hi (by simp [Outcome.code])) hn

theorem told_remove {conn : ℕ} (hi : cfg.tasks[i]? = some (.unregister id conn :: rest))
    (hcur : cfg.global.agents id = some conn)
    (ho : atomic o cfg.global (.unregister id conn) = some out) :
    Told out.global (cfg.tasks.set i (out.resume rest)) id := by
  simp only [atomic, if_pos hcur, Option.some.injEq] at ho
  subst ho
  have hnone : ¬ ((cfg.global.remove id).agents id).isSome := by simp [State.remove]
  refine ⟨fun ha => absurd ha hnone, fun _ hn => ?_, fun ha => absurd ha hnone⟩
  exact absurd (ahead_code hi (by simp [Outcome.code])) hn

theorem told_publish {online : Bool} (h : Told cfg.global cfg.tasks id)
    (hturn : InTurn cfg (.publish id online))
    (hi : cfg.tasks[i]? = some (.publish id online :: rest))
    (ho : atomic o cfg.global (.publish id online) = some out) :
    Told out.global (cfg.tasks.set i (out.resume rest)) id := by
  have kept {j : Instr} (hne : j ≠ .publish id online) (hj : Ahead cfg.tasks j) :
      Ahead (cfg.tasks.set i (out.resume rest)) j := ahead_kept hi (rest_subset_resume ho) hne hj
  have hagents : out.global.agents = cfg.global.agents := by
    cases ho
    rfl
  have hstatus : out.global.status id = some online := by
    cases ho
    simp
  have hoffline : out.global.alerts = cfg.global.alerts := by
    cases ho
    rfl
  refine ⟨fun ha hn => ?_, fun ha hn => ?_, fun ha hn => ?_⟩
  · cases online with
    | true => exact hstatus
    | false =>
      -- the event is wrong, and the condition has the right one ahead
      rw [hagents] at ha
      rcases hturn with hnone | hahead
      · rw [hnone] at ha
        cases ha
      · exact (hn (kept nofun hahead)).elim
  · cases online with
    | true =>
      rw [hagents] at ha
      rcases hturn with hsome | hahead
      · rw [ha] at hsome
        cases hsome
      · exact (hn (kept nofun hahead)).elim
    | false => simp [hstatus]
  · rw [hoffline]
    rw [hagents] at ha
    exact h.clear ha fun hj => hn (kept nofun hj)

theorem told_agentOnline (h : Told cfg.global cfg.tasks id)
    (hi : cfg.tasks[i]? = some (.agentOnline id :: rest))
    (ho : atomic o cfg.global (.agentOnline id) = some out) :
    Told out.global (cfg.tasks.set i (out.resume rest)) id := by
  have hrest : rest ⊆ out.resume rest := rest_subset_resume ho
  cases ho
  refine ⟨fun ha hn => ?_, fun ha hn => ?_, fun _ _ => by simp [agentOnline]⟩
  · exact h.online ha fun hj => hn (ahead_kept hi hrest (by simp) hj)
  · exact h.offline ha fun hj => hn (ahead_kept hi hrest (by simp) hj)

theorem told_agentOffline (h : Told cfg.global cfg.tasks id) (hturn : InTurn cfg (.agentOffline id))
    (hi : cfg.tasks[i]? = some (.agentOffline id :: rest))
    (ho : atomic o cfg.global (.agentOffline id) = some out) :
    Told out.global (cfg.tasks.set i (out.resume rest)) id := by
  have hrest : rest ⊆ out.resume rest := rest_subset_resume ho
  cases ho
  refine ⟨fun ha hn => ?_, fun ha hn => ?_, fun ha hn => ?_⟩
  · exact h.online ha fun hj => hn (ahead_kept hi hrest nofun hj)
  · exact h.offline ha fun hj => hn (ahead_kept hi hrest nofun hj)
  · rcases hturn with hnone | hahead
    · rw [Outcome.global_next] at ha
      rw [hnone] at ha
      cases ha
    · exact (hn (ahead_kept hi hrest nofun hahead)).elim

theorem told_step (h : Told cfg.global cfg.tasks id) (hturn : InTurn cfg ins)
    (hi : cfg.tasks[i]? = some (ins :: rest)) (ho : atomic o cfg.global ins = some out) :
    Told out.global (cfg.tasks.set i (out.resume rest)) id := by
  have frame := told_frame h hi (rest_subset_resume ho)
  cases ins with
  | register x =>
    by_cases hx : x = id
    · subst hx
      exact told_register hi ho
    · cases ho
      exact frame (by simp [Instr.tells]) (by simp [Instr.tells, Outcome.code, hx])
        (Function.update_of_ne (Ne.symm hx) _ _) rfl rfl
  | publish x online =>
    by_cases hx : x = id
    · subst hx
      exact told_publish h hturn hi ho
    · cases ho
      exact frame (by simp [Instr.tells, hx]) (by simp [Outcome.code]) rfl
        (Function.update_of_ne (Ne.symm hx) _ _) rfl
  | agentOnline x =>
    by_cases hx : x = id
    · subst hx
      exact told_agentOnline h hi ho
    · cases ho
      exact frame (by simp [Instr.tells, hx]) (by simp [Outcome.code]) rfl rfl
        (Function.update_of_ne (Ne.symm hx) _ _)
  | agentOffline x =>
    by_cases hx : x = id
    · subst hx
      exact told_agentOffline h hturn hi ho
    · cases ho
      exact frame (by simp [Instr.tells]) (by simp [Outcome.code]) rfl rfl
        (Function.update_of_ne (Ne.symm hx) _ _)
  | unregister x conn =>
    by_cases hcur : cfg.global.agents x = some conn
    · by_cases hx : x = id
      · subst hx
        exact told_remove hi hcur ho
      · simp only [atomic, if_pos hcur, Option.some.injEq] at ho
        subst ho
        exact frame (by simp [Instr.tells]) (by simp [Instr.tells, Outcome.code, hx])
          (Function.update_of_ne (Ne.symm hx) _ _) rfl rfl
    · simp only [atomic, if_neg hcur, Option.some.injEq] at ho
      subst ho
      exact frame (by simp [Instr.tells]) (by simp [Outcome.code]) rfl rfl rfl
  | evaluateOffline now systems =>
    cases ho
    have hoffline := (stepAll_frame o.store cfg.global.alerts (calls cfg.global systems now)).2.1
    exact frame (by simp [Instr.tells]) (by simp [Outcome.code]) rfl rfl (congrFun hoffline id)
  | serve | flushState | now | systems | tick =>
    cases ho
    exact frame (by simp [Instr.tells]) (by simp [Instr.tells, Outcome.code]) rfl rfl rfl

end step

theorem told_start {cfg : Config State Instr} {id : ℕ+} (h : Told cfg.global cfg.tasks id)
    (r : Request) : Told cfg.global (cfg.tasks ++ [code r]) id := by
  refine h.congr (fun j hj => ?_) rfl rfl rfl
  rw [ahead_start, or_iff_left]
  intro hmem
  cases r <;> rw [code, List.mem_singleton] at hmem <;> subst hmem <;> simp [Instr.tells] at hj

theorem told_idle {g : State} (id : ℕ+) (ha : g.agents id = none) (hs : g.status id = none) :
    Told g [] id := by
  refine ⟨?_, fun _ _ => by simp [hs], ?_⟩
  all_goals
    intro h
    rw [ha] at h
    cases h

/-- In every run whose events come in turn, the last published status of a system and
the entry of the alert engine agree with the map whenever no handler is in the middle
of a set-up or a teardown of the system. -/
theorem status_converges {stored : List AlertRule} {now : ℤ} {acts : List (Action Oracle Request)}
    {cfg : Config State Instr}
    (hm : Runs.Meets machine.step (Machine.Guard InTurn) (init stored now) acts)
    (he : Runs.exec machine.step (init stored now) acts = some cfg) (id : ℕ+)
    (hcoming : ¬ Coming cfg.tasks id) (hgoing : ¬ Going cfg.tasks id) : Agrees cfg.global id := by
  have told : Told cfg.global cfg.tasks id := by
    refine machine.guarded_invariant (J := fun c => Told c.global c.tasks id)
      (fun _ r h => told_start h r) (fun _ _ _ _ _ _ h ht hi ho => told_step h ht hi ho) ?_ ?_ hm he
    · rintro c g - ⟨⟩
      exact told_idle id rfl rfl
    · exact told_idle id rfl rfl
  exact told.agrees hcoming hgoing

theorem status_converges_replaced : ∃ acts cfg,
    Runs.Meets machine.step (Machine.Guard InTurn) (init [] 0) acts ∧
    Runs.exec machine.step (init [] 0) acts = some cfg ∧
    cfg.global.agents 1 = some 1 ∧ Agrees cfg.global 1 := by
  let acts := connected ++ .start (.connect 1) :: steps 2 4 ++ steps 1 1
  have hm : Runs.Meets machine.step (Machine.Guard InTurn) (init [] 0) acts := by decide
  exact ⟨acts, _, hm, rfl, rfl, status_converges hm rfl 1 (by decide) (by decide)⟩

/-- The system reconnects between the removal of its last connection and the rest of
that `unregister`: it is connected, and the last status event and the alert engine say
that it is offline. -/
theorem status_stays_offline : ∃ acts cfg,
    Runs.exec machine.step (init [] 0) acts = some cfg ∧
    ¬ Coming cfg.tasks 1 ∧ ¬ Going cfg.tasks 1 ∧
    (cfg.global.agents 1).isSome ∧ cfg.global.status 1 = some false ∧
    (cfg.global.alerts.offline 1).isSome ∧ ¬ Agrees cfg.global 1 :=
  ⟨connected ++ steps 1 1 ++ .start (.connect 1) :: steps 2 4 ++ steps 1 3, _, rfl, by decide,
    by decide, rfl, rfl, rfl, by decide⟩

end Lotse.Presence
