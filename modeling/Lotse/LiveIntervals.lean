import Lotse.LiveViewers

set_option autoImplicit false

namespace Lotse.Live
open Tasks Agent

namespace Link

/-- The interval messages on their way to `report`, oldest first. -/
def pending (l : Link) : List ℤ := l.mailbox.toList ++ (l.handling.toList ++ l.queue).map clampInterval

/-- The interval the agent reports at once it has taken everything on its way. -/
def newest (l : Link) : ℤ := l.pending.getLast?.getD (l.interval.getD (clampInterval l.reply))

variable {l : Link} {seconds : ℤ}

theorem newest_of_handling (h : l.handling = some seconds) :
    l.newest = ((clampInterval seconds :: l.queue.map clampInterval).getLast?).getD 0 := by
  simp [newest, pending, h, List.getLast?_append, List.getLast?_cons]

theorem newest_receive {queue : List ℤ} (h : l.handling = none) (hq : l.queue = seconds :: queue) :
    newest { l with queue, handling := some seconds } = l.newest := by
  simp [newest, pending, h, hq]

theorem newest_drain (h : l.handling = some seconds) :
    newest { l with mailbox := none } = l.newest := by
  have hd : newest { l with mailbox := none } = _ := newest_of_handling h
  rw [hd, newest_of_handling h]

theorem newest_put (h : l.handling = some seconds) :
    newest { l with handling := none, mailbox := some (clampInterval seconds) } = l.newest := by
  rw [newest_of_handling h]
  simp [newest, pending, List.getLast?_cons]

theorem newest_hello (h : l.interval = none) :
    newest { l with interval := some (clampInterval l.reply) } = l.newest := by
  simp [newest, pending, h]

theorem newest_report {d : ℤ} (h : l.mailbox = some d) :
    newest { l with interval := some d, mailbox := none } = l.newest := by
  simp [newest, pending, h, List.getLast?_cons]

theorem newest_send : newest { l with queue := l.queue ++ [seconds] } = clampInterval seconds := by
  simp [newest, pending, List.getLast?_append]

end Link

section setLink
variable (g : State) (conn : ℕ) (l : Link)

@[simp] theorem setLink_interval : (g.setLink conn l).intervalLocked = g.intervalLocked := rfl
@[simp] theorem setLink_self : (g.setLink conn l).links conn = l := Function.update_self ..
theorem setLink_ne {c : ℕ} (h : c ≠ conn) : (g.setLink conn l).links c = g.links c :=
  Function.update_of_ne h ..

end setLink

def Connected (g : State) (conn : ℕ) : Prop :=
  conn ∈ g.agents.map Prod.snd ∧ (g.links conn).closed = false

instance (g : State) (conn : ℕ) : Decidable (Connected g conn) := inferInstanceAs (Decidable (_ ∧ _))

def Delivered (g : State) (conn : ℕ) : Prop :=
  (∀ m ∈ g.unsent, m.1 ≠ conn) ∧ (g.links conn).pending = []

instance (g : State) (conn : ℕ) : Decidable (Delivered g conn) := inferInstanceAs (Decidable (_ ∧ _))

/-- The condition on a step, in the state before it: when a message to an agent is sent, one
with the current interval of the hub, this one or another, is still unsent. -/
def InOrder (cfg : Config State Instr) : Instr → Prop
  | .send k => ∀ m ∈ cfg.global.unsent[k]?, Connected cfg.global m.1 →
      (m.1, cfg.global.intervalLocked) ∈ cfg.global.unsent
  | _ => True

instance (cfg : Config State Instr) : (ins : Instr) → Decidable (InOrder cfg ins)
  | .send k => inferInstanceAs (Decidable (∀ m ∈ cfg.global.unsent[k]?, Connected cfg.global m.1 →
      (m.1, cfg.global.intervalLocked) ∈ cfg.global.unsent))
  | .subscribe | .onChange _ | .viewersChanged _ | .stream | .unsubscribe _ | .fire _ | .idle
  | .goIdle | .register _ | .recheck .. | .reply _ | .serve | .unregister .. | .close _
  | .receive _ | .drain _ | .put _ | .hello _ | .report _ => .isTrue trivial

/-- The agent was sent the current interval last, or it is still to be sent. -/
def Fed (g : State) (conn : ℕ) : Prop :=
  (conn, g.intervalLocked) ∈ g.unsent ∨ (g.links conn).newest = clampInterval g.intervalLocked

structure Feeds (g : State) : Prop where
  known : ∀ a ∈ g.agents, a.2 < g.nextConn
  unsent : ∀ m ∈ g.unsent, 0 < m.2
  queued : ∀ conn, ∀ seconds ∈ (g.links conn).queue, 0 < seconds
  fed : ∀ conn, Connected g conn → Fed g conn

theorem interval_pos (g : State) : 0 < g.intervalLocked := by
  unfold State.intervalLocked
  split <;> decide

theorem Feeds.setLink {g : State} (f : Feeds g) (conn : ℕ) {l : Link}
    (hq : ∀ seconds ∈ l.queue, 0 < seconds)
    (hn : l.closed = false → (g.links conn).closed = false ∧ l.newest = (g.links conn).newest) :
    Feeds (g.setLink conn l) := by
  refine ⟨f.known, f.unsent, fun c => ?_, ?_⟩
  · by_cases hc : c = conn
    · subst hc
      rw [setLink_self]
      exact hq
    · rw [setLink_ne _ _ _ hc]
      exact f.queued c
  · rintro c ⟨hmem, hopen⟩
    unfold Fed
    by_cases hc : c = conn
    · subst hc
      rw [setLink_self] at hopen ⊢
      rw [(hn hopen).2]
      exact f.fed c ⟨hmem, (hn hopen).1⟩
    · rw [setLink_ne _ _ _ hc] at hopen ⊢
      exact f.fed c ⟨hmem, hopen⟩

theorem Feeds.broadcast {g : State} (f : Feeds g) (live : Bool) :
    Feeds { g with live := live }.broadcastIntervalLocked := by
  refine ⟨f.known, ?_, f.queued, ?_⟩
  · intro m hm
    rcases List.mem_append.1 hm with hm | hm
    · exact f.unsent m hm
    · obtain ⟨a, -, rfl⟩ := List.mem_map.1 hm
      exact interval_pos _
  · rintro c ⟨hmem, -⟩
    obtain ⟨a, ha, rfl⟩ := List.mem_map.1 hmem
    exact .inl (List.mem_append_right _ (List.mem_map.2 ⟨a, ha, rfl⟩))

theorem Feeds.congr {g g' : State} (f : Feeds g) (hlive : g'.live = g.live)
    (hagents : g'.agents = g.agents) (hlinks : g'.links = g.links)
    (hnext : g'.nextConn = g.nextConn) (hunsent : g'.unsent = g.unsent) : Feeds g' := by
  have hint : g'.intervalLocked = g.intervalLocked := by simp only [State.intervalLocked, hlive]
  refine ⟨?_, ?_, ?_, ?_⟩
  · rw [hagents, hnext]
    exact f.known
  · rw [hunsent]
    exact f.unsent
  · rw [hlinks]
    exact f.queued
  · unfold Connected Fed
    rw [hagents, hlinks, hunsent, hint]
    exact f.fed

theorem feeds_viewersChanged {g : State} (f : Feeds g) (count : ℕ) :
    Feeds { g.viewersChanged count with held := none } := by
  unfold State.viewersChanged
  dsimp only
  split_ifs
  · exact f.congr rfl rfl rfl rfl rfl
  · exact (f.broadcast true).congr rfl rfl rfl rfl rfl
  · exact f.congr rfl rfl rfl rfl rfl
  · exact f.congr rfl rfl rfl rfl rfl

theorem feeds_goIdle {g : State} (f : Feeds g) (count : ℕ) :
    Feeds { g.goIdle count with held := none } := by
  unfold State.goIdle
  split_ifs
  · exact (f.broadcast false).congr rfl rfl rfl rfl rfl
  · exact f.congr rfl rfl rfl rfl rfl

theorem feeds_register {g : State} (f : Feeds g) (id : ℕ+) : Feeds (g.register id) := by
  refine ⟨?_, f.unsent, ?_, ?_⟩
  · intro a ha
    rcases List.mem_cons.1 ha with rfl | ha
    · exact Nat.lt_succ_self _
    · exact Nat.lt_succ_of_lt (f.known a (List.mem_of_mem_filter ha))
  · intro c
    by_cases hc : c = g.nextConn
    · subst hc
      simp [State.register]
    · simpa [State.register, hc] using f.queued c
  · rintro c ⟨hmem, hopen⟩
    by_cases hc : c = g.nextConn
    · subst hc
      right
      simp [State.register, Link.newest, Link.pending, State.intervalLocked]
    · simp only [State.register, Function.update_of_ne hc] at hopen
      have hold : c ∈ g.agents.map Prod.snd := by
        obtain ⟨a, ha, rfl⟩ := List.mem_map.1 hmem
        rcases List.mem_cons.1 ha with rfl | ha
        · exact absurd rfl hc
        · exact List.mem_map.2 ⟨a, List.mem_of_mem_filter ha, rfl⟩
      refine (f.fed c ⟨hold, hopen⟩).imp_right fun h => ?_
      simpa [State.register, hc, State.intervalLocked] using h

theorem feeds_unregister {g : State} (f : Feeds g) (id : ℕ+) (conn : ℕ) :
    Feeds (g.unregister id conn) := by
  refine ⟨fun a ha => f.known a (List.mem_of_mem_filter ha), f.unsent, f.queued, ?_⟩
  rintro c ⟨hmem, hopen⟩
  obtain ⟨a, ha, rfl⟩ := List.mem_map.1 hmem
  exact f.fed a.2 ⟨List.mem_map.2 ⟨a, List.mem_of_mem_filter ha, rfl⟩, hopen⟩

theorem mem_eraseIdx_of_ne {α : Type*} {l : List α} {k : ℕ} {x m : α} (hk : l[k]? = some m)
    (hne : x ≠ m) (hx : x ∈ l) : x ∈ l.eraseIdx k := by
  obtain ⟨n, hn⟩ := List.mem_iff_getElem?.1 hx
  refine List.mem_eraseIdx_iff_getElem?.2 ⟨n, ?_, hn⟩
  rintro rfl
  exact hne (Option.some.inj (hn.symm.trans hk))

theorem feeds_send {g : State} (f : Feeds g) {k : ℕ} {m : ℕ × ℤ} (hk : g.unsent[k]? = some m)
    (hok : Connected g m.1 → (m.1, g.intervalLocked) ∈ g.unsent) :
    Feeds ({ g with unsent := g.unsent.eraseIdx k }.setLink m.1
      { g.links m.1 with queue := (g.links m.1).queue ++ [m.2] }) := by
  have hpos : 0 < m.2 := f.unsent m (List.mem_of_getElem? hk)
  refine ⟨f.known, fun n hn => f.unsent n (List.mem_of_mem_eraseIdx hn), fun c => ?_, ?_⟩
  · by_cases hc : c = m.1
    · subst hc
      intro seconds hs
      rw [setLink_self] at hs
      rcases List.mem_append.1 hs with hs | hs
      · exact f.queued _ seconds hs
      · rw [List.mem_singleton.1 hs]
        exact hpos
    · rw [setLink_ne _ _ _ hc]
      exact f.queued c
  · rintro c ⟨hmem, hopen⟩
    unfold Fed
    by_cases hc : c = m.1
    · subst hc
      rw [setLink_self] at hopen ⊢
      rw [Link.newest_send, setLink_interval]
      by_cases hcur : m.2 = g.intervalLocked
      · exact .inr (congrArg clampInterval hcur)
      · exact .inl (mem_eraseIdx_of_ne hk (fun h => hcur (congrArg Prod.snd h).symm) (hok ⟨hmem, hopen⟩))
    · rw [setLink_ne _ _ _ hc] at hopen ⊢
      refine (f.fed c ⟨hmem, hopen⟩).imp_left fun h => ?_
      exact mem_eraseIdx_of_ne hk (fun he => hc (congrArg Prod.fst he)) h

theorem feeds_lost {g : State} (f : Feeds g) {k : ℕ} {m : ℕ × ℤ} (hk : g.unsent[k]? = some m)
    (hclosed : (g.links m.1).closed = true) : Feeds { g with unsent := g.unsent.eraseIdx k } := by
  refine ⟨f.known, fun n hn => f.unsent n (List.mem_of_mem_eraseIdx hn), f.queued, ?_⟩
  rintro c ⟨hmem, hopen⟩
  refine (f.fed c ⟨hmem, hopen⟩).imp_left fun h => mem_eraseIdx_of_ne hk ?_ h
  rintro rfl
  cases hopen.symm.trans hclosed

theorem feeds_linkStep {g : State} {gone : Bool} {ins : Instr} {out : Outcome State Instr}
    {ts : List (List Instr)} (f : Feeds g) (hok : InOrder ⟨g, ts⟩ ins)
    (h : linkStep gone g ins = some out) : Feeds out.global := by
  cases ins with
  | register id =>
    simp only [linkStep] at h
    split_ifs at h
    cases h
    exact feeds_register f id
  | recheck id conn =>
    simp only [linkStep] at h
    split_ifs at h
    · cases h
      exact feeds_unregister f id conn
    · cases h
      exact f
  | unregister id conn =>
    simp only [linkStep] at h
    split_ifs at h
    cases h
    exact feeds_unregister f id conn
  | reply conn =>
    cases h
    exact f.setLink conn (f.queued conn) fun hopen => ⟨hopen, rfl⟩
  | close conn =>
    cases h
    exact f.setLink conn (by simp) (by simp)
  | send k =>
    obtain ⟨m, hk, rfl⟩ := Option.map_eq_some_iff.1 h
    dsimp only [Outcome.global_next]
    split_ifs with hclosed
    · exact feeds_lost f hk hclosed
    · exact feeds_send f hk (hok m hk)
  | receive conn =>
    simp only [linkStep] at h
    split at h
    · rename_i seconds queue hnone hqueue
      have hq : ∀ s ∈ queue, 0 < s :=
        fun s hs => f.queued conn s (hqueue ▸ List.mem_cons_of_mem _ hs)
      have hpos : 0 < seconds := f.queued conn seconds (hqueue ▸ List.mem_cons_self)
      rw [if_neg hpos.not_ge] at h
      cases h
      exact f.setLink conn hq fun hopen => ⟨hopen, Link.newest_receive hnone hqueue⟩
    · cases h
  | drain conn =>
    obtain ⟨seconds, hs, rfl⟩ := Option.map_eq_some_iff.1 h
    exact f.setLink conn (f.queued conn) fun hopen => ⟨hopen, Link.newest_drain hs⟩
  | put conn =>
    obtain ⟨seconds, hs, rfl⟩ := Option.map_eq_some_iff.1 h
    exact f.setLink conn (f.queued conn) fun hopen => ⟨hopen, Link.newest_put hs⟩
  | hello conn =>
    simp only [linkStep] at h
    split_ifs at h with hready
    cases h
    exact f.setLink conn (f.queued conn) fun hopen => ⟨hopen, Link.newest_hello hready.2.2⟩
  | report conn =>
    simp only [linkStep] at h
    split at h
    · rename_i old d hold hd
      cases h
      exact f.setLink conn (f.queued conn) fun hopen => ⟨hopen, Link.newest_report hd⟩
    · cases h
  | _ =>
    cases h
    exact f

theorem feeds_step {cfg : Config State Instr} {gone : Bool} {ins : Instr} {out : Outcome State Instr}
    (f : Feeds cfg.global) (hok : InOrder cfg ins) (h : atomic gone cfg.global ins = some out) :
    Feeds out.global := by
  cases ins with
  | viewersChanged viewer =>
    obtain ⟨count, -, rfl⟩ := Option.map_eq_some_iff.1 h
    exact feeds_viewersChanged f count
  | goIdle =>
    obtain ⟨count, -, rfl⟩ := Option.map_eq_some_iff.1 h
    exact feeds_goIdle f count
  | onChange | fire | idle =>
    simp only [atomic, viewerStep] at h
    split_ifs at h <;> cases h <;> exact f.congr rfl rfl rfl rfl rfl
  | subscribe | unsubscribe | stream =>
    cases h
    exact f.congr rfl rfl rfl rfl rfl
  | _ =>
    simp only [atomic] at h
    exact feeds_linkStep f hok h

/-- In every run that sends in order, an agent with no interval message on its way reports
at the interval of the hub. -/
theorem agents_report_at_hub_interval {acts : List (Action Bool Request)} {cfg : Config State Instr}
    (hm : Runs.Meets machine.step (Machine.Guard InOrder) init acts)
    (he : Runs.exec machine.step init acts = some cfg) {conn : ℕ}
    (hconn : Connected cfg.global conn) (hdone : Delivered cfg.global conn) {interval : ℤ}
    (hi : (cfg.global.links conn).interval = some interval) :
    interval = clampInterval cfg.global.intervalLocked := by
  have feeds : Feeds cfg.global := by
    refine machine.guarded_invariant (J := fun c => Feeds c.global) (fun _ _ f => f)
      (fun _ _ _ _ _ _ f hok _ h => feeds_step f hok h) nofun ?_ hm he
    refine ⟨nofun, nofun, nofun, ?_⟩
    rintro c ⟨hmem, -⟩
    cases hmem
  rcases feeds.fed conn hconn with h | h
  · exact absurd rfl (hdone.1 _ h)
  · simpa [Link.newest, hdone.2, hi] using h

/-- An agent connects while the hub is idle, a viewer opens the event stream, the agent
takes the new interval, the viewer leaves and the hub goes idle again. At once the next
viewer comes, so that two messages to the agent are unsent. -/
def switchedBack : List (Action Bool Request) :=
  [.start (.connect 1) :: steps 0 4, .start (.hello 0) :: steps 1 1,
    .start .events :: steps 2 3, .start (.send 0) :: steps 3 1, .start (.deliver 0) :: steps 4 3,
    .start (.report 0) :: steps 5 1, steps 2 4, .start (.fire 0) :: steps 6 3,
    .start .events :: steps 7 3].flatten

def delivered (first second : ℕ) : List (Action Bool Request) :=
  [switchedBack, .start (.send first) :: steps 8 1, .start (.send second) :: steps 9 1,
    .start (.deliver 0) :: steps 10 3, .start (.deliver 0) :: steps 11 3,
    .start (.report 0) :: steps 12 1].flatten

theorem agents_report_switched_back : ∃ cfg,
    Runs.Meets machine.step (Machine.Guard InOrder) init (delivered 0 0) ∧
    Runs.exec machine.step init (delivered 0 0) = some cfg ∧
    cfg.global.live = true ∧ Connected cfg.global 0 ∧ Delivered cfg.global 0 ∧
    ∀ interval, (cfg.global.links 0).interval = some interval →
      interval = clampInterval cfg.global.intervalLocked := by
  have hm : Runs.Meets machine.step (Machine.Guard InOrder) init (delivered 0 0) := by decide +kernel
  refine ⟨_, hm, rfl, rfl, by decide, by decide, fun interval hi => ?_⟩
  exact agents_report_at_hub_interval hm rfl (by decide) (by decide) hi

/-- The goroutine of the newer message sends first: the agent takes the idle interval last
and keeps it while the viewer watches. -/
theorem agent_left_idle : ∃ cfg, Runs.exec machine.step init (delivered 1 0) = some cfg ∧
    Connected cfg.global 0 ∧ cfg.global.unsent = [] ∧ Delivered cfg.global 0 ∧
    cfg.global.live = true ∧ (cfg.global.links 0).interval = some idleInterval ∧
    idleInterval ≠ clampInterval cfg.global.intervalLocked :=
  ⟨_, rfl, by decide, rfl, by decide, rfl, rfl, by decide⟩

end Lotse.Live
