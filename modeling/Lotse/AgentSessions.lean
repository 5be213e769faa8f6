import Lotse.AgentOptIn
import Lotse.Tickets

set_option autoImplicit false

namespace Lotse.Agent
open Tasks Utf8

namespace Instr

/-- Units of `sessions` that the goroutine holds. -/
def unit : Instr → ℕ
  | .acceptChannel | .releaseSession => 1
  | _ => 0

def entry : Instr → ℕ
  | .acceptChannel => 1
  | _ => 0

/-- A program that is about to be started on channel `id`. -/
def start (id : ℕ) : Instr → ℕ
  | .serveSFTP k => if k = id then 1 else 0
  | .runScript k _ => if k = id then 1 else 0
  | _ => 0

def ending (id : ℕ) : Instr → ℕ
  | .runShell k => if k = id then 1 else 0
  | .runScript k _ => if k = id then 1 else 0
  | .scriptDone k => if k = id then 1 else 0
  | _ => 0

def onSession : Instr → Bool
  | .openChannel _ _ | .acceptChannel | .releaseSession | .channelRequest _ _ _ | .runShell _
  | .serveSFTP _ | .runScript _ _ | .scriptDone _ | .closeChannel _ => true
  | _ => false

end Instr

namespace Event

def starts (id : ℕ) : Event → Bool
  | .shell k _ | .sftp k | .script k _ => k = id
  | _ => false

def exits (id : ℕ) : Event → Bool
  | .exitStatus k _ => k = id
  | _ => false

def aside : Event → Bool
  | .shell _ _ | .sftp _ | .script _ _ | .exitStatus _ _ => false
  | _ => true

end Event

def startsOn (id : ℕ) (log : List Event) : ℕ := log.countP (Event.starts id)

def exitsOn (id : ℕ) (log : List Event) : ℕ := log.countP (Event.exits id)

structure Aside (g : State) (out : Outcome State Instr) : Prop where
  sessions : out.global.sessions = g.sessions
  channels : out.global.channels = g.channels
  next : out.global.nextChannel = g.nextChannel
  code : ∀ i ∈ out.code, i.onSession = false
  log : ∃ new, out.global.log = new ++ g.log ∧ ∀ e ∈ new, e.aside = true
  resume : ∀ rest, out.resume rest = out.code ++ rest

section aside
variable {E : Env} {o : Oracle} {g : State} {ins : Instr} {code : List Instr} {e : Event}
  {out : Outcome State Instr}

theorem aside_next (hcode : ∀ i ∈ code, i.onSession = false) : Aside g (.next g code) :=
  ⟨rfl, rfl, rfl, hcode, ⟨[], rfl, by simp⟩, fun _ => rfl⟩

theorem Aside.record (h : Aside (g.record e) out) (he : e.aside = true) : Aside g out := by
  obtain ⟨new, hlog, hnew⟩ := h.log
  refine { h with log := ⟨new ++ [e], by simp [hlog, State.record], ?_⟩ }
  intro f hf
  rcases List.mem_append.1 hf with hf | hf
  · exact hnew f hf
  · rwa [List.mem_singleton.1 hf]

theorem aside_record (he : e.aside = true) : Aside g (.next (g.record e) []) :=
  (aside_next (by simp)).record he

theorem aside_answer (type : String) (ok : Bool) : Aside g (answer g type ok) := aside_record rfl

theorem aside_fail (type error : String) : Aside g (fail g type error) := aside_record rfl

theorem aside_helloReply : Aside g (helloReply E o g) := by
  unfold helloReply
  split
  · exact aside_next (by simp)
  · simp only
    split_ifs
    · exact aside_next (by simp)
    · exact Aside.record ⟨rfl, rfl, rfl, by simp [Outcome.code, Instr.onSession],
        ⟨[], rfl, by simp⟩, fun _ => rfl⟩ rfl
    · exact aside_record rfl

theorem aside_handleRequest (type : String) (payload : Bytes) :
    Aside g (handleRequest E o g type payload) := by
  unfold handleRequest
  split
  · exact aside_next (by simp [Instr.onSession])
  · unfold handleSignal
    split
    · exact aside_answer _ _
    · split_ifs
      · exact aside_fail _ _
      · split
        · exact aside_fail _ _
        · exact (aside_fail _ _).record rfl
  · unfold handlePower
    split
    · exact aside_answer _ _
    · split_ifs
      · exact aside_fail _ _
      · split
        · exact aside_fail _ _
        · exact (aside_next (by simp [Instr.onSession])).record rfl
  · exact aside_next (by simp [Instr.onSession])
  · split
    · exact aside_answer _ _
    · exact aside_next (by simp [Instr.onSession])
  · unfold handleWake
    split
    · exact aside_answer _ _
    · split_ifs
      · exact aside_answer _ _
      · exact (aside_answer _ _).record rfl
  · unfold handleInterval
    split
    · exact aside_answer _ _
    · split_ifs
      · exact aside_answer _ _
      · exact (aside_answer _ _).record rfl
  · exact aside_answer _ _

theorem atomic_aside (h : atomic E o g ins = some out) (hins : ins.onSession = false) :
    Aside g out := by
  cases ins with
  | hello =>
    cases h
    exact (aside_next (by simp [Instr.onSession])).record rfl
  | helloReply =>
    cases h
    exact aside_helloReply
  | saveConfig =>
    cases h
    split_ifs <;>
      exact ⟨rfl, rfl, rfl, by simp [Outcome.code], ⟨[], rfl, by simp⟩, fun _ => rfl⟩
  | handleRequest type payload =>
    cases h
    exact aside_handleRequest type payload
  | processes limit =>
    cases h
    unfold listProcesses
    split
    · exact aside_answer _ _
    · exact aside_record rfl
  | listServices =>
    cases h
    exact aside_record rfl
  | controlService name action =>
    cases h
    unfold controlService
    split_ifs
    · exact aside_fail _ _
    · split
      · exact aside_fail _ _
      · exact (aside_fail _ _).record rfl
  | runPower command =>
    cases h
    exact aside_record rfl
  | tooManySessions =>
    cases h
    exact aside_record rfl
  | handleUpdate extraData =>
    cases h
    rw [handleUpdate]
    split_ifs <;> exact aside_record rfl
  | openChannel | acceptChannel | releaseSession | channelRequest | runShell | serveSFTP | runScript
  | scriptDone | closeChannel => cases hins

end aside

theorem held_aside {w : Instr → ℕ} (hw : ∀ i, i.onSession = false → w i = 0) {code : List Instr}
    (h : ∀ i ∈ code, i.onSession = false) : held w code = 0 :=
  held_eq_zero fun i hi => hw i (h i hi)

theorem unit_aside (i : Instr) (h : i.onSession = false) : i.unit = 0 := by
  cases i <;> first | rfl | cases h

theorem entry_aside (i : Instr) (h : i.onSession = false) : i.entry = 0 := by
  cases i <;> first | rfl | cases h

theorem start_aside (id : ℕ) (i : Instr) (h : i.onSession = false) : i.start id = 0 := by
  cases i <;> first | rfl | cases h

theorem ending_aside (id : ℕ) (i : Instr) (h : i.onSession = false) : i.ending id = 0 := by
  cases i <;> first | rfl | cases h

theorem entry_le_unit (i : Instr) : i.entry ≤ i.unit := by
  cases i <;> simp [Instr.entry, Instr.unit]

theorem held_entry_le (t : List Instr) : held Instr.entry t ≤ held Instr.unit t := by
  induction t with
  | nil => exact le_rfl
  | cons i t ih =>
    have := entry_le_unit i
    simp only [held_cons]
    omega

theorem holdings_entry_le (ts : List (List Instr)) :
    holdings Instr.entry ts ≤ holdings Instr.unit ts := by
  induction ts with
  | nil => exact le_rfl
  | cons t ts ih =>
    have := held_entry_le t
    simp only [holdings, List.map_cons, List.sum_cons] at ih ⊢
    omega

structure Channels (g : State) : Prop where
  nodup : (g.channels.map (·.id)).Nodup
  below : ∀ d ∈ g.channels, d.id < g.nextChannel

theorem Channels.of_ids {g g' : State} (h : Channels g)
    (hids : g'.channels.map (·.id) = g.channels.map (·.id)) (hnext : g'.nextChannel = g.nextChannel) :
    Channels g' := by
  refine ⟨hids ▸ h.nodup, fun d hd => ?_⟩
  have hmem : d.id ∈ g.channels.map (·.id) := hids ▸ List.mem_map_of_mem hd
  obtain ⟨e, he, hid⟩ := List.mem_map.1 hmem
  rw [hnext, ← hid]
  exact h.below e he

section channels
variable {g : State} {c : Channel}

theorem channel_id {id : ℕ} (h : g.channel id = some c) : c.id = id := by
  simpa using List.find?_some h

theorem channel_mem {id : ℕ} (h : g.channel id = some c) : c ∈ g.channels := List.mem_of_find?_eq_some h

theorem setChannel_ids (g : State) (c : Channel) :
    (g.setChannel c).channels.map (·.id) = g.channels.map (·.id) := by
  simp only [State.setChannel, List.map_map]
  refine List.map_congr_left fun d _ => ?_
  simp only [Function.comp_apply]
  split_ifs with h
  · exact h.symm
  · rfl

theorem length_filter_id {id : ℕ} (cs : List Channel) (hnodup : (cs.map (·.id)).Nodup) (hc : c ∈ cs)
    (hid : c.id = id) : (cs.filter (·.id ≠ id)).length + 1 = cs.length := by
  induction cs with
  | nil => cases hc
  | cons d ds ih =>
    rw [List.map_cons, List.nodup_cons] at hnodup
    rcases List.mem_cons.1 hc with rfl | hc
    · have hrest : ds.filter (·.id ≠ id) = ds := by
        rw [List.filter_eq_self]
        intro e he
        have hne : e.id ≠ id := fun heq =>
          hnodup.1 (List.mem_map.2 ⟨e, he, heq.trans hid.symm⟩)
        simpa using hne
      rw [List.filter_cons_of_neg (by simp [hid]), hrest, List.length_cons]
    · have hne : d.id ≠ id := fun heq => hnodup.1 (List.mem_map.2 ⟨c, hc, hid.trans heq.symm⟩)
      rw [List.filter_cons_of_pos (by simp [hne]), List.length_cons, ih hnodup.2 hc, List.length_cons]

end channels

structure Counts (g : State) (ins : Instr) (out : Outcome State Instr) : Prop where
  channels : Channels out.global
  count : out.global.sessions + g.channels.length + ins.unit =
    g.sessions + out.global.channels.length + held Instr.unit out.code
  entry : out.global.channels.length + held Instr.entry out.code ≤ g.channels.length + ins.entry ∨
    g.sessions < maxSessions ∧
      out.global.channels.length + held Instr.entry out.code ≤ g.channels.length + ins.entry + 1
  resume : ∀ rest, out.resume rest = out.code ++ rest

section counts
variable {E : Env} {o : Oracle} {g : State} {ins : Instr} {out : Outcome State Instr}

theorem Aside.counts (h : Aside g out) (hg : Channels g) (hins : ins.onSession = false) :
    Counts g ins out := by
  have hunit := held_aside unit_aside h.code
  have hentry := held_aside entry_aside h.code
  refine ⟨hg.of_ids (by rw [h.channels]) h.next, ?_, .inl ?_, h.resume⟩
  · rw [h.sessions, h.channels, hunit, unit_aside ins hins]
  · rw [h.channels, hentry, entry_aside ins hins]

theorem counts_answer {g' : State} {code : List Instr} {c : Channel} {id : ℕ} {type : String}
    {payload : Bytes} {ok : Bool} (hg : Channels g) (hsessions : g'.sessions = g.sessions)
    (hids : g'.channels.map (·.id) = g.channels.map (·.id)) (hnext : g'.nextChannel = g.nextChannel)
    (hunit : held Instr.unit code = 0) (hentry : held Instr.entry code = 0) :
    Counts g (.channelRequest id type payload) (channelAnswer g' c.id type ok code) := by
  have hlen : g'.channels.length = g.channels.length := by
    simpa using congrArg List.length hids
  refine ⟨hg.of_ids hids hnext, ?_, .inl ?_, fun _ => rfl⟩
  · simp only [channelAnswer, Outcome.global, Outcome.code, State.record, hsessions, hlen, hunit]
    rfl
  · simp only [channelAnswer, Outcome.global, Outcome.code, State.record, hlen, hentry]
    exact Nat.le_refl _

theorem channelRequest_counts (hg : Channels g) (c : Channel) (id : ℕ) (type : String)
    (payload : Bytes) :
    Counts g (.channelRequest id type payload) (channelRequest E o g c type payload) := by
  unfold channelRequest
  split
  · split
    · exact counts_answer hg rfl rfl rfl rfl rfl
    · split_ifs
      · exact counts_answer hg rfl rfl rfl rfl rfl
      · exact counts_answer hg rfl (setChannel_ids _ _) rfl rfl rfl
  · split
    · exact counts_answer hg rfl rfl rfl rfl rfl
    · split_ifs <;> exact counts_answer hg rfl rfl rfl rfl rfl
  · split
    · exact counts_answer hg rfl rfl rfl rfl rfl
    · split_ifs
      · exact counts_answer hg rfl rfl rfl rfl rfl
      · unfold startShell
        split_ifs
        · exact counts_answer hg rfl (setChannel_ids _ _) rfl rfl rfl
        · exact counts_answer hg rfl rfl rfl rfl rfl
  · split_ifs
    · exact counts_answer hg rfl rfl rfl rfl rfl
    · exact counts_answer hg rfl (setChannel_ids _ _) rfl rfl rfl
  · split
    · exact counts_answer hg rfl rfl rfl rfl rfl
    · split_ifs
      · exact counts_answer hg rfl rfl rfl rfl rfl
      · exact counts_answer hg rfl (setChannel_ids _ _) rfl rfl rfl
  · exact counts_answer hg rfl rfl rfl rfl rfl

theorem openChannel_counts (hg : Channels g) (type : String) (extraData : Bytes) :
    Counts g (.openChannel type extraData) (openChannel g type extraData) := by
  unfold openChannel
  by_cases hsession : type = "session"
  · rw [if_pos hsession]
    split_ifs with hshell
    · exact ⟨⟨hg.nodup, hg.below⟩, rfl, .inl le_rfl, fun _ => rfl⟩
    · simp only
      split_ifs with hmany
      · refine ⟨⟨hg.nodup, hg.below⟩, ?_, .inl le_rfl, fun _ => rfl⟩
        simp only [Outcome.global, Outcome.code, held_cons, held_nil, Instr.unit]
        omega
      · refine ⟨⟨hg.nodup, hg.below⟩, ?_, .inr ⟨by omega, le_rfl⟩, fun _ => rfl⟩
        simp only [Outcome.global, Outcome.code, held_cons, held_nil, Instr.unit]
        omega
  · rw [if_neg hsession]
    split_ifs
    · exact ⟨⟨hg.nodup, hg.below⟩, rfl, .inl le_rfl, fun _ => rfl⟩
    · exact ⟨⟨hg.nodup, hg.below⟩, rfl, .inl le_rfl, fun _ => rfl⟩

theorem acceptChannel_counts (hg : Channels g) :
    Counts g .acceptChannel (acceptChannel o g) := by
  unfold acceptChannel
  split_ifs
  · refine ⟨⟨?_, ?_⟩, ?_, .inl ?_, fun _ => rfl⟩
    · refine List.nodup_cons.2 ⟨fun hmem => ?_, hg.nodup⟩
      obtain ⟨d, hd, hid⟩ := List.mem_map.1 hmem
      exact absurd hid (hg.below d hd).ne
    · intro d hd
      rcases List.mem_cons.1 hd with rfl | hd
      · exact Nat.lt_succ_self _
      · exact (hg.below d hd).trans (Nat.lt_succ_self _)
    · simp only [Outcome.global, Outcome.code, State.record, List.length_cons, held_nil, Instr.unit]
      omega
    · simp [Outcome.global, Outcome.code, State.record, Instr.entry]
  · refine ⟨⟨hg.nodup, hg.below⟩, rfl, .inl ?_, fun _ => rfl⟩
    simp [Outcome.global, Outcome.code, Instr.entry]

theorem closeChannel_counts (hg : Channels g) (id : ℕ) :
    Counts g (.closeChannel id) (closeChannel g id) := by
  unfold closeChannel
  split
  · exact ⟨⟨hg.nodup, hg.below⟩, rfl, .inl le_rfl, fun _ => rfl⟩
  · rename_i c hc
    have hlen := length_filter_id g.channels hg.nodup (channel_mem hc) (channel_id hc)
    refine ⟨⟨?_, fun d hd => hg.below d (List.mem_filter.1 hd).1⟩, ?_, .inl ?_, fun _ => rfl⟩
    · exact hg.nodup.sublist (List.filter_sublist.map _)
    · simp only [Outcome.global, Outcome.code, held_cons, held_nil, Instr.unit]
      omega
    · simp only [Outcome.global, Outcome.code, held_cons, held_nil, Instr.entry]
      omega

theorem atomic_counts (hg : Channels g) (h : atomic E o g ins = some out) :
    Counts g ins out := by
  cases ins with
  | openChannel type extraData =>
    cases h
    exact openChannel_counts hg type extraData
  | acceptChannel =>
    cases h
    exact acceptChannel_counts hg
  | releaseSession =>
    cases h
    refine ⟨⟨hg.nodup, hg.below⟩, ?_, .inl le_rfl, fun _ => rfl⟩
    simp only [Outcome.global, Outcome.code, held_nil, Instr.unit]
    omega
  | channelRequest id type payload =>
    obtain ⟨c, -, rfl⟩ := Option.map_eq_some_iff.1 h
    exact channelRequest_counts hg c id type payload
  | closeChannel id =>
    cases h
    exact closeChannel_counts hg id
  | runShell | serveSFTP | runScript | scriptDone =>
    cases h
    exact ⟨⟨hg.nodup, hg.below⟩, rfl, .inl le_rfl, fun _ => rfl⟩
  | hello | helloReply | saveConfig | handleRequest | processes | listServices | controlService
  | runPower | tooManySessions | handleUpdate => exact (atomic_aside h rfl).counts hg rfl

end counts

structure SessionsOk (c : Tasks.Config State Instr) : Prop where
  channels : Channels c.global
  count : c.global.sessions = c.global.channels.length + holdings Instr.unit c.tasks
  bound : c.global.channels.length + holdings Instr.entry c.tasks ≤ maxSessions

section sessions
variable {E : Env}

theorem code_free (r : Request) : held Instr.unit (code r) = 0 ∧ held Instr.entry (code r) = 0 := by
  cases r <;> exact ⟨rfl, rfl⟩

theorem sessions_start (c : Tasks.Config State Instr) (r : Request) (h : SessionsOk c) :
    SessionsOk ⟨c.global, c.tasks ++ [code r]⟩ := by
  obtain ⟨hunit, hentry⟩ := code_free r
  refine ⟨h.channels, ?_, ?_⟩
  · rw [holdings_start, hunit]
    exact h.count
  · rw [holdings_start, hentry]
    exact h.bound

theorem sessions_run (c : Tasks.Config State Instr) (i : ℕ) (ins : Instr) (rest : List Instr)
    (o : Oracle) (out : Outcome State Instr) (h : SessionsOk c)
    (ht : c.tasks[i]? = some (ins :: rest)) (ho : atomic E o c.global ins = some out) :
    SessionsOk ⟨out.global, c.tasks.set i (out.resume rest)⟩ := by
  have hstep := atomic_counts h.channels ho
  have hunit := holdings_next (w := Instr.unit) out.code ht
  have hentry := holdings_next (w := Instr.entry) out.code ht
  have hle := holdings_entry_le c.tasks
  have hcount := h.count
  have hbound := h.bound
  have hnew := hstep.count
  rw [hstep.resume]
  refine ⟨hstep.channels, ?_, ?_⟩
  · change out.global.sessions = out.global.channels.length +
      (holdings Instr.unit (c.tasks.set i (out.code ++ rest)) : ℕ)
    omega
  · change (out.global.channels.length : ℤ) +
      (holdings Instr.entry (c.tasks.set i (out.code ++ rest)) : ℕ) ≤ maxSessions
    -- a new channel is only let in while the counter, and with it what is held, is below
    rcases hstep.entry with hold | ⟨hfree, hone⟩
    · omega
    · omega

theorem sessions_none {g : State} (hchannels : g.channels = []) (hsessions : g.sessions = 0) :
    SessionsOk ⟨g, []⟩ := by
  refine ⟨⟨by simp [hchannels], by simp [hchannels]⟩, by simp [hchannels, hsessions], ?_⟩
  simp [hchannels, maxSessions]

theorem sessions_restart (c : Tasks.Config State Instr) (g : State) (_ : SessionsOk c)
    (hg : restart E c.global = some g) : SessionsOk ⟨g, []⟩ := by
  obtain ⟨cfg, -, rfl⟩ := Option.map_eq_some_iff.1 hg
  exact sessions_none rfl rfl

theorem sessions_ok {file : Bytes} {cfg : Config} {acts : List (Action Oracle Request)}
    {c : Tasks.Config State Instr}
    (run : Runs.exec (machine E).step ⟨initial file cfg, []⟩ acts = some c) : SessionsOk c :=
  (machine E).invariant sessions_start sessions_run sessions_restart (sessions_none rfl rfl) run

end sessions

/-- Whatever the hub opens and closes at the same time: at most 16 session channels are
served at once, and when no goroutine is between taking and giving back, the counter is the
number of channels that are open. -/
theorem sessions_bounded (E : Env) (file : Bytes) (cfg : Config)
    (acts : List (Action Oracle Request)) (c : Tasks.Config State Instr)
    (run : Runs.exec (machine E).step ⟨initial file cfg, []⟩ acts = some c) :
    c.global.channels.length ≤ 16 ∧ (c.global.channels.map (·.id)).Nodup ∧
      (c.global.channels.length : ℤ) ≤ c.global.sessions ∧
      ((∀ t ∈ c.tasks, ∀ i ∈ t, i ≠ .acceptChannel ∧ i ≠ .releaseSession) →
        c.global.sessions = c.global.channels.length) := by
  have h := sessions_ok run
  have hbound : (c.global.channels.length : ℤ) + (holdings Instr.entry c.tasks : ℕ) ≤ 16 := h.bound
  have hcount := h.count
  refine ⟨by omega, h.channels.nodup, by omega, fun hidle => ?_⟩
  have hzero : holdings Instr.unit c.tasks = 0 := by
    rw [holdings, List.sum_eq_zero_iff]
    intro n hn
    obtain ⟨t, ht, rfl⟩ := List.mem_map.1 hn
    refine held_eq_zero fun i hi => ?_
    obtain ⟨ha, hr⟩ := hidle t ht i hi
    cases i <;> first | rfl | exact absurd rfl ha | exact absurd rfl hr
  omega

/-- An agent that allows remote control, and a hub that asks for a terminal. -/
def terminalEnv : Env := { sampleEnv with ptyRequest := fun _ => some ⟨"xterm", 80, 24⟩ }

def openConfig : Config := { sampleConfig "" with allowShell := true }

/-- Two channels are opened. The hub asks the first for a shell twice and then for SFTP, and
closes it while the shell still runs; the second is on its way in. -/
def hubOpensTwo : List (Action Oracle Request) :=
  [.start (.openChannel "session" []), .start (.openChannel "session" []), .run 0 sampleOracle,
    .run 1 sampleOracle, .run 0 sampleOracle, .start (.channelRequest 0 "pty-req" []),
    .run 2 sampleOracle, .start (.channelRequest 0 "shell" []),
    .start (.channelRequest 0 "shell" []), .start (.channelRequest 0 "subsystem" []),
    .run 4 sampleOracle, .run 3 sampleOracle, .run 5 sampleOracle, .start (.closeChannel 0),
    .run 4 sampleOracle]

theorem hubOpensTwo_view :
    (Runs.exec (machine terminalEnv).step ⟨initial [0] openConfig, []⟩ hubOpensTwo).map
      (fun c => (c.global.channels.length, c.global.sessions, startsOn 0 c.global.log,
        exitsOn 0 c.global.log)) = some (1, 2, 1, 1) := by decide +kernel

theorem sessions_bounded_two : ∃ c,
    Runs.exec (machine terminalEnv).step ⟨initial [0] openConfig, []⟩ hubOpensTwo = some c ∧
    c.global.sessions = 2 ∧ c.global.channels.length ≤ 16 := by
  obtain ⟨c, hc, hview⟩ := Option.map_eq_some_iff.1 hubOpensTwo_view
  simp only [Prod.mk.injEq] at hview
  exact ⟨c, hc, hview.2.1, (sessions_bounded terminalEnv [0] openConfig hubOpensTwo c hc).1⟩

/-- The channel may still start a program. -/
def Fresh (g : State) (id : ℕ) : Prop :=
  g.nextChannel ≤ id ∨ ∃ d ∈ g.channels, d.id = id ∧ d.started = false

def Spends (fresh fresh' : Prop) (used used' : ℕ) : Prop :=
  used' ≤ used ∨ fresh ∧ ¬ fresh' ∧ used' ≤ used + 1

structure Uses (g : State) (ins : Instr) (out : Outcome State Instr) (id : ℕ) : Prop where
  fresh : Fresh out.global id → Fresh g id
  starts : Spends (Fresh g id) (Fresh out.global id) (startsOn id g.log + ins.start id)
    (startsOn id out.global.log + held (Instr.start id) out.code)
  exits : Spends (Fresh g id) (Fresh out.global id) (exitsOn id g.log + ins.ending id)
    (exitsOn id out.global.log + held (Instr.ending id) out.code)

section uses
variable {E : Env} {o : Oracle} {g : State} {ins : Instr} {out : Outcome State Instr} {id : ℕ}

theorem countP_aside {p : Event → Bool} (hp : ∀ e, e.aside = true → p e = false) {new log : List Event}
    (h : ∀ e ∈ new, e.aside = true) : (new ++ log).countP p = log.countP p := by
  rw [List.countP_append, List.countP_eq_zero.2 fun e he => by simp [hp e (h e he)], Nat.zero_add]

theorem starts_aside (e : Event) (h : e.aside = true) : e.starts id = false := by
  cases e <;> first | rfl | cases h

theorem exits_aside (e : Event) (h : e.aside = true) : e.exits id = false := by
  cases e <;> first | rfl | cases h

theorem Aside.uses (h : Aside g out) (hins : ins.onSession = false) : Uses g ins out id := by
  obtain ⟨new, hlog, hnew⟩ := h.log
  have hfresh : Fresh out.global id ↔ Fresh g id := by
    unfold Fresh
    rw [h.channels, h.next]
  refine ⟨hfresh.1, .inl ?_, .inl ?_⟩
  · rw [startsOn, hlog, countP_aside starts_aside hnew, held_aside (start_aside id) h.code,
      start_aside id ins hins, startsOn]
  · rw [exitsOn, hlog, countP_aside exits_aside hnew, held_aside (ending_aside id) h.code,
      ending_aside id ins hins, exitsOn]

theorem fresh_setChannel {c d : Channel} (hc : c ∈ g.channels) (hid : d.id = c.id)
    (hstarted : d.started = false → c.started = false) (h : Fresh (g.setChannel d) id) : Fresh g id := by
  rcases h with h | ⟨e, he, heid, hes⟩
  · exact .inl h
  · obtain ⟨e', he', rfl⟩ := List.mem_map.1 he
    split_ifs at heid hes with hsame
    · exact .inr ⟨c, hc, hid.symm.trans heid, hstarted hes⟩
    · exact .inr ⟨e', he', heid, hes⟩

theorem not_fresh_setChannel {c d : Channel} (hg : Channels g) (hc : c ∈ g.channels)
    (hid : d.id = c.id) (hstarted : d.started = true) : ¬ Fresh (g.setChannel d) c.id := by
  rintro (h | ⟨e, he, heid, hes⟩)
  · exact absurd h (not_le.2 (hg.below c hc))
  · obtain ⟨e', he', rfl⟩ := List.mem_map.1 he
    split_ifs at heid hes with hsame
    · rw [hstarted] at hes
      cases hes
    · exact hsame (heid.trans hid.symm)

theorem uses_answer {g' : State} {code : List Instr} {c : Channel} {k : ℕ} {type : String}
    {payload : Bytes} {ok : Bool} (hfresh : Fresh g' id → Fresh g id)
    (hlog : ∃ new, g'.log = new ++ g.log ∧ ∀ e ∈ new, e.aside = true)
    (hstart : held (Instr.start id) code = 0) (hending : held (Instr.ending id) code = 0) :
    Uses g (.channelRequest k type payload) (channelAnswer g' c.id type ok code) id := by
  obtain ⟨new, hlog, hnew⟩ := hlog
  have hrecorded : ∀ e ∈ Event.channelReply c.id type ok :: new, e.aside = true := by
    intro e he
    rcases List.mem_cons.1 he with rfl | he
    · rfl
    · exact hnew e he
  have hall : (g'.record (.channelReply c.id type ok)).log =
      (.channelReply c.id type ok :: new) ++ g.log := by
    rw [State.record, hlog]
    rfl
  refine ⟨hfresh, .inl ?_, .inl ?_⟩
  · simp only [channelAnswer, Outcome.global, Outcome.code, startsOn, hall, hstart]
    rw [countP_aside starts_aside hrecorded]
    rfl
  · simp only [channelAnswer, Outcome.global, Outcome.code, exitsOn, hall, hending]
    rw [countP_aside exits_aside hrecorded]
    rfl

theorem uses_start (new : List Event) {code : List Instr} {c d : Channel} {k : ℕ} {type : String}
    {payload : Bytes} (hg : Channels g) (hc : c ∈ g.channels) (hfresh : c.started = false)
    (hid : d.id = c.id) (hstarted : d.started = true)
    (hstart : (new ++ g.log).countP (Event.starts id) + held (Instr.start id) code ≤
      startsOn id g.log + if c.id = id then 1 else 0)
    (hexit : (new ++ g.log).countP (Event.exits id) + held (Instr.ending id) code ≤
      exitsOn id g.log + if c.id = id then 1 else 0) :
    Uses g (.channelRequest k type payload)
      (channelAnswer { g.setChannel d with log := new ++ g.log } c.id type true code) id := by
  have hback : Fresh { g.setChannel d with log := new ++ g.log } id → Fresh g id :=
    fresh_setChannel hc hid fun hd => by simp [hstarted] at hd
  have hspend : ∀ {used used' : ℕ}, used' ≤ used + (if c.id = id then 1 else 0) →
      Spends (Fresh g id) (Fresh { g.setChannel d with log := new ++ g.log } id) used used' := by
    intro used used' hle
    split_ifs at hle with heq
    · subst heq
      exact .inr ⟨.inr ⟨c, hc, rfl, hfresh⟩, not_fresh_setChannel hg hc hid hstarted, hle⟩
    · exact .inl hle
  refine ⟨hback, hspend ?_, hspend ?_⟩
  · simpa [channelAnswer, Outcome.global, Outcome.code, startsOn, State.record, List.countP_cons,
      Event.starts, Instr.start] using hstart
  · simpa [channelAnswer, Outcome.global, Outcome.code, exitsOn, State.record, List.countP_cons,
      Event.exits, Instr.ending] using hexit

theorem channelRequest_uses (hg : Channels g) {c : Channel} (hc : c ∈ g.channels) (k : ℕ)
    (type : String) (payload : Bytes) :
    Uses g (.channelRequest k type payload) (channelRequest E o g c type payload) id := by
  have hsame : ∃ new, g.log = new ++ g.log ∧ ∀ e ∈ new, Event.aside e = true := ⟨[], rfl, by simp⟩
  unfold channelRequest
  split
  · split
    · exact uses_answer (fun hf => hf) hsame rfl rfl
    · split_ifs
      · exact uses_answer (fun hf => hf) hsame rfl rfl
      · exact uses_answer (fresh_setChannel hc rfl fun hd => hd) hsame rfl rfl
  · split
    · exact uses_answer (fun hf => hf) hsame rfl rfl
    · split_ifs
      · exact uses_answer (fun hf => hf) ⟨[_], rfl, by simp [Event.aside]⟩ rfl rfl
      · exact uses_answer (fun hf => hf) hsame rfl rfl
  · split
    · exact uses_answer (fun hf => hf) hsame rfl rfl
    · rename_i pty hpty
      split_ifs with hstarted
      · exact uses_answer (fun hf => hf) hsame rfl rfl
      · unfold startShell
        split_ifs
        · refine uses_start [.shell c.id pty] (d := { c with started := true, shell := true })
            hg hc (by simpa using hstarted) rfl rfl ?_ ?_
          · simp [startsOn, List.countP_cons, Event.starts, Instr.start]
          · simp [exitsOn, Event.exits, Instr.ending]
        · exact uses_answer (fun hf => hf) ⟨[_], rfl, by simp [Event.aside]⟩ rfl rfl
  · split_ifs with hrefused
    · exact uses_answer (fun hf => hf) hsame rfl rfl
    · rw [not_or] at hrefused
      refine uses_start [] (d := { c with started := true }) hg hc
        (by simpa using hrefused.1) rfl rfl ?_ ?_
      · simp [startsOn, Instr.start]
      · simp [exitsOn, Instr.ending]
  · split
    · exact uses_answer (fun hf => hf) hsame rfl rfl
    · split_ifs with hstarted
      · exact uses_answer (fun hf => hf) hsame rfl rfl
      · refine uses_start [] (d := { c with started := true }) hg hc
          (by simpa using hstarted) rfl rfl ?_ ?_
        · simp [startsOn, Instr.start]
        · simp [exitsOn, Instr.ending]
  · exact uses_answer (fun hf => hf) hsame rfl rfl

theorem atomic_uses (id : ℕ) (hg : Channels g) (h : atomic E o g ins = some out) : Uses g ins out id := by
  cases ins with
  | openChannel type extraData =>
    cases h
    unfold openChannel
    dsimp only
    split_ifs <;> exact ⟨fun hf => hf, .inl le_rfl, .inl le_rfl⟩
  | acceptChannel =>
    cases h
    unfold acceptChannel
    split_ifs
    · refine ⟨?_, .inl ?_, .inl ?_⟩
      · rintro (hf | ⟨d, hd, hdid, hds⟩)
        · exact .inl ((Nat.le_succ _).trans hf)
        · rcases List.mem_cons.1 hd with rfl | hd
          · exact .inl hdid.le
          · exact .inr ⟨d, hd, hdid, hds⟩
      · simp [Outcome.global, Outcome.code, State.record, startsOn, Event.starts]
      · simp [Outcome.global, Outcome.code, State.record, exitsOn, Event.exits]
    · exact ⟨fun hf => hf, .inl le_rfl, .inl le_rfl⟩
  | releaseSession =>
    cases h
    exact ⟨fun hf => hf, .inl le_rfl, .inl le_rfl⟩
  | channelRequest k type payload =>
    obtain ⟨c, hc, rfl⟩ := Option.map_eq_some_iff.1 h
    exact channelRequest_uses hg (channel_mem hc) k type payload
  | closeChannel k =>
    cases h
    unfold closeChannel
    split
    · exact ⟨fun hf => hf, .inl le_rfl, .inl le_rfl⟩
    · refine ⟨?_, .inl le_rfl, .inl le_rfl⟩
      rintro (hf | ⟨d, hd, hdid, hds⟩)
      · exact .inl hf
      · exact .inr ⟨d, (List.mem_filter.1 hd).1, hdid, hds⟩
  | runShell k =>
    cases h
    refine ⟨fun hf => hf, .inl ?_, .inl ?_⟩
    · simp [Outcome.global, Outcome.code, State.record, startsOn, Event.starts, Instr.start]
    · simp [Outcome.global, Outcome.code, State.record, exitsOn, List.countP_cons, Event.exits,
        Instr.ending]
  | serveSFTP k =>
    cases h
    refine ⟨fun hf => hf, .inl ?_, .inl ?_⟩
    · simp [Outcome.global, Outcome.code, State.record, startsOn, List.countP_cons, Event.starts,
        Instr.start]
    · simp [Outcome.global, Outcome.code, State.record, exitsOn, Event.exits, Instr.ending]
  | runScript k msg =>
    cases h
    refine ⟨fun hf => hf, .inl ?_, .inl ?_⟩
    · simp [Outcome.global, Outcome.code, State.record, startsOn, List.countP_cons, Event.starts,
        Instr.start]
    · simp [Outcome.global, Outcome.code, State.record, exitsOn, Event.exits, Instr.ending]
  | scriptDone k =>
    cases h
    refine ⟨fun hf => hf, .inl ?_, .inl ?_⟩
    · simp [Outcome.global, Outcome.code, State.record, startsOn, Event.starts, Instr.start]
    · simp [Outcome.global, Outcome.code, State.record, exitsOn, List.countP_cons, Event.exits,
        Instr.ending]
  | hello | helloReply | saveConfig | handleRequest | processes | listServices | controlService
  | runPower | tooManySessions | handleUpdate => exact (atomic_aside h rfl).uses rfl

end uses

def Once (fresh : Prop) (used : ℕ) : Prop := used ≤ 1 ∧ (fresh → used = 0)

theorem Spends.once {fresh fresh' : Prop} {used used' total total' : ℕ}
    (h : Spends fresh fresh' used used') (hback : fresh' → fresh)
    (htotal : total' + used = total + used') (honce : Once fresh total) : Once fresh' total' := by
  obtain ⟨hle, hzero⟩ := honce
  rcases h with hsame | ⟨hfresh, hspent, hone⟩
  · refine ⟨by omega, fun hf => ?_⟩
    have := hzero (hback hf)
    omega
  · have := hzero hfresh
    exact ⟨by omega, fun hf => absurd hf hspent⟩

structure ProgramsOk (c : Tasks.Config State Instr) : Prop where
  channels : Channels c.global
  starts : ∀ id, Once (Fresh c.global id)
    (startsOn id c.global.log + holdings (Instr.start id) c.tasks)
  exits : ∀ id, Once (Fresh c.global id)
    (exitsOn id c.global.log + holdings (Instr.ending id) c.tasks)

section programs
variable {E : Env}

theorem code_idle (r : Request) (id : ℕ) :
    held (Instr.start id) (code r) = 0 ∧ held (Instr.ending id) (code r) = 0 := by
  cases r <;> exact ⟨rfl, rfl⟩

theorem programs_start (c : Tasks.Config State Instr) (r : Request) (h : ProgramsOk c) :
    ProgramsOk ⟨c.global, c.tasks ++ [code r]⟩ := by
  refine ⟨h.channels, fun id => ?_, fun id => ?_⟩
  · rw [holdings_start, (code_idle r id).1]
    exact h.starts id
  · rw [holdings_start, (code_idle r id).2]
    exact h.exits id

theorem programs_run (c : Tasks.Config State Instr) (i : ℕ) (ins : Instr) (rest : List Instr)
    (o : Oracle) (out : Outcome State Instr) (h : ProgramsOk c)
    (ht : c.tasks[i]? = some (ins :: rest)) (ho : atomic E o c.global ins = some out) :
    ProgramsOk ⟨out.global, c.tasks.set i (out.resume rest)⟩ := by
  have hcounts := atomic_counts h.channels ho
  rw [hcounts.resume]
  refine ⟨hcounts.channels, fun id => ?_, fun id => ?_⟩
  · have huses := atomic_uses id h.channels ho
    have hnext := holdings_next (w := Instr.start id) out.code ht
    refine huses.starts.once huses.fresh ?_ (h.starts id)
    dsimp only
    omega
  · have huses := atomic_uses id h.channels ho
    have hnext := holdings_next (w := Instr.ending id) out.code ht
    refine huses.exits.once huses.fresh ?_ (h.exits id)
    dsimp only
    omega

theorem programs_restart (c : Tasks.Config State Instr) (g : State) (h : ProgramsOk c)
    (hg : restart E c.global = some g) : ProgramsOk ⟨g, []⟩ := by
  obtain ⟨cfg, -, rfl⟩ := Option.map_eq_some_iff.1 hg
  have honce : ∀ {id total used : ℕ}, Once (Fresh c.global id) total → used ≤ total →
      Once (Fresh { c.global with cfg, channels := [], sessions := 0 } id) used := by
    rintro id total used ⟨hle, hzero⟩ hused
    refine ⟨hused.trans hle, ?_⟩
    rintro (hf | ⟨d, hd, -⟩)
    · have := hzero (.inl hf)
      omega
    · cases hd
  refine ⟨⟨List.nodup_nil, by simp⟩, fun id => ?_, fun id => ?_⟩
  · exact honce (h.starts id) (Nat.le_add_right _ _)
  · exact honce (h.exits id) (Nat.le_add_right _ _)

theorem programs_ok {file : Bytes} {cfg : Config} {acts : List (Action Oracle Request)}
    {c : Tasks.Config State Instr}
    (run : Runs.exec (machine E).step ⟨initial file cfg, []⟩ acts = some c) : ProgramsOk c := by
  have hinit : ProgramsOk ⟨initial file cfg, []⟩ :=
    ⟨⟨List.nodup_nil, by simp [initial]⟩, fun _ => ⟨Nat.zero_le 1, fun _ => rfl⟩,
      fun _ => ⟨Nat.zero_le 1, fun _ => rfl⟩⟩
  exact (machine E).invariant programs_start programs_run programs_restart hinit run

end programs

/-- Whatever requests a session channel gets and however the goroutines interleave: it starts
at most one program (a shell, SFTP or a script), and reports at most one exit status. -/
theorem channel_runs_once (E : Env) (file : Bytes) (cfg : Config)
    (acts : List (Action Oracle Request)) (c : Tasks.Config State Instr)
    (run : Runs.exec (machine E).step ⟨initial file cfg, []⟩ acts = some c) (id : ℕ) :
    startsOn id c.global.log ≤ 1 ∧ exitsOn id c.global.log ≤ 1 := by
  have h := programs_ok run
  have hstarts := (h.starts id).1
  have hexits := (h.exits id).1
  omega

theorem channel_runs_once_zero : ∃ c,
    Runs.exec (machine terminalEnv).step ⟨initial [0] openConfig, []⟩ hubOpensTwo = some c ∧
    startsOn 0 c.global.log = 1 ∧ exitsOn 0 c.global.log ≤ 1 := by
  obtain ⟨c, hc, hview⟩ := Option.map_eq_some_iff.1 hubOpensTwo_view
  simp only [Prod.mk.injEq] at hview
  exact ⟨c, hc, hview.2.2.1, (channel_runs_once terminalEnv [0] openConfig hubOpensTwo c hc 0).2⟩

end Lotse.Agent
