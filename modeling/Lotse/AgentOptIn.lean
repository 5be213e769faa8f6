import Lotse.AgentMachine

set_option autoImplicit false

namespace Lotse.Agent
open Tasks Utf8

def Event.remoteControl : Event → Bool
  | .shell _ _ => true
  | .sftp _ => true
  | .script _ _ => true
  | .signal _ _ => true
  | .power _ => true
  | .service _ => true
  | _ => false

def Event.WithoutCommands : Event → Prop
  | .reply _ _ (.processes list) => ∀ p ∈ list.processes, p.command = []
  | _ => True

structure Harmless (e : Event) : Prop where
  remoteControl : e.remoteControl = false
  commands : e.WithoutCommands

def Instr.privileged : Instr → Bool
  | .runPower _ => true
  | .acceptChannel => true
  | .runShell _ => true
  | .serveSFTP _ => true
  | .runScript _ _ => true
  | _ => false

/-- The config with at most its token cleared. -/
def OnlyToken (cfg cfg' : Config) : Prop := cfg' = cfg ∨ cfg' = { cfg with token := "" }

inductive ConfigStep (E : Env) (g g' : State) : Prop where
  | keep (cfg : g'.cfg = g.cfg) (file : g'.file = g.file)
  | clear (cfg : g'.cfg = { g.cfg with token := "" }) (file : g'.file = g.file)
  | save (cfg : g'.cfg = g.cfg) (file : g'.file = E.marshal g.cfg)

/-- A step of an agent that does not allow remote control. -/
structure Off (g g' : State) (code : List Instr) : Prop where
  channels : g'.channels = []
  code : ∀ i ∈ code, i.privileged = false
  log : ∀ e ∈ g'.log, e ∈ g.log ∨ Harmless e

structure Does (E : Env) (g : State) (ins : Instr) (out : Outcome State Instr) : Prop where
  config : ConfigStep E g out.global
  off : g.cfg.allowShell = false → g.channels = [] → ins.privileged = false →
    Off g out.global out.code

section steps
variable {E : Env} {o : Oracle} {g : State} {ins : Instr} {out : Outcome State Instr} {e : Event}
  {code : List Instr}

theorem does_next (hcode : ∀ i ∈ code, i.privileged = false) : Does E g ins (.next g code) :=
  ⟨.keep rfl rfl, fun _ hchannels _ => ⟨hchannels, hcode, fun _ he => .inl he⟩⟩

theorem Does.record (h : Does E (g.record e) ins out) (he : Harmless e) : Does E g ins out := by
  refine ⟨?_, fun hshell hchannels hins => ?_⟩
  · cases h.config with
    | keep cfg file => exact .keep cfg file
    | clear cfg file => exact .clear cfg file
    | save cfg file => exact .save cfg file
  · obtain ⟨hempty, hcode, hlog⟩ := h.off hshell hchannels hins
    refine ⟨hempty, hcode, fun e' he' => ?_⟩
    rcases hlog e' he' with hold | hnew
    · rcases List.mem_cons.1 hold with rfl | hold
      · exact .inr he
      · exact .inl hold
    · exact .inr hnew

theorem does_log (he : Harmless e) (hcode : ∀ i ∈ code, i.privileged = false) :
    Does E g ins (.next (g.record e) code) := (does_next hcode).record he

theorem none_privileged : ∀ i ∈ ([] : List Instr), i.privileged = false :=
  fun _ hi => (List.not_mem_nil hi).elim

theorem one_unprivileged {i : Instr} (h : i.privileged = false) :
    ∀ j ∈ [i], j.privileged = false := fun _ hj => List.mem_singleton.1 hj ▸ h

theorem does_answer (type : String) (ok : Bool) : Does E g ins (answer g type ok) :=
  does_log ⟨rfl, trivial⟩ none_privileged

theorem does_fail (type error : String) : Does E g ins (fail g type error) :=
  does_log ⟨rfl, trivial⟩ none_privileged

theorem does_allowed (h : ¬ g.cfg.allowShell = false) (hcfg : out.global.cfg = g.cfg)
    (hfile : out.global.file = g.file) : Does E g ins out :=
  ⟨.keep hcfg hfile, fun hshell => (h hshell).elim⟩

theorem does_privileged (h : ins.privileged = true) (hcfg : out.global.cfg = g.cfg)
    (hfile : out.global.file = g.file) : Does E g ins out :=
  ⟨.keep hcfg hfile, fun _ _ hins => by rw [h] at hins; cases hins⟩

theorem does_helloReply (g : State) (ins : Instr) : Does E g ins (helloReply E o g) := by
  unfold helloReply
  split
  · exact does_next none_privileged
  · simp only
    split_ifs
    · exact does_next none_privileged
    · refine Does.record ⟨.clear rfl rfl, fun _ hchannels _ => ?_⟩ ⟨rfl, trivial⟩
      exact ⟨hchannels, one_unprivileged rfl, fun _ he => .inl he⟩
    · exact does_log ⟨rfl, trivial⟩ none_privileged

theorem does_handleSignal (payload : Bytes) : Does E g ins (handleSignal E o g payload) := by
  unfold handleSignal
  split
  · exact does_answer _ _
  · split_ifs with hshell
    · exact does_fail _ _
    · split <;> exact does_allowed hshell rfl rfl

theorem does_handlePower (payload : Bytes) : Does E g ins (handlePower E g payload) := by
  unfold handlePower
  split
  · exact does_answer _ _
  · split_ifs with hshell
    · exact does_fail _ _
    · split <;> exact does_allowed hshell rfl rfl

theorem does_handleWake (payload : Bytes) : Does E g ins (handleWake E o g payload) := by
  unfold handleWake
  split
  · exact does_answer _ _
  · split_ifs
    · exact does_answer _ _
    · exact (does_answer _ _).record ⟨rfl, trivial⟩

theorem does_handleInterval (payload : Bytes) : Does E g ins (handleInterval E g payload) := by
  unfold handleInterval
  split
  · exact does_answer _ _
  · split_ifs
    · exact does_answer _ _
    · exact (does_answer _ _).record ⟨rfl, trivial⟩

theorem does_handleRequest (type : String) (payload : Bytes) :
    Does E g ins (handleRequest E o g type payload) := by
  unfold handleRequest
  split
  · exact does_next (one_unprivileged rfl)
  · exact does_handleSignal payload
  · exact does_handlePower payload
  · exact does_next (one_unprivileged rfl)
  · split
    · exact does_answer _ _
    · exact does_next (one_unprivileged rfl)
  · exact does_handleWake payload
  · exact does_handleInterval payload
  · exact does_answer _ _

theorem does_listProcesses (limit : ℕ) : Does E g ins (listProcesses o g limit) := by
  unfold listProcesses
  split
  · exact does_answer _ _
  · rename_i procs hprocs
    by_cases hshell : g.cfg.allowShell = false
    · rw [hshell]
      exact does_log ⟨rfl, fun p hp => processes_command hp⟩ none_privileged
    · exact does_allowed hshell rfl rfl

theorem does_controlService (name action : String) :
    Does E g ins (controlService E o g name action) := by
  unfold controlService
  split_ifs with hshell
  · exact does_fail _ _
  · split <;> exact does_allowed hshell rfl rfl

theorem does_openChannel (type : String) (extraData : Bytes) :
    Does E g ins (openChannel g type extraData) := by
  rw [openChannel]
  by_cases hsession : type = "session"
  · rw [if_pos hsession]
    by_cases hshell : g.cfg.allowShell = false
    · rw [if_pos hshell]
      exact does_log ⟨rfl, trivial⟩ none_privileged
    · rw [if_neg hshell]
      simp only
      split_ifs <;> exact does_allowed hshell rfl rfl
  · rw [if_neg hsession]
    split_ifs
    · exact does_next (one_unprivileged rfl)
    · exact does_log ⟨rfl, trivial⟩ none_privileged

theorem does_handleUpdate (extraData : Bytes) : Does E g ins (handleUpdate g extraData) := by
  rw [handleUpdate]
  split_ifs <;> exact does_log ⟨rfl, trivial⟩ none_privileged

theorem channelRequest_config (c : Channel) (type : String) (payload : Bytes) :
    (channelRequest E o g c type payload).global.cfg = g.cfg ∧
      (channelRequest E o g c type payload).global.file = g.file := by
  unfold channelRequest
  split
  · split
    · exact ⟨rfl, rfl⟩
    · split_ifs <;> exact ⟨rfl, rfl⟩
  · split
    · exact ⟨rfl, rfl⟩
    · split_ifs <;> exact ⟨rfl, rfl⟩
  · split
    · exact ⟨rfl, rfl⟩
    · unfold startShell
      split_ifs <;> exact ⟨rfl, rfl⟩
  · split_ifs <;> exact ⟨rfl, rfl⟩
  · split
    · exact ⟨rfl, rfl⟩
    · split_ifs <;> exact ⟨rfl, rfl⟩
  · exact ⟨rfl, rfl⟩

theorem atomic_does (h : atomic E o g ins = some out) : Does E g ins out := by
  cases ins with
  | hello =>
    cases h
    exact does_log ⟨rfl, trivial⟩ (one_unprivileged rfl)
  | helloReply =>
    cases h
    exact does_helloReply g _
  | saveConfig =>
    cases h
    cases o.saved with
    | false => exact does_next none_privileged
    | true =>
      exact ⟨.save rfl rfl, fun _ hchannels _ => ⟨hchannels, none_privileged, fun _ he => .inl he⟩⟩
  | handleRequest type payload =>
    cases h
    exact does_handleRequest type payload
  | processes limit =>
    cases h
    exact does_listProcesses limit
  | listServices =>
    cases h
    exact does_log ⟨rfl, trivial⟩ none_privileged
  | controlService name action =>
    cases h
    exact does_controlService name action
  | runPower command =>
    cases h
    exact does_privileged rfl rfl rfl
  | openChannel type extraData =>
    cases h
    exact does_openChannel type extraData
  | tooManySessions =>
    cases h
    exact does_log ⟨rfl, trivial⟩ none_privileged
  | acceptChannel =>
    cases h
    rw [acceptChannel]
    split_ifs <;> exact does_privileged rfl rfl rfl
  | releaseSession =>
    cases h
    exact ⟨.keep rfl rfl, fun _ hchannels _ => ⟨hchannels, none_privileged, fun _ he => .inl he⟩⟩
  | handleUpdate extraData =>
    cases h
    exact does_handleUpdate extraData
  | channelRequest id type payload =>
    obtain ⟨c, hc, rfl⟩ := Option.map_eq_some_iff.1 h
    obtain ⟨hcfg, hfile⟩ := channelRequest_config (E := E) (o := o) (g := g) c type payload
    refine ⟨.keep hcfg hfile, fun _ hchannels _ => ?_⟩
    -- no channel is open
    rw [State.channel, hchannels] at hc
    cases hc
  | runShell id =>
    cases h
    exact does_privileged rfl rfl rfl
  | serveSFTP id =>
    cases h
    exact does_privileged rfl rfl rfl
  | runScript id msg =>
    cases h
    exact does_privileged rfl rfl rfl
  | scriptDone id =>
    cases h
    exact does_log ⟨rfl, trivial⟩ (one_unprivileged rfl)
  | closeChannel id =>
    cases h
    rw [closeChannel]
    split
    · exact does_next none_privileged
    · refine ⟨.keep rfl rfl, fun _ hchannels _ => ⟨?_, one_unprivileged rfl, fun _ he => .inl he⟩⟩
      show g.channels.filter _ = []
      rw [hchannels]
      rfl

end steps

section runs
variable {E : Env} {cfg : Config} {file : Bytes}

theorem OnlyToken.clear {cfg' : Config} (h : OnlyToken cfg cfg') :
    OnlyToken cfg { cfg' with token := "" } := by
  rcases h with rfl | rfl <;> exact .inr rfl

def Saved (E : Env) (cfg : Config) (file : Bytes) : Prop :=
  ∃ cfg', E.load file = some cfg' ∧ OnlyToken cfg cfg'

theorem saved_marshal {cfg' : Config} (hload : E.load file = some cfg) (h : OnlyToken cfg cfg') :
    Saved E cfg (E.marshal cfg') := by
  refine ⟨cfg', ?_, h⟩
  rcases h with rfl | rfl
  · exact E.load_marshal file cfg' hload cfg'.token (.inl rfl)
  · exact E.load_marshal file cfg hload "" (.inr rfl)

structure Closed (c : Tasks.Config State Instr) : Prop where
  channels : c.global.channels = []
  tasks : ∀ t ∈ c.tasks, ∀ i ∈ t, i.privileged = false
  log : ∀ e ∈ c.global.log, Harmless e

structure Inv (E : Env) (cfg : Config) (c : Tasks.Config State Instr) : Prop where
  memory : OnlyToken cfg c.global.cfg
  file : Saved E cfg c.global.file
  closed : cfg.allowShell = false → Closed c

theorem ConfigStep.keeps {g g' : State} (hload : E.load file = some cfg) (h : ConfigStep E g g')
    (hcfg : OnlyToken cfg g.cfg) (hfile : Saved E cfg g.file) :
    OnlyToken cfg g'.cfg ∧ Saved E cfg g'.file := by
  cases h with
  | keep cfg file => rw [cfg, file]; exact ⟨hcfg, hfile⟩
  | clear cfg file => rw [cfg, file]; exact ⟨hcfg.clear, hfile⟩
  | save cfg file => rw [cfg, file]; exact ⟨hcfg, saved_marshal hload hcfg⟩

theorem OnlyToken.allowShell {cfg' : Config} (h : OnlyToken cfg cfg') :
    cfg'.allowShell = cfg.allowShell := by
  rcases h with rfl | rfl <;> rfl

theorem code_unprivileged (r : Request) : ∀ i ∈ code r, i.privileged = false := by
  cases r <;> exact one_unprivileged rfl

theorem inv_start (c : Tasks.Config State Instr) (r : Request) (h : Inv E cfg c) :
    Inv E cfg ⟨c.global, c.tasks ++ [code r]⟩ := by
  refine ⟨h.memory, h.file, fun hshell => ?_⟩
  have hclosed := h.closed hshell
  exact { hclosed with tasks := forall_start hclosed.tasks (code_unprivileged r) }

theorem inv_run (hload : E.load file = some cfg) (c : Tasks.Config State Instr) (i : ℕ)
    (ins : Instr) (rest : List Instr) (o : Oracle) (out : Outcome State Instr) (h : Inv E cfg c)
    (ht : c.tasks[i]? = some (ins :: rest)) (ho : atomic E o c.global ins = some out) :
    Inv E cfg ⟨out.global, c.tasks.set i (out.resume rest)⟩ := by
  have hdoes := atomic_does ho
  obtain ⟨hcfg, hfile⟩ := hdoes.config.keeps hload h.memory h.file
  refine ⟨hcfg, hfile, fun hshell => ?_⟩
  obtain ⟨hchannels, htasks, hlog⟩ := h.closed hshell
  have hins := htasks _ (task_mem ht) ins List.mem_cons_self
  have hoff := hdoes.off (h.memory.allowShell.trans hshell) hchannels hins
  exact ⟨hoff.channels, forall_step ht htasks (fun _ => id) hoff.code,
    fun e he => (hoff.log e he).elim (hlog e) id⟩

theorem inv_restart (c : Tasks.Config State Instr) (g : State) (h : Inv E cfg c)
    (hg : restart E c.global = some g) : Inv E cfg ⟨g, []⟩ := by
  obtain ⟨cfg', hload, rfl⟩ := Option.map_eq_some_iff.1 hg
  obtain ⟨saved, hsaved, honly⟩ := h.file
  obtain rfl : cfg' = saved := Option.some.inj (hload.symm.trans hsaved)
  exact ⟨honly, h.file, fun hshell =>
    ⟨rfl, fun _ ht => (List.not_mem_nil ht).elim, (h.closed hshell).log⟩⟩

theorem inv_initial (hload : E.load file = some cfg) : Inv E cfg ⟨initial file cfg, []⟩ where
  memory := .inl rfl
  file := ⟨cfg, hload, .inl rfl⟩
  closed _ :=
    ⟨rfl, fun _ ht => (List.not_mem_nil ht).elim, fun _ he => (List.not_mem_nil he).elim⟩

end runs

/-- Whatever a hub sends: an agent whose config does not allow it starts no shell, SFTP
server or script, signals no process, runs no power or service command and lists no command
lines; and of the config, in memory and in its file, at most the token is cleared. -/
theorem opt_in_not_bypassed (E : Env) (file : Bytes) (cfg : Config)
    (hload : E.load file = some cfg) (acts : List (Action Oracle Request))
    (c : Tasks.Config State Instr)
    (he : Runs.exec (machine E).step ⟨initial file cfg, []⟩ acts = some c) :
    (cfg.allowShell = false → ∀ e ∈ c.global.log, e.remoteControl = false ∧
      ∀ type ok list, e = .reply type ok (.processes list) →
        ∀ p ∈ list.processes, p.command = []) ∧
    (c.global.cfg = cfg ∨ c.global.cfg = { cfg with token := "" }) ∧
    ∃ saved, E.load c.global.file = some saved ∧
      (saved = cfg ∨ saved = { cfg with token := "" }) := by
  have h : Inv E cfg c :=
    (machine E).invariant inv_start (inv_run hload) inv_restart (inv_initial hload) he
  refine ⟨fun hshell e hmem => ?_, h.memory, h.file⟩
  have hharmless := (h.closed hshell).log e hmem
  refine ⟨hharmless.remoteControl, ?_⟩
  rintro type ok list rfl
  exact hharmless.commands

def sampleConfig (token : String) : Config := ⟨"https://hub", "key", token, false, false⟩

def sampleHost : Host where
  goos := .linux
  systemd := true
  lookPath := some
  pid := 100
  isLocalBroadcast _ := true
  quote s := s
  equalFold a b := a = b

def sampleEnv : Env where
  host := sampleHost
  processLimit _ := 10
  signalMsg _ := some (200, "kill")
  powerMsg _ := some "reboot"
  serviceMsg _ := some ("ssh", "stop")
  wakeMsg _ := none
  intervalMsg _ := some 5
  helloReply _ := ⟨true, "", 60⟩
  ptyRequest _ := none
  windowChange _ := none
  subsystem _ := some "sftp"
  scriptMsg _ := none
  load
    | [0] => some (sampleConfig "")
    | [1] => some (sampleConfig "secret")
    | _ => none
  marshal c := if c.token = "" then [0] else [1]
  load_marshal := by
    intro b c h t ht
    split at h <;> cases h <;> rcases ht with rfl | rfl <;> rfl

def sampleOracle : Oracle :=
  ⟨some (true, []), true, true, true, some [⟨200, 1, 1, "sshd", "root", 0, some [0x61]⟩], [], none,
    "", 0⟩

def hubTriesAll : List (Action Oracle Request) :=
  [.start .connect, .run 0 sampleOracle, .run 0 sampleOracle, .run 0 sampleOracle,
    .start (.request "signal" []), .run 1 sampleOracle, .start (.request "power" []),
    .run 2 sampleOracle, .start (.request "service" []), .run 3 sampleOracle, .run 3 sampleOracle,
    .start (.request "processes" []), .run 4 sampleOracle, .run 4 sampleOracle,
    .start (.openChannel "session" []), .run 5 sampleOracle]

theorem hub_tries_all_in_vain : ∃ c,
    Runs.exec (machine sampleEnv).step ⟨initial [1] (sampleConfig "secret"), []⟩ hubTriesAll =
      some c ∧
    c.global.log.length = 7 ∧ c.global.file = [0] ∧ (∀ e ∈ c.global.log, e.remoteControl = false) ∧
    ∃ saved, sampleEnv.load c.global.file = some saved ∧
      (saved = sampleConfig "secret" ∨ saved = { sampleConfig "secret" with token := "" }) := by
  have hfinal : (Runs.exec (machine sampleEnv).step ⟨initial [1] (sampleConfig "secret"), []⟩
      hubTriesAll).map (fun c => (c.global.log.length, c.global.file)) = some (7, [0]) := by
    decide +kernel
  obtain ⟨c, hc, hview⟩ := Option.map_eq_some_iff.1 hfinal
  rw [Prod.mk.injEq] at hview
  obtain ⟨hlog, -, hsaved⟩ :=
    opt_in_not_bypassed sampleEnv [1] (sampleConfig "secret") rfl hubTriesAll c hc
  exact ⟨c, hc, hview.1, hview.2, fun e he => (hlog rfl e he).1, hsaved⟩

end Lotse.Agent
