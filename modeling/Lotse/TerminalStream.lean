import Lotse.TerminalHub

set_option autoImplicit false

namespace Lotse.Terminal
open Utf8 (Bytes)

theorem run_inv {cols rows : ℤ} {acts : List Action} {g : System}
    (run : Runs.exec step (init cols rows) acts = some g) : Links.Inv Session.Ok Bridge.Ok g :=
  Links.exec_inv agent_keeps hub_keeps Session.init_ok (Bridge.init_ok cols rows) run

section reach
variable {g : System}

theorem read_le_taken (h : Links.Inv Session.Ok Bridge.Ok g) :
    g.right.read <+: g.left.taken := by
  have hread : g.right.read <+: upBytes g.gotUp := h.right.buffered ▸ List.prefix_append _ _
  exact (hread.trans (upBytes_mono h.up.done_le)).trans h.left.forwarded.done_le

theorem taken_le_printed (h : Links.Inv Session.Ok Bridge.Ok g) : g.left.taken <+: g.printed := by
  rw [System.printed, ← h.left.printed, List.append_assoc]
  exact List.prefix_append _ _

/-- An exit status that has reached the hub is what `shell.run` returns, and came after all
output. -/
theorem exitStatus_arrived (h : Links.Inv Session.Ok Bridge.Ok g) {n : ℕ}
    (hn : UpMsg.exitStatus n ∈ g.gotUp) : n = g.left.proc.runStatus ∧
      (∃ code waitError, g.left.proc = .exited code waitError) ∧
      upBytes g.gotUp = g.left.taken ∧ g.printed = g.left.taken ++ g.abandoned := by
  obtain ⟨pre, post, hsplit⟩ := List.append_of_mem hn
  have hsent : pre ++ [.exitStatus n] <+: g.sentUp := by
    refine List.IsPrefix.trans ?_ h.up.done_le
    rw [hsplit]
    exact ⟨post, by simp⟩
  obtain ⟨hpc, hpre, hstatus⟩ := h.left.exit pre n hsent
  have hjoined := RunPc.joined_of_exitSent hpc
  have hwaited : g.left.run.waited = true := by
    cases hrun : g.left.run <;> simp_all [RunPc.exitSent, RunPc.waited]
  have hall : upBytes g.gotUp = g.left.taken := by
    have hle := (upBytes_mono h.up.done_le).trans h.left.forwarded.done_le
    have hge : g.left.taken <+: upBytes g.gotUp := by
      rw [← hpre, hsplit, upBytes_append]
      exact List.prefix_append _ _
    exact hle.eq_of_length_le hge.length_le
  refine ⟨hstatus, h.left.waited hwaited, hall, ?_⟩
  have hprinted := h.left.printed
  rw [h.left.shut (h.left.joined hjoined).2, List.append_nil] at hprinted
  exact hprinted.symm

end reach

/-- In every run of a terminal, also with a link that is lost: the browser gets a message
that the terminal is ready, then output, then at most one exit message; the output is a
beginning of what the shell has written; and with an exit status, which is what `shell.run`
returns for the shell, it is all of it but for what the agent left in the terminal when it
closed it. -/
theorem terminal_output {cols rows : ℤ} {acts : List Action} {g : System}
    (run : Runs.exec step (init cols rows) acts = some g) :
    Script g.inbox ∧ g.shown <+: g.printed ∧
      ∀ n, .exit (some n) ∈ g.inbox → n = g.left.proc.runStatus ∧
        (∃ code waitError, g.left.proc = .exited code waitError) ∧
        g.printed = g.shown ++ g.abandoned := by
  have h := run_inv run
  refine ⟨h.right.script, ?_, fun n hn => ?_⟩
  · have hshown : g.shown <+: g.right.read := h.right.shown.done_le
    exact (hshown.trans (read_le_taken h)).trans (taken_le_printed h)
  · obtain ⟨-, hshown, hbuf, -, hstatus⟩ := h.right.exit (some n) hn
    obtain ⟨hn, hexited, hall, hprinted⟩ := exitStatus_arrived h (hstatus n rfl)
    have hread : g.right.read = g.left.taken := by
      have := h.right.buffered
      rwa [hbuf, List.append_nil, hall] at this
    refine ⟨hn, hexited, ?_⟩
    rw [hprinted, ← hread, ← hshown]
    rfl

def shortSession : List Action :=
  [.right (.handler false true), .toLeft, .left (.serve true), .toRight,
   .right (.handler false true), .right (.handler false true), .toLeft, .left (.serve true), .toRight,
   .right (.handler false true), .right (.handler false true), .right (.handler false true),
   .right (.browser (some (.binary [108, 115]))), .right (.input 9), .toLeft,
   .left (.copyIn 9), .left (.copyIn 9),
   .left (.print [104, 105]), .left (.copyOut 9), .left (.copyOut 9),
   .left (.exit (some 3) false), .left .hangUp, .left (.copyOut 9),
   .left (.run false), .left (.run false), .left (.run false), .left (.run false),
   .left (.run false), .left (.run false), .toRight, .toRight, .toRight,
   .right (.output 9 true), .right (.output 9 true), .right (.output 9 true), .right .exitStatus,
   .right (.handler false true), .right (.handler false true), .right (.handler false true),
   .toLeft, .left (.serve true), .left (.serve true), .left (.serve true),
   .right (.handler false true), .right (.handler false true), .right (.handler false true),
   .right (.handler false true)]

theorem shortSession_view : (Runs.exec step (init 80 24) shortSession).map (fun g =>
    (g.inbox, g.keys, g.right.log, g.right.pc)) =
    some ([.ready, .binary [104, 105], .exit (some 3)], [108, 115],
      [.opened, .closed 2 2 (some 3)], .done) := by
  decide +kernel

theorem terminal_output_hi : ∃ g, Runs.exec step (init 80 24) shortSession = some g ∧
    .exit (some 3) ∈ g.inbox ∧ g.shown <+: g.printed ∧ g.printed = g.shown ++ g.abandoned := by
  obtain ⟨g, hg, hview⟩ := Option.map_eq_some_iff.1 shortSession_view
  have hinbox : g.inbox = [.ready, .binary [104, 105], .exit (some 3)] := congrArg Prod.fst hview
  have hexit : .exit (some 3) ∈ g.inbox := by simp [hinbox]
  obtain ⟨-, hle, hall⟩ := terminal_output hg
  exact ⟨g, hg, hexit, hle, (hall 3 hexit).2.2⟩

/-- What is typed into the terminal is a beginning of the keystrokes of the browser, and
the terminal always has between 1 and 1000 columns and rows. -/
theorem terminal_input {cols rows : ℤ} {acts : List Action} {g : System}
    (run : Runs.exec step (init cols rows) acts = some g) :
    g.keys <+: g.typed ∧ InRange g.left.size := by
  have h := run_inv run
  have hfed : g.left.fed <+: downBytes g.gotDown := h.left.fed ▸ List.prefix_append _ _
  have hsent := (hfed.trans (downBytes_mono h.down.done_le)).trans h.right.keys.done_le
  exact ⟨h.left.keys.done_le.trans hsent, h.left.size⟩

theorem terminal_input_ls : ∃ g, Runs.exec step (init 80 24) shortSession = some g ∧
    g.keys = [108, 115] ∧ g.keys <+: g.typed := by
  obtain ⟨g, hg, hview⟩ := Option.map_eq_some_iff.1 shortSession_view
  have hkeys : g.keys = [108, 115] := congrArg (fun v => v.2.1) hview
  exact ⟨g, hg, hkeys, (terminal_input hg).1⟩

/-- The end of the terminal is to be logged, with no more bytes than were read by then. -/
def Bridge.LoggedEnd (b : Bridge) : Prop := ∃ typed printed,
  b.entries = [.opened, .closed typed printed b.status] ∧ typed ≤ b.keys.length ∧
    printed ≤ b.read.length

/-- The entries that the handler has asked for when it is at `pc`. -/
def HandlerPc.Logged (b : Bridge) : HandlerPc → Prop
  | ptyReq | awaitPty | shellReq | awaitShell | fail _ | opened => b.entries = []
  | ready | running | awaitExit | writeExit | audit => b.entries = [.opened]
  | goodbye => b.LoggedEnd
  | closeChannel | closeSocket | done => b.entries = [] ∨ b.LoggedEnd

structure Bridge.Accounted (b : Bridge) : Prop where
  typed : b.typed = b.keys.length
  printed : b.printed = b.read.length
  log : b.pc.Logged b
  released : b.pc = .closeSocket ∨ b.pc = .done → b.sentClose = true
  closed : b.pc = .done → b.broken = true

namespace Bridge
variable {b b' : Bridge} {out : List DownMsg}

theorem ws_entries (b : Bridge) (m : TermMsg) (ok : Bool) : (b.ws m ok).entries = b.entries := by
  unfold ws
  split_ifs <;> rfl

theorem entries_concat (b : Bridge) (pc : HandlerPc) (e : AuditEntry) (ok : Bool) :
    ({ b with audits := b.audits ++ [(e, ok)], pc := pc } : Bridge).entries = b.entries ++ [e] :=
  List.map_append

theorem ws_accounted (h : b.Accounted) (m : TermMsg) (ok : Bool) :
    (b.ws m ok).typed = (b.ws m ok).keys.length ∧ (b.ws m ok).printed = (b.ws m ok).read.length := by
  rcases ws_cases b m ok with ⟨-, hws⟩ | hws <;> rw [hws] <;> exact ⟨h.typed, h.printed⟩

theorem answered_accounted {next : HandlerPc} {message : String} (h : b.Accounted)
    (hlog : b.entries = []) (hnext : next = .shellReq ∨ next = .opened)
    (hs : b.answered next message = some (b', out)) : b'.Accounted := by
  unfold answered at hs
  split at hs
  · rename_i ok replies hreplies
    cases hs
    cases ok with
    | true =>
      rcases hnext with rfl | rfl <;>
        exact ⟨h.typed, h.printed, hlog, by simp, by simp⟩
    | false => exact ⟨h.typed, h.printed, hlog, by simp, by simp⟩
  · split_ifs at hs
    cases hs
    exact ⟨h.typed, h.printed, hlog, by simp, by simp⟩

theorem handler_accounted {other ok : Bool} (h : b.Accounted)
    (hs : b.handlerStep other ok = some (b', out)) : b'.Accounted := by
  have hlog := h.log
  cases hpc : b.pc with
  | ptyReq | shellReq =>
    simp only [handlerStep, hpc, ask] at hs
    rw [hpc] at hlog
    split_ifs at hs <;> cases hs <;> exact ⟨h.typed, h.printed, hlog, by simp, by simp⟩
  | awaitPty | awaitShell =>
    simp only [handlerStep, hpc] at hs
    rw [hpc] at hlog
    exact answered_accounted h hlog (by simp) hs
  | fail message =>
    simp only [handlerStep, hpc] at hs
    rw [hpc] at hlog
    cases hs
    obtain ⟨htyped, hprinted⟩ := ws_accounted h (.error "failed" message) ok
    exact ⟨htyped, hprinted, .inl ((ws_entries b _ ok).trans hlog), by simp, by simp⟩
  | opened =>
    simp only [handlerStep, hpc] at hs
    rw [hpc] at hlog
    cases hs
    exact ⟨h.typed, h.printed, (entries_concat ..).trans (congrArg (· ++ _) hlog), by simp, by simp⟩
  | ready =>
    simp only [handlerStep, hpc] at hs
    rw [hpc] at hlog
    cases hs
    obtain ⟨htyped, hprinted⟩ := ws_accounted h .ready ok
    exact ⟨htyped, hprinted, (ws_entries b .ready ok).trans hlog, by simp, by simp⟩
  | running =>
    simp only [handlerStep, hpc] at hs
    rw [hpc] at hlog
    split_ifs at hs <;> cases hs <;> exact ⟨h.typed, h.printed, hlog, by simp, by simp⟩
  | awaitExit =>
    simp only [handlerStep, hpc] at hs
    rw [hpc] at hlog
    split_ifs at hs
    · cases hs
      exact ⟨h.typed, h.printed, hlog, by simp, by simp⟩
    · obtain ⟨n, -, heq⟩ := Option.map_eq_some_iff.1 hs
      cases heq
      exact ⟨h.typed, h.printed, hlog, by simp, by simp⟩
  | writeExit =>
    simp only [handlerStep, hpc] at hs
    rw [hpc] at hlog
    cases hs
    obtain ⟨htyped, hprinted⟩ := ws_accounted h (.exit b.status) ok
    exact ⟨htyped, hprinted, (ws_entries b (.exit b.status) ok).trans hlog, by simp, by simp⟩
  | audit =>
    simp only [handlerStep, hpc] at hs
    rw [hpc] at hlog
    cases hs
    refine ⟨h.typed, h.printed, ⟨b.typed, b.printed, ?_, h.typed.le, h.printed.le⟩, by simp, by simp⟩
    exact (entries_concat ..).trans (congrArg (· ++ _) hlog)
  | goodbye =>
    simp only [handlerStep, hpc] at hs
    rw [hpc] at hlog
    cases hs
    exact ⟨h.typed, h.printed, .inr hlog, by simp, by simp⟩
  | closeChannel =>
    simp only [handlerStep, hpc] at hs
    rw [hpc] at hlog
    cases hs
    exact ⟨h.typed, h.printed, hlog, by simp, by simp⟩
  | closeSocket =>
    simp only [handlerStep, hpc] at hs
    rw [hpc] at hlog
    cases hs
    exact ⟨h.typed, h.printed, hlog, fun _ => h.released (.inl hpc), fun _ => rfl⟩
  | done => simp [handlerStep, hpc] at hs

theorem Accounted.same {c : Bridge} (h : b.Accounted) (hpc : c.pc = b.pc) (hlog : c.entries = b.entries)
    (hstatus : c.status = b.status) (htyped : c.typed = c.keys.length)
    (hprinted : c.printed = c.read.length) (hkeys : b.keys <+: c.keys) (hread : b.read <+: c.read)
    (hsent : b.sentClose = true → c.sentClose = true)
    (hbroken : b.broken = true → c.broken = true) : c.Accounted := by
  have hend : b.LoggedEnd → c.LoggedEnd := by
    rintro ⟨typed, printed, hl, ht, hp⟩
    exact ⟨typed, printed, by rw [hlog, hstatus, hl], ht.trans hkeys.length_le,
      hp.trans hread.length_le⟩
  refine ⟨htyped, hprinted, ?_, fun hd => hsent (h.released (hpc ▸ hd)),
    fun hd => hbroken (h.closed (hpc ▸ hd))⟩
  have hold := h.log
  rw [hpc]
  cases hb : b.pc <;> rw [hb] at hold <;> simp only [HandlerPc.Logged, hlog] at hold ⊢
  case goodbye => exact hend hold
  case closeChannel | closeSocket | done => exact hold.imp_right hend
  all_goals exact hold

theorem output_accounted {n : ℕ} {ok : Bool} (h : b.Accounted)
    (hs : b.outputStep n ok = some (b', out)) : b'.Accounted := by
  unfold outputStep at hs
  split at hs
  · split_ifs at hs
    · cases hs
      refine h.same rfl rfl rfl h.typed ?_ List.prefix_rfl (List.prefix_append _ _) id id
      rw [h.printed, List.length_append]
    · cases hs
      exact h.same rfl rfl rfl h.typed h.printed List.prefix_rfl List.prefix_rfl id id
  · rename_i chunk hwrite
    cases hs
    rcases ws_cases b (.binary chunk) ok with ⟨-, hws⟩ | hws
    · rw [hws]
      exact h.same rfl rfl rfl h.typed h.printed List.prefix_rfl List.prefix_rfl id id
    · rw [hws]
      exact h.same rfl rfl rfl h.typed h.printed List.prefix_rfl List.prefix_rfl id fun _ => rfl
  · cases hs

theorem browser_accounted {m : Option BrowserMsg} (h : b.Accounted)
    (hs : b.browserStep m = some (b', out)) : b'.Accounted := by
  have hsame : ∀ input canceled, ({ b with input, canceled } : Bridge).Accounted := fun _ _ =>
    h.same rfl rfl rfl h.typed h.printed List.prefix_rfl List.prefix_rfl id id
  unfold browserStep at hs
  split at hs
  · cases hs
  · split at hs
    · cases hs
      exact hsame _ _
    · split at hs
      · cases hs
      · split at hs
        · cases hs
          refine h.same rfl rfl rfl ?_ h.printed (List.prefix_append _ _) List.prefix_rfl id id
          rw [h.typed, List.length_append]
        · cases hs
          exact h
        · cases hs
          exact h

theorem step_accounted {a : Act} (h : b.Accounted) (hs : b.step a = some (b', out)) :
    b'.Accounted := by
  cases a with
  | handler other ok => exact handler_accounted h hs
  | output n ok => exact output_accounted h hs
  | browser m => exact browser_accounted h hs
  | input n =>
    simp only [step, inputStep] at hs
    split at hs
    · split_ifs at hs <;> cases hs <;>
        exact h.same rfl rfl rfl h.typed h.printed List.prefix_rfl List.prefix_rfl id id
    · cases hs
  | exitStatus =>
    simp only [step] at hs
    split at hs
    · cases hs
      exact h.same rfl rfl rfl h.typed h.printed List.prefix_rfl List.prefix_rfl id id
    · cases hs
  | cancel =>
    cases hs
    exact h.same rfl rfl rfl h.typed h.printed List.prefix_rfl List.prefix_rfl id id

theorem receive_accounted {m : UpMsg} (h : b.Accounted) (hs : b.receive m = some (b', out)) :
    b'.Accounted := by
  unfold receive at hs
  split_ifs at hs
  cases m with
  | close =>
    cases hs
    exact h.same rfl rfl rfl h.typed h.printed List.prefix_rfl List.prefix_rfl (fun _ => rfl) id
  | data | reply | exitStatus =>
    cases hs
    exact h.same rfl rfl rfl h.typed h.printed List.prefix_rfl List.prefix_rfl id id

end Bridge

theorem hub_accounted : hub.Keeps fun b _ _ => b.Accounted where
  step h hs := Bridge.step_accounted h hs
  receive h hs := Bridge.receive_accounted h hs
  lost h := h.same rfl rfl rfl h.typed h.printed List.prefix_rfl List.prefix_rfl id id

theorem run_accounted {cols rows : ℤ} {acts : List Action} {g : System}
    (run : Runs.exec step (init cols rows) acts = some g) : g.right.Accounted := by
  have hinit : (Bridge.init cols rows).Accounted := ⟨rfl, rfl, rfl, by simp [Bridge.init], nofun⟩
  exact (Links.exec_inv agent_keeps hub_accounted Session.init_ok hinit run).right

theorem Bridge.log_sublist (b : Bridge) : b.log.Sublist b.entries := List.filter_sublist.map _

theorem Bridge.log_eq (b : Bridge) (h : ∀ a ∈ b.audits, a.2 = true) : b.log = b.entries := by
  rw [Bridge.log, List.filter_eq_self.2 h, Bridge.entries]

/-- Every terminal is cleaned up and, as far as the activity log can be written, logged. The
entries are the opening and then at most one end, which has been asked for once the handler
has returned, with no more bytes than were typed and printed and with what `shell.run`
returns, if that has arrived. The handler does not return with the channel or the WebSocket
open, and the agent does not stop serving the channel with the terminal open or a shell that
it neither waited for nor killed. -/
theorem terminal_accounted {cols rows : ℤ} {acts : List Action} {g : System}
    (run : Runs.exec step (init cols rows) acts = some g) :
    (g.right.entries = [] ∨ g.right.entries = [.opened] ∨ ∃ typed printed status,
      g.right.entries = [.opened, .closed typed printed status] ∧ typed ≤ g.typed.length ∧
        printed ≤ g.printed.length ∧ ∀ n ∈ status, n = g.left.proc.runStatus) ∧
    g.right.log.Sublist g.right.entries ∧
    ((∀ a ∈ g.right.audits, a.2 = true) → g.right.log = g.right.entries) ∧
    (g.right.pc = .done → g.right.entries ≠ [.opened] ∧ g.right.sentClose = true ∧
      g.right.broken = true) ∧
    (g.left.serve = .done → g.left.ptyOpen = false ∧ (g.left.run = .wait → g.left.killed = true)) := by
  have h := run_inv run
  have ha := run_accounted run
  have hlog := ha.log
  have hend : g.right.LoggedEnd → ∃ typed printed status,
      g.right.entries = [.opened, .closed typed printed status] ∧ typed ≤ g.typed.length ∧
        printed ≤ g.printed.length ∧ ∀ n ∈ status, n = g.left.proc.runStatus := by
    rintro ⟨typed, printed, hl, ht, hp⟩
    have hread := ((read_le_taken h).trans (taken_le_printed h)).length_le
    refine ⟨typed, printed, g.right.status, hl, ht, hp.trans hread, fun n hn => ?_⟩
    exact (exitStatus_arrived h (h.right.statuses n (.inr (.inr hn)))).1
  refine ⟨?_, g.right.log_sublist, g.right.log_eq,
    fun hdone => ⟨?_, ha.released (.inr hdone), ha.closed hdone⟩, fun hserve => ?_⟩
  · cases hpc : g.right.pc <;> rw [hpc] at hlog <;> simp only [HandlerPc.Logged] at hlog
    case goodbye => exact .inr (.inr (hend hlog))
    case closeChannel | closeSocket | done => exact hlog.imp_right fun hl => .inr (hend hl)
    case ready | running | awaitExit | writeExit | audit => exact .inr (.inl hlog)
    all_goals exact .inl hlog
  · rw [hdone] at hlog
    rcases hlog with hl | ⟨typed, printed, hl, -⟩ <;> rw [hl] <;> simp
  · exact h.left.ended (by rw [hserve]; rfl)

theorem terminal_accounted_hi : ∃ g, Runs.exec step (init 80 24) shortSession = some g ∧
    g.right.pc = .done ∧ g.right.log = [.opened, .closed 2 2 (some 3)] ∧
    g.right.log.Sublist g.right.entries ∧ g.right.sentClose = true ∧ g.right.broken = true := by
  obtain ⟨g, hg, hview⟩ := Option.map_eq_some_iff.1 shortSession_view
  have hlog : g.right.log = [.opened, .closed 2 2 (some 3)] := congrArg (fun v => v.2.2.1) hview
  have hpc : g.right.pc = .done := congrArg (fun v => v.2.2.2) hview
  obtain ⟨-, hwritten, -, hdone, -⟩ := terminal_accounted hg
  exact ⟨g, hg, hpc, hlog, hwritten, (hdone hpc).2⟩

end Lotse.Terminal
