import Lotse.TerminalAgent

set_option autoImplicit false

namespace Lotse.Terminal
open Utf8 (Bytes)
open Links (Passes)

namespace HandlerPc

def early : HandlerPc → Bool
  | ptyReq | awaitPty | shellReq | awaitShell | fail _ | opened | ready => true
  | _ => false

def live : HandlerPc → Bool
  | running | awaitExit | writeExit => true
  | _ => false

def exiting : HandlerPc → Bool
  | awaitExit | writeExit => true
  | _ => false

end HandlerPc

/-- The browser has been told that the terminal is ready, and has nothing but output since. -/
def Talking (inbox : List TermMsg) : Prop := ∃ data : List Bytes, inbox = .ready :: data.map .binary

inductive Script : List TermMsg → Prop where
  | silent : Script []
  | failed (message : String) : Script [.error "failed" message]
  | talking (data : List Bytes) : Script (.ready :: data.map .binary)
  | ended (data : List Bytes) (status : Option ℕ) :
      Script (.ready :: data.map .binary ++ [.exit status])

/-- What holds of the hub's side, with all it has sent and received. -/
structure Bridge.Ok (b : Bridge) (sent : List DownMsg) (got : List UpMsg) : Prop where
  buffered : b.read ++ b.buf = upBytes got
  shown : Passes (b.output ≠ .done ∨ b.broken = false) b.read (shownBytes b.inbox) b.output.pending
  drained : b.output = .done → b.broken = true ∨ b.buf = [] ∧ b.closed = true
  statuses : ∀ n, n ∈ b.reqs ∨ b.exit = some n ∨ b.status = some n → .exitStatus n ∈ got
  keys : Passes (b.input ≠ .done) b.keys (downBytes sent) b.input.pending
  early : b.pc.early = true → b.inbox = [] ∧ b.output = .idle ∧ b.input = .idle ∧ b.status = none
  exiting : b.pc.exiting = true → b.output = .done
  talking : b.pc.live = true ∨ b.output.active = true →
    b.inbox = [] ∧ b.broken = true ∨ Talking b.inbox
  script : Script b.inbox
  exit : ∀ status, .exit status ∈ b.inbox → b.output = .done ∧ shownBytes b.inbox = b.read ∧
    b.buf = [] ∧ b.closed = true ∧ ∀ n ∈ status, .exitStatus n ∈ got

namespace Bridge
variable {b b' : Bridge} {sent out : List DownMsg} {got : List UpMsg}

theorem init_ok (cols rows : ℤ) : (init cols rows).Ok [] [] where
  buffered := rfl
  shown := .nil
  drained := nofun
  statuses n h := by simp [init] at h
  keys := .nil
  early _ := ⟨rfl, rfl, rfl, rfl⟩
  exiting := nofun
  talking h := by simp [init, HandlerPc.live, Copy.active] at h
  script := .silent
  exit status h := by simp [init] at h

theorem downBytes_emit {m : DownMsg} (h : m.bytes = []) : downBytes (b.emit m) = [] := by
  unfold emit
  split_ifs <;> simp [h]

theorem Ok.keys_emit (h : b.Ok sent got) {m : DownMsg} (hm : m.bytes = []) :
    Passes (b.input ≠ .done) b.keys (downBytes (sent ++ b.emit m)) b.input.pending := by
  rw [downBytes_append, downBytes_emit hm, List.append_nil]
  exact h.keys

theorem ws_cases (b : Bridge) (m : TermMsg) (ok : Bool) :
    b.broken = false ∧ b.ws m ok = { b with inbox := b.inbox ++ [m] } ∨
      b.ws m ok = { b with broken := true } := by
  unfold ws
  split_ifs with h
  · exact .inl ⟨h.1, rfl⟩
  · exact .inr rfl

theorem Ok.setBroken (h : b.Ok sent got) : ({ b with broken := true } : Bridge).Ok sent got := by
  refine { h with
    shown := h.shown.mono ?_
    drained := fun _ => .inl rfl
    talking := fun ht => (h.talking ht).imp_left fun hs => ⟨hs.1, rfl⟩ }
  rintro (hne | hb)
  · exact .inl hne
  · cases hb

theorem Ok.goto (h : b.Ok sent got) {pc : HandlerPc} (hearly : pc.early = true → b.pc.early = true)
    (hexiting : pc.exiting = true → b.output = .done)
    (hlive : pc.live = true → b.pc.live = true) : ({ b with pc := pc } : Bridge).Ok sent got :=
  { h with
    early := fun he => h.early (hearly he)
    exiting := hexiting
    talking := fun ht => h.talking (ht.imp_left hlive) }

theorem Ok.ask (h : b.Ok sent got) (r : Request) (next : HandlerPc) (message : String)
    (hpc : b.pc.early = true) (hlive : next.live = false) (hexiting : next.exiting = false) :
    (b.ask r next message).1.Ok (sent ++ (b.ask r next message).2) got := by
  unfold Bridge.ask
  split_ifs
  · have hmove : ({ b with pc := next } : Bridge).Ok sent got :=
      h.goto (fun _ => hpc) (fun he => by simp [hexiting] at he) (fun hl => by simp [hlive] at hl)
    exact { hmove with keys := by simpa [DownMsg.bytes] using hmove.keys }
  · rw [List.append_nil]
    exact h.goto (fun _ => hpc) (fun he => absurd he Bool.false_ne_true)
      (fun hl => absurd hl Bool.false_ne_true)

theorem Ok.answered (h : b.Ok sent got) {next : HandlerPc} {message : String}
    (hpc : b.pc.early = true) (hlive : next.live = false) (hexiting : next.exiting = false)
    (hs : b.answered next message = some (b', out)) : b'.Ok (sent ++ out) got := by
  have hgoto : ∀ pc : HandlerPc, pc.live = false → pc.exiting = false →
      ({ b with pc := pc } : Bridge).Ok sent got := fun pc hl he =>
    h.goto (fun _ => hpc) (fun hx => by simp [he] at hx) (fun hx => by simp [hl] at hx)
  unfold Bridge.answered at hs
  split at hs
  · rename_i ok replies hreplies
    cases hs
    rw [List.append_nil]
    have hmove := hgoto (if ok then next else .fail message)
    cases ok with
    | true => exact { hmove hlive hexiting with }
    | false => exact { hmove rfl rfl with }
  · split_ifs at hs
    cases hs
    rw [List.append_nil]
    exact hgoto _ rfl rfl

theorem writeExit_ok (h : b.Ok sent got) (ok : Bool) (hpc : b.pc = .writeExit) :
    ({ b.ws (.exit b.status) ok with pc := .audit, exited := true } : Bridge).Ok sent got := by
  have hdone : b.output = .done := h.exiting (by simp [hpc, HandlerPc.exiting])
  rcases ws_cases b (.exit b.status) ok with ⟨hb, hws⟩ | hws
  · have hopen : ¬ b.broken = true := by simp [hb]
    obtain ⟨data, hinbox⟩ := (h.talking (.inl (by simp [hpc, HandlerPc.live]))).resolve_left
      fun hs => hopen hs.2
    obtain ⟨hbuf, hclosed⟩ := (h.drained hdone).resolve_left hopen
    have hshown := h.shown
    rw [hdone] at hshown
    have hall : shownBytes b.inbox = b.read := hshown.done_eq (.inr hb)
    rw [hws]
    refine { h with
      shown := ?_
      early := nofun
      exiting := nofun
      talking := fun ht => by simp [HandlerPc.live, Copy.active, hdone] at ht
      script := ?_
      exit := fun status hstatus => ?_ }
    · simpa [TermMsg.bytes] using h.shown
    · rw [hinbox]
      exact .ended data b.status
    · have heq : status = b.status := by simpa [hinbox] using hstatus
      subst heq
      refine ⟨hdone, by simpa [TermMsg.bytes] using hall, hbuf, hclosed, fun n hn => ?_⟩
      exact h.statuses n (.inr (.inr hn))
  · rw [hws]
    exact { h.setBroken with
      early := nofun
      exiting := nofun
      talking := fun ht => by simp [HandlerPc.live, Copy.active, hdone] at ht }

theorem ready_ok (h : b.Ok sent got) (ok : Bool) (hpc : b.pc = .ready) :
    ({ b.ws .ready ok with pc := .running, output := .read, input := .read } : Bridge).Ok
      sent got := by
  obtain ⟨hinbox, houtput, hinput, -⟩ := h.early (by simp [hpc, HandlerPc.early])
  have hshown := h.shown
  have hkeys := h.keys
  rw [houtput] at hshown
  rw [hinput] at hkeys
  rcases ws_cases b .ready ok with ⟨-, hws⟩ | hws
  · rw [hws]
    have hready : b.inbox ++ [.ready] = [.ready] := by rw [hinbox, List.nil_append]
    refine { h with
      shown := ?_
      drained := nofun
      keys := hkeys.mono fun _ => by simp
      early := nofun
      exiting := nofun
      talking := fun _ => .inr ⟨[], hready⟩
      script := ?_
      exit := fun status hstatus => by simp [hinbox] at hstatus }
    · have hread : Passes (Copy.read ≠ .done ∨ b.broken = false) b.read (shownBytes b.inbox)
          (Copy.pending .read) := hshown.mono fun _ => .inl (by simp)
      simpa [TermMsg.bytes] using hread
    · change Script (b.inbox ++ [.ready])
      rw [hready]
      exact .talking []
  · rw [hws]
    exact { h.setBroken with
      shown := hshown.mono fun _ => .inl (by simp)
      drained := nofun
      keys := hkeys.mono fun _ => by simp
      early := nofun
      exiting := nofun
      talking := fun _ => .inl ⟨hinbox, rfl⟩
      exit := fun status hstatus => by simp [hinbox] at hstatus }

theorem fail_ok (h : b.Ok sent got) {message : String} (ok : Bool) (hpc : b.pc = .fail message) :
    ({ b.ws (.error "failed" message) ok with broken := true, pc := .closeChannel } : Bridge).Ok
      sent got := by
  obtain ⟨hinbox, houtput, hinput, -⟩ := h.early (by simp [hpc, HandlerPc.early])
  have hb := h.setBroken
  have hquiet : ¬ (HandlerPc.closeChannel.live = true ∨ b.output.active = true) := by
    simp [HandlerPc.live, Copy.active, houtput]
  rcases ws_cases b (.error "failed" message) ok with ⟨-, hws⟩ | hws
  · rw [hws]
    refine { hb with
      shown := by simpa [TermMsg.bytes] using hb.shown
      early := nofun
      exiting := nofun
      talking := fun ht => absurd ht hquiet
      script := ?_
      exit := fun status hstatus => by simp [hinbox] at hstatus }
    change Script (b.inbox ++ [_])
    rw [hinbox]
    exact .failed message
  · rw [hws]
    exact { hb with
      early := nofun
      exiting := nofun
      talking := fun ht => absurd ht hquiet }

theorem awaitExit_ok (h : b.Ok sent got) {other : Bool} (hpc : b.pc = .awaitExit)
    (hs : (if other then some ({ b with pc := .writeExit }, [])
      else b.exit.map fun n => ({ b with pc := .writeExit, status := some n, exit := none }, [])) =
        some (b', out)) : b'.Ok (sent ++ out) got := by
  have hdone : b.output = .done := h.exiting (by simp [hpc, HandlerPc.exiting])
  have hmove : ({ b with pc := .writeExit } : Bridge).Ok sent got :=
    h.goto nofun (fun _ => hdone) (fun _ => by simp [hpc, HandlerPc.live])
  split_ifs at hs with hother
  · cases hs
    rw [List.append_nil]
    exact hmove
  · obtain ⟨n, hn, heq⟩ := Option.map_eq_some_iff.1 hs
    cases heq
    rw [List.append_nil]
    refine { hmove with
      statuses := fun k hk => ?_
      early := nofun }
    rcases hk with hk | hk | hk
    · exact h.statuses k (.inl hk)
    · cases hk
    · cases hk
      exact h.statuses _ (.inr (.inl hn))

theorem handler_ok {other ok : Bool} (h : b.Ok sent got)
    (hs : b.handlerStep other ok = some (b', out)) : b'.Ok (sent ++ out) got := by
  cases hpc : b.pc with
  | ptyReq =>
    simp only [handlerStep, hpc] at hs
    have hnew := h.ask (.ptyReq (clampDim b.cols 80) (clampDim b.rows 24)) .awaitPty noTerminal
      (by simp [hpc, HandlerPc.early]) rfl rfl
    rwa [Option.some.inj hs] at hnew
  | awaitPty =>
    simp only [handlerStep, hpc] at hs
    exact h.answered (by simp [hpc, HandlerPc.early]) rfl rfl hs
  | shellReq =>
    simp only [handlerStep, hpc] at hs
    have hnew := h.ask .shell .awaitShell noShell (by simp [hpc, HandlerPc.early]) rfl rfl
    rwa [Option.some.inj hs] at hnew
  | awaitShell =>
    simp only [handlerStep, hpc] at hs
    exact h.answered (by simp [hpc, HandlerPc.early]) rfl rfl hs
  | fail message =>
    simp only [handlerStep, hpc] at hs
    cases hs
    simpa using fail_ok h ok hpc
  | opened =>
    simp only [handlerStep, hpc] at hs
    cases hs
    rw [List.append_nil]
    have hmove : ({ b with pc := .ready } : Bridge).Ok sent got :=
      h.goto (fun _ => by simp [hpc, HandlerPc.early]) nofun nofun
    exact { hmove with }
  | ready =>
    simp only [handlerStep, hpc] at hs
    cases hs
    simpa using ready_ok h ok hpc
  | running =>
    simp only [handlerStep, hpc] at hs
    split_ifs at hs with hother hcancel hdone
    · cases hs
      rw [List.append_nil]
      exact h.goto nofun nofun nofun
    · cases hs
      rw [List.append_nil]
      exact h.goto nofun (fun _ => hdone) (fun _ => by simp [hpc, HandlerPc.live])
  | awaitExit =>
    simp only [handlerStep, hpc] at hs
    exact awaitExit_ok h hpc hs
  | writeExit =>
    simp only [handlerStep, hpc] at hs
    cases hs
    simpa using writeExit_ok h ok hpc
  | audit =>
    simp only [handlerStep, hpc] at hs
    cases hs
    rw [List.append_nil]
    have hmove : ({ b with pc := .goodbye } : Bridge).Ok sent got := h.goto nofun nofun nofun
    exact { hmove with }
  | goodbye =>
    simp only [handlerStep, hpc] at hs
    cases hs
    rw [List.append_nil]
    have hmove : ({ b with pc := .closeChannel } : Bridge).Ok sent got := h.goto nofun nofun nofun
    cases hexited : b.exited with
    | true =>
      rw [Bool.or_true]
      exact { hmove.setBroken with }
    | false =>
      rw [Bool.or_false]
      exact { hmove with }
  | closeChannel =>
    simp only [handlerStep, hpc] at hs
    cases hs
    have hmove : ({ b with pc := .closeSocket } : Bridge).Ok sent got := h.goto nofun nofun nofun
    exact { hmove with keys := h.keys_emit rfl }
  | closeSocket =>
    simp only [handlerStep, hpc] at hs
    cases hs
    rw [List.append_nil]
    have hmove : ({ b with pc := .done } : Bridge).Ok sent got := h.goto nofun nofun nofun
    exact { hmove.setBroken with }
  | done => simp [handlerStep, hpc] at hs

theorem output_ok {n : ℕ} {ok : Bool} (h : b.Ok sent got)
    (hs : b.outputStep n ok = some (b', out)) : b'.Ok (sent ++ out) got := by
  have hlate : b.output.active = true → ¬ b.pc.early = true := fun ha he => by
    simp [(h.early he).2.1, Copy.active] at ha
  have hgoing : b.output.active = true → ¬ b.pc.exiting = true := fun ha he => by
    simp [h.exiting he, Copy.active] at ha
  have hnoExit : b.output.active = true → ∀ status, .exit status ∉ b.inbox := fun ha status he => by
    simp [(h.exit status he).1, Copy.active] at ha
  have hshown := h.shown
  unfold outputStep at hs
  split at hs
  · rename_i hread
    have hactive : b.output.active = true := by simp [hread, Copy.active]
    rw [hread] at hshown
    split_ifs at hs with hbuf hclosed
    · cases hs
      rw [List.append_nil]
      refine { h with
        buffered := ?_
        shown := hshown.push (.inl (by simp)) _
        drained := fun hd => by cases hd
        early := fun he => absurd he (hlate hactive)
        exiting := fun he => absurd he (hgoing hactive)
        talking := fun _ => h.talking (.inr hactive)
        exit := fun status he => absurd he (hnoExit hactive status) }
      rw [← h.buffered]
      simp
    · cases hs
      rw [List.append_nil]
      exact { h with
        shown := hshown.mono fun _ => .inl (by simp)
        drained := fun _ => .inr ⟨not_not.1 hbuf, hclosed⟩
        early := fun he => absurd he (hlate hactive)
        exiting := fun he => absurd he (hgoing hactive)
        talking := fun _ => h.talking (.inr hactive)
        exit := fun status he => absurd he (hnoExit hactive status) }
  · rename_i chunk hwrite
    have hactive : b.output.active = true := by simp [hwrite, Copy.active]
    rw [hwrite] at hshown
    cases hs
    rw [List.append_nil]
    rcases ws_cases b (.binary chunk) ok with ⟨hb, hws⟩ | hws
    · obtain ⟨data, hinbox⟩ := (h.talking (.inr hactive)).resolve_left fun hq => by simp [hb] at hq
      have hmore : b.inbox ++ [.binary chunk] = .ready :: (data ++ [chunk]).map .binary := by
        simp [hinbox]
      rw [hws]
      simp only [hb, Bool.false_eq_true, if_false]
      refine { h with
        shown := ?_
        drained := fun hd => by cases hd
        early := fun he => absurd he (hlate hactive)
        exiting := fun he => absurd he (hgoing hactive)
        talking := fun _ => .inr ⟨_, hmore⟩
        script := ?_
        exit := fun status he => ?_ }
      · have hpull := hshown.pull (List.append_nil chunk).symm
        rw [shownBytes_append, shownBytes_one]
        exact hpull.mono fun _ => .inl (by simp)
      · change Script (b.inbox ++ [_])
        rw [hmore]
        exact .talking _
      · rcases List.mem_append.1 he with he | he
        · exact absurd he (hnoExit hactive status)
        · simp at he
    · rw [hws]
      exact { h.setBroken with
        shown := hshown.lose (by simp) List.nil_prefix
        drained := fun _ => .inl rfl
        early := fun he => absurd he (hlate hactive)
        exiting := fun _ => rfl
        talking := fun _ => (h.setBroken).talking (.inr hactive)
        exit := fun status he => absurd he (hnoExit hactive status) }
  · cases hs

theorem browser_ok {m : Option BrowserMsg} (h : b.Ok sent got)
    (hs : b.browserStep m = some (b', out)) : b'.Ok (sent ++ out) got := by
  unfold browserStep at hs
  by_cases hread : b.input = .read
  · have hlate : ¬ b.pc.early = true := fun he => by simp [(h.early he).2.2.1] at hread
    have hkeys := h.keys
    rw [hread] at hkeys
    rw [if_neg (not_not.2 hread)] at hs
    cases m with
    | none =>
      cases hs
      rw [List.append_nil]
      exact { h with
        keys := hkeys.mono fun _ => by simp
        early := fun he => absurd he hlate }
    | some m =>
      by_cases hb : b.broken = true
      · simp [hb] at hs
      · dsimp only at hs
        rw [if_neg hb] at hs
        cases m with
        | binary d =>
          cases hs
          rw [List.append_nil]
          refine { h with
            keys := ?_
            early := fun he => absurd he hlate }
          have hpush : Passes (Copy.read ≠ .done) (b.keys ++ d) (downBytes sent) ([] ++ d) :=
            hkeys.push (by simp) d
          split_ifs with hd
          · subst hd
            exact hpush
          · exact hpush.mono fun _ => by simp
        | resize cols rows =>
          cases hs
          exact { h with keys := h.keys_emit rfl }
        | other =>
          cases hs
          simpa using h
  · rw [if_pos hread] at hs
    cases hs

theorem input_ok {n : ℕ} (h : b.Ok sent got) (hs : b.inputStep n = some (b', out)) :
    b'.Ok (sent ++ out) got := by
  unfold inputStep at hs
  split at hs
  · rename_i chunk hwrite
    have hlate : ¬ b.pc.early = true := fun he => by simp [(h.early he).2.2.1] at hwrite
    have hkeys := h.keys
    rw [hwrite] at hkeys
    split_ifs at hs with hsend
    · cases hs
      refine { h with
        keys := ?_
        early := fun he => absurd he hlate }
      rw [downBytes_append, downBytes_one, Copy.pending_wrote]
      exact (hkeys.pull (List.take_append_drop (n + 1) chunk).symm).mono fun _ => by simp
    · cases hs
      rw [List.append_nil]
      exact { h with
        keys := hkeys.lose (by simp) List.nil_prefix
        early := fun he => absurd he hlate }
  · cases hs

theorem step_ok {a : Act} (h : b.Ok sent got) (hs : b.step a = some (b', out)) :
    b'.Ok (sent ++ out) got := by
  cases a with
  | handler other ok => exact handler_ok h hs
  | output n ok => exact output_ok h hs
  | browser m => exact browser_ok h hs
  | input n => exact input_ok h hs
  | exitStatus =>
    simp only [step] at hs
    split at hs
    · rename_i n reqs hreqs
      cases hs
      rw [List.append_nil]
      refine { h with statuses := fun k hk => ?_ }
      rcases hk with hk | hk | hk
      · exact h.statuses k (.inl (by simp [hreqs, hk]))
      · cases hexit : b.exit with
        | none =>
          obtain rfl : n = k := by simpa [hexit] using hk
          exact h.statuses n (.inl (by simp [hreqs]))
        | some j =>
          obtain rfl : j = k := by simpa [hexit] using hk
          exact h.statuses j (.inr (.inl hexit))
      · exact h.statuses k (.inr (.inr hk))
    · cases hs
  | cancel =>
    cases hs
    rw [List.append_nil]
    exact { h with }

theorem receive_ok {m : UpMsg} (h : b.Ok sent got) (hs : b.receive m = some (b', out)) :
    b'.Ok (sent ++ out) (got ++ [m]) := by
  unfold receive at hs
  split_ifs at hs with hclosed
  have hgot : ∀ {n}, UpMsg.exitStatus n ∈ got → .exitStatus n ∈ got ++ [m] :=
    fun hn => List.mem_append_left _ hn
  have hdrained : b.output = .done → b.broken = true := fun hd =>
    (h.drained hd).resolve_right fun hc => hclosed hc.2
  have hnoExit : ∀ status, .exit status ∉ b.inbox := fun status he =>
    hclosed (h.exit status he).2.2.2.1
  cases m with
  | data d =>
    cases hs
    rw [List.append_nil]
    refine { h with
      buffered := ?_
      drained := fun hd => .inl (hdrained hd)
      statuses := fun n hn => hgot (h.statuses n hn)
      exit := fun status he => absurd he (hnoExit status) }
    rw [upBytes_append, upBytes_one, ← h.buffered, List.append_assoc]
    rfl
  | reply ok =>
    cases hs
    rw [List.append_nil]
    exact { h with
      buffered := by simpa [UpMsg.bytes] using h.buffered
      statuses := fun n hn => hgot (h.statuses n hn)
      exit := fun status he => absurd he (hnoExit status) }
  | exitStatus k =>
    cases hs
    rw [List.append_nil]
    refine { h with
      buffered := by simpa [UpMsg.bytes] using h.buffered
      statuses := fun n hn => ?_
      exit := fun status he => absurd he (hnoExit status) }
    rcases hn with hn | hn
    · rcases List.mem_append.1 hn with hn | hn
      · exact hgot (h.statuses n (.inl hn))
      · simp [List.mem_singleton.1 hn]
    · exact hgot (h.statuses n (.inr hn))
  | close =>
    cases hs
    exact { h with
      buffered := by simpa [UpMsg.bytes] using h.buffered
      drained := fun hd => .inl (hdrained hd)
      statuses := fun n hn => hgot (h.statuses n hn)
      keys := h.keys_emit rfl
      exit := fun status he => absurd he (hnoExit status) }

theorem lost_ok (h : b.Ok sent got) : (hub.lost b).Ok sent got :=
  { h with
    drained := fun hd => (h.drained hd).imp_right fun hc => ⟨hc.1, rfl⟩
    exit := fun status he => by
      obtain ⟨hd, hall, hbuf, -, hn⟩ := h.exit status he
      exact ⟨hd, hall, hbuf, rfl, hn⟩ }

end Bridge

theorem hub_keeps : hub.Keeps Bridge.Ok where
  step h hs := Bridge.step_ok h hs
  receive h hs := Bridge.receive_ok h hs
  lost h := Bridge.lost_ok h

end Lotse.Terminal
