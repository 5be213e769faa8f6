import Lotse.ScriptChannel

set_option autoImplicit false

namespace Lotse.ScriptChannel
open Utf8 (Bytes)
open Terminal (UpMsg Copy upBytes)
open Links (Passes)

/-- What `runScript` returns, and the text it adds to the output: by the process of the
script and whether the time limit has passed. -/
inductive Verdict (limit : String) : Proc → Bool → ℕ → Bytes → Prop where
  | noDir (err : String) (deadline : Bool) : Verdict limit .absent deadline 1 (Job.noDir err)
  | noCommand (err : String) (deadline : Bool) :
      Verdict limit .absent deadline 127 (text (err ++ "\n"))
  | stopped {p : Proc} (h : p ≠ .running) : Verdict limit p true exitTimeout (Job.stopped limit)
  | notStarted (err : String) : Verdict limit .absent false 127 (Job.notStarted err)
  | exited (code : ℤ) :
      Verdict limit (.exited code) false (if code < 0 then 255 else code.toNat % 2 ^ 32) []

theorem Verdict.ne_running {limit : String} {p : Proc} {deadline : Bool} {status : ℕ} {note : Bytes}
    (h : Verdict limit p deadline status note) : p ≠ .running := by
  cases h with
  | stopped hp => exact hp
  | noDir | noCommand | notStarted | exited => simp

def RunPc.exitSent : RunPc → Bool
  | closeChannel | done => true
  | _ => false

namespace Job
variable {s s' : Job} {sent out : List UpMsg} {got : List DownMsg}

def Finished (s : Job) : Prop :=
  s.copy.active = false ∧ Verdict s.limit s.proc s.deadline s.status s.noted

def Fits (s : Job) : RunPc → Prop
  | .idle | .mkdir | .command | .start =>
    s.proc = .absent ∧ s.copy = .idle ∧ s.printed = [] ∧ s.noted = []
  | .wait => s.proc ≠ .absent ∧ s.noted = []
  | .join => (∃ code, s.proc = .exited code) ∧ s.noted = []
  | .report => s.proc ≠ .running ∧ s.copy.active = false ∧ s.noted = []
  | .cleanup => s.Finished
  | .sendExit | .closeChannel | .done => s.Finished ∧ (s.dir = true → s.undeleted = true)

/-- What holds of the agent's side, with all it has sent. -/
structure Ok (s : Job) (sent : List UpMsg) (_got : List DownMsg) : Prop where
  printed : s.taken ++ s.pipe ++ s.abandoned = s.printed
  opened : s.pipeOpen = true → s.abandoned = []
  shut : s.pipeOpen = false → s.pipe = []
  copying : s.copy.active = false → s.pipeOpen = false
  forwarded : Passes (s.canSend = true ∨ s.copy.active = true) (s.taken ++ s.noted) (upBytes sent)
    s.copy.pending
  fits : s.Fits s.run
  exit : ∀ pre n, pre ++ [UpMsg.exitStatus n] <+: sent →
    s.run.exitSent = true ∧ upBytes pre = s.taken ++ s.noted ∧ n = s.status
  started : s.run ≠ .idle → s.started = true

theorem init_ok (limit : String) : (init limit).Ok [] [] where
  printed := rfl
  opened _ := rfl
  shut _ := rfl
  copying _ := rfl
  forwarded := .nil
  fits := ⟨rfl, rfl, rfl, rfl⟩
  exit pre n h := by simp at h
  started h := absurd rfl h

theorem upBytes_emit (s : Job) (m : UpMsg) :
    upBytes (s.emit m) = if s.canSend then m.bytes else [] := by
  unfold emit
  split_ifs <;> simp

theorem emit_exit {m : UpMsg} (h : ∀ n, m ≠ .exitStatus n) : ∀ n, UpMsg.exitStatus n ∉ s.emit m := by
  intro n hn
  unfold emit at hn
  split_ifs at hn
  · exact h n (List.mem_singleton.1 hn).symm
  · cases hn

theorem Ok.exit_append (h : s.Ok sent got) (hout : ∀ n, UpMsg.exitStatus n ∉ out) :
    ∀ pre n, pre ++ [UpMsg.exitStatus n] <+: sent ++ out →
      s.run.exitSent = true ∧ upBytes pre = s.taken ++ s.noted ∧ n = s.status := by
  intro pre n hpre
  exact h.exit pre n (Terminal.concat_prefix_of_notMem (hout n) hpre)

theorem Ok.no_exit (h : s.Ok sent got) (hpc : s.run.exitSent = false) (pre : List UpMsg) (n : ℕ) :
    ¬ pre ++ [UpMsg.exitStatus n] <+: sent := by
  intro hpre
  rw [(h.exit pre n hpre).1] at hpc
  cases hpc

theorem Ok.forwarded_emit (h : s.Ok sent got) {m : UpMsg} (hm : m.bytes = []) :
    Passes (s.canSend = true ∨ s.copy.active = true) (s.taken ++ s.noted)
      (upBytes (sent ++ s.emit m)) s.copy.pending := by
  rw [Terminal.upBytes_append, upBytes_emit, hm, ite_self, List.append_nil]
  exact h.forwarded

theorem Ok.say (h : s.Ok sent got) {m : UpMsg} (hm : m.bytes = []) (he : ∀ n, m ≠ .exitStatus n) :
    s.Ok (sent ++ s.emit m) got :=
  { h with
    forwarded := h.forwarded_emit hm
    exit := h.exit_append (emit_exit he) }

theorem Ok.quiet (h : s.Ok sent got) (hquiet : s'.canSend = true → s.canSend = true)
    (hcopy : s'.copy = s.copy) (htaken : s'.taken = s.taken) (hnoted : s'.noted = s.noted) :
    Passes (s'.canSend = true ∨ s'.copy.active = true) (s'.taken ++ s'.noted) (upBytes sent)
      s'.copy.pending := by
  rw [hcopy, htaken, hnoted]
  exact h.forwarded.mono (Or.imp_left hquiet)

theorem Ok.copying_at (h : s.Ok sent got) (hactive : s.copy.active = true) :
    (s.run = .wait ∨ s.run = .join) ∧ s.noted = [] := by
  have hfits := h.fits
  cases hpc : s.run <;> rw [hpc] at hfits
  case wait => exact ⟨.inl rfl, hfits.2⟩
  case join => exact ⟨.inr rfl, hfits.2⟩
  case idle | mkdir | command | start =>
    rw [hfits.2.1] at hactive
    cases hactive
  case report => exact absurd (hactive.symm.trans hfits.2.1) (by simp)
  case cleanup => exact absurd (hactive.symm.trans hfits.1) (by simp)
  case sendExit | closeChannel | done => exact absurd (hactive.symm.trans hfits.1.1) (by simp)

theorem exitSent_of_copying (h : s.Ok sent got) (hactive : s.copy.active = true) :
    s.run.exitSent = false := by
  rcases (h.copying_at hactive).1 with hpc | hpc <;> rw [hpc] <;> rfl

theorem Fits.copy {r : RunPc} (h : s.Fits r) (hr : r = .wait ∨ r = .join) (c : Copy) :
    ({ s with copy := c } : Job).Fits r := by
  rcases hr with rfl | rfl
  · exact h
  · exact h

@[simp] theorem closePipe_pipeOpen (s : Job) : s.closePipe.pipeOpen = false := by
  unfold closePipe
  split_ifs with h
  · rfl
  · simpa using h

@[simp] theorem closePipe_copy (s : Job) : s.closePipe.copy = s.copy := by
  unfold closePipe
  split_ifs <;> rfl

@[simp] theorem closePipe_canSend (s : Job) : s.closePipe.canSend = s.canSend := by
  unfold closePipe
  split_ifs <;> rfl

theorem Ok.closePipe (h : s.Ok sent got) : s.closePipe.Ok sent got := by
  unfold Job.closePipe
  split_ifs with hopen
  · have hprinted := h.printed
    rw [h.opened hopen, List.append_nil] at hprinted
    exact { h with
      printed := by simpa using hprinted
      opened := nofun
      shut := fun _ => rfl
      copying := fun _ => rfl }
  · exact h

theorem Ok.copyDone (h : s.Ok sent got) (hshut : s.pipeOpen = false) (hactive : s.copy.active = true)
    (hend : s.copy.pending = [] ∨ s.canSend = false) :
    ({ s with copy := .done } : Job).Ok sent got := by
  obtain ⟨hpc, -⟩ := h.copying_at hactive
  refine { h with
    copying := fun _ => hshut
    forwarded := ?_
    fits := h.fits.copy hpc .done }
  rcases hend with hnone | hclosed
  · have hfw := h.forwarded
    rw [hnone] at hfw
    exact hfw.mono fun _ => .inr hactive
  · refine h.forwarded.lose ?_ List.nil_prefix
    rintro (hsend | hdone)
    · exact absurd (hclosed.symm.trans hsend) (by simp)
    · cases hdone

theorem Ok.copyEnds (h : s.Ok sent got) (hactive : s.copy.active = true)
    (hend : s.copy.pending = [] ∨ s.canSend = false) :
    ({ s.closePipe with copy := .done } : Job).Ok sent got :=
  h.closePipe.copyDone s.closePipe_pipeOpen (by rwa [closePipe_copy])
    (by rwa [closePipe_copy, closePipe_canSend])

theorem copy_ok {n : ℕ} (h : s.Ok sent got) (hs : s.copyStep n = some (s', out)) :
    s'.Ok (sent ++ out) got := by
  unfold copyStep at hs
  split at hs
  · rename_i hread
    have hactive : s.copy.active = true := by rw [hread]; rfl
    obtain ⟨hpc, hnoted⟩ := h.copying_at hactive
    split_ifs at hs with hpipe hheld
    · cases hs
      rw [List.append_nil]
      have hfw := h.forwarded
      rw [hread, hnoted, List.append_nil] at hfw
      refine { h with
        printed := ?_
        shut := fun hc => absurd (h.shut hc) hpipe
        copying := nofun
        forwarded := ?_
        fits := h.fits.copy hpc (.write (s.pipe.take (n + 1)))
        exit := fun pre n hpre => absurd hpre (h.no_exit (exitSent_of_copying h hactive) pre n) }
      · rw [← h.printed]
        simp
      · rw [hnoted, List.append_nil]
        exact hfw.push (.inr rfl) _
    · cases hs
      rw [List.append_nil]
      exact h.copyEnds hactive (.inl (by rw [hread]; rfl))
  · rename_i chunk hwrite
    have hactive : s.copy.active = true := by rw [hwrite]; rfl
    obtain ⟨hpc, hnoted⟩ := h.copying_at hactive
    split_ifs at hs with hsend
    · cases hs
      have hfw := h.forwarded
      rw [hwrite] at hfw
      have hpipe : (Copy.wrote chunk (n + 1)).active = true := by
        unfold Copy.wrote
        split_ifs <;> rfl
      refine { h with
        copying := fun hc => by rw [hpipe] at hc; cases hc
        forwarded := ?_
        fits := h.fits.copy hpc _
        exit := h.exit_append (by simp) }
      rw [Terminal.upBytes_append, Terminal.upBytes_one, Copy.pending_wrote]
      exact (hfw.pull (List.take_append_drop (n + 1) chunk).symm).mono fun _ => .inr rfl
    · cases hs
      rw [List.append_nil]
      exact h.copyEnds hactive (.inr (by simpa using hsend))
  · cases hs

theorem Ok.goto (h : s.Ok sent got) (hpc : s.run.exitSent = false) (hidle : s.run ≠ .idle)
    {dir undeleted : Bool} {r : RunPc} (hfits : ({ s with dir, undeleted, run := r } : Job).Fits r) :
    ({ s with dir, undeleted, run := r } : Job).Ok sent got :=
  { h with
    fits := hfits
    exit := fun pre n hpre => absurd hpre (h.no_exit hpc pre n)
    started := fun _ => h.started hidle }

theorem pending_of_inactive {c : Copy} (h : c.active = false) : c.pending = [] := by
  cases c with
  | idle | done => rfl
  | read | write => cases h

theorem Ok.returns (h : s.Ok sent got) (hpc : s.run.exitSent = false) (hidle : s.run ≠ .idle)
    (hcopy : s.copy.active = false) (hnoted : s.noted = []) {status : ℕ} {note : Bytes} {dir : Bool}
    (hv : Verdict s.limit s.proc s.deadline status note)
    (hs : ({ s with dir := dir } : Job).returns status note = some (s', out)) :
    s'.Ok (sent ++ out) got := by
  obtain ⟨rfl, rfl⟩ := Prod.mk.inj (Option.some.inj hs)
  have hout : upBytes (if note = [] then [] else s.emit (.data note)) =
      if s.canSend then note else [] := by
    by_cases hn : note = []
    · simp [hn]
    · rw [if_neg hn, upBytes_emit]
      rfl
  have hquiet : ∀ n, UpMsg.exitStatus n ∉ (if note = [] then [] else s.emit (.data note)) := by
    intro n
    split_ifs
    · simp
    · exact emit_exit (by simp) n
  have hfw := h.forwarded
  rw [pending_of_inactive hcopy] at hfw
  refine { h with
    forwarded := ?_
    fits := ⟨hcopy, by rwa [hnoted]⟩
    exit := fun pre n hpre => ?_
    started := fun _ => h.started hidle }
  · change Passes (s.canSend = true ∨ s.copy.active = true) (s.taken ++ (s.noted ++ note))
      (upBytes (sent ++ if note = [] then [] else s.emit (.data note))) s.copy.pending
    rw [Terminal.upBytes_append, hout, pending_of_inactive hcopy, ← List.append_assoc]
    cases hsend : s.canSend with
    | true => exact (hfw.push (.inl hsend) note).pull (by simp)
    | false =>
      refine (hfw.grow ?_ note).pull (by simp)
      rintro (hsend' | hactive)
      · cases hsend'
      · exact absurd (hcopy.symm.trans hactive) (by simp)
  · exact absurd (Terminal.concat_prefix_of_notMem (hquiet n) hpre) (h.no_exit hpc pre n)

theorem start_ok (h : s.Ok sent got) (hpc : s.run = .start) :
    ({ s with proc := .running, held := true, pipeOpen := true, copy := .read, run := .wait } :
      Job).Ok sent got := by
  have hfits := h.fits
  rw [hpc] at hfits
  obtain ⟨-, -, hprinted, hnoted⟩ := hfits
  have hnone := h.printed
  rw [hprinted, List.append_eq_nil_iff, List.append_eq_nil_iff] at hnone
  have hsaid : upBytes sent = [] := by
    have := h.forwarded.done_le
    rwa [hnone.1.1, hnoted, List.append_nil, List.prefix_nil] at this
  refine { h with
    opened := fun _ => hnone.2
    shut := nofun
    copying := nofun
    forwarded := ?_
    fits := ⟨by simp, hnoted⟩
    exit := fun pre n hpre => absurd hpre (h.no_exit (by rw [hpc]; rfl) pre n)
    started := fun _ => h.started (by simp [hpc]) }
  rw [hnone.1.1, hnoted, hsaid]
  exact .nil

/-- The status is sent only while the channel is open, so all output was sent before it. -/
theorem sendExit_ok (h : s.Ok sent got) (hpc : s.run = .sendExit) :
    ({ s with run := .closeChannel } : Job).Ok (sent ++ s.emit (.exitStatus s.status)) got := by
  have hfits := h.fits
  rw [hpc] at hfits
  have hfw := h.forwarded
  rw [pending_of_inactive hfits.1.1] at hfw
  have hnot := h.no_exit (by rw [hpc]; rfl)
  refine { h with
    forwarded := h.forwarded_emit rfl
    fits := hfits
    exit := fun pre n hpre => ⟨rfl, ?_⟩
    started := fun _ => h.started (by simp [hpc]) }
  unfold emit at hpre
  split_ifs at hpre with hsend
  · rcases List.prefix_concat_iff.1 hpre with heq | hold
    · obtain ⟨rfl, hn⟩ := List.append_inj' heq rfl
      simp only [List.cons.injEq, UpMsg.exitStatus.injEq, and_true] at hn
      exact ⟨hfw.done_eq (.inl hsend), hn⟩
    · exact absurd hold (hnot pre n)
  · rw [List.append_nil] at hpre
    exact absurd hpre (hnot pre n)

theorem report_ok {o : Outcome} (h : s.Ok sent got) (hpc : s.run = .report)
    (hs : s.runStep o = some (s', out)) : s'.Ok (sent ++ out) got := by
  have hfits := h.fits
  rw [hpc] at hfits
  obtain ⟨hproc, hcopy, hnoted⟩ := hfits
  have hreturns {status : ℕ} {note : Bytes} (hv : Verdict s.limit s.proc s.deadline status note)
      (hs : s.returns status note = some (s', out)) : s'.Ok (sent ++ out) got :=
    h.returns (by rw [hpc]; rfl) (by simp [hpc]) hcopy hnoted hv hs
  simp only [runStep, hpc] at hs
  split_ifs at hs with hlimit
  · exact hreturns (by rw [hlimit]; exact .stopped hproc) hs
  · have hdeadline : s.deadline = false := by simpa using hlimit
    cases hp : s.proc with
    | running => exact absurd hp hproc
    | exited code =>
      simp only [hp] at hs
      exact hreturns (by rw [hdeadline, hp]; exact .exited code) hs
    | absent =>
      simp only [hp] at hs
      cases o with
      | ok => cases hs
      | fails err made => exact hreturns (by rw [hdeadline, hp]; exact .notStarted err) hs

theorem run_ok {o : Outcome} (h : s.Ok sent got) (hs : s.runStep o = some (s', out)) :
    s'.Ok (sent ++ out) got := by
  have hfits := h.fits
  cases hpc : s.run with
  | idle | done => simp [runStep, hpc] at hs
  | mkdir =>
    rw [hpc] at hfits
    have hcopy : s.copy.active = false := by rw [hfits.2.1]; rfl
    cases o with
    | ok =>
      simp only [runStep, hpc] at hs
      cases hs
      rw [List.append_nil]
      exact h.goto (by rw [hpc]; rfl) (by simp [hpc]) hfits
    | fails err made =>
      simp only [runStep, hpc] at hs
      exact h.returns (by rw [hpc]; rfl) (by simp [hpc]) hcopy hfits.2.2.2
        (by rw [hfits.1]; exact .noDir err _) hs
  | command =>
    rw [hpc] at hfits
    have hcopy : s.copy.active = false := by rw [hfits.2.1]; rfl
    cases o with
    | ok =>
      simp only [runStep, hpc] at hs
      cases hs
      rw [List.append_nil]
      exact h.goto (by rw [hpc]; rfl) (by simp [hpc]) hfits
    | fails err made =>
      simp only [runStep, hpc] at hs
      exact h.returns (by rw [hpc]; rfl) (by simp [hpc]) hcopy hfits.2.2.2
        (by rw [hfits.1]; exact .noCommand err _) hs
  | start =>
    simp only [runStep, hpc] at hs
    rw [hpc] at hfits
    split_ifs at hs with hstart
    · cases hs
      rw [List.append_nil]
      exact start_ok h hpc
    · cases hs
      rw [List.append_nil]
      have hcopy : s.copy.active = false := by rw [hfits.2.1]; rfl
      exact h.goto (by rw [hpc]; rfl) (by simp [hpc]) ⟨by simp [hfits.1], hcopy, hfits.2.2.2⟩
  | wait =>
    simp only [runStep, hpc] at hs
    rw [hpc] at hfits
    split at hs
    · rename_i code hproc
      cases hs
      rw [List.append_nil]
      exact h.goto (by rw [hpc]; rfl) (by simp [hpc]) ⟨⟨code, hproc⟩, hfits.2⟩
    · cases hs
  | join =>
    simp only [runStep, hpc] at hs
    rw [hpc] at hfits
    split_ifs at hs with hdone
    cases hs
    rw [List.append_nil]
    obtain ⟨⟨code, hproc⟩, hnoted⟩ := hfits
    exact h.goto (by rw [hpc]; rfl) (by simp [hpc])
      ⟨by simp [hproc], by rw [hdone]; rfl, hnoted⟩
  | report => exact report_ok h hpc hs
  | cleanup =>
    simp only [runStep, hpc] at hs
    rw [hpc] at hfits
    cases hs
    rw [List.append_nil]
    exact h.goto (by rw [hpc]; rfl) (by simp [hpc]) ⟨hfits, id⟩
  | sendExit =>
    simp only [runStep, hpc] at hs
    cases hs
    exact sendExit_ok h hpc
  | closeChannel =>
    simp only [runStep, hpc] at hs
    rw [hpc] at hfits
    cases hs
    have hclose := h.say (m := .close) rfl (by simp)
    exact { hclose with
      forwarded := hclose.quiet (by simp [canSend]) rfl rfl rfl
      fits := hfits
      exit := fun pre n hpre => ⟨rfl, (hclose.exit pre n hpre).2⟩
      started := fun _ => h.started (by simp [hpc]) }

theorem serve_ok (h : s.Ok sent got) (hs : s.serveStep = some (s', out)) :
    s'.Ok (sent ++ out) got := by
  unfold serveStep at hs
  split at hs
  · split at hs
    · rename_i valid reqs hreqs
      split_ifs at hs with hrefuse
      · cases hs
        have hreply := h.say (m := .reply false) rfl (by simp)
        exact { hreply with }
      · cases hs
        have hreply := h.say (m := .reply true) rfl (by simp)
        have hidle : s.run = .idle := by
          by_contra hne
          exact hrefuse (.inl (h.started hne))
        have hfits := h.fits
        rw [hidle] at hfits
        exact { hreply with
          fits := hfits
          exit := fun pre n hpre => absurd hpre (hreply.no_exit (by rw [hidle]; rfl) pre n)
          started := fun _ => rfl }
    · split_ifs at hs
      cases hs
      rw [List.append_nil]
      exact { h with }
  · cases hs
    rw [List.append_nil]
    exact { h with }
  · cases hs
    have hclose := h.say (m := .close) rfl (by simp)
    exact { hclose with forwarded := hclose.quiet (by simp [canSend]) rfl rfl rfl }
  · cases hs

theorem step_ok {a : Act} (h : s.Ok sent got) (hs : s.step a = some (s', out)) :
    s'.Ok (sent ++ out) got := by
  have hfits := h.fits
  cases a with
  | print b =>
    simp only [step] at hs
    split_ifs at hs with hopen
    cases hs
    rw [List.append_nil]
    have hactive : s.copy.active = true := by
      by_contra hc
      rw [h.copying (by simpa using hc)] at hopen
      exact absurd hopen.1 (by simp)
    refine { h with
      printed := ?_
      shut := fun hc => absurd (hopen.1.symm.trans hc) (by simp)
      fits := ?_ }
    · have hprinted := h.printed
      rw [h.opened hopen.1, List.append_nil] at hprinted ⊢
      rw [← hprinted, List.append_assoc]
    · rcases (h.copying_at hactive).1 with hpc | hpc
      all_goals
        rw [hpc] at hfits ⊢
        exact hfits
  | exit code =>
    simp only [step] at hs
    split_ifs at hs with hrunning
    cases hs
    rw [List.append_nil]
    refine { h with fits := ?_ }
    change Fits _ s.run
    cases hpc : s.run <;> rw [hpc] at hfits
    case wait => exact ⟨by simp, hfits.2⟩
    case join => exact ⟨⟨code, rfl⟩, hfits.2⟩
    case report => exact ⟨by simp, hfits.2⟩
    case idle | mkdir | command | start => exact absurd (hrunning.symm.trans hfits.1) (by simp)
    case cleanup => exact absurd hrunning hfits.2.ne_running
    case sendExit | closeChannel | done => exact absurd hrunning hfits.1.2.ne_running
  | hangUp =>
    simp only [step] at hs
    split_ifs at hs
    cases hs
    rw [List.append_nil]
    exact { h with }
  | deadline =>
    simp only [step] at hs
    split_ifs at hs with htimed
    cases hs
    rw [List.append_nil]
    refine { h with fits := ?_ }
    change Fits _ s.run
    cases hpc : s.run <;> rw [hpc] at hfits htimed
    case idle | cleanup | sendExit | closeChannel | done => exact absurd htimed.1 (by decide)
    all_goals exact hfits
  | kill =>
    simp only [step] at hs
    split_ifs at hs
    cases hs
    rw [List.append_nil]
    exact { h with }
  | waitDelay =>
    simp only [step] at hs
    split_ifs at hs
    cases hs
    rw [List.append_nil]
    exact h.closePipe
  | copy n => exact copy_ok h hs
  | run o => exact run_ok h hs
  | serve => exact serve_ok h hs

theorem receive_ok {m : DownMsg} (h : s.Ok sent got) (hs : s.receive m = some (s', out)) :
    s'.Ok (sent ++ out) (got ++ [m]) := by
  unfold receive at hs
  split_ifs at hs
  cases m with
  | script valid =>
    cases hs
    rw [List.append_nil]
    exact { h with }
  | close =>
    cases hs
    have hclose := h.say (m := .close) rfl (by simp)
    exact { hclose with forwarded := hclose.quiet (by simp [canSend]) rfl rfl rfl }

end Job

theorem agent_keeps : agent.Keeps Job.Ok where
  step := Job.step_ok
  receive := Job.receive_ok
  lost h := { h with forwarded := h.quiet (by simp [agent, Job.canSend]) rfl rfl rfl }

def Target.Drained (t : Target) : Prop := t.closed = true ∧ t.buf = []

def TargetPc.before : TargetPc → Bool
  | request | reply | fail | start | read => true
  | _ => false

/-- What holds of the hub's side, with all it has received: an exit code is one that has
arrived, in a target whose output is complete. -/
structure Target.Ok (t : Target) (_sent : List DownMsg) (got : List UpMsg) : Prop where
  received : t.slot.written ++ t.buf = upBytes got
  output : t.slot.output.Holds t.slot.written
  limit : t.slot.output.max = RunOutput.maxRunOutput
  pending : ∀ n ∈ t.reqs, UpMsg.exitStatus n ∈ got
  exit : ∀ n, t.exit = some n → UpMsg.exitStatus n ∈ got
  drained : t.pc = .awaitExit → t.Drained
  unset : t.pc.before = true → t.slot.target.exitCode = none
  code : ∀ c, t.slot.target.exitCode = some c → ∃ n : ℕ, c = n ∧ UpMsg.exitStatus n ∈ got ∧
    t.slot.target.status = (if n = 0 then .done else .failed) ∧ t.Drained
  done : t.slot.target.status = .done → t.slot.target.exitCode = some 0

namespace Target
variable {t t' : Target} {sent out : List DownMsg} {got : List UpMsg}

theorem init_ok (system : ℤ) : (init system).Ok [] [] where
  received := rfl
  output := TailBuffer.holds_empty (by decide)
  limit := rfl
  pending := by simp [init]
  exit := by simp [init]
  drained := by simp [init]
  unset _ := rfl
  code := by simp [init, RunOutput.newSlot]
  done := by simp [init, RunOutput.newSlot]

theorem Ok.update_none (h : t.Ok sent got) (status : RunOutput.Status) (hs : status ≠ .done)
    (error : String) {pc : TargetPc} (hpc : pc ≠ .awaitExit) :
    (t.update status error none pc).Ok sent got :=
  { h with
    drained := fun he => absurd he hpc
    unset := fun _ => rfl
    code := fun _ hc => by cases hc
    done := fun hd => absurd hd hs }

theorem Ok.goto (h : t.Ok sent got) (pc : TargetPc) (hpc : pc = .awaitExit → t.Drained)
    (hopen : pc.before = true → t.pc.before = true) : ({ t with pc } : Target).Ok sent got :=
  { h with
    drained := hpc
    unset := fun hb => h.unset (hopen hb) }

/-- The channel was read to its end before the status is looked at. -/
theorem awaitExit_ok {n : ℕ} {takeExit : Bool} (h : t.Ok sent got) (hpc : t.pc = .awaitExit)
    (hs : t.goStep n takeExit = some (t', out)) : t'.Ok (sent ++ out) got := by
  simp only [goStep, hpc] at hs
  split_ifs at hs with htake
  · split at hs
    · rename_i code hexit
      cases hs
      have hdrained := h.drained hpc
      refine { h with
        drained := fun _ => hdrained
        unset := by simp [update, TargetPc.before]
        code := fun c hc =>
          ⟨code, (Option.some.inj hc).symm, h.exit code hexit, rfl, hdrained⟩
        done := fun hd => ?_ }
      by_cases hzero : code = 0
      · simp [update, hzero]
      · simp [update, hzero] at hd
    · cases hs
  · cases hs
    have hlost := (Scripts.isFinal_lostResult t.canceled t.timedOut).2
    exact { h.update_none _ hlost _ (by simp) with }

theorem go_ok {n : ℕ} {takeExit : Bool} (h : t.Ok sent got)
    (hs : t.goStep n takeExit = some (t', out)) : t'.Ok (sent ++ out) got := by
  cases hpc : t.pc with
  | request =>
    simp only [goStep, hpc] at hs
    have hbefore : t.pc.before = true := by rw [hpc]; rfl
    split_ifs at hs <;> cases hs
    · exact { h.goto .reply (by simp) (fun _ => hbefore) with }
    · exact { h.goto .fail (by simp) (fun _ => hbefore) with }
  | reply =>
    simp only [goStep, hpc] at hs
    have hbefore : t.pc.before = true := by rw [hpc]; rfl
    split at hs
    · rename_i ok replies hreplies
      cases hs
      exact { h.goto (if ok then .start else .fail) (by cases ok <;> simp) (fun _ => hbefore) with }
    · split_ifs at hs
      cases hs
      exact { h.goto .fail (by simp) (fun _ => hbefore) with }
  | fail =>
    simp only [goStep, hpc] at hs
    cases hs
    exact { h.update_none .failed (by simp) _ (by simp) with }
  | start =>
    simp only [goStep, hpc] at hs
    cases hs
    exact { h.update_none .running (by simp) _ (by simp) with }
  | read =>
    simp only [goStep, hpc] at hs
    split_ifs at hs with hbuf hclosed
    · cases hs
      have hnone := h.unset (by rw [hpc]; rfl)
      exact { h with
        received := by rw [← h.received]; simp [RunOutput.Slot.write]
        output := h.output.write _
        limit := (TailBuffer.write_max _ _).trans h.limit
        drained := nofun
        unset := fun _ => hnone
        code := fun c hc => absurd (hnone.symm.trans hc) (by simp) }
    · cases hs
      exact { h.goto .awaitExit (fun _ => ⟨hclosed, not_not.1 hbuf⟩) (by simp [TargetPc.before]) with }
  | awaitExit => exact awaitExit_ok h hpc hs
  | closeChannel =>
    simp only [goStep, hpc] at hs
    cases hs
    exact { h.goto .done (by simp) (by simp [TargetPc.before]) with }
  | done => simp [goStep, hpc] at hs

theorem step_ok {a : Act} (h : t.Ok sent got) (hs : t.step a = some (t', out)) :
    t'.Ok (sent ++ out) got := by
  cases a with
  | go n takeExit => exact go_ok h hs
  | exitStatus =>
    simp only [step] at hs
    split at hs
    · rename_i code reqs hreqs
      cases hs
      have hcode : UpMsg.exitStatus code ∈ got := h.pending code (by simp [hreqs])
      refine { h with
        pending := fun n hn => h.pending n (by simp [hreqs, hn])
        exit := fun n hn => ?_ }
      cases hexit : t.exit with
      | none =>
        simp only [hexit, Option.none_or, Option.some.injEq] at hn
        rwa [← hn]
      | some m =>
        simp only [hexit, Option.some_or] at hn
        exact h.exit n (hexit.trans hn)
    · cases hs
  | cancel =>
    cases hs
    exact { h with }
  | deadline =>
    simp only [step] at hs
    split_ifs at hs
    cases hs
    exact { h with }
  | stop =>
    simp only [step] at hs
    split_ifs at hs
    cases hs
    exact { h with }

theorem Ok.arrive (h : t.Ok sent got) (hopen : t.closed ≠ true) {m : UpMsg} {buf : Bytes}
    (hbuf : t.slot.written ++ buf = upBytes (got ++ [m])) :
    ({ t with buf } : Target).Ok sent (got ++ [m]) :=
  { h with
    received := hbuf
    pending := fun n hn => List.mem_append_left _ (h.pending n hn)
    exit := fun n hn => List.mem_append_left _ (h.exit n hn)
    drained := fun hpc => absurd (h.drained hpc).1 hopen
    code := fun c hc => by
      obtain ⟨n, -, -, -, hd⟩ := h.code c hc
      exact absurd hd.1 hopen }

theorem receive_ok {m : UpMsg} (h : t.Ok sent got) (hs : t.receive m = some (t', out)) :
    t'.Ok (sent ++ out) (got ++ [m]) := by
  unfold receive at hs
  split_ifs at hs with hopen
  have hquiet : m.bytes = [] → t.slot.written ++ t.buf = upBytes (got ++ [m]) := fun hm => by
    rw [h.received, Terminal.upBytes_append, Terminal.upBytes_one, hm, List.append_nil]
  cases m with
  | data b =>
    cases hs
    refine { h.arrive hopen ?_ with }
    rw [Terminal.upBytes_append, Terminal.upBytes_one, ← h.received, List.append_assoc]
    rfl
  | reply ok =>
    cases hs
    exact { h.arrive hopen (hquiet rfl) with }
  | exitStatus code =>
    cases hs
    have hg := h.arrive hopen (hquiet rfl)
    refine { hg with pending := fun n hn => ?_ }
    rcases List.mem_append.1 hn with hn | hn
    · exact hg.pending n hn
    · rw [List.mem_singleton.1 hn]
      simp
  | close =>
    cases hs
    have hg := h.arrive hopen (hquiet rfl)
    exact { hg with
      drained := fun hpc => ⟨rfl, (hg.drained hpc).2⟩
      code := fun c hc => by
        obtain ⟨n, hn, hmem, hstatus, hd⟩ := hg.code c hc
        exact ⟨n, hn, hmem, hstatus, rfl, hd.2⟩ }

end Target

theorem hub_keeps : hub.Keeps Target.Ok where
  step := Target.step_ok
  receive := Target.receive_ok
  lost h := { h with
    drained := fun hpc => ⟨rfl, (h.drained hpc).2⟩
    code := fun c hc => by
      obtain ⟨n, hn, hmem, hstatus, hd⟩ := h.code c hc
      exact ⟨n, hn, hmem, hstatus, rfl, hd.2⟩ }

section reach
variable {g : System}

theorem run_inv {limit : String} {system : ℤ} {acts : List Action}
    (run : Runs.exec step (init limit system) acts = some g) : Links.Inv Job.Ok Target.Ok g :=
  Links.exec_inv agent_keeps hub_keeps (Job.init_ok limit) (Target.init_ok system) run

theorem written_le (h : Links.Inv Job.Ok Target.Ok g) :
    g.right.slot.written <+: g.left.taken ++ g.left.noted := by
  have hread : g.right.slot.written <+: upBytes g.gotUp := h.right.received ▸ List.prefix_append _ _
  exact (hread.trans (Terminal.upBytes_mono h.up.done_le)).trans h.left.forwarded.done_le

/-- An exit status that has arrived came after everything the agent wrote. -/
theorem exitStatus_arrived (h : Links.Inv Job.Ok Target.Ok g) {n : ℕ}
    (hn : UpMsg.exitStatus n ∈ g.gotUp) : g.left.run.exitSent = true ∧ n = g.left.status ∧
      upBytes g.gotUp = g.left.taken ++ g.left.noted := by
  obtain ⟨pre, post, hsplit⟩ := List.append_of_mem hn
  have hsent : pre ++ [.exitStatus n] <+: g.sentUp := by
    refine List.IsPrefix.trans ?_ h.up.done_le
    rw [hsplit]
    exact ⟨post, by simp⟩
  obtain ⟨hpc, hpre, hstatus⟩ := h.left.exit pre n hsent
  have hle := (Terminal.upBytes_mono h.up.done_le).trans h.left.forwarded.done_le
  have hge : g.left.taken ++ g.left.noted <+: upBytes g.gotUp := by
    rw [← hpre, hsplit, Terminal.upBytes_append]
    exact List.prefix_append _ _
  exact ⟨hpc, hstatus, hle.eq_of_length_le hge.length_le⟩

theorem Job.Ok.finished {s : Job} {sent : List UpMsg} {got : List DownMsg} (h : s.Ok sent got)
    (hpc : s.run.exitSent = true) : s.Finished ∧ (s.dir = true → s.undeleted = true) ∧
      s.printed = s.taken ++ s.abandoned := by
  have hfits := h.fits
  have hfin : s.Finished ∧ (s.dir = true → s.undeleted = true) := by
    cases hr : s.run <;> rw [hr] at hfits hpc
    case closeChannel | done => exact hfits
    all_goals cases hpc
  refine ⟨hfin.1, hfin.2, ?_⟩
  rw [← h.printed, h.shut (h.copying hfin.1.1), List.append_nil]

theorem Verdict.of_zero {limit : String} {p : Proc} {deadline : Bool} {status : ℕ} {note : Bytes}
    (h : Verdict limit p deadline status note) (hn : status = 0) : note = [] ∧ deadline = false ∧
      ∃ code : ℤ, p = .exited code ∧ 0 ≤ code ∧ code.toNat % 2 ^ 32 = 0 := by
  cases h with
  | exited code =>
    split_ifs at hn with hneg
    exact ⟨rfl, rfl, code, rfl, not_lt.1 hneg, hn⟩
  | stopped => simp [exitTimeout] at hn
  | noDir | noCommand | notStarted => cases hn

end reach

/-- In every run of a script on one system, also when the link is lost, the run is stopped or
the time limit passes: the hub has a beginning of what the script printed and the agent
added. With an exit code its ring buffer holds the end of all of it, but for what was in the
pipe when the agent gave up on it, and the code is the one the agent returned. A target is
done only if the script has exited with status zero within its time. However it ends, the
agent leaves no process of its own behind, and no temporary directory unless removing it
failed. -/
theorem script_delivered {limit : String} {system : ℤ} {acts : List Action} {g : System}
    (run : Runs.exec step (init limit system) acts = some g) :
    g.right.slot.written <+: g.left.taken ++ g.left.noted ∧ g.left.taken <+: g.left.printed ∧
    g.right.slot.output.max = RunOutput.maxRunOutput ∧
    (∀ code, g.right.slot.target.exitCode = some code → ∃ n : ℕ, code = n ∧
      Verdict g.left.limit g.left.proc g.left.deadline n g.left.noted ∧
      g.left.printed = g.left.taken ++ g.left.abandoned ∧
      g.right.slot.output.Holds (g.left.taken ++ g.left.noted)) ∧
    (g.right.slot.target.status = .done → g.left.deadline = false ∧
      (∃ code : ℤ, g.left.proc = .exited code ∧ 0 ≤ code ∧ code.toNat % 2 ^ 32 = 0) ∧
      g.right.slot.output.Holds g.left.taken) ∧
    (g.left.run = .done → g.left.proc ≠ .running ∧
      (g.left.dir = true → g.left.undeleted = true)) := by
  have h := run_inv run
  have hprinted : g.left.taken <+: g.left.printed := by
    rw [← h.left.printed, List.append_assoc]
    exact List.prefix_append _ _
  have hcode : ∀ code, g.right.slot.target.exitCode = some code → ∃ n : ℕ, code = n ∧
      Verdict g.left.limit g.left.proc g.left.deadline n g.left.noted ∧
      g.left.printed = g.left.taken ++ g.left.abandoned ∧
      g.right.slot.output.Holds (g.left.taken ++ g.left.noted) := by
    intro code hc
    obtain ⟨n, hn, hmem, -, -, hbuf⟩ := h.right.code code hc
    obtain ⟨hsent, hstatus, hall⟩ := exitStatus_arrived h hmem
    obtain ⟨hfin, -, habandoned⟩ := h.left.finished hsent
    have hreceived := h.right.received
    rw [hbuf, List.append_nil, hall] at hreceived
    exact ⟨n, hn, hstatus ▸ hfin.2, habandoned, hreceived ▸ h.right.output⟩
  refine ⟨written_le h, hprinted, h.right.limit, hcode, fun hdone => ?_, fun hdone => ?_⟩
  · obtain ⟨n, hn, hverdict, -, houtput⟩ := hcode 0 (h.right.done hdone)
    obtain ⟨hnote, hdeadline, hexited⟩ := hverdict.of_zero (by exact_mod_cast hn.symm)
    rw [hnote, List.append_nil] at houtput
    exact ⟨hdeadline, hexited, houtput⟩
  · obtain ⟨hfin, hdir, -⟩ := h.left.finished (by rw [hdone]; rfl)
    exact ⟨hfin.2.ne_running, hdir⟩

def shortScript : List Action :=
  [.right (.go 0 true), .toLeft, .left .serve, .toRight, .right (.go 0 true), .right (.go 0 true),
   .left (.run .ok), .left (.run .ok), .left (.run .ok), .left (.print [104, 105]),
   .left (.copy 9), .left (.exit 3), .left .hangUp, .left (.copy 9), .left (.copy 9),
   .left (.run .ok), .left (.run .ok), .left (.run .ok), .left (.run .ok), .left (.run .ok),
   .left (.run .ok), .toRight, .right (.go 9 true), .toRight, .right .exitStatus, .toRight,
   .right (.go 9 true), .right (.go 9 true)]

theorem shortScript_view : (Runs.exec step (init "5m0s" 7) shortScript).map (fun g =>
    (g.left.taken, g.left.noted, g.right.slot.target.exitCode)) = some ([104, 105], [], some 3) := by
  decide +kernel

theorem script_delivered_hi : ∃ g, Runs.exec step (init "5m0s" 7) shortScript = some g ∧
    g.right.slot.target.exitCode = some 3 ∧ g.right.slot.output.Holds [104, 105] := by
  obtain ⟨g, hg, hview⟩ := Option.map_eq_some_iff.1 shortScript_view
  have htaken : g.left.taken = [104, 105] := congrArg Prod.fst hview
  have hnoted : g.left.noted = [] := congrArg (fun v => v.2.1) hview
  have hcode : g.right.slot.target.exitCode = some 3 := congrArg (fun v => v.2.2) hview
  obtain ⟨-, -, -, hall, -⟩ := script_delivered hg
  obtain ⟨n, -, -, -, houtput⟩ := hall 3 hcode
  rw [htaken, hnoted, List.append_nil] at houtput
  exact ⟨g, hg, hcode, houtput⟩

end Lotse.ScriptChannel
