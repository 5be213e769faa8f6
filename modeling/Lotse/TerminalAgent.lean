import Lotse.TerminalMachine

set_option autoImplicit false

namespace Lotse.Terminal
open Utf8 (Bytes)
open Links (Passes)

def upBytes (l : List UpMsg) : Bytes := l.flatMap UpMsg.bytes
def downBytes (l : List DownMsg) : Bytes := l.flatMap DownMsg.bytes
def shownBytes (l : List TermMsg) : Bytes := l.flatMap TermMsg.bytes

@[simp] theorem upBytes_nil : upBytes [] = [] := rfl
@[simp] theorem downBytes_nil : downBytes [] = [] := rfl
@[simp] theorem shownBytes_nil : shownBytes [] = [] := rfl

@[simp] theorem upBytes_append (l l' : List UpMsg) : upBytes (l ++ l') = upBytes l ++ upBytes l' :=
  List.flatMap_append

@[simp] theorem downBytes_append (l l' : List DownMsg) :
    downBytes (l ++ l') = downBytes l ++ downBytes l' := List.flatMap_append

@[simp] theorem shownBytes_append (l l' : List TermMsg) :
    shownBytes (l ++ l') = shownBytes l ++ shownBytes l' := List.flatMap_append

@[simp] theorem upBytes_one (m : UpMsg) : upBytes [m] = m.bytes := by simp [upBytes]
@[simp] theorem downBytes_one (m : DownMsg) : downBytes [m] = m.bytes := by simp [downBytes]
@[simp] theorem shownBytes_one (m : TermMsg) : shownBytes [m] = m.bytes := by simp [shownBytes]

theorem upBytes_mono {l l' : List UpMsg} (h : l <+: l') : upBytes l <+: upBytes l' := by
  obtain ⟨rest, rfl⟩ := h
  rw [upBytes_append]
  exact List.prefix_append _ _

theorem downBytes_mono {l l' : List DownMsg} (h : l <+: l') : downBytes l <+: downBytes l' := by
  obtain ⟨rest, rfl⟩ := h
  rw [downBytes_append]
  exact List.prefix_append _ _

namespace Copy

@[simp] theorem pending_wrote (chunk : Bytes) (n : ℕ) : (wrote chunk n).pending = chunk.drop n := by
  unfold wrote
  split_ifs with h
  · exact h.symm
  · rfl

def active : Copy → Bool
  | read | write _ => true
  | _ => false

end Copy

theorem concat_prefix_of_notMem {μ : Type*} {pre sent out : List μ} {m : μ} (hm : m ∉ out)
    (h : pre ++ [m] <+: sent ++ out) : pre ++ [m] <+: sent := by
  rcases List.prefix_or_prefix_of_prefix h (List.prefix_append sent out) with hle | hge
  · exact hle
  · rcases List.prefix_concat_iff.1 hge with rfl | ⟨q, rfl⟩
    · exact List.prefix_rfl
    · rw [List.append_assoc, List.prefix_append_right_inj] at h
      exact absurd (h.subset (by simp)) hm

namespace RunPc

def waited : RunPc → Bool
  | idle | wait => false
  | _ => true

def joined : RunPc → Bool
  | sendExit | closeChannel | done => true
  | _ => false

def exitSent : RunPc → Bool
  | closeChannel | done => true
  | _ => false

theorem joined_of_exitSent {pc : RunPc} (h : pc.exitSent = true) : pc.joined = true := by
  cases pc <;> first | rfl | cases h

end RunPc

def ServePc.ended : ServePc → Bool
  | .closeChannel | .done => true
  | _ => false

def InRange (size : ℕ × ℕ) : Prop :=
  (1 ≤ size.1 ∧ size.1 ≤ 1000) ∧ (1 ≤ size.2 ∧ size.2 ≤ 1000)

theorem dim_range (v : ℕ) {default : ℕ} (h : 1 ≤ default ∧ default ≤ 1000) :
    1 ≤ Agent.dim v default ∧ Agent.dim v default ≤ 1000 := by
  unfold Agent.dim
  split_ifs with hv
  · exact h
  · omega

/-- What holds of the agent's side, with all it has sent and received. -/
structure Session.Ok (s : Session) (sent : List UpMsg) (got : List DownMsg) : Prop where
  printed : s.taken ++ s.out ++ s.abandoned = s.printed
  opened : s.ptyOpen = true → s.abandoned = []
  shut : s.ptyOpen = false → s.out = []
  forwarded : Passes (s.copyOut ≠ .done ∨ s.canSend = true) s.taken (upBytes sent) s.copyOut.pending
  absent : s.proc = .absent → s.run = .idle ∧ s.ptyOpen = false ∧ s.abandoned = [] ∧
    s.copyOut = .idle ∧ s.copyIn = .idle
  waited : s.run.waited = true → ∃ code waitError, s.proc = .exited code waitError
  joining : s.run = .join → s.ptyOpen = false
  joined : s.run.joined = true → s.copyOut = .done ∧ s.ptyOpen = false
  exit : ∀ pre n, pre ++ [UpMsg.exitStatus n] <+: sent →
    s.run.exitSent = true ∧ upBytes pre = s.taken ∧ n = s.proc.runStatus
  fed : s.fed ++ s.input = downBytes got
  keys : Passes (s.copyIn ≠ .done) s.fed s.keys s.copyIn.pending
  size : InRange s.size
  ended : s.serve.ended = true → s.ptyOpen = false ∧ (s.run = .wait → s.killed = true)

namespace Session
variable {s s' : Session} {sent out : List UpMsg} {got : List DownMsg}

theorem init_ok : init.Ok [] [] where
  printed := rfl
  opened := nofun
  shut _ := rfl
  forwarded := .nil
  absent _ := ⟨rfl, rfl, rfl, rfl, rfl⟩
  waited := nofun
  joining := nofun
  joined := nofun
  exit pre n h := by simp at h
  fed := rfl
  keys := .nil
  size := ⟨by decide, by decide⟩
  ended := nofun

theorem upBytes_emit {m : UpMsg} (h : m.bytes = []) : upBytes (s.emit m) = [] := by
  unfold emit
  split_ifs <;> simp [h]

theorem Ok.exit_append (h : s.Ok sent got) (hout : ∀ n, UpMsg.exitStatus n ∉ out) :
    ∀ pre n, pre ++ [UpMsg.exitStatus n] <+: sent ++ out →
      s.run.exitSent = true ∧ upBytes pre = s.taken ∧ n = s.proc.runStatus := by
  intro pre n hpre
  exact h.exit pre n (concat_prefix_of_notMem (hout n) hpre)

theorem emit_exit {m : UpMsg} (h : ∀ n, m ≠ .exitStatus n) : ∀ n, UpMsg.exitStatus n ∉ s.emit m := by
  intro n hn
  unfold emit at hn
  split_ifs at hn
  · exact h n (List.mem_singleton.1 hn).symm
  · cases hn

theorem Ok.forwarded_emit (h : s.Ok sent got) {m : UpMsg} (hm : m.bytes = []) :
    Passes (s.copyOut ≠ .done ∨ s.canSend = true) s.taken (upBytes (sent ++ s.emit m))
      s.copyOut.pending := by
  rw [upBytes_append, upBytes_emit hm, List.append_nil]
  exact h.forwarded

theorem Ok.closePTY (h : s.Ok sent got) : s.closePTY.Ok sent got := by
  unfold Session.closePTY
  split_ifs with hopen
  · refine { h with
      printed := ?_
      opened := nofun
      shut := fun _ => rfl
      absent := ?_
      joining := fun _ => rfl
      joined := fun hj => ⟨(h.joined hj).1, rfl⟩
      ended := fun he => ⟨rfl, (h.ended he).2⟩ }
    · have := h.printed
      rw [h.opened hopen, List.append_nil] at this
      simpa using this
    · intro ha
      rw [(h.absent ha).2.1] at hopen
      cases hopen
  · exact h

@[simp] theorem closePTY_ptyOpen (s : Session) : s.closePTY.ptyOpen = false := by
  unfold closePTY
  split_ifs with h
  · rfl
  · simpa using h

@[simp] theorem closePTY_run (s : Session) : s.closePTY.run = s.run := by
  unfold closePTY
  split_ifs <;> rfl

theorem copyOut_ok {n : ℕ} (h : s.Ok sent got) (hs : s.copyOutStep n = some (s', out)) :
    s'.Ok (sent ++ out) got := by
  have hcopying : s.copyOut ≠ .done → s.run.joined ≠ true := fun hne hj => hne (h.joined hj).1
  have hpresent : s.copyOut ≠ .idle → s.proc ≠ .absent := fun hne ha => hne (h.absent ha).2.2.2.1
  unfold copyOutStep at hs
  split at hs
  · rename_i hread
    have hnotsent : ¬ s.run.exitSent = true := fun he =>
      hcopying (by simp [hread]) (RunPc.joined_of_exitSent he)
    split_ifs at hs with hout hheld
    · cases hs
      rw [List.append_nil]
      have hfw := h.forwarded
      rw [hread] at hfw
      refine { h with
        printed := ?_
        shut := fun hc => ?_
        forwarded := hfw.push (.inl (by simp)) _
        absent := fun ha => absurd ha (hpresent (by simp [hread]))
        joined := fun hj => absurd hj (hcopying (by simp [hread]))
        exit := fun pre n hpre => absurd (h.exit pre n hpre).1 hnotsent }
      · rw [← h.printed]
        simp
      · rw [hout.1] at hc
        cases hc
    · cases hs
      rw [List.append_nil]
      have hfw := h.forwarded
      rw [hread] at hfw
      exact { h with
        forwarded := hfw.mono fun _ => .inl (by simp)
        absent := fun ha => absurd ha (hpresent (by simp [hread]))
        joined := fun hj => ⟨rfl, (h.joined hj).2⟩ }
  · rename_i chunk hwrite
    have hnotjoined := hcopying (by simp [hwrite])
    have hnotsent : ¬ s.run.exitSent = true := fun he => hnotjoined (RunPc.joined_of_exitSent he)
    have hfw := h.forwarded
    rw [hwrite] at hfw
    split_ifs at hs with hsend
    · cases hs
      refine { h with
        forwarded := ?_
        absent := fun ha => absurd ha (hpresent (by simp [hwrite]))
        joined := fun hj => absurd hj hnotjoined
        exit := fun pre n hpre => absurd (h.exit_append (by simp) pre n hpre).1 hnotsent }
      rw [upBytes_append, upBytes_one, Copy.pending_wrote]
      exact (hfw.pull (List.take_append_drop (n + 1) chunk).symm).mono fun _ => .inl (by simp)
    · cases hs
      rw [List.append_nil]
      exact { h with
        forwarded := hfw.lose (by simpa [canSend] using hsend) List.nil_prefix
        absent := fun ha => absurd ha (hpresent (by simp [hwrite]))
        joined := fun hj => absurd hj hnotjoined }
  · cases hs

theorem copyIn_ok {n : ℕ} (h : s.Ok sent got) (hs : s.copyInStep n = some (s', out)) :
    s'.Ok (sent ++ out) got := by
  have hpresent : s.copyIn ≠ .idle → s.proc ≠ .absent := fun hne ha => hne (h.absent ha).2.2.2.2
  have hkeys := h.keys
  unfold copyInStep at hs
  split at hs
  · rename_i hread
    rw [hread] at hkeys
    have hp := hpresent (by simp [hread])
    split_ifs at hs with hinput hclosed
    · cases hs
      rw [List.append_nil]
      refine { h with
        absent := fun ha => absurd ha hp
        fed := ?_
        keys := hkeys.push (by simp) _ }
      rw [← h.fed]
      simp
    · cases hs
      rw [List.append_nil]
      exact { h with
        absent := fun ha => absurd ha hp
        keys := hkeys.mono fun _ => by simp }
  · rename_i chunk hwrite
    rw [hwrite] at hkeys
    have hp := hpresent (by simp [hwrite])
    split_ifs at hs with hopen
    · cases hs
      rw [List.append_nil]
      refine { h with
        absent := fun ha => absurd ha hp
        keys := ?_ }
      rw [Copy.pending_wrote]
      exact (hkeys.pull (List.take_append_drop (n + 1) chunk).symm).mono fun _ => by simp
    · cases hs
      rw [List.append_nil]
      exact { h with
        absent := fun ha => absurd ha hp
        keys := hkeys.lose (by simp) List.nil_prefix }
  · cases hs

theorem Ok.goto (h : s.Ok sent got) {pc : RunPc} (hrun : s.run ≠ .idle)
    (hsent : s.run.exitSent = false) (hpc : pc ≠ .wait)
    (hexited : ∃ code waitError, s.proc = .exited code waitError)
    (hjoining : pc = .join → s.ptyOpen = false)
    (hjoined : pc.joined = true → s.copyOut = .done ∧ s.ptyOpen = false) :
    ({ s with run := pc } : Session).Ok sent got :=
  { h with
    absent := fun ha => absurd (h.absent ha).1 hrun
    waited := fun _ => hexited
    joining := hjoining
    joined := hjoined
    exit := fun pre n hpre => by simpa [hsent] using (h.exit pre n hpre).1
    ended := fun he => ⟨(h.ended he).1, fun hw => absurd hw hpc⟩ }

/-- The status is sent only while the channel is open, so all output was sent before it. -/
theorem sendExit_ok (h : s.Ok sent got) (hpc : s.run = .sendExit) :
    ({ s with run := .closeChannel } : Session).Ok
      (sent ++ s.emit (.exitStatus s.proc.runStatus)) got := by
  have hjoined := h.joined (by simp [hpc, RunPc.joined])
  have hnot : ¬ s.run.exitSent = true := by simp [hpc, RunPc.exitSent]
  refine { h with
    forwarded := h.forwarded_emit rfl
    absent := fun ha => by simp [(h.absent ha).1] at hpc
    waited := fun _ => h.waited (by simp [hpc, RunPc.waited])
    joining := nofun
    joined := fun _ => hjoined
    exit := fun pre n hpre => ⟨rfl, ?_⟩
    ended := fun he => ⟨(h.ended he).1, nofun⟩ }
  unfold emit at hpre
  split_ifs at hpre with hsend
  · rcases List.prefix_concat_iff.1 hpre with heq | hold
    · obtain ⟨rfl, hn⟩ := List.append_inj' heq rfl
      simp only [List.cons.injEq, UpMsg.exitStatus.injEq, and_true] at hn
      have hfw := h.forwarded
      rw [hjoined.1] at hfw
      exact ⟨hfw.done_eq (.inr hsend), hn⟩
    · exact absurd (h.exit pre n hold).1 hnot
  · rw [List.append_nil] at hpre
    exact absurd (h.exit pre n hpre).1 hnot

theorem run_ok {timeout : Bool} (h : s.Ok sent got) (hs : s.runStep timeout = some (s', out)) :
    s'.Ok (sent ++ out) got := by
  cases hpc : s.run with
  | idle | done => simp [runStep, hpc] at hs
  | wait =>
    simp only [runStep, hpc] at hs
    split at hs
    · rename_i code waitError hproc
      cases hs
      rw [List.append_nil]
      exact h.goto (by simp [hpc]) (by simp [hpc, RunPc.exitSent]) (by simp)
        ⟨code, waitError, hproc⟩ nofun nofun
    · cases hs
  | drain =>
    simp only [runStep, hpc] at hs
    split_ifs at hs
    cases hs
    rw [List.append_nil]
    exact h.goto (by simp [hpc]) (by simp [hpc, RunPc.exitSent]) (by simp)
      (h.waited (by simp [hpc, RunPc.waited])) nofun nofun
  | closePTY =>
    simp only [runStep, hpc] at hs
    cases hs
    rw [List.append_nil]
    have hc := h.closePTY
    exact hc.goto (by simp [hpc]) (by simp [hpc, RunPc.exitSent]) (by simp)
      (hc.waited (by simp [hpc, RunPc.waited])) (fun _ => by simp) nofun
  | join =>
    simp only [runStep, hpc] at hs
    split_ifs at hs with hdone
    cases hs
    rw [List.append_nil]
    exact h.goto (by simp [hpc]) (by simp [hpc, RunPc.exitSent]) (by simp)
      (h.waited (by simp [hpc, RunPc.waited])) nofun fun _ => ⟨hdone, h.joining hpc⟩
  | sendExit =>
    simp only [runStep, hpc] at hs
    cases hs
    exact sendExit_ok h hpc
  | closeChannel =>
    simp only [runStep, hpc] at hs
    cases hs
    refine { h with
      forwarded := (h.forwarded_emit rfl).mono ?_
      absent := fun ha => by simp [(h.absent ha).1] at hpc
      waited := fun _ => h.waited (by simp [hpc, RunPc.waited])
      joining := nofun
      joined := fun _ => h.joined (by simp [hpc, RunPc.joined])
      exit := fun pre n hpre => ⟨rfl, (h.exit_append (emit_exit (by simp)) pre n hpre).2⟩
      ended := fun he => ⟨(h.ended he).1, nofun⟩ }
    rintro (hne | hsend)
    · exact .inl hne
    · simp [canSend] at hsend

theorem Ok.handle (h : s.Ok sent got) (started : Bool) (r : Request) (hloop : s.serve = .loop) :
    (s.handle started r).1.Ok (sent ++ (s.handle started r).2) got := by
  have hreply : ∀ ok, s.Ok (sent ++ s.emit (.reply ok)) got := fun ok =>
    { h with
      forwarded := h.forwarded_emit rfl
      exit := h.exit_append (emit_exit (by simp)) }
  cases r with
  | ptyReq columns rows =>
    simp only [Session.handle]
    split_ifs with hproc
    · exact hreply false
    · have := hreply true
      exact { this with }
  | windowChange columns rows =>
    simp only [Session.handle]
    split_ifs with hproc
    · rw [List.append_nil]
      exact { h with size := ⟨dim_range columns (by decide), dim_range rows (by decide)⟩ }
    · simpa using h
  | shell =>
    simp only [Session.handle]
    split
    · exact hreply false
    · split_ifs with hproc hstarted
      · exact hreply false
      · have hr := hreply true
        obtain ⟨hrun, hshut, habandoned, hout, hin⟩ := h.absent (not_not.1 hproc)
        have hfw := hr.forwarded
        have hkeys := hr.keys
        rw [hout] at hfw
        rw [hin] at hkeys
        refine { hr with
          opened := fun _ => habandoned
          shut := nofun
          forwarded := hfw.mono fun _ => .inl (by simp)
          absent := nofun
          waited := nofun
          joining := nofun
          joined := nofun
          exit := fun pre n hpre => by simpa [hrun, RunPc.exitSent] using (hr.exit pre n hpre).1
          keys := hkeys.mono fun _ => by simp
          size := ⟨dim_range _ (by decide), dim_range _ (by decide)⟩
          ended := fun he => ?_ }
        rw [hloop] at he
        cases he
      · obtain ⟨hrun, hshut, -⟩ := h.absent (not_not.1 hproc)
        exact { hreply false with ended := fun _ => ⟨hshut, fun hw => by simp [hrun] at hw⟩ }

theorem serve_ok {started : Bool} (h : s.Ok sent got) (hs : s.serveStep started = some (s', out)) :
    s'.Ok (sent ++ out) got := by
  unfold serveStep at hs
  split at hs
  · rename_i hloop
    split at hs
    · rename_i r reqs hreqs
      have hrest : ({ s with reqs := reqs } : Session).Ok sent got := { h with }
      have hnew := hrest.handle started r hloop
      rwa [Option.some.inj hs] at hnew
    · split_ifs at hs
      cases hs
      rw [List.append_nil]
      exact { h with ended := nofun }
  · cases hs
    rw [List.append_nil]
    exact { h.closePTY with ended := fun _ => ⟨by simp, fun hw => by simp_all⟩ }
  · rename_i hpc
    cases hs
    refine { h with
      forwarded := (h.forwarded_emit rfl).mono ?_
      exit := h.exit_append (emit_exit (by simp))
      ended := fun _ => h.ended (by simp [hpc, ServePc.ended]) }
    rintro (hne | hsend)
    · exact .inl hne
    · simp [canSend] at hsend
  · cases hs

theorem step_ok {a : Act} (h : s.Ok sent got) (hs : s.step a = some (s', out)) :
    s'.Ok (sent ++ out) got := by
  cases a with
  | print b =>
    simp only [step] at hs
    split_ifs at hs with hopen
    cases hs
    rw [List.append_nil]
    refine { h with
      printed := ?_
      shut := fun hc => by simp [hopen.1] at hc }
    have := h.printed
    rw [h.opened hopen.1, List.append_nil] at this ⊢
    rw [← this, List.append_assoc]
  | exit code waitError =>
    simp only [step] at hs
    split_ifs at hs with hrunning
    cases hs
    rw [List.append_nil]
    refine { h with
      absent := nofun
      waited := fun _ => ⟨code, waitError, rfl⟩
      exit := fun pre n hpre => ?_ }
    -- a status is only sent after the shell has exited
    have hwaited : s.run.waited = true := by
      have := (h.exit pre n hpre).1
      cases hpc : s.run <;> simp_all [RunPc.exitSent, RunPc.waited]
    obtain ⟨c, e, hexited⟩ := h.waited hwaited
    rw [hrunning] at hexited
    cases hexited
  | hangUp =>
    simp only [step] at hs
    split_ifs at hs
    cases hs
    rw [List.append_nil]
    exact { h with }
  | copyOut n => exact copyOut_ok h hs
  | copyIn n => exact copyIn_ok h hs
  | run timeout => exact run_ok h hs
  | serve started => exact serve_ok h hs

theorem receive_ok {m : DownMsg} (h : s.Ok sent got) (hs : s.receive m = some (s', out)) :
    s'.Ok (sent ++ out) (got ++ [m]) := by
  unfold receive at hs
  split_ifs at hs with hclosed
  cases m with
  | data b =>
    cases hs
    rw [List.append_nil]
    refine { h with fed := ?_ }
    rw [downBytes_append, downBytes_one, ← h.fed, List.append_assoc]
    rfl
  | request r =>
    cases hs
    rw [List.append_nil]
    exact { h with fed := by simpa [DownMsg.bytes] using h.fed }
  | close =>
    cases hs
    refine { h with
      forwarded := (h.forwarded_emit rfl).mono ?_
      exit := h.exit_append (emit_exit (by simp))
      fed := by simpa [DownMsg.bytes] using h.fed }
    rintro (hne | hsend)
    · exact .inl hne
    · simp [canSend] at hsend

theorem lost_ok (h : s.Ok sent got) : (agent.lost s).Ok sent got := by
  refine { h with forwarded := h.forwarded.mono ?_ }
  rintro (hne | hsend)
  · exact .inl hne
  · simp [canSend, agent] at hsend

end Session

theorem agent_keeps : agent.Keeps Session.Ok where
  step h hs := Session.step_ok h hs
  receive h hs := Session.receive_ok h hs
  lost h := Session.lost_ok h

end Lotse.Terminal
