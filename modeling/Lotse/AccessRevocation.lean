import Lotse.AccessEffects

set_option autoImplicit false

namespace Lotse.AccessRevocation
open Accounts Tasks Access

def roleStored (g : State) (c : SessionConn) : Bool := (g.db.user c.userID).any fun u => u.can c.role

/-- The next step of the task closes the connection: it is about to collect the
connections to close, or the connection is among those it has collected. -/
def covers (c : SessionConn) : List Instr → Bool
  | .closeConns m :: _ => m.hits c
  | .stops cids :: _ => c.cid ∈ cids
  | _ => false

def Covered (cfg : Config State Instr) (c : SessionConn) : Prop := ∃ t ∈ cfg.tasks, covers c t

def pastClose (token : ℕ) (t : List Instr) : Bool :=
  .deleteSession token ∈ t ∧ t.head? ≠ some (.closeConns (.session token))

def LoggingOut (cfg : Config State Instr) (token : ℕ) : Prop := ∃ t ∈ cfg.tasks, pastClose token t

def SessionSafe (cfg : Config State Instr) (c : SessionConn) : Prop :=
  (c.session ∉ cfg.global.revoked ∧ ¬ LoggingOut cfg c.session) ∨ Covered cfg c

def RoleSafe (cfg : Config State Instr) (c : SessionConn) : Prop :=
  roleStored cfg.global c ∨ Covered cfg c

/-- The condition on a call of `track`, in the state before it. -/
def TrackInTime (cfg : Config State Instr) : Instr → Prop
  | .track s role =>
    let c : SessionConn := ⟨cfg.global.nextConn, s.token, s.user.id, role, false⟩
    SessionSafe cfg c ∧ RoleSafe cfg c
  | _ => True

instance (cfg : Config State Instr) (c : SessionConn) : Decidable (Covered cfg c) :=
  inferInstanceAs (Decidable (∃ t ∈ cfg.tasks, covers c t))

instance (cfg : Config State Instr) (token : ℕ) : Decidable (LoggingOut cfg token) :=
  inferInstanceAs (Decidable (∃ t ∈ cfg.tasks, pastClose token t))

instance (cfg : Config State Instr) (c : SessionConn) : Decidable (SessionSafe cfg c) :=
  inferInstanceAs (Decidable (_ ∨ _))

instance (cfg : Config State Instr) (c : SessionConn) : Decidable (RoleSafe cfg c) :=
  inferInstanceAs (Decidable (_ ∨ _))

instance (cfg : Config State Instr) : (ins : Instr) → Decidable (TrackInTime cfg ins)
  | .track _ _ => inferInstanceAs (Decidable (_ ∧ _))
  | .requireUser .. | .can .. | .requireElevated .. | .agent | .serve .. | .passwordMatches ..
  | .checkTOTP | .elevateSession .. | .userByName .. | .passkeyByCredential .. | .verifySignature
  | .user .. | .createSession .. | .setup .. | .createUser .. | .createPasskey .. | .patchUser ..
  | .deleteUser .. | .setRole .. | .setPassword .. | .resetTOTP .. | .deletePasskeysOf ..
  | .signOut .. | .deleteSessions .. | .deleteAccount .. | .deleteSession .. | .closeConns ..
  | .stops .. | .done .. | .tick .. => .isTrue trivial

def revoking : Instr → Bool
  | .requireUser _ (.postPassword ..) | .requireUser _ (.patchUser ..)
  | .requireUser _ (.deleteUser ..) | .patchUser .. | .deleteUser .. | .setRole ..
  | .setPassword .. | .resetTOTP .. | .deletePasskeysOf .. | .signOut .. | .deleteSessions ..
  | .deleteAccount .. | .deleteSession .. | .closeConns .. | .stops .. | .done .. => true
  | _ => false

def RevokerInProgress (cfg : Config State Instr) : Prop := ∃ t ∈ cfg.tasks, ∃ ins ∈ t, revoking ins

instance (cfg : Config State Instr) : Decidable (RevokerInProgress cfg) :=
  inferInstanceAs (Decidable (∃ t ∈ cfg.tasks, ∃ ins ∈ t, revoking ins))

/-- No open connection outlives its session or its user's role, except while a
revocation is under way. -/
def RevocationComplete (cfg : Config State Instr) : Prop :=
  ¬ RevokerInProgress cfg → ∀ c ∈ cfg.global.conns, c.stopped = false →
    c.session ∉ cfg.global.revoked ∧ roleStored cfg.global c

instance (cfg : Config State Instr) : Decidable (RevocationComplete cfg) :=
  inferInstanceAs (Decidable (_ → _))

/-- Who owns a session: rows, connections and pending `track` calls name a session
together with the user it was created for, and every token was issued once. -/
structure Owned (cfg : Config State Instr) : Prop where
  rows : ∀ row ∈ cfg.global.db.sessions, (row.token, row.userID) ∈ cfg.global.issued
  unique : ∀ a ∈ cfg.global.issued, ∀ b ∈ cfg.global.issued, a.1 = b.1 → a = b
  conns : ∀ c ∈ cfg.global.conns, (c.session, c.userID) ∈ cfg.global.issued
  pending : ∀ t ∈ cfg.tasks, ∀ s role, .track s role ∈ t → (s.token, s.user.id) ∈ cfg.global.issued

structure Inv (cfg : Config State Instr) : Prop where
  owned : Owned cfg
  session : ∀ c ∈ cfg.global.conns, c.stopped = false → SessionSafe cfg c
  role : ∀ c ∈ cfg.global.conns, c.stopped = false → RoleSafe cfg c

section step
variable {cfg : Config State Instr} {i : ℕ} {ins : Instr} {rest : List Instr} {o : Oracle}
  {out : Outcome State Instr} {c : SessionConn}

theorem covers_step {g : State} (h : atomic o g ins = some out) (hc : c ∈ g.conns)
    (hd : c ∈ out.global.conns) (ho : c.stopped = false) (hcov : covers c (ins :: rest)) :
    covers c (out.resume rest) := by
  cases ins with
  | closeConns m =>
    cases h
    simpa [covers] using ⟨c, ⟨hc, hcov⟩, rfl⟩
  | stops cids =>
    cases cids with
    | nil => simp [covers] at hcov
    | cons cid cids =>
      cases h
      obtain ⟨b, hb, rfl⟩ := List.mem_map.1 hd
      split_ifs at ho hcov ⊢ with hcid
      simpa [covers, hcid] using hcov
  | _ => simp [covers] at hcov

theorem covered_step (hi : cfg.tasks[i]? = some (ins :: rest))
    (h : atomic o cfg.global ins = some out) (hc : c ∈ cfg.global.conns)
    (hd : c ∈ out.global.conns) (ho : c.stopped = false) (hcov : Covered cfg c) :
    Covered ⟨out.global, cfg.tasks.set i (out.resume rest)⟩ c := by
  obtain ⟨t, ht, hct⟩ := hcov
  rcases mem_task_set hi ht with rfl | ht
  · exact ⟨_, new_mem_set hi, covers_step h hc hd ho hct⟩
  · exact ⟨t, ht, hct⟩

theorem loggingOut_step {token : ℕ} (hi : cfg.tasks[i]? = some (ins :: rest))
    (h : atomic o cfg.global ins = some out)
    (hl : LoggingOut ⟨out.global, cfg.tasks.set i (out.resume rest)⟩ token) :
    LoggingOut cfg token ∨ ins = .closeConns (.session token) := by
  obtain ⟨t, ht, hp⟩ := hl
  rcases mem_set_task ht with rfl | ht
  · by_cases hins : ins = .closeConns (.session token)
    · exact .inr hins
    · have hdel : .deleteSession token ∈ out.resume rest := by
        simp only [pastClose, decide_eq_true_eq] at hp
        exact hp.1
      have hrest : .deleteSession token ∈ rest :=
        (Outcome.mem_resume hdel).resolve_left fun hm => atomic_emitted h _ hm
      exact .inl ⟨_, task_mem hi, by simp [pastClose, hrest, hins]⟩
  · exact .inl ⟨t, ht, hp⟩

/-- A step that revokes the session of an open connection leaves its handler with
the closing pass ahead. Only the last step of `postLogout` does not. -/
theorem revoked_step (rest : List Instr) (own : Owned cfg) (h : atomic o cfg.global ins = some out)
    (hc : c ∈ cfg.global.conns) (hr : c.session ∈ out.global.revoked) :
    c.session ∈ cfg.global.revoked ∨ ins = .deleteSession c.session ∨
      covers c (out.resume rest) := by
  have owner : ∀ row ∈ cfg.global.db.sessions, row.token = c.session → row.userID = c.userID := by
    intro row hrow ht
    have := own.unique _ (own.rows row hrow) _ (own.conns c hc) ht
    exact (Prod.mk.inj this).2
  have effect := atomic_effect h
  generalize out.global = g' at effect hr
  cases effect with
  | signedOut request id keep =>
    cases h
    rcases List.mem_append.1 hr with hr | hr
    · obtain ⟨row, hrow, ht⟩ := List.mem_map.1 hr
      obtain ⟨hmem, hgone⟩ := List.mem_filter.1 hrow
      have hu := owner row hmem ht
      simp only [decide_eq_true_eq] at hgone
      right; right
      simp [covers, Match.hits, ← hu, ← ht, hgone]
    · exact .inl hr
  | @deleteAccount id db hdb =>
    simp only [atomic, hdb] at h
    cases h
    rcases List.mem_append.1 hr with hr | hr
    · obtain ⟨row, hrow, ht⟩ := List.mem_map.1 hr
      obtain ⟨hmem, hgone⟩ := List.mem_filter.1 hrow
      have hu := owner row hmem ht
      simp only [decide_eq_true_eq] at hgone
      right; right
      simp [covers, Match.hits, ← hu, hgone]
    · exact .inl hr
  | deleteSession token =>
    rcases List.mem_cons.1 hr with hr | hr
    · exact .inr (.inl (by rw [hr]))
    · exact .inl hr
  | deletePasskeysOf request id =>
    rw [(deletePasskeysOf_frame request id).2.2.1] at hr
    exact .inl hr
  | _ => exact .inl hr

/-- A step that takes the role of an open connection from its user leaves the handler
with the closing pass ahead. -/
theorem role_step (rest : List Instr) (h : atomic o cfg.global ins = some out)
    (hr : roleStored cfg.global c) :
    roleStored out.global c ∨ covers c (out.resume rest) := by
  obtain ⟨u, hu, hcan⟩ := (Option.any_eq_true _ _).1 hr
  rcases user_step (atomic_effect h) hu with ⟨v, hv, hrole | rfl⟩ | ⟨rfl, -⟩
  · left
    simpa [roleStored, hv, User.can, hrole] using hcan
  · by_cases hv' : roleIncludes v.role c.role
    · exact .inl (by simpa [roleStored, hv, User.can] using hv')
    · simp only [atomic] at h
      split at h <;> cases h
      · exact .inl hr
      · exact .inr (by simpa [covers, Match.hits] using hv')
  · simp only [atomic] at h
    split at h <;> cases h
    · exact .inl hr
    · exact .inr (by simp [covers, Match.hits])

theorem session_step (own : Owned cfg) (hi : cfg.tasks[i]? = some (ins :: rest))
    (h : atomic o cfg.global ins = some out) (hc : c ∈ cfg.global.conns)
    (hd : c ∈ out.global.conns) (ho : c.stopped = false) (hs : SessionSafe cfg c) :
    SessionSafe ⟨out.global, cfg.tasks.set i (out.resume rest)⟩ c := by
  rcases hs with ⟨hrev, hlog⟩ | hcov
  · by_cases hins : ins = .closeConns (.session c.session)
    · subst hins
      exact .inr ⟨_, new_mem_set hi, covers_step h hc hd ho (by simp [covers, Match.hits])⟩
    · by_cases hr : c.session ∈ out.global.revoked
      · rcases revoked_step rest own h hc hr with hr | rfl | hcov
        · exact absurd hr hrev
        · exact absurd ⟨_, task_mem hi, by simp [pastClose]⟩ hlog
        · exact .inr ⟨_, new_mem_set hi, hcov⟩
      · refine .inl ⟨hr, fun hl => ?_⟩
        rcases loggingOut_step hi h hl with hl | hl
        · exact hlog hl
        · exact hins hl
  · exact .inr (covered_step hi h hc hd ho hcov)

theorem roleSafe_step (hi : cfg.tasks[i]? = some (ins :: rest))
    (h : atomic o cfg.global ins = some out) (hc : c ∈ cfg.global.conns)
    (hd : c ∈ out.global.conns) (ho : c.stopped = false) (hs : RoleSafe cfg c) :
    RoleSafe ⟨out.global, cfg.tasks.set i (out.resume rest)⟩ c := by
  rcases hs with hr | hcov
  · rcases role_step rest h hr with hr | hcov
    · exact .inl hr
    · exact .inr ⟨_, new_mem_set hi, hcov⟩
  · exact .inr (covered_step hi h hc hd ho hcov)

theorem owned_step (own : Owned cfg) (hi : cfg.tasks[i]? = some (ins :: rest))
    (h : atomic o cfg.global ins = some out) :
    Owned ⟨out.global, cfg.tasks.set i (out.resume rest)⟩ := by
  have effect := atomic_effect h
  have issued : ∀ a ∈ cfg.global.issued, a ∈ out.global.issued := by
    rcases issued_step effect with he | ⟨token, id, -, he⟩
    · exact fun a ha => he ▸ ha
    · exact fun a ha => he ▸ List.mem_cons_of_mem _ ha
  refine ⟨?_, ?_, ?_, ?_⟩
  · intro row hrow
    rcases session_row_step effect hrow with ⟨old, hold, ht, hu, -⟩ | ⟨-, -, -, he⟩
    · rw [← ht, ← hu]
      exact issued _ (own.rows old hold)
    · exact he ▸ List.mem_cons_self
  · rcases issued_step effect with he | ⟨token, id, fresh, he⟩
    · simp only [he]
      exact own.unique
    · have other : ∀ a ∈ cfg.global.issued, a.1 ≠ token :=
        fun a ha hat => fresh (List.mem_map.2 ⟨a, ha, hat⟩)
      simp only [he]
      intro a ha b hb hab
      rcases List.mem_cons.1 ha with rfl | ha <;> rcases List.mem_cons.1 hb with rfl | hb
      · rfl
      · exact absurd hab.symm (other b hb)
      · exact absurd hab (other a ha)
      · exact own.unique a ha b hb hab
  · intro c hc
    rcases conn_step effect hc with ⟨b, hb, hs, hu, -⟩ | ⟨s, role, rfl, rfl⟩
    · rw [← hs, ← hu]
      exact issued _ (own.conns b hb)
    · exact issued _ (own.pending _ (task_mem hi) s role List.mem_cons_self)
  · intro t ht s role hmem
    rcases mem_set_task ht with rfl | ht
    · rcases Outcome.mem_resume hmem with hmem | hmem
      · obtain ⟨token, hs⟩ := atomic_emitted h _ hmem
        obtain ⟨rfl, row, hrow, hrt, hru⟩ := session_spec hs
        rw [← hrt, ← hru]
        exact issued _ (own.rows row hrow)
      · exact issued _ (own.pending _ (task_mem hi) s role (List.mem_cons_of_mem _ hmem))
    · exact issued _ (own.pending t ht s role hmem)

theorem track_step {s : Session} {role : Role} (hi : cfg.tasks[i]? = some (.track s role :: rest))
    (ht : TrackInTime cfg (.track s role)) :
    let c : SessionConn := ⟨cfg.global.nextConn, s.token, s.user.id, role, false⟩
    let d : Config State Instr :=
      ⟨cfg.global.track s role, cfg.tasks.set i (.serve cfg.global.nextConn :: rest)⟩
    SessionSafe d c ∧ RoleSafe d c := by
  intro c d
  have covered : Covered cfg c → Covered d c := by
    rintro ⟨t, ht, hct⟩
    rcases mem_task_set hi ht with rfl | ht
    · simp [covers] at hct
    · exact ⟨t, ht, hct⟩
  obtain ⟨hs, hr⟩ := ht
  refine ⟨?_, hr.imp id covered⟩
  rcases hs with ⟨hrev, hlog⟩ | hcov
  · refine .inl ⟨hrev, fun hl => ?_⟩
    have h : atomic ⟨true, 0⟩ cfg.global (.track s role) =
        some (.next (cfg.global.track s role) [.serve cfg.global.nextConn]) := rfl
    exact (loggingOut_step hi h hl).elim hlog nofun
  · exact .inr (covered hcov)

theorem inv_step (inv : Inv cfg) (ht : TrackInTime cfg ins)
    (hi : cfg.tasks[i]? = some (ins :: rest)) (h : atomic o cfg.global ins = some out) :
    Inv ⟨out.global, cfg.tasks.set i (out.resume rest)⟩ := by
  have safe : ∀ c ∈ out.global.conns, c.stopped = false →
      SessionSafe ⟨out.global, cfg.tasks.set i (out.resume rest)⟩ c ∧
      RoleSafe ⟨out.global, cfg.tasks.set i (out.resume rest)⟩ c := by
    intro c hc ho
    rcases conn_step (atomic_effect h) hc with ⟨b, hb, -, -, heq⟩ | ⟨s, role, rfl, rfl⟩
    · obtain rfl := heq ho
      exact ⟨session_step inv.owned hi h hb hc ho (inv.session c hb ho),
        roleSafe_step hi h hb hc ho (inv.role c hb ho)⟩
    · cases h
      exact track_step hi ht
  exact ⟨owned_step inv.owned hi h, fun c hc ho => (safe c hc ho).1,
    fun c hc ho => (safe c hc ho).2⟩

end step

theorem code_not_pastClose (token : ℕ) (r : Request) : pastClose token (code r) = false := by
  cases r with
  | logout t =>
    by_cases h : token = t
    · simp [pastClose, code, h]
    · simp [pastClose, code, h]
  | _ => simp [pastClose, code]

theorem inv_start {cfg : Config State Instr} (inv : Inv cfg) (r : Request) :
    Inv ⟨cfg.global, cfg.tasks ++ [code r]⟩ := by
  have covered : ∀ c, Covered cfg c → Covered ⟨cfg.global, cfg.tasks ++ [code r]⟩ c :=
    fun c ⟨t, ht, hct⟩ => ⟨t, List.mem_append_left _ ht, hct⟩
  have loggingOut : ∀ token, LoggingOut ⟨cfg.global, cfg.tasks ++ [code r]⟩ token →
      LoggingOut cfg token := by
    rintro token ⟨t, ht, hp⟩
    rcases List.mem_append.1 ht with ht | ht
    · exact ⟨t, ht, hp⟩
    · rw [List.mem_singleton.1 ht, code_not_pastClose] at hp
      cases hp
  refine ⟨⟨inv.owned.rows, inv.owned.unique, inv.owned.conns, ?_⟩, ?_, ?_⟩
  · intro t ht s role hmem
    rcases List.mem_append.1 ht with ht | ht
    · exact inv.owned.pending t ht s role hmem
    · rw [List.mem_singleton.1 ht] at hmem
      cases r <;> simp [code] at hmem
  · intro c hc ho
    exact (inv.session c hc ho).imp (And.imp_right (mt (loggingOut _))) (covered c)
  · intro c hc ho
    exact (inv.role c hc ho).imp id (covered c)

theorem inv_restart {cfg : Config State Instr} (inv : Inv cfg) : Inv ⟨restart cfg.global, []⟩ :=
  ⟨⟨inv.owned.rows, inv.owned.unique, nofun, nofun⟩, nofun, nofun⟩

theorem inv_init : Inv init := ⟨⟨nofun, nofun, nofun, nofun⟩, nofun, nofun⟩

theorem covered_inProgress {cfg : Config State Instr} {c : SessionConn} (h : Covered cfg c) :
    RevokerInProgress cfg := by
  obtain ⟨t, ht, hct⟩ := h
  match t, ht, hct with
  | .closeConns m :: rest, ht, _ => exact ⟨_, ht, _, List.mem_cons_self, rfl⟩
  | .stops cids :: rest, ht, _ => exact ⟨_, ht, _, List.mem_cons_self, rfl⟩

/-- When every connection is tracked in time, revocation is complete. -/
theorem revocation_complete {acts : List (Action Oracle Request)} {cfg : Config State Instr}
    (hm : Runs.Meets machine.step (Machine.Guard TrackInTime) init acts)
    (he : Runs.exec machine.step init acts = some cfg) : RevocationComplete cfg := by
  have inv : Inv cfg := machine.guarded_invariant (J := Inv) (fun _ r h => inv_start h r)
    (fun _ _ _ _ _ _ h ht hi ho => inv_step h ht hi ho)
    (fun _ _ h hg => by cases hg; exact inv_restart h) inv_init hm he
  intro idle c hc ho
  have uncovered : ¬ Covered cfg c := fun h => idle (covered_inProgress h)
  exact ⟨((inv.session c hc ho).resolve_right uncovered).1,
    (inv.role c hc ho).resolve_right uncovered⟩

def shellRequested : List (Action Oracle Request) :=
  .start (.setup 0 ⟨5, 0⟩) :: steps 0 2 1 ++
  .start (.authenticated 1 (.postElevate 5)) :: steps 1 4 0 ++
  .start (.authenticated 1 .handleShell) :: steps 2 7 0

/-- A terminal that is registered before its session signs out is closed. -/
theorem revocation_complete_logout : ∃ acts cfg,
    Runs.Meets machine.step (Machine.Guard TrackInTime) init acts ∧
    Runs.exec machine.step init acts = some cfg ∧ cfg.global.revoked = [1] ∧
    cfg.global.conns.length = 1 ∧ RevocationComplete cfg := by
  let acts := shellRequested ++ steps 2 1 0 ++ .start (.logout 1) :: steps 3 4 0
  have hm : Runs.Meets machine.step (Machine.Guard TrackInTime) init acts := by decide
  exact ⟨acts, _, hm, rfl, rfl, rfl, revocation_complete hm rfl⟩

/-- The session signs out while the terminal is being set up: `closeSessionConns` finds
no connection, and `track` then registers one that nobody closes. -/
theorem revocation_incomplete : ∃ acts cfg,
    Runs.exec machine.step init acts = some cfg ∧ ¬ RevocationComplete cfg :=
  ⟨shellRequested ++ .start (.logout 1) :: steps 3 3 0 ++ steps 2 1 0, _, rfl, by decide⟩

end Lotse.AccessRevocation
