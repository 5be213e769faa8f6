import Lotse.AccessEffects

set_option autoImplicit false

namespace Lotse.AccessCredentials
open Accounts Tasks Access Rows

/-- Every session of the account that changed, other than the one that made the
change, comes from credentials the account had after the change. -/
def EndedAccess (g : State) (ch : Change) : Prop :=
  ∀ row ∈ g.db.sessions, ∀ u ∈ g.db.user row.userID, ch.serial = some u.serial →
    ch.keep ≠ some row.token → ch.Accepts row.proof

instance (g : State) (ch : Change) : Decidable (EndedAccess g ch) :=
  inferInstanceAs (Decidable (∀ row ∈ g.db.sessions, ∀ u ∈ g.db.user row.userID,
    ch.serial = some u.serial → ch.keep ≠ some row.token → ch.Accepts row.proof))

def ChangesEndAccess (g : State) : Prop :=
  ∀ ch ∈ g.changes, ch.stage = .completed → EndedAccess g ch

instance (g : State) : Decidable (ChangesEndAccess g) :=
  inferInstanceAs (Decidable (∀ ch ∈ g.changes, ch.stage = .completed → EndedAccess g ch))

/-- The condition on the steps of a run. At `CreateSession`, what the sign-in has verified
is still accepted after every change that has signed the account out, and the statement of
a sign-out succeeds. -/
def InOrder (cfg : Config State Instr) : Instr → Prop
  | .createSession id proof => ∀ ch ∈ cfg.global.changes, ch.stage ≠ .applied →
      ∀ u ∈ cfg.global.db.user id, ch.serial = some u.serial → ch.Accepts proof
  | .deleteSessions _ _ _ ok => ok = true
  | _ => True

instance (cfg : Config State Instr) : (ins : Instr) → Decidable (InOrder cfg ins)
  | .createSession id proof => inferInstanceAs (Decidable (∀ ch ∈ cfg.global.changes,
      ch.stage ≠ .applied → ∀ u ∈ cfg.global.db.user id, ch.serial = some u.serial →
        ch.Accepts proof))
  | .deleteSessions _ _ _ ok => inferInstanceAs (Decidable (ok = true))
  | .requireUser .. | .can .. | .requireElevated .. | .agent | .track .. | .serve ..
  | .passwordMatches .. | .checkTOTP | .elevateSession .. | .userByName ..
  | .passkeyByCredential .. | .verifySignature | .user .. | .setup .. | .createUser ..
  | .createPasskey .. | .patchUser .. | .deleteUser .. | .setRole .. | .setPassword ..
  | .resetTOTP .. | .deletePasskeysOf .. | .signOut .. | .deleteAccount .. | .deleteSession ..
  | .closeConns .. | .stops .. | .done ..
  | .tick .. => .isTrue trivial

structure Serials (g : State) : Prop where
  bound : ∀ id u, g.db.user id = some u → u.serial < g.db.serials
  inj : ∀ a b u v, g.db.user a = some u → g.db.user b = some v → u.serial = v.serial → a = b
  known : ∀ ch ∈ g.changes, ∀ n, ch.serial = some n → n < g.db.serials
  owner : ∀ ch ∈ g.changes, ∀ id u, g.db.user id = some u → ch.serial = some u.serial →
    ch.userID = id

structure Inv (g : State) : Prop where
  serials : Serials g
  rows : ∀ row ∈ g.db.sessions, (g.db.user row.userID).isSome
  ended : ∀ ch ∈ g.changes, ch.stage ≠ .applied → EndedAccess g ch

section step
variable {g g' : State} {ins : Instr} {ch : Change}

theorem serials_step (effect : Effect g ins g') : g.db.serials ≤ g'.db.serials := by
  cases effect with
  | createUser hdb =>
    rw [State.createUser_db, (createUser_spec hdb).2.1]
    exact Nat.le_succ _
  | createSession fresh hdb => exact (createSession_spec hdb).2.1.ge
  | createPasskey hdb => exact (createPasskey_spec hdb).2.2.ge
  | setRole hdb => exact (setRole_spec hdb).2.1.ge
  | deleteAccount hdb => exact (deleteUser_spec hdb).2.1.ge
  | deletePasskeysOf request id => exact (deletePasskeysOf_frame request id).2.2.2.2.2.ge
  | _ => exact le_rfl

theorem user_back_step {id : ℕ} {v : User} (effect : Effect g ins g')
    (hv : g'.db.user id = some v) :
    (∃ u, g.db.user id = some u ∧ u.serial = v.serial) ∨
      (id = nextId User.id g.db.users ∧ v.serial = g.db.serials ∧
        g'.db.serials = g.db.serials + 1) := by
  have same : ∀ db : Store, db.users = g.db.users → db.user id = some v →
      ∃ u, g.db.user id = some u ∧ u.serial = v.serial :=
    fun db he hv => ⟨v, by rw [← hv, Store.user, Store.user, he], rfl⟩
  cases effect with
  | createUser hdb =>
    obtain ⟨-, hserials, u, husers, hserial, hid⟩ := createUser_spec hdb
    rw [State.createUser_db, Store.user, husers] at hv
    by_cases hu : u.id = id
    · subst hu
      have hfresh : lookup User.id u.id g.db.users = none := by
        rw [hid]
        exact lookup_nextId _
      rw [lookup_append_self hfresh] at hv
      cases hv
      exact .inr ⟨hid, hserial, hserials⟩
    · rw [lookup_append_ne hu] at hv
      exact .inl ⟨v, hv, rfl⟩
  | @setRole target role db hdb =>
    obtain ⟨-, -, ⟨u, hu, hnew⟩, hother⟩ := setRole_spec hdb
    by_cases ht : id = target
    · subst ht
      cases hnew.symm.trans hv
      exact .inl ⟨u, hu, rfl⟩
    · exact .inl ⟨v, (hother id ht).symm.trans hv, rfl⟩
  | @deleteAccount target db hdb =>
    obtain ⟨-, -, hnone, hother⟩ := deleteUser_spec hdb
    by_cases ht : id = target
    · subst ht
      cases hnone.symm.trans hv
    · exact .inl ⟨v, (hother id ht).symm.trans hv, rfl⟩
  | setPassword request target hash =>
    obtain ⟨u, hu, rfl⟩ := Option.map_eq_some_iff.1 ((setPassword_user hash id).symm.trans hv)
    refine .inl ⟨u, hu, ?_⟩
    split_ifs <;> rfl
  | resetTOTP target =>
    obtain ⟨u, hu, rfl⟩ := Option.map_eq_some_iff.1 ((setTOTP_user false id).symm.trans hv)
    refine .inl ⟨u, hu, ?_⟩
    split_ifs <;> rfl
  | createSession fresh hdb => exact .inl (same _ (createSession_spec hdb).1 hv)
  | createPasskey hdb => exact .inl (same _ (createPasskey_spec hdb).1 hv)
  | deletePasskeysOf request target =>
    exact .inl (same _ (deletePasskeysOf_frame request target).2.2.2.1 hv)
  | _ => exact .inl (same _ rfl hv)

/-- A change is recorded when it is made; later only its stage moves on, and it leaves
`applied` together with the sessions of the account, unless the sign-out fails. -/
theorem change_step (effect : Effect g ins g') (hch : ch ∈ g'.changes) :
    (∃ old ∈ g.changes, old.serial = ch.serial ∧ old.userID = ch.userID ∧
      (∀ proof, old.Accepts proof → ch.Accepts proof) ∧
      (ch.stage ≠ .applied → (old.stage ≠ .applied ∧ old.keep = ch.keep) ∨
        (∀ row ∈ g'.db.sessions, row.userID = ch.userID → ch.keep = some row.token) ∨
        ∃ request id keep, ins = .deleteSessions request id keep false)) ∨
    (ch.serial = (g'.db.user ch.userID).map User.serial ∧
      (ch.stage ≠ .applied → g.db.user ch.userID = none)) := by
  have kept : ch ∈ g.changes → ∃ old ∈ g.changes, old.serial = ch.serial ∧
      old.userID = ch.userID ∧ (∀ proof, old.Accepts proof → ch.Accepts proof) ∧
      (ch.stage ≠ .applied → (old.stage ≠ .applied ∧ old.keep = ch.keep) ∨
        (∀ row ∈ g'.db.sessions, row.userID = ch.userID → ch.keep = some row.token) ∨
        ∃ request id keep, ins = .deleteSessions request id keep false) :=
    fun h => ⟨ch, h, rfl, rfl, fun _ => id, fun hs => .inl ⟨hs, rfl⟩⟩
  cases effect with
  | createUser hdb =>
    rcases List.mem_cons.1 hch with rfl | hch
    · exact .inr ⟨rfl, fun _ => lookup_nextId _⟩
    · exact .inl (kept hch)
  | setPassword request id hash =>
    rcases List.mem_cons.1 hch with rfl | hch
    · exact .inr ⟨rfl, fun hs => absurd rfl hs⟩
    · exact .inl (kept hch)
  | deletePasskeysOf request id =>
    unfold State.deletePasskeysOf at hch kept ⊢
    split_ifs at hch kept ⊢
    · exact .inl (kept hch)
    · rcases List.mem_cons.1 hch with rfl | hch
      · exact .inr ⟨rfl, fun hs => absurd rfl hs⟩
      · exact .inl (kept hch)
  | signedOut request target keep =>
    obtain ⟨old, hold, rfl⟩ := List.mem_map.1 hch
    refine .inl ⟨old, hold, ?_⟩
    split_ifs with hif
    · obtain ⟨-, rfl, -⟩ := hif
      refine ⟨rfl, rfl, fun proof => ?_, fun _ => .inr (.inl fun row hrow hu => ?_)⟩
      · cases proof <;> exact id
      · have hkeep := (List.mem_filter.1 hrow).2
        simp only [decide_eq_true_eq, not_and, not_not] at hkeep
        exact hkeep hu
    · exact ⟨rfl, rfl, fun _ => id, fun hs => .inl ⟨hs, rfl⟩⟩
  | signOutFailed request target keep =>
    obtain ⟨old, hold, rfl⟩ := List.mem_map.1 hch
    refine .inl ⟨old, hold, ?_⟩
    split_ifs with hif
    · refine ⟨rfl, rfl, fun proof => ?_, fun _ => .inr (.inr ⟨request, target, keep, rfl⟩)⟩
      cases proof <;> exact id
    · exact ⟨rfl, rfl, fun _ => id, fun hs => .inl ⟨hs, rfl⟩⟩
  | done request =>
    obtain ⟨old, hold, rfl⟩ := List.mem_map.1 hch
    refine .inl ⟨old, hold, ?_⟩
    split_ifs with hif
    · refine ⟨rfl, rfl, fun proof => ?_, fun _ => .inl ⟨?_, rfl⟩⟩
      · cases proof <;> exact id
      · rw [hif.2]
        nofun
    · exact ⟨rfl, rfl, fun _ => id, fun hs => .inl ⟨hs, rfl⟩⟩
  | _ => exact .inl (kept hch)

theorem serials_inv_step (effect : Effect g ins g') (inv : Serials g) : Serials g' := by
  have hmono := serials_step effect
  have bound : ∀ id v, g'.db.user id = some v → v.serial < g'.db.serials := by
    intro id v hv
    rcases user_back_step effect hv with ⟨u, hu, he⟩ | ⟨-, hserial, hserials⟩
    · have := inv.bound id u hu
      omega
    · omega
  have inj : ∀ a b u v, g'.db.user a = some u → g'.db.user b = some v → u.serial = v.serial →
      a = b := by
    intro a b u v hu hv he
    rcases user_back_step effect hu with ⟨u', hu', heu⟩ | ⟨rfl, hus, -⟩ <;>
      rcases user_back_step effect hv with ⟨v', hv', hev⟩ | ⟨rfl, hvs, -⟩
    · exact inv.inj a b u' v' hu' hv' (by omega)
    · have := inv.bound a u' hu'
      omega
    · have := inv.bound b v' hv'
      omega
    · rfl
  refine ⟨bound, inj, ?_, ?_⟩
  · intro ch hch n hn
    rcases change_step effect hch with ⟨old, hold, hserial, -⟩ | ⟨hserial, -⟩
    · have := inv.known old hold n (hserial.trans hn)
      omega
    · obtain ⟨v, hv, rfl⟩ := Option.map_eq_some_iff.1 (hserial.symm.trans hn)
      exact bound _ v hv
  · intro ch hch id v hv hs
    rcases change_step effect hch with ⟨old, hold, hserial, huser, -⟩ | ⟨hserial, -⟩
    · rcases user_back_step effect hv with ⟨u, hu, he⟩ | ⟨-, hvs, -⟩
      · rw [← huser]
        exact inv.owner old hold id u hu (by rw [hserial, hs, he])
      · have := inv.known old hold v.serial (hserial.trans hs)
        omega
    · obtain ⟨w, hw, he⟩ := Option.map_eq_some_iff.1 (hserial.symm.trans hs)
      exact inj _ _ w v hw hv he

theorem rows_step (effect : Effect g ins g')
    (rows : ∀ row ∈ g.db.sessions, (g.db.user row.userID).isSome) :
    ∀ row ∈ g'.db.sessions, (g'.db.user row.userID).isSome := by
  intro row hrow
  rcases session_row_step effect hrow with ⟨old, hold, -, hu, -⟩ | ⟨-, hsome, husers, -⟩
  · obtain ⟨u, hsome⟩ := Option.isSome_iff_exists.1 (rows old hold)
    rw [hu] at hsome
    rcases user_step effect hsome with ⟨v, hv, -⟩ | ⟨-, hgone⟩
    · rw [hv]
      rfl
    · exact absurd rfl (hgone row hrow)
  · rw [Store.user, husers]
    exact hsome

theorem ended_step {cfg : Config State Instr} (effect : Effect cfg.global ins g')
    (hok : InOrder cfg ins) (inv : Inv cfg.global) :
    ∀ ch ∈ g'.changes, ch.stage ≠ .applied → EndedAccess g' ch := by
  have serials := serials_inv_step effect inv.serials
  intro ch hch hstage row hrow v hv hserial hkeep
  have howner := serials.owner ch hch _ v hv hserial
  rcases change_step effect hch with ⟨old, hold, hos, -, haccept, hmoved⟩ | ⟨-, hnew⟩
  · rcases hmoved hstage with ⟨hstage, hk⟩ | hgone | ⟨request, id, keep, rfl⟩
    · apply haccept
      rcases session_row_step effect hrow with ⟨r, hr, ht, hu, hp⟩ | ⟨rfl, -, husers, -⟩
      · have huser : ∃ u, cfg.global.db.user r.userID = some u ∧ u.serial = v.serial := by
          rcases user_back_step effect hv with h | ⟨hid, -⟩
          · rwa [hu]
          · have := inv.rows r hr
            rw [hu, hid, Store.user, lookup_nextId] at this
            cases this
        obtain ⟨u, hu, he⟩ := huser
        rw [← hp]
        exact inv.ended old hold hstage r hr u hu (by rw [hos, hserial, he]) (by rwa [hk, ht])
      · rw [Store.user, husers] at hv
        exact hok old hold hstage v hv (hos.trans hserial)
    · exact absurd (hgone row hrow howner.symm) hkeep
    · cases hok
  · have hnone := hnew hstage
    rw [howner] at hnone
    rcases session_row_step effect hrow with ⟨r, hr, -, hu, -⟩ | ⟨-, hsome, -⟩
    · have := inv.rows r hr
      rw [hu, hnone] at this
      cases this
    · rw [hnone] at hsome
      cases hsome

end step

/-- When every sign-in ends with credentials that are still accepted and no sign-out
fails, a completed change of an account has ended all access through older ones. -/
theorem changes_end_access {acts : List (Action Oracle Request)} {cfg : Config State Instr}
    (hm : Runs.Meets machine.step (Machine.Guard InOrder) init acts)
    (he : Runs.exec machine.step init acts = some cfg) : ChangesEndAccess cfg.global := by
  have inv : Inv cfg.global := by
    refine machine.guarded_invariant (J := fun c => Inv c.global) (fun _ _ h => h) ?_
      ?_ ?_ hm he
    · intro c i ins rest o out inv hok hi ho
      have effect := atomic_effect ho
      exact ⟨serials_inv_step effect inv.serials, rows_step effect inv.rows,
        ended_step effect hok inv⟩
    · rintro c g inv ⟨⟩
      exact ⟨⟨inv.serials.bound, inv.serials.inj, inv.serials.known, inv.serials.owner⟩,
        inv.rows, inv.ended⟩
    · exact ⟨⟨nofun, nofun, nofun, nofun⟩, nofun, nofun⟩
  intro ch hch hstage
  exact inv.ended ch hch (by rw [hstage]; nofun)

/-- The first user has session 1 and is about to sign in a second time; the password is
read and compared, the last step left is `CreateSession`. -/
def passwordVerified : List (Action Oracle Request) :=
  .start (.setup 0 ⟨5, 0⟩) :: steps 0 2 1 ++ .start (.login 0 5) :: steps 1 2 0

def passwordChanged : List (Action Oracle Request) :=
  .start (.authenticated 1 (.postPassword 5 ⟨6, 0⟩)) :: steps 2 9 0

theorem changes_end_access_login : ∃ acts cfg,
    Runs.Meets machine.step (Machine.Guard InOrder) init acts ∧
    Runs.exec machine.step init acts = some cfg ∧
    cfg.global.db.sessions.map SessionRow.token = [1, 3] ∧ ChangesEndAccess cfg.global := by
  let acts := passwordVerified ++ steps 1 1 2 ++ passwordChanged ++ .start (.login 0 6) :: steps 3 3 3
  have hm : Runs.Meets machine.step (Machine.Guard InOrder) init acts := by decide
  exact ⟨acts, _, hm, rfl, rfl, changes_end_access hm rfl⟩

/-- The change completes while the sign-in is between the comparison of the password
and `CreateSession`: the session that the old password opens stays. -/
theorem change_overtakes_login : ∃ acts cfg,
    Runs.exec machine.step init acts = some cfg ∧ ¬ ChangesEndAccess cfg.global :=
  ⟨passwordVerified ++ passwordChanged ++ steps 1 1 2, _, rfl, by decide⟩

end Lotse.AccessCredentials
