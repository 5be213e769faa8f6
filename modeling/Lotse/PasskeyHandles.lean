import Lotse.Rows
import Lotse.Tasks
import Lotse.Utf8

set_option autoImplicit false

/-!
# The passkey handle of a user

`PasskeyHandle` statement by statement: read the handle, set it where it is not set yet, read
back what is there. The callers are the registration of a passkey, which hands the handle to the
browser, and `verifyAssertion`, which compares it with the one that comes back. Accounts are
created and deleted at the same time, and the id of a deleted account can be given out again;
`deletions` counts how often that has happened, so that a call knows whether its account is
still the one it began with.
-/
namespace Lotse.Handles
open Tasks Utf8

structure User where
  id : ℕ
  handle : Option Bytes
  deriving DecidableEq

inductive Caller where
  | register
  /-- `verifyAssertion` with the user handle of the response. -/
  | verify (userHandle : Bytes)
  deriving DecidableEq

structure Return where
  caller : Caller
  userID : ℕ
  started : ℕ
  ended : ℕ
  handle : Option Bytes
  deriving DecidableEq

structure State where
  users : List User
  deletions : ℕ → ℕ
  returns : List Return

inductive Instr where
  | selectHandle (c : Caller) (userID : ℕ)
  | updateHandle (c : Caller) (userID started : ℕ)
  | readBack (c : Caller) (userID started : ℕ)
  | createUser
  | deleteUser (userID : ℕ)

inductive Request where
  | passkeyHandle (c : Caller) (userID : ℕ)
  | createUser
  | deleteUser (userID : ℕ)

structure Oracle where
  fails : Bool
  random : Bytes

def handleBytes : ℕ := 16

def User.setHandle (u : User) (handle : Bytes) : User :=
  if u.handle = none then { u with handle := some handle } else u

namespace State

def user (g : State) (userID : ℕ) : Option User := Rows.lookup User.id userID g.users

def ret (g : State) (c : Caller) (userID started : ℕ) (handle : Option Bytes) : State :=
  { g with returns := g.returns ++ [⟨c, userID, started, g.deletions userID, handle⟩] }

/-- `UPDATE users SET passkey_handle = ? WHERE id = ? AND passkey_handle IS NULL` -/
def setHandle (g : State) (userID : ℕ) (handle : Bytes) : State :=
  { g with users := Rows.update User.id userID (·.setHandle handle) g.users }

def conflict (g : State) (userID : ℕ) (handle : Bytes) : Bool :=
  (g.user userID).any (·.handle = none) && g.users.any (·.handle = some handle)

def createUser (g : State) : State :=
  { g with users := g.users ++ [⟨Rows.nextId User.id g.users, none⟩] }

def deleteUser (g : State) (userID : ℕ) : State :=
  if (g.user userID).isSome then
    { g with
      users := Rows.erase User.id userID g.users
      deletions := Function.update g.deletions userID (g.deletions userID + 1) }
  else g

end State

def atomic (o : Oracle) (g : State) : Instr → Option (Outcome State Instr)
  | .selectHandle c userID =>
    if o.fails then some (.next (g.ret c userID (g.deletions userID) none) [])
    else match g.user userID with
      | none => some (.next (g.ret c userID (g.deletions userID) none) [])
      | some u =>
        if 0 < (u.handle.getD []).length then
          some (.next (g.ret c userID (g.deletions userID) u.handle) [])
        else some (.next g [.updateHandle c userID (g.deletions userID)])
  | .updateHandle c userID started =>
    if o.random.length ≠ handleBytes then none
    else if o.fails ∨ g.conflict userID o.random then some (.next (g.ret c userID started none) [])
    else some (.next (g.setHandle userID o.random) [.readBack c userID started])
  | .readBack c userID started =>
    if o.fails then some (.next (g.ret c userID started none) [])
    else match g.user userID with
      | none => some (.next (g.ret c userID started none) [])
      | some u => some (.next (g.ret c userID started (some (u.handle.getD []))) [])
  | .createUser => some (.next g.createUser [])
  | .deleteUser userID => some (.next (g.deleteUser userID) [])

def code : Request → List Instr
  | .passkeyHandle c userID => [.selectHandle c userID]
  | .createUser => [.createUser]
  | .deleteUser userID => [.deleteUser userID]

def machine : Machine State Instr Oracle Request := ⟨code, atomic, some⟩

structure Database where
  users : List User
  handles : ∀ u ∈ users, ∀ h, u.handle = some h → h.length = handleBytes

def initial (db : Database) : State := ⟨db.users, fun _ => 0, []⟩

/-- `verifyAssertion` rejects the response over its user handle, with the store answering. -/
def Return.mismatch (r : Return) : Prop := ∃ h h', r.caller = .verify h ∧ r.handle = some h' ∧ h' ≠ h

def State.Stored (g : State) (userID : ℕ) (h : Bytes) : Prop :=
  ∃ u, g.user userID = some u ∧ u.handle = some h

/-- What a step leaves of the accounts it does not delete: they stay, and so do their handles. -/
structure Moves (g g' : State) : Prop where
  deletions : ∀ u, g.deletions u ≤ g'.deletions u
  user : ∀ u, g'.deletions u = g.deletions u → (g.user u).isSome → (g'.user u).isSome
  stored : ∀ u h, g'.deletions u = g.deletions u → g.Stored u h → g'.Stored u h

theorem Moves.of_users {g g' : State} (husers : g'.users = g.users)
    (hdel : g'.deletions = g.deletions) : Moves g g' := by
  have huser : ∀ u, g'.user u = g.user u := fun u => by simp [State.user, husers]
  refine ⟨fun u => by rw [hdel], fun u _ h => by rwa [huser], fun u h _ hs => ?_⟩
  rwa [State.Stored, huser]

theorem Moves.trans {g g' g'' : State} (h : Moves g g') (h' : Moves g' g'') : Moves g g'' := by
  have hmid : ∀ u, g''.deletions u = g.deletions u →
      g'.deletions u = g.deletions u ∧ g''.deletions u = g'.deletions u := by
    intro u hu
    have hle := h.deletions u
    have hle' := h'.deletions u
    omega
  refine ⟨fun u => (h.deletions u).trans (h'.deletions u), fun u hu hs => ?_, fun u b hu hs => ?_⟩
  · exact h'.user u (hmid u hu).2 (h.user u (hmid u hu).1 hs)
  · exact h'.stored u b (hmid u hu).2 (h.stored u b (hmid u hu).1 hs)

theorem setHandle_id (handle : Bytes) (u : User) : (u.setHandle handle).id = u.id := by
  unfold User.setHandle
  split_ifs <;> rfl

theorem user_setHandle (g : State) (userID : ℕ) (handle : Bytes) (u : ℕ) :
    (g.setHandle userID handle).user u =
      (g.user u).map fun r => if r.id = userID then r.setHandle handle else r :=
  Rows.lookup_update (setHandle_id handle) userID u g.users

theorem moves_setHandle (g : State) (userID : ℕ) (handle : Bytes) :
    Moves g (g.setHandle userID handle) := by
  refine ⟨fun u => le_rfl, fun u _ h => ?_, ?_⟩
  · rw [user_setHandle]
    simpa using h
  · rintro u h - ⟨r, hr, hh⟩
    refine ⟨r, ?_, hh⟩
    rw [user_setHandle, hr, Option.map_some]
    simp [User.setHandle, hh]

theorem moves_createUser (g : State) : Moves g g.createUser := by
  have huser : ∀ u r, g.user u = some r → g.createUser.user u = some r := by
    intro u r hr
    have hne : User.id ⟨Rows.nextId User.id g.users, none⟩ ≠ u := by
      rintro rfl
      rw [State.user, Rows.lookup_nextId] at hr
      cases hr
    exact (Rows.lookup_append_ne hne g.users).trans hr
  refine ⟨fun u => le_rfl, ?_, ?_⟩
  · intro u _ h
    obtain ⟨r, hr⟩ := Option.isSome_iff_exists.1 h
    rw [huser u r hr]
    rfl
  · rintro u h - ⟨r, hr, hh⟩
    exact ⟨r, huser u r hr, hh⟩

theorem moves_deleteUser (g : State) (userID : ℕ) : Moves g (g.deleteUser userID) := by
  unfold State.deleteUser
  split_ifs with hsome
  · have hne : ∀ u, Function.update g.deletions userID (g.deletions userID + 1) u = g.deletions u →
        u ≠ userID := by
      rintro u h rfl
      simp at h
    refine ⟨fun u => ?_, fun u hu h => ?_, fun u h hu hs => ?_⟩
    · by_cases hu : u = userID
      · simp [hu]
      · simp [Function.update_of_ne hu]
    · simpa [State.user, Rows.lookup_erase_ne (hne u hu)] using h
    · simpa [State.Stored, State.user, Rows.lookup_erase_ne (hne u hu)] using hs
  · exact Moves.of_users rfl rfl

/-- What one statement can do: the call returns an error; it returns a handle that is stored, or
what the last statement reads; it goes on; or the accounts change. -/
inductive Does (g : State) (ins : Instr) : Outcome State Instr → Prop where
  | failed (c : Caller) (u started : ℕ) : Does g ins (.next (g.ret c u started none) [])
  | found (c : Caller) (u : ℕ) (h : Bytes) (hs : g.Stored u h) :
      Does g ins (.next (g.ret c u (g.deletions u) (some h)) [])
  | missing (c : Caller) (u : ℕ) (hu : (g.user u).isSome) :
      Does g ins (.next g [.updateHandle c u (g.deletions u)])
  | set (c : Caller) (u started : ℕ) (h : Bytes) (hins : ins = .updateHandle c u started)
      (hlen : h.length = handleBytes) : Does g ins (.next (g.setHandle u h) [.readBack c u started])
  | back (c : Caller) (u started : ℕ) (r : User) (hins : ins = .readBack c u started)
      (hr : g.user u = some r) :
      Does g ins (.next (g.ret c u started (some (r.handle.getD []))) [])
  | created : Does g ins (.next g.createUser [])
  | deleted (u : ℕ) : Does g ins (.next (g.deleteUser u) [])

theorem atomic_does {o : Oracle} {g : State} {ins : Instr} {out : Outcome State Instr}
    (h : atomic o g ins = some out) : Does g ins out := by
  cases ins with
  | selectHandle c userID =>
    simp only [atomic] at h
    split_ifs at h with hfails
    · cases h
      exact .failed c userID _
    · cases hu : g.user userID with
      | none =>
        rw [hu] at h
        cases h
        exact .failed c userID _
      | some u =>
        rw [hu] at h
        dsimp only at h
        split_ifs at h with hlen
        · cases hh : u.handle with
          | none => simp [hh] at hlen
          | some b =>
            rw [hh] at h
            cases h
            exact .found c userID b ⟨u, hu, hh⟩
        · cases h
          exact .missing c userID (by simp [hu])
  | updateHandle c userID started =>
    simp only [atomic] at h
    split_ifs at h with hlen hfails
    · cases h
      exact .failed c userID started
    · cases h
      exact .set c userID started o.random rfl (not_not.1 hlen)
  | readBack c userID started =>
    simp only [atomic] at h
    split_ifs at h with hfails
    · cases h
      exact .failed c userID started
    · cases hu : g.user userID with
      | none =>
        rw [hu] at h
        cases h
        exact .failed c userID started
      | some u =>
        rw [hu] at h
        cases h
        exact .back c userID started u rfl hu
  | createUser =>
    cases h
    exact .created
  | deleteUser userID =>
    cases h
    exact .deleted userID

theorem Does.moves {g : State} {ins : Instr} {out : Outcome State Instr} (h : Does g ins out) :
    Moves g out.global := by
  cases h with
  | failed c u started => exact Moves.of_users rfl rfl
  | found c u h hs => exact Moves.of_users rfl rfl
  | missing c u hu => exact Moves.of_users rfl rfl
  | set c u started h hins hlen => exact moves_setHandle g u h
  | back c u started r hins hr => exact Moves.of_users rfl rfl
  | created => exact moves_createUser g
  | deleted u => exact moves_deleteUser g u

def Return.Within (r : Return) (n : ℕ) : Prop := r.started = n ∧ r.ended = n

structure Ledger (g : State) : Prop where
  length : ∀ u ∈ g.users, ∀ h, u.handle = some h → h.length = handleBytes
  ended : ∀ r ∈ g.returns, r.ended ≤ g.deletions r.userID
  current : ∀ r ∈ g.returns, ∀ h, r.handle = some h → r.Within (g.deletions r.userID) →
    g.Stored r.userID h
  agree : ∀ r ∈ g.returns, ∀ r' ∈ g.returns, ∀ n h h', r.userID = r'.userID → r.Within n →
    r'.Within n → r.handle = some h → r'.handle = some h' → h = h' ∧ h.length = handleBytes

theorem Ledger.moves {g g' : State} (h : Ledger g) (hmoves : Moves g g')
    (hreturns : g'.returns = g.returns)
    (hlength : ∀ u ∈ g'.users, ∀ b, u.handle = some b → b.length = handleBytes) : Ledger g' := by
  refine ⟨hlength, ?_, ?_, by rw [hreturns]; exact h.agree⟩
  · rw [hreturns]
    intro r hr
    exact (h.ended r hr).trans (hmoves.deletions _)
  · rw [hreturns]
    intro r hr b hb hwithin
    have hended := h.ended r hr
    have hle := hmoves.deletions r.userID
    have hsame : g'.deletions r.userID = g.deletions r.userID := by
      have := hwithin.2
      omega
    exact hmoves.stored _ _ hsame (h.current r hr b hb (hsame ▸ hwithin))

theorem Ledger.length_stored {g : State} (h : Ledger g) {u : ℕ} {b : Bytes} (hs : g.Stored u b) :
    b.length = handleBytes := by
  obtain ⟨r, hr, hb⟩ := hs
  exact h.length r (Rows.lookup_mem hr) b hb

theorem State.Stored.unique {g : State} {u : ℕ} {h h' : Bytes} (hs : g.Stored u h)
    (hs' : g.Stored u h') : h = h' := by
  obtain ⟨r, hr, hh⟩ := hs
  obtain ⟨r', hr', hh'⟩ := hs'
  rw [hr, Option.some.injEq] at hr'
  subst hr'
  rw [hh, Option.some.injEq] at hh'
  exact hh'

theorem Ledger.ret {g : State} (h : Ledger g) {c : Caller} {u started : ℕ} {handle : Option Bytes}
    (hhandle : ∀ b, handle = some b → started = g.deletions u → g.Stored u b) :
    Ledger (g.ret c u started handle) := by
  have hcurrent : ∀ r ∈ (g.ret c u started handle).returns, ∀ b, r.handle = some b →
      r.Within (g.deletions r.userID) → g.Stored r.userID b := by
    intro r hr b hb hwithin
    rcases List.mem_append.1 hr with hr | hr
    · exact h.current r hr b hb hwithin
    · rw [List.mem_singleton.1 hr] at hb hwithin ⊢
      exact hhandle b hb hwithin.1
  -- two calls of which one returns now have ended with the present account
  have hnow : ∀ r ∈ (g.ret c u started handle).returns,
      ∀ r' ∈ (g.ret c u started handle).returns, ∀ n b b', r.userID = r'.userID → r.Within n →
      r'.Within n → r.handle = some b → r'.handle = some b' → n = g.deletions r.userID →
      b = b' ∧ b.length = handleBytes := by
    intro r hr r' hr' n b b' huser hwithin hwithin' hb hb' hn
    subst hn
    have hs := hcurrent r hr b hb hwithin
    have hs' := hcurrent r' hr' b' hb' (huser ▸ hwithin')
    exact ⟨hs.unique (huser ▸ hs'), h.length_stored hs⟩
  refine ⟨h.length, ?_, hcurrent, ?_⟩
  · intro r hr
    rcases List.mem_append.1 hr with hr | hr
    · exact h.ended r hr
    · rw [List.mem_singleton.1 hr]
      exact le_rfl
  · intro r hr r' hr' n b b' huser hwithin hwithin' hb hb'
    rcases List.mem_append.1 hr with hold | hnew
    · rcases List.mem_append.1 hr' with hold' | hnew'
      · exact h.agree r hold r' hold' n b b' huser hwithin hwithin' hb hb'
      · apply hnow r hr r' hr' n b b' huser hwithin hwithin' hb hb'
        rw [List.mem_singleton.1 hnew'] at hwithin' huser
        rw [huser]
        exact hwithin'.2.symm
    · apply hnow r hr r' hr' n b b' huser hwithin hwithin' hb hb'
      rw [List.mem_singleton.1 hnew] at hwithin ⊢
      exact hwithin.2.symm

/-- As long as the account is not deleted: it is there, and once the update has been made it has
a handle. -/
def Ready (g : State) : Instr → Prop
  | .updateHandle _ u started => started ≤ g.deletions u ∧
      (started = g.deletions u → (g.user u).isSome)
  | .readBack _ u started => started ≤ g.deletions u ∧
      (started = g.deletions u → ∃ h, g.Stored u h)
  | _ => True

theorem Ready.moves {g g' : State} {ins : Instr} (h : Ready g ins) (hmoves : Moves g g') :
    Ready g' ins := by
  cases ins with
  | updateHandle c u started =>
    have hle := hmoves.deletions u
    refine ⟨h.1.trans hle, fun heq => ?_⟩
    have hsame : g'.deletions u = g.deletions u := by
      have := h.1
      omega
    exact hmoves.user u hsame (h.2 (heq.trans hsame))
  | readBack c u started =>
    have hle := hmoves.deletions u
    refine ⟨h.1.trans hle, fun heq => ?_⟩
    have hsame : g'.deletions u = g.deletions u := by
      have := h.1
      omega
    obtain ⟨b, hb⟩ := h.2 (heq.trans hsame)
    exact ⟨b, hmoves.stored u b hsame hb⟩
  | selectHandle c u => trivial
  | createUser => trivial
  | deleteUser u => trivial

theorem stored_setHandle {g : State} {u : ℕ} (hu : (g.user u).isSome) (h : Bytes) :
    ∃ b, (g.setHandle u h).Stored u b := by
  obtain ⟨r, hr⟩ := Option.isSome_iff_exists.1 hu
  have hid : r.id = u := Rows.lookup_key hr
  have huser : (g.setHandle u h).user u = some (r.setHandle h) := by
    simp [user_setHandle, hr, hid]
  cases hh : r.handle with
  | none => exact ⟨h, r.setHandle h, huser, by simp [User.setHandle, hh]⟩
  | some b => exact ⟨b, r.setHandle h, huser, by simp [User.setHandle, hh]⟩

theorem Ledger.setHandle {g : State} (h : Ledger g) (u : ℕ) {b : Bytes}
    (hlen : b.length = handleBytes) : Ledger (g.setHandle u b) := by
  refine h.moves (moves_setHandle g u b) rfl ?_
  intro r' hr' b' hb'
  obtain ⟨r, hr, rfl⟩ := List.mem_map.1 hr'
  dsimp only [User.setHandle] at hb'
  split_ifs at hb' with hid hnone
  · cases hb'
    exact hlen
  · exact h.length r hr b' hb'
  · exact h.length r hr b' hb'

theorem Ledger.createUser {g : State} (h : Ledger g) : Ledger g.createUser := by
  refine h.moves (moves_createUser g) rfl ?_
  intro r hr b hb
  rcases List.mem_append.1 hr with hr | hr
  · exact h.length r hr b hb
  · rw [List.mem_singleton.1 hr] at hb
    cases hb

theorem Ledger.deleteUser {g : State} (h : Ledger g) (u : ℕ) : Ledger (g.deleteUser u) := by
  have hreturns : (g.deleteUser u).returns = g.returns := by
    unfold State.deleteUser
    split_ifs <;> rfl
  have hsub : ∀ r ∈ (g.deleteUser u).users, r ∈ g.users := by
    unfold State.deleteUser
    split_ifs
    · exact fun r hr => (List.mem_filter.1 hr).1
    · exact fun r hr => hr
  exact h.moves (moves_deleteUser g u) hreturns fun r hr => h.length r (hsub r hr)

structure Inv (c : Config State Instr) : Prop where
  ledger : Ledger c.global
  ready : ∀ t ∈ c.tasks, ∀ ins ∈ t, Ready c.global ins

theorem inv_initial (db : Database) : Inv ⟨initial db, []⟩ :=
  ⟨⟨db.handles, by simp [initial], by simp [initial], by simp [initial]⟩, by simp⟩

theorem inv_start {c : Config State Instr} (q : Request) (h : Inv c) :
    Inv ⟨c.global, c.tasks ++ [code q]⟩ := by
  refine ⟨h.ledger, forall_start h.ready ?_⟩
  cases q with
  | passkeyHandle c u => simp [code, Ready]
  | createUser => simp [code, Ready]
  | deleteUser u => simp [code, Ready]

theorem Does.ledger {g : State} {ins : Instr} {out : Outcome State Instr} (h : Does g ins out)
    (hledger : Ledger g) (hready : Ready g ins) : Ledger out.global := by
  cases h with
  | failed c u started => exact hledger.ret (by simp)
  | found c u h hs =>
    refine hledger.ret ?_
    intro b hb _
    cases hb
    exact hs
  | missing c u hu => exact hledger
  | set c u started h hins hlen => exact hledger.setHandle u hlen
  | back c u started r hins hr =>
    subst hins
    refine hledger.ret ?_
    intro b hb hstarted
    obtain ⟨b', r', hr', hb'⟩ := hready.2 hstarted
    rw [hr, Option.some.injEq] at hr'
    subst hr'
    rw [hb', Option.getD_some, Option.some.injEq] at hb
    exact ⟨r, hr, hb ▸ hb'⟩
  | created => exact hledger.createUser
  | deleted u => exact hledger.deleteUser u

theorem Does.ready {g : State} {ins : Instr} {out : Outcome State Instr} (h : Does g ins out)
    (hready : Ready g ins) : ∀ j ∈ out.code, Ready out.global j := by
  cases h with
  | failed c u started => simp [Outcome.code]
  | found c u h hs => simp [Outcome.code]
  | missing c u hu => simpa [Outcome.code, Ready] using hu
  | set c u started h hins hlen =>
    subst hins
    intro j hj
    rw [List.mem_singleton.1 hj]
    exact ⟨hready.1, fun heq => stored_setHandle (hready.2 heq) h⟩
  | back c u started r hins hr => simp [Outcome.code]
  | created => simp [Outcome.code]
  | deleted u => simp [Outcome.code]

theorem inv_run {o : Oracle} {c : Config State Instr} {i : ℕ} {ins : Instr} {rest : List Instr}
    {out : Outcome State Instr} (h : Inv c) (ht : c.tasks[i]? = some (ins :: rest))
    (ho : atomic o c.global ins = some out) :
    Inv ⟨out.global, c.tasks.set i (out.resume rest)⟩ := by
  have hdoes := atomic_does ho
  have hins : Ready c.global ins := h.ready _ (task_mem ht) ins List.mem_cons_self
  exact ⟨hdoes.ledger h.ledger hins,
    forall_step ht h.ready (fun j hj => hj.moves hdoes.moves) (hdoes.ready hins)⟩

theorem inv_exec {db : Database} {acts : List (Action Oracle Request)} {c : Config State Instr}
    (h : Runs.exec machine.step ⟨initial db, []⟩ acts = some c) : Inv c := by
  refine machine.invariant (fun c q => inv_start q) ?_ ?_ (inv_initial db) h
  · intro c i ins rest o out hinv ht ho
    exact inv_run hinv ht ho
  · intro c g hinv hg
    cases hg
    exact ⟨hinv.ledger, by simp⟩

theorem moves_exec {c d : Config State Instr} {acts : List (Action Oracle Request)}
    (h : Runs.exec machine.step c acts = some d) : Moves c.global d.global := by
  refine machine.invariant (J := fun d => Moves c.global d.global) (fun d q hd => hd) ?_ ?_
    (Moves.of_users rfl rfl) h
  · intro d i ins rest o out hd ht ho
    exact hd.trans (atomic_does ho).moves
  · intro d g hd hg
    cases hg
    exact hd

/-- All calls for one account return the same handle, which stays what it is once it is set. A
response with the handle of a registration is never taken for one of another account. -/
theorem passkey_handle_written_once {db : Database} {acts : List (Action Oracle Request)}
    {c : Config State Instr} (h : Runs.exec machine.step ⟨initial db, []⟩ acts = some c) :
    (∀ r ∈ c.global.returns, ∀ r' ∈ c.global.returns, ∀ n b b', r.userID = r'.userID →
      r.Within n → r'.Within n → r.handle = some b → r'.handle = some b' →
      b = b' ∧ b.length = handleBytes) ∧
    (∀ acts' d, Runs.exec machine.step c acts' = some d → ∀ u b, c.global.Stored u b →
      d.global.deletions u = c.global.deletions u → d.global.Stored u b) ∧
    ∀ r ∈ c.global.returns, ∀ v ∈ c.global.returns, ∀ n b, r.userID = v.userID → r.Within n →
      v.Within n → r.caller = .register → r.handle = some b → v.caller = .verify b →
      ¬ v.mismatch := by
  have hledger := (inv_exec h).ledger
  refine ⟨hledger.agree, ?_, ?_⟩
  · intro acts' d hrun u b hs hdel
    exact (moves_exec hrun).stored u b hdel hs
  · rintro r hr v hv n b huser hwithin hwithin' - hb hcaller ⟨b₁, b₂, hcaller', hb₂, hne⟩
    rw [hcaller, Caller.verify.injEq] at hcaller'
    subst hcaller'
    exact hne (hledger.agree r hr v hv n b b₂ huser hwithin hwithin' hb hb₂).1.symm

def oneUser : Database := ⟨[⟨1, none⟩], by simp⟩

/-- Two registrations at once, of which the second reads before the first has written, and a
response with the handle. -/
def twoRegistrations : List (Action Oracle Request) :=
  let first : Oracle := ⟨false, List.replicate 16 1⟩
  let second : Oracle := ⟨false, List.replicate 16 2⟩
  [.start (.passkeyHandle .register 1), .start (.passkeyHandle .register 1), .run 0 first,
    .run 1 second, .run 0 first, .run 1 second, .run 1 second, .run 0 first,
    .start (.passkeyHandle (.verify (List.replicate 16 1)) 1), .run 2 first]

def final (db : Database) (acts : List (Action Oracle Request)) : Config State Instr :=
  (Runs.exec machine.step ⟨initial db, []⟩ acts).getD ⟨initial db, []⟩

theorem passkey_handle_written_once_two_registrations :
    (final oneUser twoRegistrations).global.returns =
      [⟨.register, 1, 0, 0, some (List.replicate 16 1)⟩,
        ⟨.register, 1, 0, 0, some (List.replicate 16 1)⟩,
        ⟨.verify (List.replicate 16 1), 1, 0, 0, some (List.replicate 16 1)⟩] ∧
      ∀ v ∈ (final oneUser twoRegistrations).global.returns,
        v.caller = .verify (List.replicate 16 1) → v.Within 0 → v.userID = 1 → ¬ v.mismatch := by
  have hrun : (Runs.exec machine.step ⟨initial oneUser, []⟩ twoRegistrations).isSome := by
    decide +kernel
  have hfinal : Runs.exec machine.step ⟨initial oneUser, []⟩ twoRegistrations =
      some (final oneUser twoRegistrations) := Runs.exec_getD hrun _
  have hreturns : (final oneUser twoRegistrations).global.returns =
      [⟨.register, 1, 0, 0, some (List.replicate 16 1)⟩,
        ⟨.register, 1, 0, 0, some (List.replicate 16 1)⟩,
        ⟨.verify (List.replicate 16 1), 1, 0, 0, some (List.replicate 16 1)⟩] := by
    decide +kernel
  refine ⟨hreturns, ?_⟩
  intro v hv hcaller hwithin huser
  have hfirst : ⟨.register, 1, 0, 0, some (List.replicate 16 1)⟩ ∈
      (final oneUser twoRegistrations).global.returns := by
    rw [hreturns]
    exact List.mem_cons_self
  exact (passkey_handle_written_once hfinal).2.2 _ hfirst v hv 0 _ huser.symm ⟨rfl, rfl⟩
    hwithin rfl rfl hcaller

end Lotse.Handles
