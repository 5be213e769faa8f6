import Lotse.AdminMachine

set_option autoImplicit false

namespace Lotse.Patch
open Users (validRole roleIncludes)
open Admins (Reply validatePassword invalidJSON confirmFirst roleMustBe internalError errLastAdmin)

structure User where
  id : ℕ
  username : String
  passwordHash : String
  totpSecret : String
  role : String
  deriving DecidableEq

structure Passkey where
  userID : ℕ
  credentialID : ℕ
  deriving DecidableEq

structure SessionRow where
  token : ℕ
  userID : ℕ
  deriving DecidableEq

structure SessionConn where
  session : ℕ
  userID : ℕ
  role : String
  stopped : Bool
  deriving DecidableEq

structure AuditEntry where
  username : String
  action : String
  detail : String
  deriving DecidableEq

/-- `passwords` counts the passwords that were stored; no code reads it. -/
structure State where
  users : List User
  passkeys : List Passkey
  sessions : List SessionRow
  conns : List SessionConn
  audit : List AuditEntry
  passwords : ℕ
  deriving DecidableEq

structure Session where
  user : User
  token : ℕ
  elevated : Bool
  deriving DecidableEq

structure Body where
  role : String
  password : String
  resetTOTP : Bool
  resetPasskeys : Bool
  deriving DecidableEq

inductive Call where
  | setRole
  | setPassword
  | setTOTPSecret
  | deletePasskeysOf
  deriving DecidableEq

namespace State

def user (g : State) (id : ℕ) : Option User := Rows.lookup User.id id g.users

def passkeysOf (g : State) (id : ℕ) : List Passkey := g.passkeys.filter (·.userID = id)

def admins (g : State) : ℕ := g.users.countP (·.role = "admin")

def edit (g : State) (id : ℕ) (f : User → User) : State :=
  { g with users := Rows.update User.id id f g.users }

def closeConns (g : State) (hit : SessionConn → Bool) : State :=
  { g with conns := g.conns.map fun c => if hit c then { c with stopped := true } else c }

def closeConnsBeyondRole (g : State) (id : ℕ) (role : String) : State :=
  g.closeConns fun c => c.userID = id ∧ roleIncludes role c.role = false

/-- `DeleteOtherSessions` if there is a session to keep, else `DeleteSessions`. -/
def signOutUser (g : State) (id : ℕ) (keep : Option ℕ) : State :=
  { g with sessions := g.sessions.filter fun row => ¬ (row.userID = id ∧ some row.token ≠ keep) }.closeConns
    fun c => c.userID = id ∧ some c.session ≠ keep

end State

def User.withRole (role : String) (u : User) : User := { u with role := role }
def User.withPassword (hash : String) (u : User) : User := { u with passwordHash := hash }
def User.withTOTPSecret (secret : String) (u : User) : User := { u with totpSecret := secret }

def mayChange (g : State) (u : User) (role : String) : Bool :=
  role = "admin" ∨ u.role ≠ "admin" ∨ 1 < g.admins

/-- `SetRole`; a statement without an effect asks for the user again. -/
def setRole (g : State) (id : ℕ) (role : String) : Except Reply State :=
  if validRole role = false then .error (.error 500 internalError)
  else
    match g.user id with
    | none => .error (.error 404 "user not found")
    | some u =>
      if mayChange g u role then .ok (g.edit id (.withRole role))
      else .error (.error 409 (errLastAdmin ++ "; make someone else an administrator first"))

def check (s : Session) : Option Body → Except Reply Body
  | none => .error (.error 400 invalidJSON)
  | some body =>
    if s.elevated = false then .error (.error 403 confirmFirst)
    else if body.role ≠ "" ∧ validRole body.role = false then .error (.error 400 roleMustBe)
    else if body.password ≠ "" then
      match validatePassword body.password with
      | .error message => .error (.error 400 message)
      | .ok () => .ok body
    else .ok body

structure Progress where
  g : State
  signOut : Bool
  changes : List String
  deriving DecidableEq

def wants (u : User) (body : Body) : Call → Bool
  | .setRole => body.role ≠ "" ∧ body.role ≠ u.role
  | .setPassword => body.password ≠ ""
  | .setTOTPSecret => body.resetTOTP ∧ u.totpSecret ≠ ""
  | .deletePasskeysOf => body.resetPasskeys

section patch
variable (bcrypt : String → String) (faults : Call → Bool) (u : User) (body : Body)

def perform (p : Progress) (c : Call) : Except (State × Reply) Progress :=
  if faults c then .error (p.g, .error 500 internalError)
  else
    match c with
    | .setRole =>
      match setRole p.g u.id body.role with
      | .error reply => .error (p.g, reply)
      | .ok g => .ok ⟨g.closeConnsBeyondRole u.id body.role, p.signOut,
          p.changes ++ ["role " ++ u.role ++ " → " ++ body.role]⟩
    | .setPassword =>
      .ok ⟨{ p.g.edit u.id (.withPassword (bcrypt body.password)) with
        passwords := p.g.passwords + 1 }, true, p.changes ++ ["new password"]⟩
    | .setTOTPSecret =>
      .ok ⟨p.g.edit u.id (.withTOTPSecret ""), p.signOut,
        p.changes ++ ["two-factor login turned off"]⟩
    | .deletePasskeysOf =>
      let n := (p.g.passkeysOf u.id).length
      let g := { p.g with passkeys := p.g.passkeys.filter (·.userID ≠ u.id) }
      if 0 < n then .ok ⟨g, true, p.changes ++ [toString n ++ " passkey(s) removed"]⟩
      else .ok ⟨g, p.signOut, p.changes⟩

/-- The four blocks of `patchUser`, each with its own condition. -/
def applyChanges (g : State) : Except (State × Reply) Progress :=
  [Call.setRole, .setPassword, .setTOTPSecret, .deletePasskeysOf].foldlM
    (fun p c => if wants u body c then perform bcrypt faults u body p c else .ok p) ⟨g, false, []⟩

/-- The end of `patchUser`: whoever signed in with an old password or a removed passkey is
signed out, except the administrator who makes the change. -/
def finish (s : Session) (p : Progress) : State × Reply :=
  let keep := if u.id = s.user.id then some s.token else none
  let g := if p.signOut then p.g.signOutUser u.id keep else p.g
  (if p.changes ≠ [] then
    { g with audit := g.audit ++ [⟨s.user.username, "user_changed",
      u.username ++ ": " ++ ", ".intercalate p.changes⟩] } else g, .ok)

end patch

def patchUser (bcrypt : String → String) (faults : Call → Bool) (g : State) (s : Session) (id : ℕ)
    (body : Option Body) : State × Reply :=
  match g.user id with
  | none => (g, .error 404 "user not found")
  | some u =>
    match check s body with
    | .error reply => (g, reply)
    | .ok body =>
      match applyChanges bcrypt faults u body g with
      | .error out => out
      | .ok p => finish u s p

def requested (u : User) (body : Body) : List Call :=
  [Call.setRole, .setPassword, .setTOTPSecret, .deletePasskeysOf].filter (wants u body)

/-- The first call of a request succeeds: the store does not fail, and `SetRole` finds that
another administrator is left. -/
def Succeeds (faults : Call → Bool) (g : State) (u : User) (body : Body) (c : Call) : Prop :=
  faults c = false ∧ (c = .setRole → mayChange g u body.role = true)

def Interrupted (faults : Call → Bool) (g : State) (s : Session) (id : ℕ) (body : Option Body) :
    Prop :=
  ∃ u b first rest, g.user id = some u ∧ check s body = .ok b ∧ requested u b = first :: rest ∧
    Succeeds faults g u b first ∧ ∃ c ∈ rest, faults c = true

/-- Every session and every connection of the user has ended, apart from the one that made
the request. -/
def SignedOut (g : State) (s : Session) (id : ℕ) : Prop :=
  (∀ row ∈ g.sessions, row.userID = id → row.userID = s.user.id ∧ row.token = s.token) ∧
    ∀ c ∈ g.conns, c.userID = id → c.stopped = false → c.userID = s.user.id ∧ c.session = s.token

/-- An error leaves the account as it was, and a new password or a removed passkey is
followed by the sign-out and an entry of the activity log. -/
structure Unharmed (g : State) (s : Session) (id : ℕ) (out : State × Reply) : Prop where
  rejected : out.2 ≠ .ok → out.1.user id = g.user id ∧ out.1.passkeysOf id = g.passkeysOf id
  revoked : out.1.passwords ≠ g.passwords ∨ out.1.passkeysOf id ≠ g.passkeysOf id →
    SignedOut out.1 s id ∧
      ∃ detail, out.1.audit = g.audit ++ [⟨s.user.username, "user_changed", detail⟩]

section statements
variable (g : State) (id : ℕ) (f : User → User)

theorem user_edit (hf : ∀ u, (f u).id = u.id) : (g.edit id f).user id = (g.user id).map f :=
  Rows.lookup_update_self hf id g.users

@[simp] theorem edit_passkeysOf : (g.edit id f).passkeysOf id = g.passkeysOf id := rfl
@[simp] theorem edit_passwords : (g.edit id f).passwords = g.passwords := rfl
@[simp] theorem edit_audit : (g.edit id f).audit = g.audit := rfl

variable (hit : SessionConn → Bool)

@[simp] theorem closeConns_user : (g.closeConns hit).user id = g.user id := rfl
@[simp] theorem closeConns_passkeysOf : (g.closeConns hit).passkeysOf id = g.passkeysOf id := rfl
@[simp] theorem closeConns_passwords : (g.closeConns hit).passwords = g.passwords := rfl
@[simp] theorem closeConns_audit : (g.closeConns hit).audit = g.audit := rfl

theorem passkeysOf_deleted :
    { g with passkeys := g.passkeys.filter (·.userID ≠ id) }.passkeysOf id = [] := by
  simp [State.passkeysOf]

end statements

section changes
variable {bcrypt : String → String} {faults : Call → Bool} {u : User} {body : Body} {g : State}

structure Applied (bcrypt : String → String) (u : User) (body : Body) (g : State)
    (done : List Call) (p : Progress) : Prop where
  user : p.g.user u.id = some { u with
    passwordHash := if .setPassword ∈ done then bcrypt body.password else u.passwordHash
    totpSecret := if .setTOTPSecret ∈ done then "" else u.totpSecret
    role := if .setRole ∈ done then body.role else u.role }
  passkeys : p.g.passkeysOf u.id = if .deletePasskeysOf ∈ done then [] else g.passkeysOf u.id
  passwords : p.g.passwords = g.passwords + done.count .setPassword
  signOut : p.signOut = true ↔
    .setPassword ∈ done ∨ .deletePasskeysOf ∈ done ∧ g.passkeysOf u.id ≠ []
  changes : p.signOut = true → p.changes ≠ []
  audit : p.g.audit = g.audit

theorem applied_nil (bcrypt : String → String) (body : Body) (hu : g.user u.id = some u) :
    Applied bcrypt u body g [] ⟨g, false, []⟩ :=
  ⟨by simpa using hu, by simp, by simp, by simp, by simp, rfl⟩

theorem setRole_ok {g' : State} {id : ℕ} {role : String} (h : setRole g id role = .ok g') :
    g' = g.edit id (.withRole role) := by
  unfold setRole at h
  split_ifs at h
  split at h
  · cases h
  · split_ifs at h
    cases h
    rfl

theorem setRole_error {id : ℕ} {role : String} {reply : Reply}
    (h : setRole g id role = .error reply) : reply ≠ .ok := by
  rintro rfl
  unfold setRole at h
  split_ifs at h
  · cases h
  · split at h
    · cases h
    · split_ifs at h
      cases h

theorem applied_setRole {done : List Call} {p : Progress} {changes : List String}
    (h : Applied bcrypt u body g done p) (hne : changes ≠ []) :
    Applied bcrypt u body g (done ++ [.setRole])
      ⟨(p.g.edit u.id (.withRole body.role)).closeConnsBeyondRole u.id body.role, p.signOut,
        changes⟩ := by
  obtain ⟨huser, hkeys, hpasswords, hsign, -, haudit⟩ := h
  unfold State.closeConnsBeyondRole
  refine ⟨?_, by simpa using hkeys, by simpa using hpasswords, by simpa using hsign, fun _ => hne, ?_⟩
  · rw [closeConns_user, user_edit _ _ (.withRole body.role) (fun _ => rfl), huser]
    simp [User.withRole]
  · simpa using haudit

theorem applied_setPassword {done : List Call} {p : Progress} {changes : List String}
    (h : Applied bcrypt u body g done p) (hne : changes ≠ []) :
    Applied bcrypt u body g (done ++ [.setPassword])
      ⟨{ p.g.edit u.id (.withPassword (bcrypt body.password)) with
        passwords := p.g.passwords + 1 }, true, changes⟩ := by
  obtain ⟨huser, hkeys, hpasswords, -, -, haudit⟩ := h
  refine ⟨?_, ?_, ?_, by simp, fun _ => hne, haudit⟩
  · change (p.g.edit u.id (.withPassword (bcrypt body.password))).user u.id = _
    rw [user_edit _ _ (.withPassword _) (fun _ => rfl), huser]
    simp [User.withPassword]
  · change p.g.passkeysOf u.id = _
    simpa using hkeys
  · simp [hpasswords, Nat.add_assoc]

theorem applied_setTOTPSecret {done : List Call} {p : Progress} {changes : List String}
    (h : Applied bcrypt u body g done p) (hne : changes ≠ []) :
    Applied bcrypt u body g (done ++ [.setTOTPSecret])
      ⟨p.g.edit u.id (.withTOTPSecret ""), p.signOut, changes⟩ := by
  obtain ⟨huser, hkeys, hpasswords, hsign, -, haudit⟩ := h
  refine ⟨?_, by simpa using hkeys, by simpa using hpasswords, by simpa using hsign, fun _ => hne,
    haudit⟩
  rw [user_edit _ _ (.withTOTPSecret _) (fun _ => rfl), huser]
  simp [User.withTOTPSecret]

theorem applied_deletePasskeysOf {done : List Call} {p : Progress} {signOut : Bool}
    {changes : List String} (h : Applied bcrypt u body g done p)
    (hsign : signOut = true ↔ p.signOut = true ∨ p.g.passkeysOf u.id ≠ [])
    (hchanges : signOut = true → changes ≠ []) :
    Applied bcrypt u body g (done ++ [.deletePasskeysOf])
      ⟨{ p.g with passkeys := p.g.passkeys.filter (·.userID ≠ u.id) }, signOut, changes⟩ := by
  obtain ⟨huser, hkeys, hpasswords, hbefore, -, haudit⟩ := h
  refine ⟨?_, ?_, by simpa using hpasswords, ?_, hchanges, haudit⟩
  · change p.g.user u.id = _
    simpa using huser
  · simpa using passkeysOf_deleted p.g u.id
  · change signOut = true ↔ _
    rw [hsign, hbefore, hkeys]
    by_cases hdone : Call.deletePasskeysOf ∈ done
    · simp [hdone]
    · simp [hdone]

theorem applied_perform {done : List Call} {p p' : Progress} {c : Call}
    (h : Applied bcrypt u body g done p) (hp : perform bcrypt faults u body p c = .ok p') :
    Applied bcrypt u body g (done ++ [c]) p' := by
  unfold perform at hp
  split_ifs at hp with hfault
  cases c with
  | setRole =>
    simp only at hp
    split at hp
    · cases hp
    · rename_i g' hg
      cases hp
      rw [setRole_ok hg]
      exact applied_setRole h (by simp)
  | setPassword =>
    cases hp
    exact applied_setPassword h (by simp)
  | setTOTPSecret =>
    cases hp
    exact applied_setTOTPSecret h (by simp)
  | deletePasskeysOf =>
    simp only at hp
    split_ifs at hp with hn
    · cases hp
      exact applied_deletePasskeysOf h (by simp [List.length_pos_iff.1 hn]) (by simp)
    · cases hp
      have hempty : p.g.passkeysOf u.id = [] := List.length_eq_zero_iff.1 (by omega)
      exact applied_deletePasskeysOf h (by simp [hempty]) h.changes

theorem perform_error {p : Progress} {c : Call} {out : State × Reply}
    (hp : perform bcrypt faults u body p c = .error out) : out.1 = p.g ∧ out.2 ≠ .ok := by
  unfold perform at hp
  split_ifs at hp with hfault
  · cases hp
    exact ⟨rfl, by simp⟩
  · cases c with
    | setRole =>
      simp only at hp
      split at hp
      · rename_i reply hreply
        cases hp
        exact ⟨rfl, setRole_error hreply⟩
      · cases hp
    | setPassword | setTOTPSecret => cases hp
    | deletePasskeysOf =>
      simp only at hp
      split_ifs at hp

theorem perform_ok {c : Call} (hc : c ≠ .setRole) (hfault : faults c = false) (p : Progress) :
    ∃ p', perform bcrypt faults u body p c = .ok p' := by
  unfold perform
  rw [if_neg (by simp [hfault])]
  cases c with
  | setRole => exact absurd rfl hc
  | setPassword | setTOTPSecret => exact ⟨_, rfl⟩
  | deletePasskeysOf =>
    simp only
    split_ifs
    · exact ⟨_, rfl⟩
    · exact ⟨_, rfl⟩

theorem setRole_succeeds (hu : g.user u.id = some u) (hvalid : validRole body.role = true) :
    (∃ g', setRole g u.id body.role = .ok g') ↔ mayChange g u body.role = true := by
  simp only [setRole, hvalid, hu, Bool.true_eq_false, if_false]
  split_ifs with h <;> simp [h]

theorem perform_first (bcrypt : String → String) (faults : Call → Bool) (hu : g.user u.id = some u)
    {c : Call} (hvalid : c = .setRole → validRole body.role = true) :
    (∃ p', perform bcrypt faults u body ⟨g, false, []⟩ c = .ok p') ↔ Succeeds faults g u body c := by
  cases hfault : faults c with
  | true => simp [perform, Succeeds, hfault]
  | false =>
    by_cases hc : c = .setRole
    · subst hc
      simp only [Succeeds, hfault, true_and, forall_true_left, ← setRole_succeeds hu (hvalid rfl)]
      unfold perform
      rw [if_neg (by simp [hfault])]
      simp only
      cases setRole g u.id body.role <;> simp
    · exact iff_of_true (perform_ok hc hfault _) ⟨hfault, fun h => absurd h hc⟩

theorem foldlM_perform (faults : Call → Bool) {cs done : List Call} {p : Progress}
    (h : Applied bcrypt u body g done p) (hcs : .setRole ∉ cs) :
    (∃ p', cs.foldlM (perform bcrypt faults u body) p = .ok p' ∧
      Applied bcrypt u body g (done ++ cs) p' ∧ ∀ c ∈ cs, faults c = false) ∨
    ∃ out p' pre, cs.foldlM (perform bcrypt faults u body) p = .error out ∧ out.2 ≠ .ok ∧
      out.1 = p'.g ∧ Applied bcrypt u body g (done ++ pre) p' ∧ ∃ c ∈ cs, faults c = true := by
  induction cs generalizing done p with
  | nil => exact .inl ⟨p, rfl, by simpa using h, by simp⟩
  | cons c cs ih =>
    rw [List.foldlM_cons]
    cases hp : perform bcrypt faults u body p c with
    | error out =>
      obtain ⟨hstate, hreply⟩ := perform_error hp
      refine .inr ⟨out, p, [], rfl, hreply, hstate, by simpa using h, c, List.mem_cons_self, ?_⟩
      by_contra hno
      obtain ⟨p', hok⟩ : ∃ p', perform bcrypt faults u body p c = .ok p' :=
        perform_ok (fun hc => hcs (hc ▸ List.mem_cons_self)) (Bool.not_eq_true _ ▸ hno) p
      rw [hok] at hp
      cases hp
    | ok p' =>
      have hfault : faults c = false := by
        by_contra hno
        rw [Bool.not_eq_false] at hno
        simp [perform, hno] at hp
      rcases ih (applied_perform h hp) (fun hmem => hcs (List.mem_cons_of_mem _ hmem)) with
        ⟨p'', hfold, happ, hall⟩ | ⟨out, p'', pre, hfold, hreply, hstate, happ, d, hd, hfail⟩
      · refine .inl ⟨p'', hfold, by simpa using happ, ?_⟩
        intro d hd
        rcases List.mem_cons.1 hd with rfl | hd
        · exact hfault
        · exact hall d hd
      · exact .inr ⟨out, p'', c :: pre, hfold, hreply, hstate, by simpa using happ, d,
          List.mem_cons_of_mem _ hd, hfail⟩

theorem requested_order {first : Call} {rest : List Call} (h : requested u body = first :: rest) :
    Call.setRole ∉ rest ∧ (first = .deletePasskeysOf → rest = []) := by
  have hsub : (first :: rest).Sublist [Call.setRole, .setPassword, .setTOTPSecret, .deletePasskeysOf] :=
    h ▸ List.filter_sublist
  constructor
  · intro hmem
    exact absurd (hsub.tail.subset hmem) (by decide)
  · rintro rfl
    have hlast := hsub.of_cons_of_ne (by decide) |>.of_cons_of_ne (by decide)
      |>.of_cons_of_ne (by decide)
    exact List.sublist_nil.1 hlast.tail

theorem applyChanges_eq : applyChanges bcrypt faults u body g =
    (requested u body).foldlM (perform bcrypt faults u body) ⟨g, false, []⟩ := by
  rw [requested, List.foldlM_filter]
  rfl

theorem signedOut_signOutUser (g : State) (s : Session) (id : ℕ) :
    SignedOut (g.signOutUser id (if id = s.user.id then some s.token else none)) s id := by
  have hkeep : ∀ token, some token = (if id = s.user.id then some s.token else none) →
      id = s.user.id ∧ token = s.token := by
    intro token h
    split_ifs at h with hid
    exact ⟨hid, Option.some.inj h⟩
  generalize (if id = s.user.id then some s.token else none) = keep at *
  constructor
  · intro row hrow hid
    have hkept : ¬ (row.userID = id ∧ some row.token ≠ keep) :=
      of_decide_eq_true (List.mem_filter.1 hrow).2
    have htoken := hkeep row.token (not_not.1 fun hne => hkept ⟨hid, hne⟩)
    exact ⟨hid.trans htoken.1, htoken.2⟩
  · intro c hc hid hrunning
    obtain ⟨d, hd, rfl⟩ := List.mem_map.1 hc
    split_ifs at hid hrunning with hhit
    have htoken := hkeep d.session (not_not.1 fun hne => hhit (decide_eq_true ⟨hid, hne⟩))
    rw [if_neg hhit]
    exact ⟨hid.trans htoken.1, htoken.2⟩

theorem unharmed_finish {done : List Call} {p : Progress} (h : Applied bcrypt u body g done p)
    (s : Session) : Unharmed g s u.id (finish u s p) := by
  refine ⟨fun hne => absurd rfl hne, ?_⟩
  have hfields : (finish u s p).1.passwords = p.g.passwords ∧
      (finish u s p).1.passkeysOf u.id = p.g.passkeysOf u.id := by
    unfold finish
    simp only
    split_ifs <;> exact ⟨rfl, rfl⟩
  rw [hfields.1, hfields.2]
  intro hrevoked
  have hsign : p.signOut = true := by
    rw [h.signOut]
    rcases hrevoked with hne | hne
    · rw [h.passwords] at hne
      exact .inl (List.count_pos_iff.1 (by omega))
    · rw [h.passkeys] at hne
      split_ifs at hne with hdone
      · exact .inr ⟨hdone, hne.symm⟩
      · exact absurd rfl hne
  have hchanges := h.changes hsign
  unfold finish
  simp only [hsign, hchanges, ne_eq, not_false_iff, if_true]
  refine ⟨signedOut_signOutUser p.g s u.id,
    u.username ++ ": " ++ ", ".intercalate p.changes, ?_⟩
  change p.g.audit ++ _ = _
  rw [h.audit]

/-- The first change of an interrupted request is not taken back. -/
theorem harmed {first : Call} {pre : List Call} {p : Progress} {reply : Reply}
    (hu : g.user u.id = some u) (h : Applied bcrypt u body g (first :: pre) p)
    (hwants : wants u body first = true) (hfirst : first ≠ .deletePasskeysOf) (hreply : reply ≠ .ok)
    (s : Session) : ¬ Unharmed g s u.id (p.g, reply) := by
  intro hno
  have hsame := (hno.rejected hreply).1
  rw [h.user, hu, Option.some.injEq] at hsame
  cases first with
  | setRole =>
    have hrole := congrArg User.role hsame
    simp only [List.mem_cons_self, if_true] at hrole
    simp only [wants, decide_eq_true_eq] at hwants
    exact hwants.2 hrole
  | setPassword =>
    obtain ⟨-, detail, haudit⟩ := hno.revoked (.inl (by simp [h.passwords]))
    rw [h.audit] at haudit
    simp at haudit
  | setTOTPSecret =>
    have hsecret := congrArg User.totpSecret hsame
    simp only [List.mem_cons_self, if_true] at hsecret
    simp only [wants, decide_eq_true_eq] at hwants
    exact hwants.2 hsecret.symm
  | deletePasskeysOf => exact hfirst rfl

end changes

theorem validRole_of_check {s : Session} {body : Option Body} {b : Body}
    (h : check s body = .ok b) (hrole : b.role ≠ "") : validRole b.role = true := by
  cases body with
  | none => cases h
  | some body =>
    simp only [check] at h
    split_ifs at h with _ hr
    · split at h
      · cases h
      · cases h
        simpa [hrole] using hr
    · cases h
      simpa [hrole] using hr

theorem unharmed_changes {bcrypt : String → String} {faults : Call → Bool} {g : State} {u : User}
    {b : Body} (s : Session) (hu : g.user u.id = some u)
    (hvalid : b.role ≠ "" → validRole b.role = true) :
    Unharmed g s u.id (match applyChanges bcrypt faults u b g with
      | .error out => out
      | .ok p => finish u s p) ↔
    ¬ ∃ first rest, requested u b = first :: rest ∧ Succeeds faults g u b first ∧
      ∃ c ∈ rest, faults c = true := by
  rw [applyChanges_eq]
  cases hreq : requested u b with
  | nil => exact iff_of_true (unharmed_finish (applied_nil bcrypt b hu) s) (by simp)
  | cons first rest =>
    have hwants : wants u b first = true :=
      (List.mem_filter.1 (hreq ▸ List.mem_cons_self : first ∈ requested u b)).2
    have hrole : first = .setRole → validRole b.role = true := by
      rintro rfl
      simp only [wants, decide_eq_true_eq] at hwants
      exact hvalid hwants.1
    have hfirst := perform_first bcrypt faults hu hrole
    obtain ⟨hrest, hlast⟩ := requested_order hreq
    rw [List.foldlM_cons]
    cases hp : perform bcrypt faults u b ⟨g, false, []⟩ first with
    | error out =>
      obtain ⟨hstate, hreply⟩ := perform_error hp
      obtain ⟨g', reply⟩ := out
      obtain rfl : g' = g := hstate
      refine iff_of_true ⟨fun _ => ⟨rfl, rfl⟩, fun h => absurd h (by simp [bind, Except.bind])⟩ ?_
      rintro ⟨first', rest', heq, hsucc, -⟩
      cases heq
      obtain ⟨p', hok⟩ := hfirst.2 hsucc
      rw [hok] at hp
      cases hp
    | ok p =>
      have hsucc := hfirst.1 ⟨p, hp⟩
      have happ : Applied bcrypt u b g [first] p := applied_perform (applied_nil bcrypt b hu) hp
      rcases foldlM_perform faults happ hrest with
        ⟨p', hfold, happ', hall⟩ | ⟨out, p', pre, hfold, hreply, hstate, happ', c, hc, hfail⟩
      · simp only [bind, Except.bind, hfold]
        refine iff_of_true (unharmed_finish happ' s) ?_
        rintro ⟨first', rest', heq, -, c, hc, hfail⟩
        cases heq
        rw [hall c hc] at hfail
        cases hfail
      · simp only [bind, Except.bind, hfold]
        refine iff_of_false ?_ (not_not.2 ⟨first, rest, rfl, hsucc, c, hc, hfail⟩)
        obtain ⟨g', reply⟩ := out
        obtain rfl : g' = p'.g := hstate
        refine harmed hu happ' hwants ?_ hreply s
        intro hdelete
        rw [hlast hdelete] at hc
        cases hc

/-- A rejected change of an account changes nothing, and credentials are revoked with the
sessions, exactly if no call after the first one fails. -/
theorem patchUser_unharmed (bcrypt : String → String) (faults : Call → Bool) (g : State)
    (s : Session) (id : ℕ) (body : Option Body) :
    Unharmed g s id (patchUser bcrypt faults g s id body) ↔ ¬ Interrupted faults g s id body := by
  have untouched : ∀ reply, Unharmed g s id (g, reply) := fun reply =>
    ⟨fun _ => ⟨rfl, rfl⟩, fun h => absurd h (by simp)⟩
  unfold patchUser
  cases hu : g.user id with
  | none =>
    refine iff_of_true (untouched _) ?_
    rintro ⟨u, b, first, rest, hu', -⟩
    rw [hu] at hu'
    cases hu'
  | some u =>
    obtain rfl : u.id = id := Rows.lookup_key hu
    cases hcheck : check s body with
    | error reply =>
      refine iff_of_true (untouched reply) ?_
      rintro ⟨u', b, first, rest, -, hb, -⟩
      rw [hcheck] at hb
      cases hb
    | ok b =>
      have hinterrupted : Interrupted faults g s u.id body ↔ ∃ first rest,
          requested u b = first :: rest ∧ Succeeds faults g u b first ∧ ∃ c ∈ rest, faults c = true := by
        constructor
        · rintro ⟨u', b', first, rest, hu', hb', h⟩
          cases hu.symm.trans hu'
          cases hcheck.symm.trans hb'
          exact ⟨first, rest, h⟩
        · rintro ⟨first, rest, h⟩
          exact ⟨u, b, first, rest, hu, hcheck, h⟩
      rw [hinterrupted]
      exact unharmed_changes s hu (validRole_of_check hcheck)

def signedIn : State where
  users := [⟨1, "admin", "a", "", "admin"⟩, ⟨2, "viewer", "b", "", "viewer"⟩]
  passkeys := [⟨2, 1⟩]
  sessions := [⟨1, 1⟩, ⟨2, 2⟩]
  conns := [⟨2, 2, "viewer", false⟩]
  audit := []
  passwords := 0

/-- The new password is stored, the passkeys cannot be removed: the request is rejected, and
whoever knew the old password stays signed in. -/
theorem interrupted_stays_signed_in :
    let s : Session := ⟨⟨1, "admin", "a", "", "admin"⟩, 1, true⟩
    let out := patchUser id (· = .deletePasskeysOf) signedIn s 2
      (some ⟨"", "a new password", false, true⟩)
    out.2 = .error 500 internalError ∧ (out.1.user 2).map User.passwordHash = some "a new password" ∧
      out.1.sessions = signedIn.sessions ∧ out.1.conns = signedIn.conns ∧ out.1.audit = [] ∧
      ¬ Unharmed signedIn s 2 out := by
  refine ⟨by decide +kernel, by decide +kernel, by decide +kernel, by decide +kernel,
    by decide +kernel, ?_⟩
  intro h
  exact absurd (h.rejected (by decide +kernel)).1 (by decide +kernel)

end Lotse.Patch
