import Lotse.AccessMachine

set_option autoImplicit false

namespace Lotse.Access
open Accounts Tasks

inductive Effect (g : State) : Instr → State → Prop where
  | same (ins : Instr) : Effect g ins g
  | request (token : ℕ) (h : Handler) :
      Effect g (.requireUser token h) { g with requests := g.requests + 1 }
  | track (s : Session) (role : Role) : Effect g (.track s role) (g.track s role)
  | serve (cid : ℕ) : Effect g (.serve cid) (g.untrack cid)
  | elevate (token time : ℕ) :
      Effect g (.elevateSession token) { g with db := g.db.elevateSession token time }
  | createSession {token id expires : ℕ} {proof : Credential} {db : Store}
      (fresh : token ∉ g.issued.map Prod.fst)
      (h : g.db.createSession token id expires proof = some db) :
      Effect g (.createSession id proof) (g.createSession token id db)
  | createUser {ins : Instr} {username : ℕ} {hash : PasswordHash} {role : Role} {db : Store}
      (h : g.db.createUser username hash role = some db) :
      Effect g ins (g.createUser db (Rows.nextId User.id g.db.users))
  | createPasskey {id credentialID : ℕ} {db : Store}
      (h : g.db.createPasskey id credentialID = some db) :
      Effect g (.createPasskey id credentialID) { g with db := db }
  | setRole {id : ℕ} {role : Role} {db : Store} (h : g.db.setRole id role = some db) :
      Effect g (.setRole id role) { g with db := db }
  | setPassword (request id : ℕ) (hash : PasswordHash) :
      Effect g (.setPassword request id hash) (g.setPassword request id hash)
  | resetTOTP (id : ℕ) : Effect g (.resetTOTP id) { g with db := g.db.setTOTP id false }
  | deletePasskeysOf (request id : ℕ) :
      Effect g (.deletePasskeysOf request id) (g.deletePasskeysOf request id)
  | signedOut (request id : ℕ) (keep : Option ℕ) :
      Effect g (.deleteSessions request id keep true) (g.signOutUser request id keep true)
  | signOutFailed (request id : ℕ) (keep : Option ℕ) :
      Effect g (.deleteSessions request id keep false) (g.signOutUser request id keep false)
  | deleteAccount {id : ℕ} {db : Store} (h : g.db.deleteUser id = some db) :
      Effect g (.deleteAccount id) (g.deleteAccount id db)
  | deleteSession (token : ℕ) : Effect g (.deleteSession token) (g.deleteSession token)
  | stop (cid : ℕ) (cids : List ℕ) : Effect g (.stops (cid :: cids)) (g.stop cid)
  | done (request : ℕ) : Effect g (.done request) (g.finish request)
  | tick (seconds : ℕ) : Effect g (.tick seconds) { g with clock := g.clock + seconds }

variable {o : Oracle} {g : State} {ins : Instr} {out : Outcome State Instr}

theorem check_global {b : Bool} (h : check b g = some out) : out.global = g := by
  cases h
  cases b <;> rfl

theorem createUser_effect {username : ℕ} {hash : PasswordHash} {role : Role} {code : List Instr}
    (h : createUser g username hash role code = some out) : Effect g ins out.global := by
  unfold createUser at h
  split at h
  · cases h
    exact .same ins
  · rename_i db hdb
    cases h
    exact .createUser hdb

theorem createSession_effect {token id : ℕ} {proof : Credential}
    (h : createSession token g id proof = some out) :
    Effect g (.createSession id proof) out.global := by
  unfold createSession at h
  split_ifs at h with hi
  split at h
  · cases h
    exact .same _
  · rename_i db hdb
    cases h
    exact .createSession hi hdb

theorem atomic_effect (h : atomic o g ins = some out) : Effect g ins out.global := by
  cases ins with
  | can | requireElevated | agent | passwordMatches | checkTOTP | verifySignature =>
    rw [check_global h]
    exact .same _
  | requireUser token handler =>
    simp only [atomic] at h
    split at h <;> cases h
    · exact .same _
    · exact .request token handler
  | userByName | passkeyByCredential | user | patchUser | deleteUser =>
    simp only [atomic] at h
    split at h <;> cases h <;> exact .same _
  | createSession id proof => exact createSession_effect h
  | setup username hash =>
    simp only [atomic] at h
    split_ifs at h
    · exact createUser_effect h
    · cases h
      exact .same _
  | createUser username hash role => exact createUser_effect h
  | createPasskey id credentialID =>
    simp only [atomic] at h
    split at h <;> cases h
    · exact .same _
    · exact .createPasskey (by assumption)
  | setRole id role =>
    simp only [atomic] at h
    split at h <;> cases h
    · exact .same _
    · exact .setRole (by assumption)
  | deleteAccount id =>
    simp only [atomic] at h
    split at h <;> cases h
    · exact .same _
    · exact .deleteAccount (by assumption)
  | stops cids =>
    cases cids with
    | nil =>
      cases h
      exact .same _
    | cons cid cids =>
      cases h
      exact .stop cid cids
  | track => cases h; exact .track _ _
  | serve => cases h; exact .serve _
  | elevateSession => cases h; exact .elevate _ _
  | setPassword => cases h; exact .setPassword _ _ _
  | resetTOTP => cases h; exact .resetTOTP _
  | deletePasskeysOf => cases h; exact .deletePasskeysOf _ _
  | signOut => cases h; exact .same _
  | deleteSessions request id keep ok =>
    cases h
    cases ok
    · exact .signOutFailed _ _ _
    · exact .signedOut _ _ _
  | deleteSession =>
    cases h
    simp only [Outcome.global_next]
    split_ifs
    · exact .deleteSession _
    · exact .same _
  | closeConns => cases h; exact .same _
  | done => cases h; exact .done _
  | tick => cases h; exact .tick _

theorem deletePasskeysOf_frame (request id : ℕ) :
    (g.deletePasskeysOf request id).conns = g.conns ∧
    (g.deletePasskeysOf request id).issued = g.issued ∧
    (g.deletePasskeysOf request id).revoked = g.revoked ∧
    (g.deletePasskeysOf request id).db.users = g.db.users ∧
    (g.deletePasskeysOf request id).db.sessions = g.db.sessions ∧
    (g.deletePasskeysOf request id).db.serials = g.db.serials := by
  unfold State.deletePasskeysOf
  split_ifs <;> exact ⟨rfl, rfl, rfl, rfl, rfl, rfl⟩

theorem user_step {g' : State} {id : ℕ} {u : User} (effect : Effect g ins g')
    (hu : g.db.user id = some u) :
    (∃ v, g'.db.user id = some v ∧ (v.role = u.role ∨ ins = .setRole id v.role)) ∨
      (ins = .deleteAccount id ∧ ∀ row ∈ g'.db.sessions, row.userID ≠ id) := by
  have same : ∀ db : Store, db.users = g.db.users →
      ∃ v, db.user id = some v ∧ (v.role = u.role ∨ ins = .setRole id v.role) :=
    fun db he => ⟨u, by rw [Store.user, he]; exact hu, .inl rfl⟩
  cases effect with
  | @setRole target role db hdb =>
    obtain ⟨-, -, ⟨v, -, hv⟩, hother⟩ := setRole_spec hdb
    by_cases ht : id = target
    · subst ht
      exact .inl ⟨v.withRole role, hv, .inr rfl⟩
    · exact .inl ⟨u, (hother id ht).trans hu, .inl rfl⟩
  | @deleteAccount target db hdb =>
    obtain ⟨hrows, -, -, hother⟩ := deleteUser_spec hdb
    by_cases ht : id = target
    · subst ht
      refine .inr ⟨rfl, fun row hrow => ?_⟩
      rw [State.deleteAccount_db, hrows] at hrow
      simpa using (List.mem_filter.1 hrow).2
    · exact .inl ⟨u, (hother id ht).trans hu, .inl rfl⟩
  | createUser hdb => exact .inl ⟨u, createUser_user hdb hu, .inl rfl⟩
  | setPassword request target hash =>
    refine .inl ⟨_, (setPassword_user hash id).trans (congrArg _ hu), .inl ?_⟩
    simp only
    split_ifs <;> rfl
  | resetTOTP target =>
    refine .inl ⟨_, (setTOTP_user false id).trans (congrArg _ hu), .inl ?_⟩
    simp only
    split_ifs <;> rfl
  | createSession fresh hdb => exact .inl (same _ (createSession_spec hdb).1)
  | createPasskey hdb => exact .inl (same _ (createPasskey_spec hdb).1)
  | deletePasskeysOf request target =>
    exact .inl (same _ (deletePasskeysOf_frame request target).2.2.2.1)
  | _ => exact .inl (same _ rfl)

theorem issued_step {g' : State} (effect : Effect g ins g') :
    g'.issued = g.issued ∨
      ∃ token id, token ∉ g.issued.map Prod.fst ∧ g'.issued = (token, id) :: g.issued := by
  cases effect with
  | createSession fresh => exact .inr ⟨_, _, fresh, rfl⟩
  | deletePasskeysOf request id => exact .inl (deletePasskeysOf_frame request id).2.1
  | _ => exact .inl rfl

theorem session_row_step {g' : State} {row : SessionRow} (effect : Effect g ins g')
    (hrow : row ∈ g'.db.sessions) :
    (∃ old ∈ g.db.sessions,
      old.token = row.token ∧ old.userID = row.userID ∧ old.proof = row.proof) ∨
    (ins = .createSession row.userID row.proof ∧ (g.db.user row.userID).isSome ∧
      g'.db.users = g.db.users ∧ g'.issued = (row.token, row.userID) :: g.issued) := by
  have kept : row ∈ g.db.sessions → ∃ old ∈ g.db.sessions,
      old.token = row.token ∧ old.userID = row.userID ∧ old.proof = row.proof :=
    fun h => ⟨row, h, rfl, rfl, rfl⟩
  cases effect with
  | createSession fresh hdb =>
    obtain ⟨husers, -, hsome, hrows⟩ := createSession_spec hdb
    rw [State.createSession_db, hrows] at hrow
    rcases List.mem_append.1 hrow with hrow | hrow
    · exact .inl (kept hrow)
    · obtain rfl := List.mem_singleton.1 hrow
      exact .inr ⟨rfl, hsome, husers, rfl⟩
  | elevate token time =>
    obtain ⟨old, hold, rfl⟩ := List.mem_map.1 hrow
    refine .inl ⟨old, hold, ?_⟩
    split_ifs <;> exact ⟨rfl, rfl, rfl⟩
  | createUser hdb =>
    rw [State.createUser_db, (createUser_spec hdb).1] at hrow
    exact .inl (kept hrow)
  | createPasskey hdb =>
    rw [(createPasskey_spec hdb).2.1] at hrow
    exact .inl (kept hrow)
  | setRole hdb =>
    rw [(setRole_spec hdb).1] at hrow
    exact .inl (kept hrow)
  | deleteAccount hdb =>
    rw [State.deleteAccount_db, (deleteUser_spec hdb).1] at hrow
    exact .inl (kept (List.mem_of_mem_filter hrow))
  | deletePasskeysOf request id =>
    rw [(deletePasskeysOf_frame request id).2.2.2.2.1] at hrow
    exact .inl (kept hrow)
  | signedOut request id keep => exact .inl (kept (List.mem_of_mem_filter hrow))
  | deleteSession token => exact .inl (kept (List.mem_of_mem_filter hrow))
  | _ => exact .inl (kept hrow)

theorem conn_step {g' : State} {c : SessionConn} (effect : Effect g ins g') (hc : c ∈ g'.conns) :
    (∃ b ∈ g.conns, b.session = c.session ∧ b.userID = c.userID ∧ (c.stopped = false → c = b)) ∨
    ∃ s role, ins = .track s role ∧ c = ⟨g.nextConn, s.token, s.user.id, role, false⟩ := by
  have kept : c ∈ g.conns →
      ∃ b ∈ g.conns, b.session = c.session ∧ b.userID = c.userID ∧ (c.stopped = false → c = b) :=
    fun h => ⟨c, h, rfl, rfl, fun _ => rfl⟩
  cases effect with
  | track s role =>
    rcases List.mem_append.1 hc with hc | hc
    · exact .inl (kept hc)
    · exact .inr ⟨s, role, rfl, List.mem_singleton.1 hc⟩
  | serve cid => exact .inl (kept (List.mem_of_mem_filter hc))
  | stop cid cids =>
    obtain ⟨b, hb, rfl⟩ := List.mem_map.1 hc
    refine .inl ⟨b, hb, ?_⟩
    split_ifs <;> simp
  | deletePasskeysOf request id =>
    rw [(deletePasskeysOf_frame request id).1] at hc
    exact .inl (kept hc)
  | _ => exact .inl (kept hc)

theorem check_code {b : Bool} (h : check b g = some out) : out.code = [] := by
  cases h
  cases b <;> rfl

theorem createSession_code {token id : ℕ} {proof : Credential}
    (h : createSession token g id proof = some out) : out.code = [] := by
  unfold createSession at h
  split_ifs at h
  split at h <;> cases h <;> rfl

theorem createUser_code {username : ℕ} {hash : PasswordHash} {role : Role} {code : List Instr}
    (h : createUser g username hash role code = some out) : out.code ⊆ code := by
  unfold createUser at h
  split at h <;> cases h
  · exact List.nil_subset _
  · exact List.Subset.refl _

/-- What a handler may put into its own code. Only `requireUser` adds a `track`, with
the session it has loaded, and no instruction adds a `deleteSession`. -/
def Emitted (g : State) : Instr → Prop
  | .track s _ => ∃ token, g.db.session token g.clock = some s
  | .deleteSession _ => False
  | _ => True

theorem handlerCode_emitted {request token : ℕ} {s : Session} (hs : g.db.session token g.clock = some s)
    (h : Handler) : ∀ j ∈ handlerCode request s h, Emitted g j := by
  have loaded : ∃ token, g.db.session token g.clock = some s := ⟨token, hs⟩
  cases h with
  | postElevate password =>
    simp only [handlerCode, reauthenticate]
    split_ifs <;> simp [Emitted]
  | postPassword current new => simp [handlerCode, reauthenticate, Emitted]
  | _ => simp [handlerCode, Emitted, loaded]

theorem patchUser_emitted (request : ℕ) (s : Session) (u : User) (body : PatchBody) :
    ∀ j ∈ patchUser request s u body, Emitted g j := by
  obtain ⟨role, password, totp, passkeys⟩ := body
  intro j hj
  simp only [patchUser, List.mem_append, List.mem_cons, List.not_mem_nil, or_false] at hj
  rcases hj with ((((rfl | hj) | hj) | hj) | hj) | rfl | rfl
  · trivial
  · cases role <;> simp only at hj
    · cases hj
    · split_ifs at hj
      · cases hj
      · obtain rfl := List.mem_singleton.1 hj
        trivial
  · cases password <;> simp only at hj
    · cases hj
    · obtain rfl := List.mem_singleton.1 hj
      trivial
  · split_ifs at hj
    · obtain rfl := List.mem_singleton.1 hj
      trivial
    · cases hj
  · split_ifs at hj
    · obtain rfl := List.mem_singleton.1 hj
      trivial
    · cases hj
  · trivial
  · trivial

theorem atomic_emitted (h : atomic o g ins = some out) : ∀ j ∈ out.code, Emitted g j := by
  cases ins with
  | can | requireElevated | agent | passwordMatches | checkTOTP | verifySignature =>
    simp [check_code h]
  | requireUser token handler =>
    simp only [atomic] at h
    split at h <;> cases h
    · simp [Outcome.code]
    · rename_i s hs
      exact handlerCode_emitted hs handler
  | patchUser request s id body =>
    simp only [atomic] at h
    split at h <;> cases h
    · simp [Outcome.code]
    · rename_i u _
      exact patchUser_emitted request s u body
  | createSession id proof => simp [createSession_code h]
  | setup username hash =>
    simp only [atomic] at h
    split_ifs at h
    · intro j hj
      obtain rfl := List.mem_singleton.1 (createUser_code h hj)
      trivial
    · cases h
      simp [Outcome.code]
  | createUser username hash role =>
    intro j hj
    cases createUser_code h hj
  | stops cids => cases cids <;> cases h <;> simp [Outcome.code, Emitted]
  | userByName | passkeyByCredential | user | deleteUser | createPasskey | setRole | deleteAccount =>
    simp only [atomic] at h
    split at h <;> cases h <;> simp only [Outcome.code, deleteUser] <;>
      first | (split_ifs <;> simp [Emitted]) | simp [Emitted]
  | signOut request id keep =>
    cases h
    simp only [Outcome.code]
    split_ifs <;> simp [Emitted]
  | _ =>
    cases h
    simp [Outcome.code, Emitted]

end Lotse.Access
