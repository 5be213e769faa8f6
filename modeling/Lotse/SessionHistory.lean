import Lotse.AccessMachine

set_option autoImplicit false

namespace Lotse.Sessions
open Accounts
open Rows (lookup lookup_eq_none lookup_mem lookup_key)
open Accounts (sessionTTL elevationTTL)

structure EnrollToken where
  token : ℕ
  expiresAt : ℕ
  deriving DecidableEq

structure State where
  db : Store
  tokens : List EnrollToken
  clock : ℕ

/-- The calls of the store. `deleteExpired` ends after its first statement if the second
one fails. -/
inductive Op where
  | createUser (username : ℕ) (hash : PasswordHash) (role : Role)
  | setRole (id : ℕ) (role : Role)
  | deleteUser (id : ℕ)
  | setPassword (id : ℕ) (hash : PasswordHash)
  | setTOTP (id : ℕ) (on : Bool)
  | createSession (token id : ℕ) (proof : Credential)
  | elevateSession (token : ℕ)
  | deleteSessions (id : ℕ) (keep : Option ℕ)
  | deleteSession (token : ℕ)
  | createEnrollToken (token ttl : ℕ)
  | deleteExpired (both : Bool)
  | tick (seconds : ℕ)
  deriving DecidableEq

def deleteExpired (g : State) (both : Bool) : State :=
  { g with
    db := { g.db with sessions := g.db.sessions.filter fun row => ¬ row.expiresAt ≤ g.clock }
    tokens := if both then g.tokens.filter fun t => ¬ t.expiresAt ≤ g.clock else g.tokens }

def validEnrollToken (g : State) (token : ℕ) : Bool :=
  0 < g.tokens.countP fun t => t.token = token ∧ g.clock < t.expiresAt

/-- `none` for a statement that fails. The hashes of the tokens are the keys of the tables. -/
def step (g : State) : Op → Option State
  | .createUser username hash role =>
    (g.db.createUser username hash role).map fun db => { g with db }
  | .setRole id role => (g.db.setRole id role).map fun db => { g with db }
  | .deleteUser id => (g.db.deleteUser id).map fun db => { g with db }
  | .setPassword id hash => some { g with db := g.db.setPassword id hash }
  | .setTOTP id on => some { g with db := g.db.setTOTP id on }
  | .createSession token id proof =>
    if (lookup SessionRow.token token g.db.sessions).isSome then none
    else (g.db.createSession token id (g.clock + sessionTTL) proof).map fun db => { g with db }
  | .elevateSession token => some { g with db := g.db.elevateSession token (g.clock + elevationTTL) }
  | .deleteSessions id keep => some { g with db := g.db.deleteSessions id keep }
  | .deleteSession token => some { g with db := g.db.deleteSession token }
  | .createEnrollToken token ttl =>
    if (lookup EnrollToken.token token g.tokens).isSome then none
    else some { g with tokens := g.tokens ++ [⟨token, g.clock + ttl⟩] }
  | .deleteExpired both => some (deleteExpired g both)
  | .tick seconds => some { g with clock := g.clock + seconds }

def init (start : ℕ) : State := ⟨.empty, [], start⟩

namespace Op

def elapsed : Op → ℕ
  | tick seconds => seconds
  | _ => 0

def ends (token id : ℕ) : Op → Bool
  | deleteUser i => i = id
  | deleteSessions i keep => i = id ∧ keep ≠ some token
  | deleteSession t => t = token
  | _ => false

def prunes (expiresAt clock : ℕ) : Op → Bool
  | deleteExpired _ => expiresAt ≤ clock
  | _ => false

def elevates (token : ℕ) : Op → Bool
  | elevateSession t => t = token
  | _ => false

def added (clock : ℕ) : Op → List SessionRow
  | createSession token id proof => [⟨token, id, clock + sessionTTL, 0, proof⟩]
  | _ => []

end Op

section rows
variable {g g' : State} {op : Op}

def keeps (clock : ℕ) (op : Op) (row : SessionRow) : Bool :=
  !op.ends row.token row.userID && !op.prunes row.expiresAt clock

def touch (clock : ℕ) (op : Op) (row : SessionRow) : SessionRow :=
  if op.elevates row.token then row.elevate (clock + elevationTTL) else row

@[simp] theorem touch_token (clock : ℕ) (op : Op) (row : SessionRow) :
    (touch clock op row).token = row.token := by
  unfold touch
  split_ifs <;> rfl

@[simp] theorem touch_userID (clock : ℕ) (op : Op) (row : SessionRow) :
    (touch clock op row).userID = row.userID := by
  unfold touch
  split_ifs <;> rfl

@[simp] theorem touch_proof (clock : ℕ) (op : Op) (row : SessionRow) :
    (touch clock op row).proof = row.proof := by
  unfold touch
  split_ifs <;> rfl

theorem step_sessions (h : step g op = some g') : g'.db.sessions =
    ((g.db.sessions.filter (keeps g.clock op)).map (touch g.clock op)) ++ op.added g.clock := by
  have hall : ∀ {o : Op}, (∀ row, keeps g.clock o row = true) →
      g.db.sessions.filter (keeps g.clock o) = g.db.sessions := fun hk =>
    List.filter_eq_self.2 fun row _ => hk row
  have hid : ∀ {o : Op} (rows : List SessionRow), (∀ row, touch g.clock o row = row) →
      rows.map (touch g.clock o) = rows := fun rows ht => by
    rw [List.map_congr_left fun row _ => ht row, List.map_id']
  cases op with
  | createUser username hash role =>
    obtain ⟨db, hdb, rfl⟩ := Option.map_eq_some_iff.1 h
    rw [hall fun _ => rfl, hid _ fun _ => rfl]
    simp only [Op.added, List.append_nil]
    exact (createUser_spec hdb).1
  | setRole id role =>
    obtain ⟨db, hdb, rfl⟩ := Option.map_eq_some_iff.1 h
    rw [hall fun _ => rfl, hid _ fun _ => rfl]
    simp only [Op.added, List.append_nil]
    exact (setRole_spec hdb).1
  | deleteUser id =>
    obtain ⟨db, hdb, rfl⟩ := Option.map_eq_some_iff.1 h
    rw [hid _ fun _ => rfl]
    simp only [Op.added, List.append_nil]
    rw [(deleteUser_spec hdb).1]
    refine List.filter_congr fun row _ => ?_
    simp [keeps, Op.ends, Op.prunes, eq_comm]
  | setPassword id hash =>
    cases h
    rw [hall fun _ => rfl, hid _ fun _ => rfl]
    simp only [Op.added, List.append_nil]
    rfl
  | setTOTP id on =>
    cases h
    rw [hall fun _ => rfl, hid _ fun _ => rfl]
    simp only [Op.added, List.append_nil]
    rfl
  | createSession token id proof =>
    simp only [step] at h
    split_ifs at h
    obtain ⟨db, hdb, rfl⟩ := Option.map_eq_some_iff.1 h
    rw [hall fun _ => rfl, hid _ fun _ => rfl]
    exact (createSession_spec hdb).2.2.2
  | elevateSession token =>
    cases h
    rw [hall fun _ => rfl]
    simp only [Op.added, List.append_nil]
    refine List.map_congr_left fun row _ => ?_
    simp [touch, Op.elevates, eq_comm]
  | deleteSessions id keep =>
    cases h
    rw [hid _ fun _ => rfl]
    simp only [Op.added, List.append_nil]
    refine List.filter_congr fun row _ => ?_
    simp [keeps, Op.ends, Op.prunes, eq_comm]
  | deleteSession token =>
    cases h
    rw [hid _ fun _ => rfl]
    simp only [Op.added, List.append_nil]
    refine List.filter_congr fun row _ => ?_
    simp [keeps, Op.ends, Op.prunes, eq_comm]
  | createEnrollToken token ttl =>
    simp only [step] at h
    split_ifs at h
    cases h
    rw [hall fun _ => rfl, hid _ fun _ => rfl]
    simp only [Op.added, List.append_nil]
  | deleteExpired both =>
    cases h
    rw [hid _ fun _ => rfl]
    simp only [Op.added, List.append_nil]
    refine List.filter_congr fun row _ => ?_
    by_cases hle : row.expiresAt ≤ g.clock <;> simp [keeps, Op.ends, Op.prunes, hle]
  | tick seconds =>
    cases h
    rw [hall fun _ => rfl, hid _ fun _ => rfl]
    simp only [Op.added, List.append_nil]

theorem step_clock (h : step g op = some g') : g'.clock = g.clock + op.elapsed := by
  cases op <;> simp only [step, Option.map_eq_some_iff] at h
  case createUser | setRole | deleteUser =>
    obtain ⟨db, -, rfl⟩ := h
    rfl
  case createSession =>
    split_ifs at h
    obtain ⟨db, -, rfl⟩ := Option.map_eq_some_iff.1 h
    rfl
  case createEnrollToken =>
    split_ifs at h
    cases h
    rfl
  all_goals
    cases h
    rfl

theorem step_user (h : step g op = some g') {id : ℕ} (hu : (g.db.user id).isSome)
    (hop : op ≠ .deleteUser id) : (g'.db.user id).isSome := by
  obtain ⟨u, hu⟩ := Option.isSome_iff_exists.1 hu
  have hsame : g'.db.users = g.db.users → (g'.db.user id).isSome := fun heq => by
    rw [Store.user, heq, ← Store.user, hu]
    rfl
  cases op with
  | createUser username hash role =>
    obtain ⟨db, hdb, rfl⟩ := Option.map_eq_some_iff.1 h
    rw [createUser_user hdb hu]
    rfl
  | setRole i role =>
    obtain ⟨db, hdb, rfl⟩ := Option.map_eq_some_iff.1 h
    obtain ⟨-, -, ⟨v, -, hv⟩, hother⟩ := setRole_spec hdb
    by_cases hi : id = i
    · rw [hi, hv]
      rfl
    · rw [hother id hi, hu]
      rfl
  | deleteUser i =>
    obtain ⟨db, hdb, rfl⟩ := Option.map_eq_some_iff.1 h
    have hi : id ≠ i := fun he => hop (by rw [he])
    rw [(deleteUser_spec hdb).2.2.2 id hi, hu]
    rfl
  | setPassword i hash =>
    cases h
    rw [setPassword_user, hu]
    rfl
  | setTOTP i on =>
    cases h
    rw [setTOTP_user, hu]
    rfl
  | createSession token i proof =>
    simp only [step] at h
    split_ifs at h
    obtain ⟨db, hdb, rfl⟩ := Option.map_eq_some_iff.1 h
    exact hsame (createSession_spec hdb).1
  | createEnrollToken token ttl =>
    simp only [step] at h
    split_ifs at h
    cases h
    exact hsame rfl
  | elevateSession | deleteSessions | deleteSession | deleteExpired | tick =>
    cases h
    exact hsame rfl

end rows

def elapsed (ops : List Op) : ℕ := (ops.map Op.elapsed).sum

@[simp] theorem elapsed_nil : elapsed [] = 0 := rfl

@[simp] theorem elapsed_append (ops ops' : List Op) : elapsed (ops ++ ops') = elapsed ops + elapsed ops' := by
  simp [elapsed]

@[simp] theorem elapsed_cons (op : Op) (ops : List Op) : elapsed (op :: ops) = op.elapsed + elapsed ops := by
  simp [elapsed]

structure Story (start : ℕ) (pre post : List Op) (row : SessionRow) : Prop where
  still : ∀ op ∈ post, op.ends row.token row.userID = false
  expires : row.expiresAt = start + elapsed pre + sessionTTL
  elevated : ∀ now, start + elapsed (pre ++ post) ≤ now → (now ≤ row.elevatedUntil ↔
    ∃ mid rest, post = mid ++ .elevateSession row.token :: rest ∧
      now ≤ start + elapsed (pre ++ mid) + elevationTTL)

namespace Story
variable {start : ℕ} {pre post : List Op} {row : SessionRow} {op : Op}

theorem new (hstart : 0 < start) (token id : ℕ) (proof : Credential) :
    Story start pre [] ⟨token, id, start + elapsed pre + sessionTTL, 0, proof⟩ where
  still := by simp
  expires := rfl
  elevated now hnow := by
    constructor
    · intro hle
      have : now ≤ 0 := hle
      omega
    · rintro ⟨mid, rest, hpost, -⟩
      simp at hpost

theorem elevateSession_of_elevates {token : ℕ} (h : op.elevates token = true) :
    op = .elevateSession token := by
  cases op with
  | elevateSession t => rw [of_decide_eq_true h]
  | _ => cases h

theorem snoc (h : Story start pre post row) (hop : op.ends row.token row.userID = false) :
    Story start pre (post ++ [op]) (touch (start + elapsed (pre ++ post)) op row) := by
  have hopen : ∀ o ∈ post ++ [op], o.ends row.token row.userID = false := by
    intro o ho
    rcases List.mem_append.1 ho with ho | ho
    · exact h.still o ho
    · rwa [List.mem_singleton.1 ho]
  unfold touch
  split_ifs with helev
  · obtain rfl := elevateSession_of_elevates helev
    refine ⟨hopen, h.expires, fun now hnow => ⟨fun hle => ?_, ?_⟩⟩
    · exact ⟨post, [], rfl, hle⟩
    · rintro ⟨mid, rest, hpost, hle⟩
      -- a confirmation that came earlier ends earlier
      have htime : elapsed mid ≤ elapsed post := by
        have := congrArg elapsed hpost
        simp only [elapsed_append, elapsed_cons, elapsed_nil, Op.elapsed] at this
        omega
      change now ≤ start + elapsed (pre ++ post) + elevationTTL
      simp only [elapsed_append] at hle ⊢
      omega
  · refine ⟨hopen, h.expires, fun now hnow => ?_⟩
    rw [h.elevated now (by simp only [elapsed_append] at hnow ⊢; omega)]
    constructor
    · rintro ⟨mid, rest, rfl, hle⟩
      exact ⟨mid, rest ++ [op], by simp, hle⟩
    · rintro ⟨mid, rest, hpost, hle⟩
      rcases List.eq_nil_or_concat rest with rfl | ⟨rest', o, rfl⟩
      · have hlast := (List.append_inj' hpost rfl).2
        rw [List.cons.injEq] at hlast
        rw [hlast.1] at helev
        exact absurd (decide_eq_true rfl) helev
      · rw [List.concat_eq_append, ← List.cons_append, ← List.append_assoc] at hpost
        exact ⟨mid, rest', (List.append_inj' hpost rfl).1, hle⟩

end Story

structure Inv (start : ℕ) (ops : List Op) (g : State) : Prop where
  clock : g.clock = start + elapsed ops
  keys : (g.db.sessions.map SessionRow.token).Nodup
  owner : ∀ row ∈ g.db.sessions, (g.db.user row.userID).isSome
  row : ∀ row ∈ g.db.sessions, ∃ pre post,
    ops = pre ++ .createSession row.token row.userID row.proof :: post ∧ Story start pre post row
  kept : ∀ pre post token id proof, ops = pre ++ .createSession token id proof :: post →
    (∀ op ∈ post, op.ends token id = false) → elapsed ops < elapsed pre + sessionTTL →
    ∃ row ∈ g.db.sessions, row.token = token ∧ row.userID = id ∧ Story start pre post row

theorem inv_init (start : ℕ) : Inv start [] (init start) where
  clock := rfl
  keys := List.nodup_nil
  owner := by simp [init, Store.empty]
  row := by simp [init, Store.empty]
  kept pre post token id proof h := by simp at h

section step
variable {start : ℕ} {ops : List Op} {g g' : State} {op : Op}

theorem mem_step (h : step g op = some g') {row' : SessionRow} :
    row' ∈ g'.db.sessions ↔ (∃ row ∈ g.db.sessions, keeps g.clock op row = true ∧
      touch g.clock op row = row') ∨ row' ∈ op.added g.clock := by
  rw [step_sessions h, List.mem_append, List.mem_map]
  simp [List.mem_filter, and_assoc]

theorem keeps_iff {clock : ℕ} {row : SessionRow} : keeps clock op row = true ↔
    op.ends row.token row.userID = false ∧ op.prunes row.expiresAt clock = false := by
  simp [keeps]

theorem added_cases {clock : ℕ} {row : SessionRow} (h : row ∈ op.added clock) :
    op = .createSession row.token row.userID row.proof ∧
      row = ⟨row.token, row.userID, clock + sessionTTL, 0, row.proof⟩ := by
  cases op with
  | createSession token id proof =>
    rw [Op.added, List.mem_singleton] at h
    subst h
    exact ⟨rfl, rfl⟩
  | _ => cases h

theorem added_new (h : step g op = some g') {row : SessionRow} (hrow : row ∈ op.added g.clock) :
    lookup SessionRow.token row.token g.db.sessions = none ∧ (g.db.user row.userID).isSome := by
  obtain ⟨rfl, -⟩ := added_cases hrow
  simp only [step] at h
  split_ifs at h with hkey
  obtain ⟨db, hdb, -⟩ := Option.map_eq_some_iff.1 h
  exact ⟨by simpa using hkey, (createSession_spec hdb).2.2.1⟩

theorem ne_deleteUser {token id : ℕ} (h : op.ends token id = false) : op ≠ .deleteUser id := by
  rintro rfl
  exact absurd (decide_eq_true rfl) (by rw [show decide (id = id) = false from h]; simp)

theorem inv_keys (inv : Inv start ops g) (h : step g op = some g') :
    (g'.db.sessions.map SessionRow.token).Nodup := by
  have hold : ((g.db.sessions.filter (keeps g.clock op)).map (touch g.clock op)).map SessionRow.token =
      (g.db.sessions.filter (keeps g.clock op)).map SessionRow.token := by
    rw [List.map_map]
    exact List.map_congr_left fun row _ => touch_token _ _ row
  rw [step_sessions h, List.map_append, hold, List.nodup_append]
  refine ⟨inv.keys.sublist (List.filter_sublist.map _), ?_, ?_⟩
  · cases op <;> simp [Op.added]
  · intro a ha b hb
    obtain ⟨row, hrow, rfl⟩ := List.mem_map.1 ha
    obtain ⟨new, hnew, rfl⟩ := List.mem_map.1 hb
    exact lookup_eq_none.1 (added_new h hnew).1 row (List.mem_of_mem_filter hrow)

theorem inv_kept (hstart : 0 < start) (inv : Inv start ops g) (h : step g op = some g')
    {pre post : List Op} {token id : ℕ} {proof : Credential}
    (hops : ops ++ [op] = pre ++ .createSession token id proof :: post)
    (hopen : ∀ o ∈ post, o.ends token id = false)
    (hvalid : elapsed (ops ++ [op]) < elapsed pre + sessionTTL) :
    ∃ row ∈ g'.db.sessions, row.token = token ∧ row.userID = id ∧ Story start pre post row := by
  rcases List.eq_nil_or_concat post with rfl | ⟨post', o, rfl⟩
  · obtain ⟨rfl, hop⟩ := List.append_inj' hops rfl
    obtain ⟨rfl, -⟩ := List.cons.inj hop
    refine ⟨⟨token, id, g.clock + sessionTTL, 0, proof⟩, (mem_step h).2 (.inr (by simp [Op.added])),
      rfl, rfl, ?_⟩
    rw [inv.clock]
    exact .new hstart _ _ _
  · rw [List.concat_eq_append] at hops hopen ⊢
    rw [← List.cons_append, ← List.append_assoc] at hops
    obtain ⟨rfl, hop⟩ := List.append_inj' hops rfl
    obtain ⟨rfl, -⟩ := List.cons.inj hop
    have htime : elapsed (pre ++ post') ≤ elapsed (pre ++ .createSession token id proof :: post' ++ [op]) := by
      simp only [elapsed_append, elapsed_cons]
      omega
    obtain ⟨row, hrow, rfl, rfl, story⟩ := inv.kept pre post' token id proof rfl
      (fun o ho => hopen o (List.mem_append_left _ ho)) (by simp only [elapsed_append] at hvalid ⊢; omega)
    have hclock : g.clock = start + elapsed (pre ++ post') := by
      rw [inv.clock]
      simp [Op.elapsed]
    -- the row is not pruned, since it has not expired
    have hprunes : op.prunes row.expiresAt g.clock = false := by
      cases op with
      | deleteExpired both =>
        refine decide_eq_false ?_
        rw [story.expires, hclock]
        simp only [elapsed_append, elapsed_cons] at hvalid ⊢
        omega
      | _ => rfl
    refine ⟨touch g.clock op row, (mem_step h).2 (.inl ⟨row, hrow, ?_, rfl⟩), by simp, by simp, ?_⟩
    · exact keeps_iff.2 ⟨hopen op (by simp), hprunes⟩
    · rw [hclock]
      exact story.snoc (hopen op (by simp))

theorem inv_step (hstart : 0 < start) (inv : Inv start ops g) (h : step g op = some g') :
    Inv start (ops ++ [op]) g' where
  clock := by
    rw [step_clock h, inv.clock]
    simp [Nat.add_assoc]
  keys := inv_keys inv h
  owner := by
    intro row' hrow'
    rcases (mem_step h).1 hrow' with ⟨row, hrow, hkeeps, rfl⟩ | hnew
    · rw [touch_userID]
      exact step_user h (inv.owner row hrow) (ne_deleteUser (keeps_iff.1 hkeeps).1)
    · refine step_user h (added_new h hnew).2 ?_
      rw [(added_cases hnew).1]
      simp
  row := by
    intro row' hrow'
    rcases (mem_step h).1 hrow' with ⟨row, hrow, hkeeps, rfl⟩ | hnew
    · obtain ⟨pre, post, hops, story⟩ := inv.row row hrow
      have hclock : g.clock = start + elapsed (pre ++ post) := by
        rw [inv.clock, hops]
        simp [Op.elapsed]
      refine ⟨pre, post ++ [op], ?_, ?_⟩
      · rw [touch_token, touch_userID, touch_proof, hops]
        simp
      · rw [hclock]
        exact story.snoc (keeps_iff.1 hkeeps).1
    · obtain ⟨rfl, hrow⟩ := added_cases hnew
      refine ⟨ops, [], rfl, ?_⟩
      rw [hrow, inv.clock]
      exact .new hstart _ _ _
  kept _ _ _ _ _ hops hopen hvalid := inv_kept hstart inv h hops hopen hvalid

end step

structure TokenInv (start : ℕ) (ops : List Op) (g : State) : Prop where
  made : ∀ t ∈ g.tokens, ∃ pre ttl post, ops = pre ++ .createEnrollToken t.token ttl :: post ∧
    t.expiresAt = start + elapsed pre + ttl
  kept : ∀ pre ttl post token, ops = pre ++ .createEnrollToken token ttl :: post →
    elapsed ops < elapsed pre + ttl → ⟨token, start + elapsed pre + ttl⟩ ∈ g.tokens

section tokens
variable {start : ℕ} {ops : List Op} {g g' : State} {op : Op}

theorem step_tokens (h : step g op = some g') {t : EnrollToken} :
    (t ∈ g'.tokens → t ∈ g.tokens ∨ ∃ ttl, op = .createEnrollToken t.token ttl ∧
      t.expiresAt = g.clock + ttl) ∧
    (t ∈ g.tokens → g.clock < t.expiresAt → t ∈ g'.tokens) := by
  cases op with
  | createUser | setRole | deleteUser =>
    obtain ⟨db, -, rfl⟩ := Option.map_eq_some_iff.1 h
    exact ⟨.inl, fun ht _ => ht⟩
  | createSession token id proof =>
    simp only [step] at h
    split_ifs at h
    obtain ⟨db, -, rfl⟩ := Option.map_eq_some_iff.1 h
    exact ⟨.inl, fun ht _ => ht⟩
  | createEnrollToken token ttl =>
    simp only [step] at h
    split_ifs at h
    cases h
    refine ⟨fun ht => ?_, fun ht _ => List.mem_append_left _ ht⟩
    rcases List.mem_append.1 ht with ht | ht
    · exact .inl ht
    · rw [List.mem_singleton.1 ht]
      exact .inr ⟨ttl, rfl, rfl⟩
  | deleteExpired both =>
    cases h
    cases both with
    | false => exact ⟨.inl, fun ht _ => ht⟩
    | true =>
      refine ⟨fun ht => .inl (List.mem_of_mem_filter ht), fun ht hlt => List.mem_filter.2 ⟨ht, ?_⟩⟩
      exact decide_eq_true (not_le.2 hlt)
  | setPassword | setTOTP | elevateSession | deleteSessions | deleteSession | tick =>
    cases h
    exact ⟨.inl, fun ht _ => ht⟩

theorem createEnrollToken_mem {token ttl : ℕ} (h : step g (.createEnrollToken token ttl) = some g') :
    ⟨token, g.clock + ttl⟩ ∈ g'.tokens := by
  simp only [step] at h
  split_ifs at h
  cases h
  simp

theorem tokenInv_step (hclock : g.clock = start + elapsed ops) (inv : TokenInv start ops g)
    (h : step g op = some g') : TokenInv start (ops ++ [op]) g' where
  made := by
    intro t ht
    rcases (step_tokens h).1 ht with hold | ⟨ttl, rfl, hexpires⟩
    · obtain ⟨pre, ttl, post, rfl, hexpires⟩ := inv.made t hold
      exact ⟨pre, ttl, post ++ [op], by simp, hexpires⟩
    · exact ⟨ops, ttl, [], rfl, by rw [hexpires, hclock]⟩
  kept := by
    intro pre ttl post token hops hvalid
    rcases List.eq_nil_or_concat post with rfl | ⟨post', o, rfl⟩
    · obtain ⟨rfl, hop⟩ := List.append_inj' hops rfl
      obtain ⟨rfl, -⟩ := List.cons.inj hop
      rw [← hclock]
      exact createEnrollToken_mem h
    · rw [List.concat_eq_append, ← List.cons_append, ← List.append_assoc] at hops
      obtain ⟨rfl, -⟩ := List.append_inj' hops rfl
      rw [elapsed_append] at hvalid
      refine (step_tokens h).2 (inv.kept pre ttl post' token rfl (by omega)) ?_
      rw [hclock]
      change _ < start + elapsed pre + ttl
      omega

theorem validEnrollToken_iff {token : ℕ} : validEnrollToken g token = true ↔
    ∃ t ∈ g.tokens, t.token = token ∧ g.clock < t.expiresAt := by
  simp [validEnrollToken, List.countP_pos_iff]

end tokens

theorem inv_run {start : ℕ} (hstart : 0 < start) {before ops : List Op} {g g' : State}
    (inv : Inv start before g ∧ TokenInv start before g) (run : Runs.exec step g ops = some g') :
    Inv start (before ++ ops) g' ∧ TokenInv start (before ++ ops) g' := by
  induction ops generalizing before g with
  | nil =>
    cases run
    rwa [List.append_nil]
  | cons op ops ih =>
    obtain ⟨u, hu, run⟩ := Runs.exec_cons_some run
    have hnext := ih ⟨inv_step hstart inv.1 hu, tokenInv_step inv.1.clock inv.2 hu⟩ run
    rwa [List.append_assoc] at hnext

/-- Somebody signed in as `id` with this token, and nothing has ended the session since. -/
def SignedIn (ops : List Op) (token id : ℕ) : Prop := ∃ pre proof post,
  ops = pre ++ .createSession token id proof :: post ∧
  (∀ op ∈ post, op.ends token id = false) ∧ elapsed ops < elapsed pre + sessionTTL

/-- In that session the password was confirmed in the last ten minutes. -/
def Elevated (ops : List Op) (token id : ℕ) : Prop := ∃ pre proof mid post,
  ops = pre ++ .createSession token id proof :: (mid ++ .elevateSession token :: post) ∧
  (∀ op ∈ mid ++ post, op.ends token id = false) ∧ elapsed ops < elapsed pre + sessionTTL ∧
  elapsed ops ≤ elapsed (pre ++ mid) + elevationTTL

section answers
variable {start : ℕ} {ops : List Op} {g : State} {token : ℕ}

theorem session_cases {s : Session} (h : g.db.session token g.clock = some s) :
    ∃ row ∈ g.db.sessions, row.token = token ∧ row.userID = s.user.id ∧ g.clock < row.expiresAt ∧
      s.elevatedUntil = row.elevatedUntil := by
  simp only [Store.session, Option.bind_eq_bind, Option.bind_eq_some_iff] at h
  obtain ⟨row, hrow, u, hu, hs⟩ := h
  split_ifs at hs with hlt
  cases hs
  exact ⟨row, lookup_mem hrow, lookup_key hrow, (user_id hu).symm, hlt, rfl⟩

theorem session_of_row (inv : Inv start ops g) {row : SessionRow} (hrow : row ∈ g.db.sessions)
    (hlt : g.clock < row.expiresAt) :
    ∃ s, g.db.session row.token g.clock = some s ∧ s.user.id = row.userID := by
  obtain ⟨q, hq⟩ := Rows.exists_lookup (k := SessionRow.token) hrow
  have hsame : q = row := List.inj_on_of_nodup_map inv.keys (lookup_mem hq) hrow (lookup_key hq)
  obtain ⟨u, hu⟩ := Option.isSome_iff_exists.1 (inv.owner row hrow)
  refine ⟨⟨u, row.token, row.elevatedUntil⟩, ?_, user_id hu⟩
  simp only [Store.session, Option.bind_eq_bind, hq, hsame, hu, Option.bind_some]
  exact if_pos hlt

theorem signedIn_iff (inv : Inv start ops g) (id : ℕ) :
    (∃ s, g.db.session token g.clock = some s ∧ s.user.id = id) ↔ SignedIn ops token id := by
  constructor
  · rintro ⟨s, hs, rfl⟩
    obtain ⟨row, hrow, rfl, hid, hlt, -⟩ := session_cases hs
    obtain ⟨pre, post, hops, story⟩ := inv.row row hrow
    rw [← hid]
    refine ⟨pre, row.proof, post, hops, story.still, ?_⟩
    rw [story.expires, inv.clock] at hlt
    omega
  · rintro ⟨pre, proof, post, hops, hopen, hvalid⟩
    obtain ⟨row, hrow, rfl, rfl, story⟩ := inv.kept pre post token id proof hops hopen hvalid
    refine session_of_row inv hrow ?_
    rw [story.expires, inv.clock]
    omega

theorem elevated_iff (inv : Inv start ops g) {s : Session}
    (hs : g.db.session token g.clock = some s) :
    g.clock ≤ s.elevatedUntil ↔ Elevated ops token s.user.id := by
  obtain ⟨row, hrow, rfl, hid, hlt, helev⟩ := session_cases hs
  rw [helev, ← hid]
  constructor
  · intro hle
    obtain ⟨pre, post, hops, story⟩ := inv.row row hrow
    have hclock : g.clock = start + elapsed (pre ++ post) := by
      rw [inv.clock, hops]
      simp [Op.elapsed]
    obtain ⟨mid, rest, rfl, hnow⟩ := (story.elevated g.clock hclock.ge).1 hle
    rw [story.expires, inv.clock] at hlt
    rw [inv.clock] at hnow
    refine ⟨pre, row.proof, mid, rest, hops, fun op hop => story.still op ?_, by omega, by omega⟩
    simp only [List.mem_append, List.mem_cons] at hop ⊢
    tauto
  · rintro ⟨pre, proof, mid, post, hops, hopen, hvalid, hnow⟩
    have hall : ∀ op ∈ mid ++ .elevateSession row.token :: post,
        op.ends row.token row.userID = false := by
      intro op hop
      simp only [List.mem_append, List.mem_cons] at hop
      rcases hop with hop | rfl | hop
      · exact hopen op (List.mem_append_left _ hop)
      · rfl
      · exact hopen op (List.mem_append_right _ hop)
    obtain ⟨q, hq, htoken, -, story⟩ := inv.kept pre _ row.token row.userID proof hops hall hvalid
    obtain rfl : q = row := List.inj_on_of_nodup_map inv.keys hq hrow htoken
    refine (story.elevated g.clock ?_).2 ⟨mid, post, rfl, ?_⟩
    · rw [inv.clock, hops]
      simp [Op.elapsed]
    · rw [inv.clock]
      omega

theorem enrollToken_iff (hclock : g.clock = start + elapsed ops) (inv : TokenInv start ops g) :
    validEnrollToken g token = true ↔ ∃ pre ttl post,
      ops = pre ++ .createEnrollToken token ttl :: post ∧ elapsed ops < elapsed pre + ttl := by
  rw [validEnrollToken_iff]
  constructor
  · rintro ⟨t, ht, rfl, hlt⟩
    obtain ⟨pre, ttl, post, hops, hexpires⟩ := inv.made t ht
    exact ⟨pre, ttl, post, hops, by omega⟩
  · rintro ⟨pre, ttl, post, hops, hvalid⟩
    refine ⟨_, inv.kept pre ttl post token hops hvalid, rfl, ?_⟩
    change g.clock < start + elapsed pre + ttl
    omega

end answers

/-- The store answers for a session exactly if the history says that it goes on, whatever
was pruned when, and `requireElevated` lets it pass exactly if it was confirmed; an
enrollment token is valid exactly until its time is over. -/
theorem session_history {start : ℕ} (hstart : 0 < start) {ops : List Op} {g : State}
    (run : Runs.exec step (init start) ops = some g) (token : ℕ) :
    (∀ id, (∃ s, g.db.session token g.clock = some s ∧ s.user.id = id) ↔ SignedIn ops token id) ∧
    (∀ s, g.db.session token g.clock = some s →
      (g.clock ≤ s.elevatedUntil ↔ Elevated ops token s.user.id)) ∧
    (validEnrollToken g token = true ↔ ∃ pre ttl post,
      ops = pre ++ .createEnrollToken token ttl :: post ∧ elapsed ops < elapsed pre + ttl) := by
  have hinit : TokenInv start [] (init start) := ⟨by simp [init], by simp⟩
  obtain ⟨inv, tokens⟩ := inv_run hstart ⟨inv_init start, hinit⟩ run
  exact ⟨signedIn_iff inv, fun s hs => elevated_iff inv hs, enrollToken_iff inv.clock tokens⟩

def signIn : List Op :=
  [.createUser 5 ⟨1, 1⟩ .admin, .createSession 8 1 (.password 0 0), .tick sessionTTL,
   .createSession 9 1 (.password 0 0), .elevateSession 9, .createEnrollToken 4 60,
   .deleteExpired true, .tick 30]

theorem signIn_view : (Runs.exec step (init 100) signIn).map (fun g => g.db.session 8 g.clock) =
    some none := by
  decide +kernel

theorem session_history_pruned : ∃ g, Runs.exec step (init 100) signIn = some g ∧
    ¬ SignedIn signIn 8 1 ∧ (∃ s, g.db.session 9 g.clock = some s ∧ s.user.id = 1 ∧
      g.clock ≤ s.elevatedUntil) ∧ validEnrollToken g 4 = true := by
  obtain ⟨g, hg, hold⟩ := Option.map_eq_some_iff.1 signIn_view
  have hstart : 0 < 100 := by decide
  refine ⟨g, hg, fun hsigned => ?_, ?_, ?_⟩
  · obtain ⟨s, hs, -⟩ := ((session_history hstart hg 8).1 1).2 hsigned
    rw [hold] at hs
    cases hs
  · obtain ⟨hsigned, helevated, -⟩ := session_history hstart hg 9
    obtain ⟨s, hs, hid⟩ := (hsigned 1).2 ⟨signIn.take 3, _, signIn.drop 4, rfl, by decide, by decide⟩
    refine ⟨s, hs, hid, (helevated s hs).2 ?_⟩
    rw [hid]
    exact ⟨signIn.take 3, _, [], signIn.drop 5, rfl, by decide, by decide, by decide⟩
  · exact (session_history hstart hg 4).2.2.2 ⟨signIn.take 5, 60, signIn.drop 6, rfl, by decide⟩

end Lotse.Sessions
