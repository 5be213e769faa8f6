import Lotse.PasskeyMachine
import Lotse.Tickets

set_option autoImplicit false

namespace Lotse.Passkeys
open Tasks Utf8

/-- What a response is accepted for if it passes: its ticket, and the purpose and session
the challenge must have been issued with. -/
structure Claim where
  ticket : Ticket
  purpose : Purpose
  session : Option ℕ

def Instr.claim : Instr → Option Claim
  | .passkeyByCredential c t _ _ _ => some ⟨t, c.purpose, c.session⟩
  | .passkeyHandle c t _ _ _ => some ⟨t, c.purpose, c.session⟩
  | .usePasskey c t _ _ _ => some ⟨t, c.purpose, c.session⟩
  | .startSession t _ => some ⟨t, .login, none⟩
  | .elevateSession t s _ => some ⟨t, .elevate, some s.token⟩
  | .createPasskey t s _ _ => some ⟨t, .register, some s.token⟩
  | _ => none

def Ceremony.subject : Ceremony → Option Session
  | .login => none
  | .confirm s => some s

def Instr.subject : Instr → Option Session
  | .verifyAssertion c _ _ => c.subject
  | .passkeyByCredential c _ _ _ _ => c.subject
  | .passkeyHandle c _ _ _ _ => c.subject
  | .usePasskey c _ _ _ _ => c.subject
  | .elevateSession _ s _ => some s
  | _ => none

def Instr.Owned : Instr → Prop
  | .elevateSession _ s key => key.userID = s.userID
  | _ => True

def holds (key : String) (ins : Instr) : ℕ :=
  if ins.claim.any fun x => x.ticket.challenge = key then 1 else 0

def Claim.Issued (issued : Challenges) (x : Claim) : Prop := ∃ c, (x.ticket.challenge, c) ∈ issued ∧
  c.purpose = x.purpose ∧ c.session = x.session ∧ x.ticket.takenAt < c.expires

structure Same (g g' : State) : Prop where
  challenges : g'.challenges = g.challenges
  issued : g'.issued = g.issued
  taken : g'.taken = g.taken
  sessions : g'.sessions = g.sessions
  tokens : g'.tokens = g.tokens
  accepted : g'.accepted = g.accepted
  elevations : g'.elevations = g.elevations

/-- A later instruction of the task: it holds the task's ticket or none, and its session is
the task's or was loaded just now. -/
structure Follows (g : State) (ins i : Instr) : Prop where
  claim : i.claim = none ∨ i.claim = ins.claim
  subject : ∀ s ∈ i.subject, ins.subject = some s ∨ s ∈ g.sessions
  owned : i.Owned

def State.useUp (g : State) (key : String) : State :=
  { g with challenges := Rows.erase Prod.fst key g.challenges, taken := key :: g.taken }

inductive Effect (g : State) (ins : Instr) : State → List Instr → Prop where
  | stop {g' : State} (same : Same g g') : Effect g ins g' []
  | go {g' : State} {i : Instr} (same : Same g g') (follows : Follows g ins i) :
      Effect g ins g' [i]
  | signOut (token : ℕ) :
      Effect g ins { g with sessions := Rows.erase Session.token token g.sessions } []
  | signIn {token userID : ℕ} (fresh : token ∉ g.tokens.map Prod.fst) :
      Effect g ins (g.createSession token userID) []
  | issue {o : Oracle} {c : Challenge} (fresh : o.fresh ∉ g.issued.map Prod.fst)
      (order : ∀ e ∈ unexpired g.clock g.challenges, e.1 ∈ o.order) {g' : State}
      (same : Same (g.issue o c) g') : Effect g ins g' []
  | spoil {key : String} {c : Challenge} (pending : (key, c) ∈ g.challenges) {g' : State}
      (same : Same (g.useUp key) g') : Effect g ins g' []
  | take {x : Claim} {c : Challenge} (pending : (x.ticket.challenge, c) ∈ g.challenges)
      (purpose : c.purpose = x.purpose) (session : c.session = x.session)
      (intime : x.ticket.takenAt < c.expires) {i : Instr} (claim : i.claim = some x)
      (subject : i.subject = ins.subject ∨ i.subject = none) (owned : i.Owned) :
      Effect g ins (g.useUp x.ticket.challenge) [i]
  | login {t : Ticket} {token userID : ℕ} (claim : ins.claim = some ⟨t, .login, none⟩)
      (fresh : token ∉ g.tokens.map Prod.fst) {g' : State}
      (same : Same ((g.createSession token userID).accept t (.login userID)) g') : Effect g ins g' []
  | elevate {t : Ticket} {s : Session} {key : Passkey}
      (claim : ins.claim = some ⟨t, .elevate, some s.token⟩) (subject : ins.subject = some s)
      (owner : ins.Owned → key.userID = s.userID) {g' : State}
      (same : Same ((g.elevate s key).accept t (.confirm s.token)) g') : Effect g ins g' []
  | register {t : Ticket} {s : Session} (claim : ins.claim = some ⟨t, .register, some s.token⟩)
      {g' : State} (same : Same (g.accept t (.register s.token)) g') : Effect g ins g' []

theorem Same.refl (g : State) : Same g g := ⟨rfl, rfl, rfl, rfl, rfl, rfl, rfl⟩

theorem Same.reply {g g' : State} (h : Same g g') (r : Reply) : Same g (g'.reply r) :=
  ⟨h.challenges, h.issued, h.taken, h.sessions, h.tokens, h.accepted, h.elevations⟩

theorem Follows.plain {g : State} {ins i : Instr} (hclaim : i.claim = none)
    (hsubject : i.subject = none) (howned : i.Owned) : Follows g ins i :=
  ⟨.inl hclaim, fun s hs => by simp [hsubject] at hs, howned⟩

theorem effect_refuse {g : State} {ins : Instr} (message : String) :
    Effect g ins (refuse g message).global (refuse g message).code :=
  .stop ((Same.refl g).reply _)

abbrev Does (g : State) (ins : Instr) (out : Outcome State Instr) : Prop :=
  Effect g ins out.global out.code

theorem does_withSession {g : State} {ins : Instr} {token : ℕ} {k : Session → Outcome State Instr}
    (hk : ∀ s ∈ g.sessions, Does g ins (k s)) : Does g ins (withSession g token k) := by
  rw [withSession]
  cases hs : g.session token with
  | none => exact effect_refuse _
  | some s => exact hk s (Rows.lookup_mem hs)

theorem takeChallenge_cases (g : State) (key : String) (purpose : Purpose) (session : Option ℕ) :
    g.takeChallenge key purpose session = (g, false) ∨
    ∃ c, (key, c) ∈ g.challenges ∧ g.takeChallenge key purpose session =
      (g.useUp key, c.purpose = purpose && c.session = session && g.clock < c.expires) := by
  rcases take_cases g.clock g.challenges key purpose session with ⟨hnone, heq⟩ | ⟨c, hc, heq⟩
  · left
    rw [State.takeChallenge, heq]
    simp [Rows.lookup_eq_none.2 hnone]
  · right
    refine ⟨c, hc, ?_⟩
    have hsome : (Rows.lookup Prod.fst key g.challenges).isSome = true :=
      Rows.lookup_isSome.2 ⟨(key, c), hc, rfl⟩
    rw [State.takeChallenge, heq, hsome]
    rfl

theorem checkClientData_cases (E : Env) (g : State) (d : Decoded) (typ : String)
    (purpose : Purpose) (session : Option ℕ) :
    (∃ e, checkClientData E g d typ purpose session = (g, .error e)) ∨
    ∃ key c, (key, c) ∈ g.challenges ∧
      ((∃ e, checkClientData E g d typ purpose session = (g.useUp key, .error e)) ∨
        checkClientData E g d typ purpose session = (g.useUp key, .ok ⟨key, g.clock⟩) ∧
          c.purpose = purpose ∧ c.session = session ∧ g.clock < c.expires) := by
  rw [checkClientData]
  cases E.clientData d.cdJSON with
  | none => exact .inl ⟨_, rfl⟩
  | some cd =>
    rcases takeChallenge_cases g cd.challenge purpose session with heq | ⟨c, hc, heq⟩
    · simp only [heq]
      exact .inl ⟨_, rfl⟩
    · refine .inr ⟨cd.challenge, c, hc, ?_⟩
      simp only [heq]
      cases hmatch : (c.purpose = purpose && c.session = session && g.clock < c.expires : Bool) with
      | false => exact .inl ⟨_, rfl⟩
      | true =>
        simp only [Bool.and_eq_true, decide_eq_true_eq] at hmatch
        simp only
        cases checkOrigin cd typ d.rp.origin with
        | error e => exact .inl ⟨e, rfl⟩
        | ok u => exact .inr ⟨rfl, hmatch.1.1, hmatch.1.2, hmatch.2⟩

theorem does_verifyAssertion (E : Env) (g : State) (c : Ceremony) (a : Assertion) (lost : Bool) :
    Does g (.verifyAssertion c a lost) (verifyAssertion E g c a lost) := by
  rw [verifyAssertion]
  cases a.decode E with
  | error e => exact effect_refuse _
  | ok d =>
    simp only
    rcases checkClientData_cases E g d "webauthn.get" c.purpose c.session with
      ⟨e, heq⟩ | ⟨key, ch, hch, ⟨e, heq⟩ | ⟨heq, hp, hs, hlt⟩⟩
    · rw [heq]
      exact effect_refuse _
    · rw [heq]
      exact .spoil hch ((Same.refl _).reply _)
    · rw [heq]
      simp only
      cases parseAuthData E d.adBytes d.rp.rpID with
      | error e => exact .spoil hch ((Same.refl _).reply _)
      | ok ad => exact .take (x := ⟨⟨key, g.clock⟩, _, _⟩) hch hp hs hlt rfl (.inl rfl) trivial

theorem does_verifyAttestation (E : Env) (g : State) (s : Session) (a : Attestation) :
    Does g (.verifyAttestation s a) (verifyAttestation E g s a) := by
  rw [verifyAttestation]
  cases a.decode E with
  | error e => exact effect_refuse _
  | ok d =>
    simp only
    rcases checkClientData_cases E g d "webauthn.create" .register (some s.token) with
      ⟨e, heq⟩ | ⟨key, ch, hch, ⟨e, heq⟩ | ⟨heq, hp, hs, hlt⟩⟩
    · rw [heq]
      exact effect_refuse _
    · rw [heq]
      exact .spoil hch ((Same.refl _).reply _)
    · rw [heq]
      simp only
      cases checkAttestation E d with
      | error e => exact .spoil hch ((Same.refl _).reply _)
      | ok ad => exact .take (x := ⟨⟨key, g.clock⟩, _, _⟩) hch hp hs hlt rfl (.inr rfl) trivial

theorem does_checkCounter {g : State} {ins : Instr} {c : Ceremony} {t : Ticket} {ad : AuthData}
    {key : Passkey} {lost : Bool} (hclaim : ins.claim = some ⟨t, c.purpose, c.session⟩)
    (hsubject : ins.subject = c.subject) : Does g ins (checkCounter g c t ad key lost) := by
  rw [checkCounter]
  split_ifs
  · refine .go (.refl g) ⟨.inr hclaim.symm, fun s hs => .inl ?_, trivial⟩
    rw [hsubject]
    exact hs
  · exact effect_refuse _

theorem does_passkeyByCredential (E : Env) (g : State) (c : Ceremony) (t : Ticket) (d : Decoded)
    (ad : AuthData) (lost : Bool) : Does g (.passkeyByCredential c t d ad lost)
      (passkeyByCredential E g c t d ad lost) := by
  rw [passkeyByCredential]
  cases Rows.lookup Passkey.credentialID d.credID g.passkeys with
  | none => exact effect_refuse _
  | some key =>
    simp only
    split_ifs
    · exact effect_refuse _
    · exact .go (.refl g) ⟨.inr rfl, fun s hs => .inl hs, trivial⟩
    · exact does_checkCounter rfl rfl

theorem does_usePasskey (g : State) (c : Ceremony) (t : Ticket) (ad : AuthData) (key : Passkey)
    (lost : Bool) : Does g (.usePasskey c t ad key lost) (usePasskey g c t ad key lost) := by
  have hsame : Same g (g.useKey key.id ad.signCount lost) := ⟨rfl, rfl, rfl, rfl, rfl, rfl, rfl⟩
  cases c with
  | login => exact .go hsame ⟨.inr rfl, fun s hs => (by cases hs), trivial⟩
  | confirm s =>
    rw [usePasskey]
    split_ifs with howner
    · exact .stop (hsame.reply _)
    · exact .go hsame ⟨.inr rfl, fun u hu => .inl hu, not_not.1 howner⟩

theorem does_createPasskey (g : State) (t : Ticket) (s : Session) (d : Decoded) (ad : AuthData) :
    Does g (.createPasskey t s d ad) (createPasskey g t s d ad) := by
  rw [createPasskey]
  split_ifs
  · exact effect_refuse _
  · exact .register rfl ⟨rfl, rfl, rfl, rfl, rfl, rfl, rfl⟩

theorem does_descriptors (g : State) (s : Session) (purpose rpID : String) :
    Does g (.descriptors s purpose rpID) (descriptors g s purpose rpID) := by
  have hgo : ∀ p, Does g (.descriptors s purpose rpID)
      (.next g [.addChallenge p (some s.token)]) :=
    fun p => .go (.refl g) (.plain rfl rfl trivial)
  rw [descriptors]
  split_ifs
  · exact effect_refuse _
  · exact hgo _
  · exact hgo _
  · exact effect_refuse _
  · exact effect_refuse _

theorem atomic_effect {E : Env} {o : Oracle} {g : State} {ins : Instr}
    {out : Outcome State Instr} (h : atomic E o g ins = some out) : Does g ins out := by
  cases ins with
  | tick d =>
    cases h
    exact .stop ⟨rfl, rfl, rfl, rfl, rfl, rfl, rfl⟩
  | signIn userID =>
    simp only [atomic, Option.ite_none_left_eq_some, Option.some.injEq] at h
    obtain ⟨hfresh, rfl⟩ := h
    exact .signIn hfresh
  | signOut token =>
    cases h
    exact .signOut token
  | loginOptions rp =>
    cases rp with
    | none =>
      cases h
      exact effect_refuse _
    | some rp =>
      cases h
      exact .go (.refl g) (.plain rfl rfl trivial)
  | addChallenge purpose session =>
    simp only [atomic, addChallenge, Option.ite_none_left_eq_some, Option.some.injEq, not_or,
      not_not] at h
    obtain ⟨⟨hfresh, horder⟩, rfl⟩ := h
    exact .issue hfresh horder ((Same.refl _).reply _)
  | options token purpose rp =>
    cases h
    refine does_withSession fun s _ => ?_
    cases rp with
    | none => exact effect_refuse _
    | some rp => exact .go (.refl g) (.plain rfl rfl trivial)
  | descriptors s purpose rpID =>
    cases h
    exact does_descriptors g s purpose rpID
  | loadConfirm token a lost =>
    cases h
    refine does_withSession fun s hs => .go (.refl g) ⟨.inl rfl, fun u hu => .inr ?_, trivial⟩
    cases hu
    exact hs
  | verifyAssertion c a lost =>
    cases h
    exact does_verifyAssertion E g c a lost
  | passkeyByCredential c t d ad lost =>
    cases h
    exact does_passkeyByCredential E g c t d ad lost
  | passkeyHandle c t ad key lost =>
    cases h
    split_ifs
    · exact does_checkCounter rfl rfl
    · exact effect_refuse _
  | usePasskey c t ad key lost =>
    cases h
    exact does_usePasskey g c t ad key lost
  | startSession t userID =>
    simp only [atomic, Option.ite_none_left_eq_some, Option.some.injEq] at h
    obtain ⟨hfresh, rfl⟩ := h
    exact .login rfl hfresh ((Same.refl _).reply _)
  | elevateSession t s key =>
    cases h
    exact .elevate rfl rfl id ((Same.refl _).reply _)
  | loadRegister token a =>
    cases h
    refine does_withSession fun s _ => ?_
    split_ifs
    · exact .go (.refl g) (.plain rfl rfl trivial)
    · exact effect_refuse _
  | verifyAttestation s a =>
    cases h
    exact does_verifyAttestation E g s a
  | createPasskey t s d ad =>
    cases h
    exact does_createPasskey g t s d ad

def Response.purpose : Response → Purpose
  | .login _ => .login
  | .confirm _ => .elevate
  | .register _ => .register

def Response.session : Response → Option ℕ
  | .login _ => none
  | .confirm token => some token
  | .register token => some token

def Acceptance.claim (a : Acceptance) : Claim :=
  ⟨⟨a.challenge, a.takenAt⟩, a.response.purpose, a.response.session⟩

structure Ledger (g : State) : Prop where
  pending : ∀ e ∈ g.challenges, e ∈ g.issued
  size : g.challenges.length ≤ maxChallenges
  taken_issued : ∀ key ∈ g.taken, key ∈ g.issued.map Prod.fst
  taken_nodup : g.taken.Nodup
  taken_gone : ∀ e ∈ g.challenges, e.1 ∉ g.taken
  tokens_nodup : (g.tokens.map Prod.fst).Nodup
  sessions : ∀ s ∈ g.sessions, (s.token, s.userID) ∈ g.tokens
  accepted : ∀ a ∈ g.accepted, a.claim.Issued g.issued
  elevations : ∀ e ∈ g.elevations, e.sessionUser = e.keyUser

structure InstrOk (g : State) (ins : Instr) : Prop where
  claim : ∀ x ∈ ins.claim, x.Issued g.issued
  subject : ∀ s ∈ ins.subject, (s.token, s.userID) ∈ g.tokens
  owned : ins.Owned

section steps
variable {g g' : State} {ins : Instr} {code : List Instr}

theorem Claim.Issued.mono {issued issued' : Challenges} {x : Claim} (h : x.Issued issued)
    (hsub : issued ⊆ issued') : x.Issued issued' := by
  obtain ⟨c, hc, hrest⟩ := h
  exact ⟨c, hsub hc, hrest⟩

theorem Ledger.same (h : Ledger g) (hs : Same g g') : Ledger g' := by
  obtain ⟨hchallenges, hissued, htaken, hsessions, htokens, haccepted, helevations⟩ := hs
  constructor
  · rw [hchallenges, hissued]; exact h.pending
  · rw [hchallenges]; exact h.size
  · rw [htaken, hissued]; exact h.taken_issued
  · rw [htaken]; exact h.taken_nodup
  · rw [hchallenges, htaken]; exact h.taken_gone
  · rw [htokens]; exact h.tokens_nodup
  · rw [hsessions, htokens]; exact h.sessions
  · rw [haccepted, hissued]; exact h.accepted
  · rw [helevations]; exact h.elevations

theorem Ledger.createSession (h : Ledger g) {token userID : ℕ}
    (fresh : token ∉ g.tokens.map Prod.fst) : Ledger (g.createSession token userID) where
  pending := h.pending
  size := h.size
  taken_issued := h.taken_issued
  taken_nodup := h.taken_nodup
  taken_gone := h.taken_gone
  tokens_nodup := List.nodup_cons.2 ⟨fresh, h.tokens_nodup⟩
  sessions := by
    intro s hs
    rcases List.mem_cons.1 hs with rfl | hs
    · exact List.mem_cons_self
    · exact List.mem_cons_of_mem _ (h.sessions s hs)
  accepted := h.accepted
  elevations := h.elevations

theorem Ledger.issue (h : Ledger g) {o : Oracle} {c : Challenge}
    (fresh : o.fresh ∉ g.issued.map Prod.fst)
    (order : ∀ e ∈ unexpired g.clock g.challenges, e.1 ∈ o.order) : Ledger (g.issue o c) where
  pending := by
    intro e he
    rcases mem_add he with ⟨he, _⟩ | rfl
    · exact List.mem_cons_of_mem _ (h.pending e he)
    · exact List.mem_cons_self
  size := add_length (fun _ => order) c
  taken_issued key hkey := List.mem_cons_of_mem _ (h.taken_issued key hkey)
  taken_nodup := h.taken_nodup
  taken_gone := by
    intro e he
    rcases mem_add he with ⟨he, _⟩ | rfl
    · exact h.taken_gone e he
    · exact fun hmem => fresh (h.taken_issued _ hmem)
  tokens_nodup := h.tokens_nodup
  sessions := h.sessions
  accepted a ha := (h.accepted a ha).mono (List.subset_cons_self _ _)
  elevations := h.elevations

theorem Ledger.useUp (h : Ledger g) {key : String} {c : Challenge}
    (pending : (key, c) ∈ g.challenges) : Ledger (g.useUp key) where
  pending e he := h.pending e (List.mem_filter.1 he).1
  size := (List.length_filter_le _ _).trans h.size
  taken_issued := by
    intro k hk
    rcases List.mem_cons.1 hk with rfl | hk
    · exact List.mem_map.2 ⟨_, h.pending _ pending, rfl⟩
    · exact h.taken_issued k hk
  taken_nodup := List.nodup_cons.2 ⟨h.taken_gone _ pending, h.taken_nodup⟩
  taken_gone := by
    intro e he hmem
    obtain ⟨he, hne⟩ := List.mem_filter.1 he
    rcases List.mem_cons.1 hmem with heq | hmem
    · simp [heq] at hne
    · exact h.taken_gone e he hmem
  tokens_nodup := h.tokens_nodup
  sessions := h.sessions
  accepted := h.accepted
  elevations := h.elevations

theorem Ledger.accept (h : Ledger g) {t : Ticket} {r : Response}
    (issued : Claim.Issued g.issued ⟨t, r.purpose, r.session⟩) : Ledger (g.accept t r) where
  pending := h.pending
  size := h.size
  taken_issued := h.taken_issued
  taken_nodup := h.taken_nodup
  taken_gone := h.taken_gone
  tokens_nodup := h.tokens_nodup
  sessions := h.sessions
  accepted := by
    intro a ha
    rcases List.mem_cons.1 ha with rfl | ha
    · exact issued
    · exact h.accepted a ha
  elevations := h.elevations

/-- A token names one user for ever, so the elevated row has the user of the session that
was loaded when the request came in. -/
theorem Ledger.elevate (h : Ledger g) {s : Session} {key : Passkey}
    (known : (s.token, s.userID) ∈ g.tokens) (owner : key.userID = s.userID) :
    Ledger (g.elevate s key) where
  pending := h.pending
  size := h.size
  taken_issued := h.taken_issued
  taken_nodup := h.taken_nodup
  taken_gone := h.taken_gone
  tokens_nodup := h.tokens_nodup
  sessions := by
    intro u hu
    obtain ⟨v, hv, rfl⟩ := List.mem_map.1 hu
    split_ifs <;> exact h.sessions v hv
  accepted := h.accepted
  elevations := by
    intro e he
    rcases List.mem_append.1 he with he | he
    · obtain ⟨u, hu, rfl⟩ := List.mem_map.1 he
      obtain ⟨hu, htoken⟩ := List.mem_filter.1 hu
      have huser : (s.token, u.userID) ∈ g.tokens := by
        rw [← of_decide_eq_true htoken]
        exact h.sessions u hu
      have hsame := List.inj_on_of_nodup_map h.tokens_nodup huser known rfl
      exact (congrArg Prod.snd hsame).trans owner.symm
    · exact h.elevations e he

theorem effect_ledger (h : Ledger g) (hins : InstrOk g ins) (he : Effect g ins g' code) :
    Ledger g' := by
  cases he with
  | stop same => exact h.same same
  | go same => exact h.same same
  | signOut token =>
    exact { h with sessions := fun s hs => h.sessions s (List.mem_filter.1 hs).1 }
  | signIn fresh => exact h.createSession fresh
  | issue fresh order same => exact (h.issue fresh order).same same
  | spoil pending same => exact (h.useUp pending).same same
  | take pending => exact h.useUp pending
  | login claim fresh same =>
    exact ((h.createSession fresh).accept (hins.claim _ claim)).same same
  | elevate claim subject owner same =>
    have hraised := h.elevate (hins.subject _ subject) (owner hins.owned)
    exact (hraised.accept (hins.claim _ claim)).same same
  | register claim same => exact (h.accept (hins.claim _ claim)).same same

structure Grows (g g' : State) : Prop where
  issued : g.issued ⊆ g'.issued
  tokens : g.tokens ⊆ g'.tokens

theorem Grows.refl (g : State) : Grows g g := ⟨List.Subset.refl _, List.Subset.refl _⟩

theorem Same.grows {u : State} (hs : Same u g') (h : Grows g u) : Grows g g' :=
  ⟨hs.issued ▸ h.issued, hs.tokens ▸ h.tokens⟩

theorem effect_grows (he : Effect g ins g' code) : Grows g g' := by
  cases he with
  | stop same => exact same.grows (.refl g)
  | go same => exact same.grows (.refl g)
  | signOut token => exact ⟨List.Subset.refl _, List.Subset.refl _⟩
  | signIn fresh => exact ⟨List.Subset.refl _, List.subset_cons_self _ _⟩
  | issue fresh order same => exact same.grows ⟨List.subset_cons_self _ _, List.Subset.refl _⟩
  | spoil pending same => exact same.grows ⟨List.Subset.refl _, List.Subset.refl _⟩
  | take pending => exact ⟨List.Subset.refl _, List.Subset.refl _⟩
  | login claim fresh same => exact same.grows ⟨List.Subset.refl _, List.subset_cons_self _ _⟩
  | elevate claim subject owner same => exact same.grows ⟨List.Subset.refl _, List.Subset.refl _⟩
  | register claim same => exact same.grows ⟨List.Subset.refl _, List.Subset.refl _⟩

theorem InstrOk.mono (h : InstrOk g ins) (hg : Grows g g') : InstrOk g' ins :=
  ⟨fun x hx => (h.claim x hx).mono hg.issued, fun s hs => hg.tokens (h.subject s hs), h.owned⟩

theorem effect_code (h : Ledger g) (hins : InstrOk g ins) (he : Effect g ins g' code) :
    ∀ i ∈ code, InstrOk g' i := by
  suffices hcode : ∀ i ∈ code, InstrOk g i from
    fun i hi => (hcode i hi).mono (effect_grows he)
  intro i hi
  cases he with
  | go same follows =>
    obtain rfl := List.mem_singleton.1 hi
    refine ⟨fun x hx => ?_, fun s hs => ?_, follows.owned⟩
    · rcases follows.claim with hnone | hsame
      · rw [hnone] at hx
        cases hx
      · exact hins.claim x (hsame ▸ hx)
    · rcases follows.subject s hs with hown | hloaded
      · exact hins.subject s hown
      · exact h.sessions s hloaded
  | take pending purpose session intime claim subject owned =>
    obtain rfl := List.mem_singleton.1 hi
    refine ⟨fun x hx => ?_, fun s hs => ?_, owned⟩
    · rw [claim] at hx
      cases hx
      exact ⟨_, h.pending _ pending, purpose, session, intime⟩
    · rcases subject with hsame | hnone
      · exact hins.subject s (hsame ▸ hs)
      · rw [hnone] at hs
        cases hs
  | stop | signOut | signIn | issue | spoil | login | elevate | register => cases hi

def acceptances (g : State) (key : String) : ℕ := (g.accepted.map (·.challenge)).count key

theorem holds_of_claim {x : Claim} (key : String) (h : ins.claim = some x) :
    holds key ins = if x.ticket.challenge = key then 1 else 0 := by
  simp [holds, h]

theorem acceptances_accept (g : State) (t : Ticket) (r : Response) (key : String) :
    acceptances (g.accept t r) key = acceptances g key + if t.challenge = key then 1 else 0 := by
  simp [acceptances, State.accept, List.count_cons]

theorem taken_useUp (g : State) (used key : String) :
    (g.useUp used).taken.count key = g.taken.count key + if used = key then 1 else 0 := by
  simp [State.useUp, List.count_cons]

theorem acceptances_same (h : Same g g') (key : String) : acceptances g' key = acceptances g key := by
  rw [acceptances, h.accepted, acceptances]

/-- A ticket comes from the map and goes into the log. -/
theorem effect_tickets (he : Effect g ins g' code) (key : String) :
    acceptances g' key + held (holds key) code + g.taken.count key ≤
      acceptances g key + holds key ins + g'.taken.count key := by
  cases he with
  | stop same => simp [acceptances_same same, same.taken]
  | @go g' i same follows =>
    have hle : holds key i ≤ holds key ins := by
      rcases follows.claim with hnone | hsame
      · simp [holds, hnone]
      · simp [holds, hsame]
    rw [acceptances_same same, same.taken, held_cons, held_nil]
    omega
  | signOut token => simp [acceptances]
  | signIn fresh => simp [acceptances, State.createSession]
  | issue fresh order same =>
    rw [acceptances_same same, same.taken, held_nil]
    exact Nat.add_le_add_right (Nat.le_add_right _ _) _
  | @spoil used c pending g' same =>
    rw [acceptances_same same, same.taken, taken_useUp, held_nil]
    have hkeep : acceptances (g.useUp used) key = acceptances g key := rfl
    omega
  | @take x c pending purpose session intime i claim subject owned =>
    rw [taken_useUp, held_cons, held_nil, holds_of_claim key claim]
    have hkeep : acceptances (g.useUp x.ticket.challenge) key = acceptances g key := rfl
    omega
  | @login t token userID claim fresh g' same =>
    rw [acceptances_same same, same.taken, acceptances_accept, holds_of_claim key claim, held_nil]
    exact Nat.le_refl _
  | @elevate t s k claim subject owner g' same =>
    rw [acceptances_same same, same.taken, acceptances_accept, holds_of_claim key claim, held_nil]
    exact Nat.le_refl _
  | register claim same =>
    rw [acceptances_same same, same.taken, acceptances_accept, holds_of_claim key claim, held_nil]
    exact Nat.le_refl _

end steps

structure Inv (c : Config State Instr) : Prop where
  ledger : Ledger c.global
  tasks : ∀ t ∈ c.tasks, ∀ ins ∈ t, InstrOk c.global ins
  tickets : ∀ key, acceptances c.global key + holdings (holds key) c.tasks ≤
    c.global.taken.count key

theorem code_plain (r : Request) : ∀ ins ∈ code r,
    ins.claim = none ∧ ins.subject = none ∧ ins.Owned := by
  cases r <;> exact List.forall_mem_singleton.2 ⟨rfl, rfl, trivial⟩

theorem inv_start (c : Config State Instr) (r : Request) (h : Inv c) :
    Inv ⟨c.global, c.tasks ++ [code r]⟩ := by
  refine ⟨h.ledger, forall_start h.tasks fun ins hins => ?_, fun key => ?_⟩
  · obtain ⟨hclaim, hsubject, howned⟩ := code_plain r ins hins
    exact ⟨by simp [hclaim], by simp [hsubject], howned⟩
  · have hheld : held (holds key) (code r) = 0 :=
      held_eq_zero fun ins hins => by simp [holds, (code_plain r ins hins).1]
    rw [holdings_start, hheld]
    exact h.tickets key

theorem inv_run (E : Env) (c : Config State Instr) (i : ℕ) (ins : Instr) (rest : List Instr)
    (o : Oracle) (out : Outcome State Instr) (h : Inv c) (ht : c.tasks[i]? = some (ins :: rest))
    (ho : atomic E o c.global ins = some out) :
    Inv ⟨out.global, c.tasks.set i (out.resume rest)⟩ := by
  have he : Effect c.global ins out.global out.code := atomic_effect ho
  have hins : InstrOk c.global ins := h.tasks _ (task_mem ht) ins List.mem_cons_self
  have hgrows := effect_grows he
  refine ⟨effect_ledger h.ledger hins he, ?_, fun key => ?_⟩
  · exact forall_step ht h.tasks (fun _ hj => hj.mono hgrows) (effect_code h.ledger hins he)
  · have hmoved := effect_tickets he key
    have htasks := holdings_step (w := holds key) ht out
    have hbefore := h.tickets key
    show acceptances out.global key + holdings (holds key) (c.tasks.set i (out.resume rest)) ≤
      out.global.taken.count key
    omega

theorem inv_restart (c : Config State Instr) (g : State) (h : Inv c)
    (hg : restart c.global = some g) : Inv ⟨g, []⟩ := by
  cases hg
  have hledger := h.ledger
  refine ⟨{ hledger with pending := ?_, size := Nat.zero_le _, taken_gone := ?_ }, ?_, fun key => ?_⟩
  · intro e he
    cases he
  · intro e he
    cases he
  · intro t ht
    cases ht
  · have hbefore := h.tickets key
    exact (Nat.le_add_right _ _).trans hbefore

theorem inv_initial (db : Database) : Inv ⟨initial db, []⟩ where
  ledger :=
    { pending := by simp [initial]
      size := Nat.zero_le _
      taken_issued := by simp [initial]
      taken_nodup := List.nodup_nil
      taken_gone := by simp [initial]
      tokens_nodup := by
        simpa only [initial, List.map_map, Function.comp_def] using db.tokens_nodup
      sessions := fun s hs => List.mem_map.2 ⟨s, hs, rfl⟩
      accepted := by simp [initial]
      elevations := by simp [initial] }
  tasks := by simp
  tickets := by simp [initial, acceptances]

theorem inv_reachable {E : Env} {db : Database} {acts : List (Action Oracle Request)}
    {c : Config State Instr} (h : Runs.exec (machine E).step ⟨initial db, []⟩ acts = some c) :
    Inv c :=
  (machine E).invariant inv_start (inv_run E) inv_restart (inv_initial db) h

theorem Inv.accepted_nodup {c : Config State Instr} (h : Inv c) :
    (c.global.accepted.map (·.challenge)).Nodup := by
  rw [List.nodup_iff_count_le_one]
  intro key
  have hle : acceptances c.global key ≤ c.global.taken.count key :=
    (Nat.le_add_right _ _).trans (h.tickets key)
  exact hle.trans (List.nodup_iff_count_le_one.1 h.ledger.taken_nodup key)

/-- A challenge is used up by the first response that names it and leads to at most one
accepted response, of the purpose and the session it was issued for and before it expires;
an elevated session belongs to the passkey's owner. -/
theorem passkey_ceremonies_bound (E : Env) (db : Database) (acts : List (Action Oracle Request))
    (c : Config State Instr) (h : Runs.exec (machine E).step ⟨initial db, []⟩ acts = some c) :
    (c.global.taken.Nodup ∧ (∀ e ∈ c.global.challenges, e.1 ∉ c.global.taken) ∧
      (c.global.accepted.map (·.challenge)).Nodup ∧
      ∀ a ∈ c.global.accepted, a.challenge ∈ c.global.taken) ∧
    (∀ a ∈ c.global.accepted, ∃ ch, (a.challenge, ch) ∈ c.global.issued ∧
      ch.purpose = a.response.purpose ∧ ch.session = a.response.session ∧
      a.takenAt < ch.expires) ∧
    (∀ e ∈ c.global.elevations, e.sessionUser = e.keyUser) ∧
    c.global.challenges.length ≤ maxChallenges := by
  have hinv := inv_reachable h
  refine ⟨⟨hinv.ledger.taken_nodup, hinv.ledger.taken_gone, hinv.accepted_nodup, ?_⟩,
    hinv.ledger.accepted, hinv.ledger.elevations, hinv.ledger.size⟩
  intro a ha
  have hmem : a.challenge ∈ c.global.accepted.map (·.challenge) := List.mem_map.2 ⟨a, ha, rfl⟩
  have hpos : 0 < acceptances c.global a.challenge := List.count_pos_iff.2 hmem
  have hle := hinv.tickets a.challenge
  exact List.count_pos_iff.1 (by omega)

def sampleEnv : Env where
  decode
    | "key" => some [7]
    | "a" => some [1]
    | "b" => some [2]
    | "c" => some [3]
    | "five" => some (List.replicate 32 0 ++ [5, 0, 0, 0, 5])
    | "six" => some (List.replicate 32 0 ++ [5, 0, 0, 0, 6])
    | _ => some []
  clientData
    | [1] => some ⟨"webauthn.get", "a", "https://hub", false⟩
    | [2] => some ⟨"webauthn.get", "b", "https://hub", false⟩
    | [3] => some ⟨"webauthn.get", "c", "https://hub", false⟩
    | _ => none
  sha256 _ := List.replicate 32 0
  verifySignature _ _ _ _ _ := true
  parsePublicKey _ _ := none

def sampleDatabase : Database where
  sessions := [⟨9, 1, 0⟩]
  passkeys := [⟨1, 1, "hub", [7], [], -7, 4⟩]
  tokens_nodup := by decide
  ids_nodup := by decide
  credentials_nodup := by decide

def sampleParty : RelyingParty := ⟨"https://hub", "hub"⟩

def sampleResponse (challenge counter : String) : Assertion :=
  ⟨some sampleParty, "key", challenge, counter, "", ""⟩

def drawing (fresh : String) (token : ℕ) : Oracle := ⟨fresh, ["a", "b"], token, true⟩

def loginThenConfirm : List (Action Oracle Request) :=
  ([.start (.loginOptions sampleParty), .run 0 (drawing "" 0), .run 0 (drawing "a" 0),
    .start (.login (sampleResponse "a" "five") false)] : List (Action Oracle Request)) ++
  (List.replicate 4 (.run 1 (drawing "" 10)) : List (Action Oracle Request)) ++
  ([.start (.options 9 "elevate" sampleParty), .run 2 (drawing "" 0), .run 2 (drawing "" 0),
    .run 2 (drawing "b" 0), .start (.confirm 9 (sampleResponse "b" "six") false)] :
      List (Action Oracle Request)) ++
  (List.replicate 5 (.run 3 (drawing "" 0)) : List (Action Oracle Request))

theorem login_then_confirm_bound : ∃ c,
    Runs.exec (machine sampleEnv).step ⟨initial sampleDatabase, []⟩ loginThenConfirm = some c ∧
    c.global.accepted = [⟨"b", 0, .confirm 9⟩, ⟨"a", 0, .login 1⟩] ∧
    c.global.elevations = [⟨1, 1⟩] ∧ (c.global.accepted.map (·.challenge)).Nodup ∧
    ∀ e ∈ c.global.elevations, e.sessionUser = e.keyUser := by
  have hfinal : (Runs.exec (machine sampleEnv).step ⟨initial sampleDatabase, []⟩
      loginThenConfirm).map (fun c => (c.global.accepted, c.global.elevations)) =
      some ([⟨"b", 0, .confirm 9⟩, ⟨"a", 0, .login 1⟩], [⟨1, 1⟩]) := by
    decide +kernel
  obtain ⟨c, hc, hview⟩ := Option.map_eq_some_iff.1 hfinal
  simp only [Prod.mk.injEq] at hview
  obtain ⟨⟨-, -, honce, -⟩, -, howner, -⟩ :=
    passkey_ceremonies_bound sampleEnv sampleDatabase loginThenConfirm c hc
  exact ⟨c, hc, hview.1, hview.2, honce, howner⟩

end Lotse.Passkeys
