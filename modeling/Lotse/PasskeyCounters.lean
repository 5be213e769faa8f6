import Lotse.PasskeyCeremonies

set_option autoImplicit false

namespace Lotse.Passkeys
open Tasks Utf8

namespace State

def passkey (g : State) (id : ℕ) : Option Passkey := Rows.lookup Passkey.id id g.passkeys

end State

theorem countsUp_iff {ad : AuthData} {key : Passkey} : countsUp ad key = true ↔
    key.signCount < ad.signCount ∨ ad.signCount = 0 ∧ key.signCount = 0 := by
  simp only [countsUp, Bool.not_eq_true', Bool.and_eq_false_iff, Bool.or_eq_false_iff,
    bne_eq_false_iff_eq, decide_eq_false_iff_not, not_le]
  exact or_comm

/-- What a statement of `UsePasskey` may find: the counter that the response was checked
against, or another one that it counts up from. Only a counter of zero may be lost. -/
def InOrder (c : Config State Instr) : Instr → Prop
  | .usePasskey _ _ ad key lost =>
    (lost = true → ad.signCount = 0) ∧
      ∀ k ∈ c.global.passkey key.id, k.signCount = key.signCount ∨ countsUp ad k = true
  | _ => True

instance (c : Config State Instr) : (ins : Instr) → Decidable (InOrder c ins) := by
  intro ins
  cases ins <;> unfold InOrder <;> infer_instance

def Instr.key : Instr → Option Passkey
  | .passkeyHandle _ _ _ key _ => some key
  | .usePasskey _ _ _ key _ => some key
  | _ => none

def Instr.Checked : Instr → Prop
  | .usePasskey _ _ ad key _ => countsUp ad key = true
  | _ => True

structure KeyOk (g : State) (ins : Instr) : Prop where
  stored : ∀ key ∈ ins.key, ∃ k, g.passkey key.id = some k
  checked : ins.Checked

def Rises (g g' : State) : Prop := ∀ id k, g.passkey id = some k →
  ∃ k', g'.passkey id = some k' ∧ k.signCount ≤ k'.signCount

section steps
variable {g g' : State} {ins : Instr} {code : List Instr}

theorem Rises.refl (g : State) : Rises g g := fun _ k h => ⟨k, h, Nat.le_refl _⟩

theorem Rises.trans {u : State} (h : Rises g u) (h' : Rises u g') : Rises g g' := by
  intro id k hk
  obtain ⟨k₁, hk₁, hle⟩ := h id k hk
  obtain ⟨k₂, hk₂, hle'⟩ := h' id k₁ hk₁
  exact ⟨k₂, hk₂, hle.trans hle'⟩

theorem Rises.of_eq (h : g'.passkeys = g.passkeys) : Rises g g' := by
  intro id k hk
  exact ⟨k, by rw [State.passkey, h]; exact hk, Nat.le_refl _⟩

theorem KeyOk.mono (h : KeyOk g ins) (hr : Rises g g') : KeyOk g' ins := by
  refine ⟨fun key hkey => ?_, h.checked⟩
  obtain ⟨k, hk⟩ := h.stored key hkey
  obtain ⟨k', hk', -⟩ := hr key.id k hk
  exact ⟨k', hk'⟩

inductive KeyEffect (g : State) (ins : Instr) : State → List Instr → Prop where
  | keep {g' : State} {code : List Instr} (passkeys : g'.passkeys = g.passkeys)
      (used : g'.used = g.used) (ok : ∀ i ∈ code, KeyOk g i) : KeyEffect g ins g' code
  | add {g' : State} {key : Passkey} (fresh : key.id = Rows.nextId Passkey.id g.passkeys)
      (passkeys : g'.passkeys = key :: g.passkeys) (used : g'.used = g.used) :
      KeyEffect g ins g' []
  | use {c : Ceremony} {t : Ticket} {ad : AuthData} {key : Passkey} {lost : Bool}
      (use : ins = .usePasskey c t ad key lost) {g' : State} {code : List Instr}
      (passkeys : g'.passkeys = (g.useKey key.id ad.signCount lost).passkeys)
      (used : g'.used = (key.id, ad.signCount) :: g.used) (ok : ∀ i ∈ code, KeyOk g i) :
      KeyEffect g ins g' code

abbrev KeyDoes (g : State) (ins : Instr) (out : Outcome State Instr) : Prop :=
  KeyEffect g ins out.global out.code

theorem keyDoes_refuse (message : String) : KeyDoes g ins (refuse g message) :=
  .keep rfl rfl fun _ hi => (List.not_mem_nil hi).elim

theorem keyOk_plain {i : Instr} (hkey : i.key = none) (hchecked : i.Checked) : KeyOk g i :=
  ⟨by simp [hkey], hchecked⟩

theorem keyDoes_next {i : Instr} (hkey : i.key = none) (hchecked : i.Checked) :
    KeyDoes g ins (.next g [i]) :=
  .keep rfl rfl fun _ hj => List.mem_singleton.1 hj ▸ keyOk_plain hkey hchecked

theorem keyDoes_stop (hpasskeys : g'.passkeys = g.passkeys) (hused : g'.used = g.used) :
    KeyDoes g ins (.next g' []) :=
  .keep hpasskeys hused fun _ hi => (List.not_mem_nil hi).elim

theorem keyDoes_withSession {token : ℕ} {k : Session → Outcome State Instr}
    (hk : ∀ s, KeyDoes g ins (k s)) : KeyDoes g ins (withSession g token k) := by
  rw [withSession]
  cases g.session token with
  | none => exact keyDoes_refuse _
  | some s => exact hk s

theorem checkClientData_keys (E : Env) (g : State) (d : Decoded) (typ : String)
    (purpose : Purpose) (session : Option ℕ) :
    (checkClientData E g d typ purpose session).1.passkeys = g.passkeys ∧
      (checkClientData E g d typ purpose session).1.used = g.used := by
  rcases checkClientData_cases E g d typ purpose session with
    ⟨e, heq⟩ | ⟨key, c, -, ⟨e, heq⟩ | ⟨heq, -⟩⟩
  all_goals
    rw [heq]
    exact ⟨rfl, rfl⟩

theorem keyDoes_verifyAssertion (E : Env) (c : Ceremony) (a : Assertion) (lost : Bool) :
    KeyDoes g ins (verifyAssertion E g c a lost) := by
  rw [verifyAssertion]
  cases a.decode E with
  | error e => exact keyDoes_refuse _
  | ok d =>
    obtain ⟨hpasskeys, hused⟩ := checkClientData_keys E g d "webauthn.get" c.purpose c.session
    simp only
    split
    · rename_i u e heq
      rw [heq] at hpasskeys hused
      exact keyDoes_stop hpasskeys hused
    · rename_i u t heq
      rw [heq] at hpasskeys hused
      cases parseAuthData E d.adBytes d.rp.rpID with
      | error e => exact keyDoes_stop hpasskeys hused
      | ok ad =>
        exact .keep hpasskeys hused fun _ hi => List.mem_singleton.1 hi ▸ keyOk_plain rfl trivial

theorem keyDoes_verifyAttestation (E : Env) (s : Session) (a : Attestation) :
    KeyDoes g ins (verifyAttestation E g s a) := by
  rw [verifyAttestation]
  cases a.decode E with
  | error e => exact keyDoes_refuse _
  | ok d =>
    obtain ⟨hpasskeys, hused⟩ :=
      checkClientData_keys E g d "webauthn.create" .register (some s.token)
    simp only
    split
    · rename_i u e heq
      rw [heq] at hpasskeys hused
      exact keyDoes_stop hpasskeys hused
    · rename_i u t heq
      rw [heq] at hpasskeys hused
      cases checkAttestation E d with
      | error e => exact keyDoes_stop hpasskeys hused
      | ok ad =>
        exact .keep hpasskeys hused fun _ hi => List.mem_singleton.1 hi ▸ keyOk_plain rfl trivial

theorem keyDoes_checkCounter {c : Ceremony} {t : Ticket} {ad : AuthData} {key : Passkey}
    {lost : Bool} (hstored : ∃ k, g.passkey key.id = some k) :
    KeyDoes g ins (checkCounter g c t ad key lost) := by
  rw [checkCounter]
  split_ifs with hup
  · refine .keep rfl rfl fun i hi => ?_
    obtain rfl := List.mem_singleton.1 hi
    refine ⟨fun k hk => ?_, hup⟩
    cases hk
    exact hstored
  · exact keyDoes_refuse _

theorem keyDoes_passkeyByCredential (E : Env) (c : Ceremony) (t : Ticket) (d : Decoded)
    (ad : AuthData) (lost : Bool) : KeyDoes g ins (passkeyByCredential E g c t d ad lost) := by
  rw [passkeyByCredential]
  cases hl : Rows.lookup Passkey.credentialID d.credID g.passkeys with
  | none => exact keyDoes_refuse _
  | some key =>
    have hstored : ∃ k, g.passkey key.id = some k := Rows.exists_lookup (Rows.lookup_mem hl)
    simp only
    split_ifs
    · exact keyDoes_refuse _
    · refine .keep rfl rfl fun i hi => ?_
      obtain rfl := List.mem_singleton.1 hi
      refine ⟨fun k hk => ?_, trivial⟩
      cases hk
      exact hstored
    · exact keyDoes_checkCounter hstored

theorem keyDoes_usePasskey (c : Ceremony) (t : Ticket) (ad : AuthData) (key : Passkey)
    (lost : Bool) : KeyDoes g (.usePasskey c t ad key lost) (usePasskey g c t ad key lost) := by
  cases c with
  | login =>
    exact .use rfl rfl rfl fun _ hi => List.mem_singleton.1 hi ▸ keyOk_plain rfl trivial
  | confirm s =>
    rw [usePasskey]
    split_ifs
    · exact .use rfl rfl rfl fun _ hi => (List.not_mem_nil hi).elim
    · exact .use rfl rfl rfl fun _ hi => List.mem_singleton.1 hi ▸ keyOk_plain rfl trivial

theorem keyDoes_descriptors (s : Session) (purpose rpID : String) :
    KeyDoes g ins (descriptors g s purpose rpID) := by
  rw [descriptors]
  split_ifs
  · exact keyDoes_refuse _
  · exact keyDoes_next rfl trivial
  · exact keyDoes_next rfl trivial
  · exact keyDoes_refuse _
  · exact keyDoes_refuse _

theorem keyDoes_createPasskey (t : Ticket) (s : Session) (d : Decoded) (ad : AuthData) :
    KeyDoes g ins (createPasskey g t s d ad) := by
  rw [createPasskey]
  split_ifs
  · exact keyDoes_refuse _
  · exact .add rfl rfl rfl

theorem atomic_keyEffect {E : Env} {o : Oracle} {out : Outcome State Instr} (hins : KeyOk g ins)
    (h : atomic E o g ins = some out) : KeyDoes g ins out := by
  cases ins with
  | tick d =>
    cases h
    exact keyDoes_stop rfl rfl
  | signIn userID =>
    simp only [atomic, Option.ite_none_left_eq_some, Option.some.injEq] at h
    obtain ⟨-, rfl⟩ := h
    exact keyDoes_stop rfl rfl
  | signOut token =>
    cases h
    exact keyDoes_stop rfl rfl
  | loginOptions rp =>
    cases rp with
    | none =>
      cases h
      exact keyDoes_refuse _
    | some rp =>
      cases h
      exact keyDoes_next rfl trivial
  | addChallenge purpose session =>
    simp only [atomic, addChallenge, Option.ite_none_left_eq_some, Option.some.injEq] at h
    obtain ⟨-, rfl⟩ := h
    exact keyDoes_stop rfl rfl
  | options token purpose rp =>
    cases h
    refine keyDoes_withSession fun s => ?_
    cases rp with
    | none => exact keyDoes_refuse _
    | some rp => exact keyDoes_next rfl trivial
  | descriptors s purpose rpID =>
    cases h
    exact keyDoes_descriptors s purpose rpID
  | loadConfirm token a lost =>
    cases h
    exact keyDoes_withSession fun s => keyDoes_next rfl trivial
  | verifyAssertion c a lost =>
    cases h
    exact keyDoes_verifyAssertion E c a lost
  | passkeyByCredential c t d ad lost =>
    cases h
    exact keyDoes_passkeyByCredential E c t d ad lost
  | passkeyHandle c t ad key lost =>
    cases h
    split_ifs
    · exact keyDoes_checkCounter (hins.stored key rfl)
    · exact keyDoes_refuse _
  | usePasskey c t ad key lost =>
    cases h
    exact keyDoes_usePasskey c t ad key lost
  | startSession t userID =>
    simp only [atomic, Option.ite_none_left_eq_some, Option.some.injEq] at h
    obtain ⟨-, rfl⟩ := h
    exact keyDoes_stop rfl rfl
  | elevateSession t s key =>
    cases h
    exact keyDoes_stop rfl rfl
  | loadRegister token a =>
    cases h
    refine keyDoes_withSession fun s => ?_
    split_ifs
    · exact keyDoes_next rfl trivial
    · exact keyDoes_refuse _
  | verifyAttestation s a =>
    cases h
    exact keyDoes_verifyAttestation E s a
  | createPasskey t s d ad =>
    cases h
    exact keyDoes_createPasskey t s d ad

/-- The stored counters are at least those of the accepted responses. -/
structure Counters (g : State) : Prop where
  stored : ∀ u ∈ g.used, ∃ k, g.passkey u.1 = some k ∧ u.2 ≤ k.signCount
  once : (g.used.filter (·.2 ≠ 0)).Nodup

theorem Counters.rises (h : Counters g) (hr : Rises g g') (hused : g'.used = g.used) :
    Counters g' := by
  refine ⟨fun u hu => ?_, hused ▸ h.once⟩
  obtain ⟨k, hk, hle⟩ := h.stored u (hused ▸ hu)
  obtain ⟨k', hk', hle'⟩ := hr u.1 k hk
  exact ⟨k', hk', hle.trans hle'⟩

theorem rises_add {key : Passkey} (fresh : key.id = Rows.nextId Passkey.id g.passkeys)
    (hadd : g'.passkeys = key :: g.passkeys) : Rises g g' := by
  intro id k hk
  have hne : key.id ≠ id := by
    rw [fresh, ← Rows.lookup_key hk]
    exact (Rows.id_lt_nextId (Rows.lookup_mem hk)).ne'
  refine ⟨k, ?_, Nat.le_refl _⟩
  rw [State.passkey, hadd, Rows.lookup, List.find?_cons_of_neg (by simpa using hne)]
  exact hk

theorem passkey_useKey (g : State) (id n id' : ℕ) : (g.useKey id n false).passkey id' =
    (g.passkey id').map fun k => if k.id = id then { k with signCount := n } else k :=
  Rows.lookup_update (k := Passkey.id) (f := ({ · with signCount := n })) (fun _ => rfl) id id'
    g.passkeys

section use
variable {id n : ℕ} {lost : Bool}

theorem rises_useKey (hle : ∀ k ∈ g.passkey id, k.signCount ≤ n) : Rises g (g.useKey id n lost) := by
  cases lost with
  | true => exact Rises.of_eq rfl
  | false =>
    intro id' k hk
    rw [passkey_useKey, hk, Option.map_some]
    refine ⟨_, rfl, ?_⟩
    split_ifs with heq
    · have hid : k.id = id' := Rows.lookup_key hk
      rw [← heq, hid] at hle
      exact hle k hk
    · exact Nat.le_refl _

theorem Counters.useKey (h : Counters g) (hstored : ∃ k, g.passkey id = some k)
    (hlost : lost = true → n = 0) (hup : ∀ k ∈ g.passkey id, k.signCount < n ∨ n = 0 ∧ k.signCount = 0) :
    Counters (g.useKey id n lost) := by
  have hle : ∀ k ∈ g.passkey id, k.signCount ≤ n := fun k hk => by
    have := hup k hk
    omega
  have hrises : Rises g (g.useKey id n lost) := rises_useKey hle
  obtain ⟨k, hk⟩ := hstored
  constructor
  · intro u hu
    rcases List.mem_cons.1 hu with rfl | hu
    · cases lost with
      | true =>
        rw [hlost rfl]
        exact ⟨k, hk, Nat.zero_le _⟩
      | false =>
        rw [passkey_useKey, hk, Option.map_some, if_pos (Rows.lookup_key hk)]
        exact ⟨_, rfl, Nat.le_refl _⟩
    · obtain ⟨k₁, hk₁, hle₁⟩ := h.stored u hu
      obtain ⟨k₂, hk₂, hle₂⟩ := hrises u.1 k₁ hk₁
      exact ⟨k₂, hk₂, hle₁.trans hle₂⟩
  · show (((id, n) :: g.used).filter (·.2 ≠ 0)).Nodup
    by_cases hn : n = 0
    · rw [List.filter_cons_of_neg (by simpa using hn)]
      exact h.once
    · rw [List.filter_cons_of_pos (by simpa using hn)]
      refine List.nodup_cons.2 ⟨fun hmem => ?_, h.once⟩
      -- a counter that was accepted before is at most the stored one
      obtain ⟨k₁, hk₁, hle₁⟩ := h.stored _ (List.mem_filter.1 hmem).1
      have hlt := hup k₁ hk₁
      simp only at hle₁
      omega

end use

theorem countsUp_of_inOrder {c : Config State Instr} {y : Ceremony} {t : Ticket} {ad : AuthData}
    {key : Passkey} {lost : Bool} (hins : KeyOk c.global (.usePasskey y t ad key lost))
    (ho : InOrder c (.usePasskey y t ad key lost)) :
    ∀ k ∈ c.global.passkey key.id,
      k.signCount < ad.signCount ∨ ad.signCount = 0 ∧ k.signCount = 0 := by
  intro k hk
  rcases ho.2 k hk with hread | hup
  · rw [hread]
    exact countsUp_iff.1 hins.checked
  · exact countsUp_iff.1 hup

theorem keyEffect_keeps {c : Config State Instr} (h : Counters c.global) (hins : KeyOk c.global ins)
    (ho : InOrder c ins) (he : KeyEffect c.global ins g' code) :
    Counters g' ∧ Rises c.global g' ∧ ∀ i ∈ code, KeyOk g' i := by
  cases he with
  | keep passkeys used ok =>
    have hrises : Rises c.global g' := Rises.of_eq passkeys
    exact ⟨h.rises hrises used, hrises, fun i hi => (ok i hi).mono hrises⟩
  | add fresh passkeys used =>
    have hrises : Rises c.global g' := rises_add fresh passkeys
    exact ⟨h.rises hrises used, hrises, fun i hi => (List.not_mem_nil hi).elim⟩
  | @use y t ad key lost hused g' code passkeys used ok =>
    subst hused
    have hup := countsUp_of_inOrder hins ho
    have hle : ∀ k ∈ c.global.passkey key.id, k.signCount ≤ ad.signCount := fun k hk => by
      have := hup k hk
      omega
    have hsame : Rises (c.global.useKey key.id ad.signCount lost) g' := Rises.of_eq passkeys
    have hrises : Rises c.global g' := (rises_useKey hle).trans hsame
    exact ⟨(h.useKey (hins.stored key rfl) ho.1 hup).rises hsame used, hrises,
      fun i hi => (ok i hi).mono hrises⟩

end steps

structure CounterInv (c : Config State Instr) : Prop where
  counters : Counters c.global
  tasks : ∀ t ∈ c.tasks, ∀ ins ∈ t, KeyOk c.global ins

theorem code_keyOk (g : State) (r : Request) : ∀ ins ∈ code r, KeyOk g ins := by
  intro ins hins
  cases r <;>
    · obtain rfl := List.mem_singleton.1 hins
      exact keyOk_plain rfl trivial

theorem counterInv_start (c : Config State Instr) (r : Request) (h : CounterInv c) :
    CounterInv ⟨c.global, c.tasks ++ [code r]⟩ :=
  ⟨h.counters, forall_start h.tasks (code_keyOk c.global r)⟩

theorem counterInv_run (E : Env) (c : Config State Instr) (i : ℕ) (ins : Instr)
    (rest : List Instr) (o : Oracle) (out : Outcome State Instr) (h : CounterInv c)
    (hord : InOrder c ins) (ht : c.tasks[i]? = some (ins :: rest))
    (ho : atomic E o c.global ins = some out) :
    CounterInv ⟨out.global, c.tasks.set i (out.resume rest)⟩ ∧ Rises c.global out.global := by
  have hins : KeyOk c.global ins := h.tasks _ (task_mem ht) ins List.mem_cons_self
  obtain ⟨hcounters, hrises, hcode⟩ :=
    keyEffect_keeps h.counters hins hord (atomic_keyEffect hins ho)
  exact ⟨⟨hcounters, forall_step ht h.tasks (fun _ hj => hj.mono hrises) hcode⟩, hrises⟩

theorem counterInv_restart (c : Config State Instr) (g : State) (h : CounterInv c)
    (hg : restart c.global = some g) : CounterInv ⟨g, []⟩ ∧ Rises c.global g := by
  cases hg
  have hrises : Rises c.global { c.global with challenges := [] } := Rises.of_eq rfl
  exact ⟨⟨h.counters.rises hrises rfl, fun t ht => (List.not_mem_nil ht).elim⟩, hrises⟩

theorem counterInv_initial (db : Database) : CounterInv ⟨initial db, []⟩ :=
  ⟨⟨fun _ hu => (List.not_mem_nil hu).elim, List.nodup_nil⟩, fun _ ht => (List.not_mem_nil ht).elim⟩

theorem counterInv_exec {E : Env} {c d : Config State Instr} {acts : List (Action Oracle Request)}
    (hc : CounterInv c) (hm : Runs.Meets (machine E).step (Machine.Guard InOrder) c acts)
    (he : Runs.exec (machine E).step c acts = some d) :
    CounterInv d ∧ Rises c.global d.global := by
  refine (machine E).guarded_invariant (J := fun e => CounterInv e ∧ Rises c.global e.global)
    ?_ ?_ ?_ ⟨hc, .refl _⟩ hm he
  · exact fun e r h => ⟨counterInv_start e r h.1, h.2⟩
  · intro e i ins rest o out h hord ht ho
    obtain ⟨hinv, hrises⟩ := counterInv_run E e i ins rest o out h.1 hord ht ho
    exact ⟨hinv, h.2.trans hrises⟩
  · intro e g h hg
    obtain ⟨hinv, hrises⟩ := counterInv_restart e g h.1 hg
    exact ⟨hinv, h.2.trans hrises⟩

/-- In a run in order no stored counter decreases from one state to a later one, and no two
valid assertions of a passkey carry the same counter unless it is zero. -/
theorem counters_count_up (E : Env) (db : Database) (acts later : List (Action Oracle Request))
    (c d : Config State Instr)
    (hm : Runs.Meets (machine E).step (Machine.Guard InOrder) ⟨initial db, []⟩ acts)
    (hc : Runs.exec (machine E).step ⟨initial db, []⟩ acts = some c)
    (hm' : Runs.Meets (machine E).step (Machine.Guard InOrder) c later)
    (hd : Runs.exec (machine E).step c later = some d) :
    (∀ id k, c.global.passkey id = some k →
      ∃ k', d.global.passkey id = some k' ∧ k.signCount ≤ k'.signCount) ∧
    (d.global.used.filter (·.2 ≠ 0)).Nodup := by
  obtain ⟨hinv, -⟩ := counterInv_exec (counterInv_initial db) hm hc
  obtain ⟨hinv', hrises⟩ := counterInv_exec hinv hm' hd
  exact ⟨hrises, hinv'.counters.once⟩

def threeChallenges : List (Action Oracle Request) :=
  ["a", "b", "c"].zipIdx.flatMap fun (fresh, i) =>
    [.start (.loginOptions sampleParty), .run i (drawing "" 0), .run i (drawing fresh 0)]

def fiveStored : List (Action Oracle Request) :=
  threeChallenges ++ [.start (.login (sampleResponse "a" "five") false)] ++
    List.replicate 3 (.run 3 (drawing "" 0))

def sixStored : List (Action Oracle Request) :=
  .start (.login (sampleResponse "b" "six") false) :: List.replicate 3 (.run 4 (drawing "" 0))

theorem five_then_six_count_up : ∃ c d,
    Runs.exec (machine sampleEnv).step ⟨initial sampleDatabase, []⟩ fiveStored = some c ∧
    Runs.exec (machine sampleEnv).step c sixStored = some d ∧
    c.global.used = [(1, 5)] ∧ d.global.used = [(1, 6), (1, 5)] ∧
    (∀ id k, c.global.passkey id = some k →
      ∃ k', d.global.passkey id = some k' ∧ k.signCount ≤ k'.signCount) ∧
    (d.global.used.filter (·.2 ≠ 0)).Nodup := by
  have hfirst : (Runs.exec (machine sampleEnv).step ⟨initial sampleDatabase, []⟩ fiveStored).map
      (fun c => (c.global.used, (Runs.exec (machine sampleEnv).step c sixStored).map (·.global.used),
        decide (Runs.Meets (machine sampleEnv).step (Machine.Guard InOrder) c sixStored))) =
      some ([(1, 5)], some [(1, 6), (1, 5)], true) := by
    decide +kernel
  obtain ⟨c, hc, hview⟩ := Option.map_eq_some_iff.1 hfirst
  simp only [Prod.mk.injEq, decide_eq_true_eq] at hview
  obtain ⟨hused, hsecond, hmeets⟩ := hview
  obtain ⟨d, hd, hused'⟩ := Option.map_eq_some_iff.1 hsecond
  obtain ⟨hrises, honce⟩ := counters_count_up sampleEnv sampleDatabase fiveStored sixStored c d
    (by decide +kernel) hc hmeets hd
  exact ⟨c, d, hc, hd, hused, hused', hrises, honce⟩

/-- Responses with counters 6 and 5 are both checked against the stored 4; 6 is stored. -/
def bothChecked : List (Action Oracle Request) :=
  threeChallenges ++
    [.start (.login (sampleResponse "a" "six") false),
      .start (.login (sampleResponse "b" "five") false)] ++
    [3, 3, 4, 4, 3].map fun i => .run i (drawing "" 0)

/-- A copy of the authenticator answers with the counter 6 again. -/
def copyAnswers : List (Action Oracle Request) :=
  .start (.login (sampleResponse "c" "six") false) :: List.replicate 3 (.run 5 (drawing "" 0)) ++
    [.run 3 (drawing "" 10), .run 5 (drawing "" 11)]

/-- The stored counter goes from 6 to 5 when the second statement comes, and two responses
with counter 6 sign in. -/
theorem counter_goes_back : ∃ c d e,
    Runs.exec (machine sampleEnv).step ⟨initial sampleDatabase, []⟩ bothChecked = some c ∧
    Runs.exec (machine sampleEnv).step c [.run 4 (drawing "" 0)] = some d ∧
    Runs.exec (machine sampleEnv).step d copyAnswers = some e ∧
    (c.global.passkey 1).map (·.signCount) = some 6 ∧
    (d.global.passkey 1).map (·.signCount) = some 5 ∧
    e.global.used = [(1, 6), (1, 5), (1, 6)] ∧
    e.global.accepted = [⟨"c", 0, .login 1⟩, ⟨"a", 0, .login 1⟩] := by
  have hrun : (Runs.exec (machine sampleEnv).step ⟨initial sampleDatabase, []⟩ bothChecked).map
      (fun c => (c.global.passkey 1).map (·.signCount) = some 6 &&
        (Runs.exec (machine sampleEnv).step c [.run 4 (drawing "" 0)]).map (fun d =>
          (d.global.passkey 1).map (·.signCount) = some 5 &&
            (Runs.exec (machine sampleEnv).step d copyAnswers).map (fun e =>
              e.global.used = [(1, 6), (1, 5), (1, 6)] &&
                e.global.accepted = [⟨"c", 0, .login 1⟩, ⟨"a", 0, .login 1⟩]) = some true) =
          some true) = some true := by
    decide +kernel
  obtain ⟨c, hc, hview⟩ := Option.map_eq_some_iff.1 hrun
  simp only [Bool.and_eq_true, decide_eq_true_eq] at hview
  obtain ⟨d, hd, hview'⟩ := Option.map_eq_some_iff.1 hview.2
  simp only [Bool.and_eq_true, decide_eq_true_eq] at hview'
  obtain ⟨e, he, hlog⟩ := Option.map_eq_some_iff.1 hview'.2
  simp only [Bool.and_eq_true, decide_eq_true_eq] at hlog
  exact ⟨c, d, e, hc, hd, he, hview.1, hview'.1, hlog.1, hlog.2⟩

end Lotse.Passkeys
