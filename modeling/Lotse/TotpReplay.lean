import Lotse.AdminMachine

set_option autoImplicit false

/-!
# Two-factor codes

`checkTOTP` for the requests that ask for a code. The clock is read once at the start; between
that and the locked part other calls may run and the clock may move on.
-/
namespace Lotse.Totp
open Tasks Admins

/-- `totp.GenerateCodeCustom` with the hub's options: the code of a secret at a time in seconds,
or an error for a secret that cannot be read. -/
structure Env where
  generateCode : String → ℤ → Option String

inductive Caller where
  | login
  | confirm
  | enable
  deriving DecidableEq

structure Call where
  caller : Caller
  userID : ℤ
  secret : String
  code : String
  deriving DecidableEq

structure Return where
  call : Call
  now : ℤ
  accepted : Option ℤ
  deriving DecidableEq

/-- The clock in seconds, the last accepted step of each user, and the calls that have
returned. -/
structure State where
  clock : ℤ
  totpUsed : ℤ → ℤ
  returns : List Return

def init (clock : ℤ) : State := ⟨clock, fun _ => 0, []⟩

def period : ℤ := 30

def skews : List ℤ := [0, -1, 1]

/-- `strings.ReplaceAll(strings.TrimSpace(code), " ", "")` -/
def strip (code : String) : String := String.ofList ((trimSpace code).toList.filter (· ≠ ' '))

def findStep (E : Env) (secret code : String) (now : ℤ) : List ℤ → Option ℤ
  | [] => none
  | skew :: rest =>
    let t := now + skew * period
    if E.generateCode secret t = some code then some (t.tdiv period)
    else findStep E secret code now rest

inductive Instr where
  | checkTOTP (q : Call)
  | accept (q : Call) (now step : ℤ)
  | tick (seconds : ℕ)

inductive Request where
  | call (q : Call)
  | tick (seconds : ℕ)

def State.ret (g : State) (q : Call) (now : ℤ) (accepted : Option ℤ) : State :=
  { g with returns := g.returns ++ [⟨q, now, accepted⟩] }

def atomic (E : Env) (g : State) : Instr → Outcome State Instr
  | .checkTOTP q =>
    let code := strip q.code
    if q.secret = "" ∨ code.utf8ByteSize ≠ 6 then .next (g.ret q g.clock none) []
    else match findStep E q.secret code g.clock skews with
      | none => .next (g.ret q g.clock none) []
      | some step => .next g [.accept q g.clock step]
  | .accept q now step =>
    if step ≤ g.totpUsed q.userID then .next (g.ret q now none) []
    else .next
      { g.ret q now (some step) with totpUsed := Function.update g.totpUsed q.userID step } []
  | .tick seconds => .next { g with clock := g.clock + seconds } []

def code : Request → List Instr
  | .call q => [.checkTOTP q]
  | .tick seconds => [.tick seconds]

def machine (E : Env) : Machine State Instr Unit Request where
  code := code
  atomic _ g ins := some (atomic E g ins)
  restart _ := none

def Near (now step : ℤ) : Prop := |step - now.tdiv period| ≤ 1

theorem near_skew {now skew : ℤ} (h : |skew| ≤ 1) : Near now ((now + skew * period).tdiv period) := by
  rw [abs_le] at h
  rw [Near, abs_le, period, Int.tdiv_eq_ediv, Int.tdiv_eq_ediv]
  have hsign : (30 : ℤ).sign = 1 := rfl
  rw [hsign]
  split_ifs <;> omega

theorem findStep_near {E : Env} {secret code : String} {now step : ℤ} {skews : List ℤ}
    (hskews : ∀ k ∈ skews, |k| ≤ 1) (h : findStep E secret code now skews = some step) :
    Near now step := by
  induction skews with
  | nil => cases h
  | cons skew rest ih =>
    rw [findStep] at h
    split_ifs at h with hcode
    · cases h
      exact near_skew (hskews skew List.mem_cons_self)
    · exact ih (fun k hk => hskews k (List.mem_cons_of_mem skew hk)) h

/-- What one instruction can do: a call returns false and changes nothing, goes on to the locked
part, or accepts a step above all that its user has used; or the clock moves on. -/
theorem atomic_cases {E : Env} {g : State} {ins : Instr} {out : Outcome State Instr}
    (h : atomic E g ins = out) :
    (∃ q now, out = .next (g.ret q now none) []) ∨
    (∃ q step, Near g.clock step ∧ out = .next g [.accept q g.clock step]) ∨
    (∃ q now step, ins = .accept q now step ∧ g.totpUsed q.userID < step ∧
      out = .next { g.ret q now (some step) with
        totpUsed := Function.update g.totpUsed q.userID step } []) ∨
    (∃ seconds : ℕ, out = .next { g with clock := g.clock + seconds } []) := by
  subst h
  cases ins with
  | checkTOTP q =>
    simp only [atomic]
    split_ifs with hearly
    · exact Or.inl ⟨q, g.clock, rfl⟩
    · cases hstep : findStep E q.secret (strip q.code) g.clock skews with
      | none => exact Or.inl ⟨q, g.clock, rfl⟩
      | some step =>
        exact Or.inr (Or.inl ⟨q, step, findStep_near (by decide) hstep, rfl⟩)
  | accept q now step =>
    simp only [atomic]
    split_ifs with hused
    · exact Or.inl ⟨q, now, rfl⟩
    · exact Or.inr (Or.inr (Or.inl ⟨q, now, step, rfl, not_le.1 hused, rfl⟩))
  | tick seconds => exact Or.inr (Or.inr (Or.inr ⟨seconds, rfl⟩))

/-- Of two accepted codes of one user the later one is for a later step. -/
def Precedes (a b : Return) : Prop :=
  ∀ s t, a.accepted = some s → b.accepted = some t → a.call.userID = b.call.userID → s < t

structure Ledger (g : State) : Prop where
  increasing : g.returns.Pairwise Precedes
  used : ∀ r ∈ g.returns, ∀ step, r.accepted = some step → step ≤ g.totpUsed r.call.userID
  near : ∀ r ∈ g.returns, ∀ step, r.accepted = some step → Near r.now step

theorem ledger_init (clock : ℤ) : Ledger (init clock) :=
  ⟨List.Pairwise.nil, by simp [init], by simp [init]⟩

theorem Ledger.refuse {g : State} (h : Ledger g) (q : Call) (now : ℤ) :
    Ledger (g.ret q now none) := by
  constructor
  · refine List.pairwise_append.2 ⟨h.increasing, List.pairwise_singleton .., ?_⟩
    intro a _ b hb s t _ hbt
    rw [List.mem_singleton.1 hb] at hbt
    cases hbt
  · intro r hr step hstep
    rcases List.mem_append.1 hr with hr | hr
    · exact h.used r hr step hstep
    · rw [List.mem_singleton.1 hr] at hstep
      cases hstep
  · intro r hr step hstep
    rcases List.mem_append.1 hr with hr | hr
    · exact h.near r hr step hstep
    · rw [List.mem_singleton.1 hr] at hstep
      cases hstep

theorem Ledger.accept {g : State} (h : Ledger g) {q : Call} {now step : ℤ} (hnear : Near now step)
    (hstep : g.totpUsed q.userID < step) :
    Ledger { g.ret q now (some step) with
      totpUsed := Function.update g.totpUsed q.userID step } := by
  constructor
  · refine List.pairwise_append.2 ⟨h.increasing, List.pairwise_singleton .., ?_⟩
    intro a ha b hb s t has hbt huser
    rw [List.mem_singleton.1 hb] at hbt huser
    cases hbt
    have hs := h.used a ha s has
    rw [huser] at hs
    exact hs.trans_lt hstep
  · intro r hr s hs
    rcases List.mem_append.1 hr with hr | hr
    · have hle := h.used r hr s hs
      by_cases huser : r.call.userID = q.userID
      · rw [huser] at hle ⊢
        simpa using hle.trans hstep.le
      · simpa [Function.update_of_ne huser] using hle
    · rw [List.mem_singleton.1 hr] at hs ⊢
      cases hs
      simp
  · intro r hr s hs
    rcases List.mem_append.1 hr with hr | hr
    · exact h.near r hr s hs
    · rw [List.mem_singleton.1 hr] at hs ⊢
      cases hs
      exact hnear

def Ready : Instr → Prop
  | .accept _ now step => Near now step
  | _ => True

structure Inv (c : Config State Instr) : Prop where
  ledger : Ledger c.global
  ready : ∀ t ∈ c.tasks, ∀ ins ∈ t, Ready ins

theorem inv_start {c : Config State Instr} (q : Request) (h : Inv c) :
    Inv ⟨c.global, c.tasks ++ [code q]⟩ := by
  refine ⟨h.ledger, forall_start h.ready ?_⟩
  cases q with
  | call q => simp [code, Ready]
  | tick seconds => simp [code, Ready]

theorem inv_run {E : Env} {c : Config State Instr} {i : ℕ} {ins : Instr} {rest : List Instr}
    {out : Outcome State Instr} (h : Inv c) (ht : c.tasks[i]? = some (ins :: rest))
    (ho : atomic E c.global ins = out) :
    Inv ⟨out.global, c.tasks.set i (out.resume rest)⟩ := by
  have hins : Ready ins := h.ready _ (task_mem ht) ins List.mem_cons_self
  have hready : (∀ j ∈ out.code, Ready j) →
      ∀ t ∈ c.tasks.set i (out.resume rest), ∀ j ∈ t, Ready j :=
    forall_step ht h.ready (fun _ hj => hj)
  obtain ⟨q, now, rfl⟩ | ⟨q, step, hnear, rfl⟩ | ⟨q, now, step, rfl, hstep, rfl⟩ | ⟨seconds, rfl⟩ :=
    atomic_cases ho
  · exact ⟨h.ledger.refuse q now, hready (by simp [Outcome.code])⟩
  · exact ⟨h.ledger, hready (by simpa [Outcome.code, Ready])⟩
  · exact ⟨h.ledger.accept hins hstep, hready (by simp [Outcome.code])⟩
  · exact ⟨⟨h.ledger.increasing, h.ledger.used, h.ledger.near⟩, hready (by simp [Outcome.code])⟩

theorem inv_exec {E : Env} {clock : ℤ} {acts : List (Action Unit Request)}
    {c : Config State Instr} (h : Runs.exec (machine E).step ⟨init clock, []⟩ acts = some c) :
    Inv c := by
  refine (machine E).invariant (fun c q => inv_start q) ?_ ?_ ⟨ledger_init clock, by simp⟩ h
  · intro c i ins rest o out hinv ht ho
    exact inv_run hinv ht (Option.some.inj ho)
  · intro c g _ hg
    cases hg

def acceptedSteps (rs : List Return) : List (ℤ × ℤ) :=
  rs.filterMap fun r => r.accepted.map (r.call.userID, ·)

theorem nodup_acceptedSteps {rs : List Return} (h : rs.Pairwise Precedes) :
    (acceptedSteps rs).Nodup := by
  refine List.Pairwise.filterMap _ ?_ h
  intro a b hab x hx y hy hxy
  obtain ⟨s, hs, rfl⟩ := Option.map_eq_some_iff.1 hx
  obtain ⟨t, ht, rfl⟩ := Option.map_eq_some_iff.1 hy
  rw [Prod.mk.injEq] at hxy
  exact absurd hxy.2 (hab s t hs ht hxy.1).ne

theorem step_totpUsed {E : Env} {c d : Config State Instr} {a : Action Unit Request}
    (h : (machine E).step c a = some d) :
    d.global.totpUsed = c.global.totpUsed ∨ ∃ q now step, c.global.totpUsed q.userID < step ∧
      d.global.returns = c.global.returns ++ [⟨q, now, some step⟩] ∧
      d.global.totpUsed = Function.update c.global.totpUsed q.userID step := by
  cases a with
  | start q =>
    cases h
    exact Or.inl rfl
  | run i o =>
    obtain ⟨ins, rest, out, -, ho, rfl⟩ := Machine.step_run h
    obtain ⟨q, now, rfl⟩ | ⟨q, step, -, rfl⟩ | ⟨q, now, step, rfl, hstep, rfl⟩ | ⟨seconds, rfl⟩ :=
      atomic_cases (Option.some.inj ho)
    · exact Or.inl rfl
    · exact Or.inl rfl
    · exact Or.inr ⟨q, now, step, hstep, rfl, rfl⟩
    · exact Or.inl rfl
  | restart => cases h

/-- In every order of calls the accepted steps of each user increase, so that none is accepted
twice, and each is within one of the step at which its call read the clock. What does not accept
a code changes nothing that later calls see. -/
theorem totp_code_works_once {E : Env} {clock : ℤ} {acts : List (Action Unit Request)}
    {c : Config State Instr} (h : Runs.exec (machine E).step ⟨init clock, []⟩ acts = some c) :
    c.global.returns.Pairwise Precedes ∧ (acceptedSteps c.global.returns).Nodup ∧
      (∀ r ∈ c.global.returns, ∀ step, r.accepted = some step → Near r.now step) ∧
      ∀ a d, (machine E).step c a = some d →
        acceptedSteps d.global.returns = acceptedSteps c.global.returns →
        d.global.totpUsed = c.global.totpUsed := by
  have hledger := (inv_exec h).ledger
  refine ⟨hledger.increasing, nodup_acceptedSteps hledger.increasing, hledger.near, ?_⟩
  intro a d hstep hsame
  rcases step_totpUsed hstep with hused | ⟨q, now, step, -, hreturns, -⟩
  · exact hused
  · rw [hreturns] at hsame
    simp [acceptedSteps] at hsame

def sameDigits : Env := ⟨fun _ _ => some "123456"⟩

def loginCall : Call := ⟨.login, 1, "SECRET", " 123 456"⟩

def threeLogins : List (Action Unit Request) :=
  [.start (.call loginCall), .start (.call loginCall), .run 0 (), .run 1 (), .run 1 (), .run 0 (),
    .start (.tick 30), .run 2 (), .start (.call loginCall), .run 3 (), .run 3 ()]

def final (acts : List (Action Unit Request)) : Config State Instr :=
  (Runs.exec (machine sameDigits).step ⟨init 60, []⟩ acts).getD ⟨init 60, []⟩

theorem totp_code_works_once_same_digits :
    (final threeLogins).global.returns.map Return.accepted = [some 2, none, some 3] ∧
      (final threeLogins).global.returns.Pairwise Precedes := by
  have hrun : (Runs.exec (machine sameDigits).step ⟨init 60, []⟩ threeLogins).isSome := by
    decide +kernel
  exact ⟨by decide +kernel, (totp_code_works_once (Runs.exec_getD hrun _)).1⟩

end Lotse.Totp
