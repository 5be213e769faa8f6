import Mathlib.Tactic
import Mathlib.Data.List.GetD

set_option autoImplicit false

namespace Lotse.Hysteresis

structure Reading where
  above : Bool
  time : ℤ
  deriving DecidableEq

/-- The start of the current run above, the start of the current run below while on, and,
while on, the start of the run in which the watch turned on. -/
structure Watch where
  since : Option ℤ
  calmSince : Option ℤ
  on : Option ℤ
  deriving DecidableEq

def Watch.off : Watch := ⟨none, none, none⟩

def Watch.step (rise fall : ℤ) (s : Watch) (r : Reading) : Watch :=
  if r.above then
    let since := s.since.getD r.time
    ⟨some since, none, if s.on = none ∧ rise ≤ r.time - since then some since else s.on⟩
  else
    match s.on with
    | none => .off
    | some start =>
      let calm := s.calmSince.getD r.time
      if fall ≤ r.time - calm then .off else ⟨none, some calm, some start⟩

def watch (rise fall : ℤ) (x : ℕ → Reading) : ℕ → Watch
  | 0 => .off
  | n + 1 => (watch rise fall x n).step rise fall (x n)

/-- All readings from `j` up to `n` are on one side. -/
def Run (x : ℕ → Reading) (side : Bool) (j n : ℕ) : Prop :=
  j < n ∧ ∀ i, j ≤ i → i < n → (x i).above = side

def Unbroken (x : ℕ → Reading) (side : Bool) (j n : ℕ) : Prop :=
  Run x side j n ∧ (j = 0 ∨ (x (j - 1)).above ≠ side)

/-- The reading `k` ends a run above that has lasted `rise`. -/
def Due (rise : ℤ) (x : ℕ → Reading) (k : ℕ) : Prop :=
  ∃ j, Run x true j (k + 1) ∧ rise ≤ (x k).time - (x j).time

/-- The reading `m` ends a run below after `k` that has lasted `fall`. -/
def Calm (fall : ℤ) (x : ℕ → Reading) (k m : ℕ) : Prop :=
  ∃ l, k < l ∧ Run x false l (m + 1) ∧ fall ≤ (x m).time - (x l).time

/-- On after the first `n` readings. -/
def On (rise fall : ℤ) (x : ℕ → Reading) (n : ℕ) : Prop :=
  ∃ k < n, Due rise x k ∧ ∀ m, k < m → m < n → ¬ Calm fall x k m

section runs
variable {x : ℕ → Reading} {side : Bool} {j j' n : ℕ}

theorem Run.last (h : Run x side j (n + 1)) : (x n).above = side :=
  h.2 n (Nat.lt_succ_iff.1 h.1) n.lt_succ_self

theorem Unbroken.le (h : Unbroken x side j n) (h' : Run x side j' n) : j ≤ j' := by
  by_contra hlt
  rcases h.2 with hzero | hne
  · omega
  · have hjn := h.1.1
    exact hne (h'.2 (j - 1) (by omega) (by omega))

theorem Unbroken.succ (h : Unbroken x side j n) (hn : (x n).above = side) :
    Unbroken x side j (n + 1) := by
  refine ⟨⟨Nat.lt_succ_of_lt h.1.1, ?_⟩, h.2⟩
  intro i hj hi
  rcases Nat.lt_succ_iff_lt_or_eq.1 hi with hi | rfl
  · exact h.1.2 i hj hi
  · exact hn

theorem unbroken_start (h : ∀ j, ¬ Run x side j n) (hn : (x n).above = side) :
    Unbroken x side n (n + 1) := by
  refine ⟨⟨n.lt_succ_self, ?_⟩, ?_⟩
  · intro i hj hi
    rw [show i = n by omega]
    exact hn
  · rcases Nat.eq_zero_or_pos n with hzero | hpos
    · exact .inl hzero
    · right
      intro hlast
      apply h (n - 1)
      refine ⟨by omega, ?_⟩
      intro i hj hi
      rw [show i = n - 1 by omega]
      exact hlast

theorem not_run (hn : (x n).above ≠ side) (j : ℕ) : ¬ Run x side j (n + 1) :=
  fun h => hn h.last

end runs

section watch
variable {rise fall : ℤ} {x : ℕ → Reading} {n : ℕ}

/-- The first condition for one more reading: a run below that ends here began after `k`,
since the reading `k` was above. -/
theorem on_succ : On rise fall x (n + 1) ↔ Due rise x n ∨
    On rise fall x n ∧ ∀ l, Run x false l (n + 1) → (x n).time - (x l).time < fall := by
  constructor
  · rintro ⟨k, hk, hdue, hcalm⟩
    rcases Nat.lt_succ_iff_lt_or_eq.1 hk with hk | rfl
    · refine .inr ⟨⟨k, hk, hdue, fun m hkm hm => hcalm m hkm (by omega)⟩, ?_⟩
      intro l hrun
      by_contra hfall
      refine hcalm n hk n.lt_succ_self ⟨l, ?_, hrun, by omega⟩
      by_contra hle
      obtain ⟨j, habove, -⟩ := hdue
      exact absurd (hrun.2 k (by omega) (by omega)) (by simp [habove.last])
    · exact .inl hdue
  · rintro (hdue | ⟨⟨k, hk, hdue, hcalm⟩, hall⟩)
    · exact ⟨n, n.lt_succ_self, hdue, fun m _ _ => by omega⟩
    · refine ⟨k, by omega, hdue, ?_⟩
      intro m hkm hm
      rcases Nat.lt_succ_iff_lt_or_eq.1 hm with hm | rfl
      · exact hcalm m hkm hm
      · rintro ⟨l, -, hrun, hfall⟩
        exact absurd (hall l hrun) (by omega)

structure Traces (rise fall : ℤ) (x : ℕ → Reading) (n : ℕ) (s : Watch) : Prop where
  since_some : ∀ t, s.since = some t → ∃ j, Unbroken x true j n ∧ t = (x j).time
  since_none : s.since = none → ∀ j, ¬ Run x true j n
  calm_some : ∀ t, s.calmSince = some t → ∃ l, Unbroken x false l n ∧ t = (x l).time
  calm_none : s.on ≠ none → s.calmSince = none → ∀ l, ¬ Run x false l n
  on_some : ∀ t, s.on = some t → ∃ j k, Unbroken x true j (k + 1) ∧ t = (x j).time ∧ k < n ∧
    rise ≤ (x k).time - (x j).time ∧ ¬ On rise fall x k ∧ ∀ m, k < m → m < n → ¬ Calm fall x k m
  on_none : s.on = none → ¬ On rise fall x n

def Monotonic (x : ℕ → Reading) (n : ℕ) : Prop := ∀ i j, i ≤ j → j < n → (x i).time ≤ (x j).time

theorem start_of_getD {s : Option ℤ} {side : Bool} (hn : (x n).above = side)
    (hsome : ∀ t, s = some t → ∃ j, Unbroken x side j n ∧ t = (x j).time)
    (hnone : s = none → ∀ j, ¬ Run x side j n) :
    ∃ j, Unbroken x side j (n + 1) ∧ s.getD (x n).time = (x j).time := by
  cases s with
  | none => exact ⟨n, unbroken_start (hnone rfl) hn, rfl⟩
  | some t =>
    obtain ⟨j, hj, ht⟩ := hsome t rfl
    exact ⟨j, hj.succ hn, ht⟩

theorem Traces.stays {s : Watch} (h : Traces rise fall x n s) {t : ℤ} (ht : s.on = some t)
    (hshort : ∀ l, Run x false l (n + 1) → (x n).time - (x l).time < fall) :
    ∃ j k, Unbroken x true j (k + 1) ∧ t = (x j).time ∧ k < n + 1 ∧
      rise ≤ (x k).time - (x j).time ∧ ¬ On rise fall x k ∧
      ∀ m, k < m → m < n + 1 → ¬ Calm fall x k m := by
  obtain ⟨j, k, hj, htime, hk, hrise, hoff, hquiet⟩ := h.on_some t ht
  refine ⟨j, k, hj, htime, by omega, hrise, hoff, ?_⟩
  intro m hkm hm
  rcases Nat.lt_succ_iff_lt_or_eq.1 hm with hm | rfl
  · exact hquiet m hkm hm
  · rintro ⟨l, -, hrun, hlong⟩
    exact absurd (hshort l hrun) (by omega)

theorem traces_above {s : Watch} (h : Traces rise fall x n s) (mono : Monotonic x (n + 1))
    (hn : (x n).above = true) : Traces rise fall x (n + 1) (s.step rise fall (x n)) := by
  obtain ⟨j, hj, hsince⟩ := start_of_getD hn h.since_some h.since_none
  have hcalm : ∀ l, ¬ Run x false l (n + 1) := not_run (by simp [hn])
  have hdue : Due rise x n ↔ rise ≤ (x n).time - (x j).time := by
    constructor
    · rintro ⟨j', hrun, hrise⟩
      have hle := mono j j' (hj.le hrun) hrun.1
      omega
    · exact fun hrise => ⟨j, hj.1, hrise⟩
  have hstep : s.step rise fall (x n) = ⟨some (x j).time, none,
      if s.on = none ∧ rise ≤ (x n).time - (x j).time then some (x j).time else s.on⟩ := by
    rw [Watch.step, if_pos hn, hsince]
  rw [hstep]
  refine ⟨?_, by simp, by simp, fun _ _ => hcalm, ?_, ?_⟩
  · intro t ht
    exact ⟨j, hj, (Option.some.inj ht).symm⟩
  · intro t ht
    split_ifs at ht with hfire
    · exact ⟨j, n, hj, (Option.some.inj ht).symm, n.lt_succ_self, hfire.2, h.on_none hfire.1,
        fun m _ _ => by omega⟩
    · exact h.stays ht fun l hrun => absurd hrun (hcalm l)
  · intro hoff
    split_ifs at hoff with hfire
    rw [on_succ, hdue]
    rintro (hrise | ⟨hon, -⟩)
    · exact hfire ⟨hoff, hrise⟩
    · exact h.on_none hoff hon

theorem traces_off (hn : (x n).above = false) (hoff : ¬ On rise fall x (n + 1)) :
    Traces rise fall x (n + 1) .off where
  since_some := by simp [Watch.off]
  since_none _ := not_run (by simp [hn])
  calm_some := by simp [Watch.off]
  calm_none h := absurd rfl h
  on_some := by simp [Watch.off]
  on_none _ := hoff

theorem traces_below {s : Watch} (h : Traces rise fall x n s) (mono : Monotonic x (n + 1))
    (hn : (x n).above = false) : Traces rise fall x (n + 1) (s.step rise fall (x n)) := by
  have hdue : ¬ Due rise x n := by
    rintro ⟨j, hrun, -⟩
    exact not_run (by simp [hn]) j hrun
  cases hon : s.on with
  | none =>
    have hstep : s.step rise fall (x n) = .off := by simp [Watch.step, hn, hon]
    rw [hstep]
    refine traces_off hn ?_
    rw [on_succ]
    rintro (hd | ⟨hprev, -⟩)
    · exact hdue hd
    · exact h.on_none hon hprev
  | some start =>
    obtain ⟨l, hl, hcalm⟩ := start_of_getD hn h.calm_some (h.calm_none (by simp [hon]))
    have hstep : s.step rise fall (x n) =
        if fall ≤ (x n).time - (x l).time then .off else ⟨none, some (x l).time, some start⟩ := by
      simp [Watch.step, hn, hon, hcalm]
    rw [hstep]
    split_ifs with hfall
    · refine traces_off hn ?_
      rw [on_succ]
      rintro (hd | ⟨-, hall⟩)
      · exact hdue hd
      · exact absurd (hall l hl.1) (by omega)
    · refine ⟨by simp, fun _ => not_run (by simp [hn]), ?_, by simp, ?_, by simp⟩
      · intro t ht
        exact ⟨l, hl, (Option.some.inj ht).symm⟩
      · intro t ht
        refine h.stays (hon.trans ht) ?_
        intro l' hrun
        have hle := mono l l' (hl.le hrun) hrun.1
        omega

theorem watch_traces (rise fall : ℤ) (mono : Monotonic x n) : Traces rise fall x n (watch rise fall x n) := by
  induction n with
  | zero => exact ⟨by simp [watch, Watch.off], fun _ j h => absurd h.1 (by omega),
      by simp [watch, Watch.off], fun _ _ l h => absurd h.1 (by omega),
      by simp [watch, Watch.off], fun _ ⟨k, hk, _⟩ => by omega⟩
  | succ n ih =>
    have hprev := ih fun i j hij hj => mono i j hij (by omega)
    cases hn : (x n).above with
    | true => exact traces_above hprev mono hn
    | false => exact traces_below hprev mono hn

theorem watch_on_iff (mono : Monotonic x n) :
    (watch rise fall x n).on ≠ none ↔ On rise fall x n := by
  have h := watch_traces rise fall mono
  constructor
  · intro hne
    obtain ⟨t, ht⟩ := Option.ne_none_iff_exists'.1 hne
    obtain ⟨j, k, hj, -, hk, hrise, -, hquiet⟩ := h.on_some t ht
    exact ⟨k, hk, ⟨j, hj.1, hrise⟩, hquiet⟩
  · exact fun hon hnone => h.on_none hnone hon

theorem watch_congr {y : ℕ → Reading} (h : ∀ i < n, x i = y i) :
    watch rise fall x n = watch rise fall y n := by
  induction n with
  | zero => rfl
  | succ n ih =>
    rw [watch, watch, ih fun i hi => h i (by omega), h n n.lt_succ_self]

end watch

def nth (readings : List Reading) (i : ℕ) : Reading := readings.getD i ⟨false, 0⟩

theorem watch_nth (rise fall : ℤ) (readings : List Reading) :
    readings.foldl (Watch.step rise fall) .off =
      watch rise fall (nth readings) readings.length := by
  induction readings using List.reverseRecOn with
  | nil => rfl
  | append_singleton readings r ih =>
    have hlast : nth (readings ++ [r]) readings.length = r := by simp [nth]
    have hsame : ∀ i < readings.length, nth readings i = nth (readings ++ [r]) i := by
      intro i hi
      rw [nth, nth, List.getD_append _ _ _ _ hi]
    rw [List.foldl_append, ih, List.length_append, watch_congr hsame]
    change _ = (watch rise fall _ _).step rise fall (nth (readings ++ [r]) readings.length)
    rw [hlast]
    rfl

end Lotse.Hysteresis
