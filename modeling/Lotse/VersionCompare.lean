import Lotse.VersionOrder

set_option autoImplicit false

namespace Lotse.Versions
open Comparators

/-- The loop over the core: the first part that differs decides. -/
def scanCore (a b : Fin 3 → ℤ) : List (Fin 3) → Option ℤ
  | [] => none
  | i :: is => if a i ≠ b i then some (if a i < b i then -1 else 1) else scanCore a b is

/-- The loop over the pre-release identifiers and the comparison of the lengths after it. -/
def scanPre : List (List Char) → List (List Char) → ℤ
  | x :: xs, y :: ys =>
    match atoi x, atoi y with
    | some xn, some yn => if xn ≠ yn then if xn < yn then -1 else 1 else scanPre xs ys
    | some _, none => -1
    | none, some _ => 1
    | none, none => if x ≠ y then if x < y then -1 else 1 else scanPre xs ys
  | xs, ys => if xs.length < ys.length then -1 else if ys.length < xs.length then 1 else 0

def Semver.compare (a b : Semver) : ℤ :=
  match scanCore a.core b.core (List.finRange 3) with
  | some r => r
  | none =>
    if a.pre.length = 0 ∧ b.pre.length = 0 then 0
    else if a.pre.length = 0 then 1
    else if b.pre.length = 0 then -1
    else scanPre a.pre b.pre

def result : Ordering → ℤ
  | .lt => -1
  | .eq => 0
  | .gt => 1

theorem compare_lt (x y : List Char) : Ord.compare x y = .lt ↔ x < y := by
  induction x generalizing y with
  | nil =>
    cases y with
    | nil => simp
    | cons d y => simp
  | cons c x ih =>
    cases y with
    | nil => simp
    | cons d y =>
      have hchar : Ord.compare c d = .lt ↔ c < d := compareOfLessAndEq_eq_lt
      rw [List.compare_cons_cons, Ordering.then_eq_lt, hchar, Std.compare_eq_iff_eq, ih,
        List.cons_lt_cons_iff]

theorem result_compare {α : Type*} [Ord α] [LT α] [DecidableLT α] [DecidableEq α] [Std.LawfulEqOrd α]
    (lt : ∀ x y : α, Ord.compare x y = .lt ↔ x < y) (x y : α) :
    result (Ord.compare x y) = if x ≠ y then if x < y then -1 else 1 else 0 := by
  simp only [← lt, ne_eq, ← Std.compare_eq_iff_eq]
  cases Ord.compare x y <;> rfl

theorem result_then (o o' : Ordering) :
    result (o.then o') = if o = .eq then result o' else result o := by
  cases o <;> rfl

theorem scanCore_eq (a b : Fin 3 → ℤ) (is : List (Fin 3)) :
    scanCore a b is = if Ord.compare (is.map a) (is.map b) = .eq then none
      else some (result (Ord.compare (is.map a) (is.map b))) := by
  induction is with
  | nil => rfl
  | cons i is ih =>
    have hint := result_compare (fun _ _ => compare_lt_iff_lt) (a i) (b i)
    rw [scanCore, ih, List.map_cons, List.map_cons, List.compare_cons_cons, result_then]
    by_cases h : a i = b i
    · simp [h]
    · have hne : Ord.compare (a i) (b i) ≠ .eq := mt Std.compare_eq_iff_eq.1 h
      simp [h, hint, hne, Ordering.then_eq_eq]

theorem scanPre_eq (xs ys : List (List Char)) :
    scanPre xs ys = result (List.compareLex compareIdentifier xs ys) := by
  induction xs generalizing ys with
  | nil => cases ys <;> rfl
  | cons x xs ih =>
    cases ys with
    | nil => rfl
    | cons y ys =>
      have hlist := result_compare compare_lt x y
      rw [scanPre, List.compareLex_cons_cons, result_then, ← ih]
      unfold compareIdentifier keyedFirst
      cases hx : atoi x with
      | none =>
        cases hy : atoi y with
        | none =>
          by_cases h : x = y <;> simp_all
        | some m => rfl
      | some n =>
        cases hy : atoi y with
        | none => rfl
        | some m =>
          have hint := result_compare (fun _ _ => compare_lt_iff_lt) n m
          by_cases h : n = m <;> simp_all

theorem Semver.compare_eq (a b : Semver) : a.compare b = result (Versions.compare a b) := by
  have hcompare : Versions.compare a b =
      (Ord.compare (List.ofFn a.core) (List.ofFn b.core)).then (comparePre a.pre b.pre) := rfl
  rw [hcompare, result_then, List.ofFn_eq_map, List.ofFn_eq_map, Semver.compare, scanCore_eq]
  by_cases hcore : Ord.compare ((List.finRange 3).map a.core) ((List.finRange 3).map b.core) = .eq
  · rw [if_pos hcore, if_pos hcore]
    cases a.pre with
    | nil => cases b.pre <;> rfl
    | cons x xs =>
      cases b.pre with
      | nil => rfl
      | cons y ys => simpa [comparePre, nilLast] using scanPre_eq (x :: xs) (y :: ys)
  · rw [if_neg hcore, if_neg hcore]

theorem newer_eq (candidate current : String) : newer candidate current =
    match parseVersion candidate, parseVersion current with
    | none, _ => false
    | some _, none => true
    | some c, some cur => decide (0 < c.compare cur) := by
  unfold newer
  cases parseVersion candidate with
  | none => rfl
  | some c =>
    cases parseVersion current with
    | none => rfl
    | some cur =>
      simp only [Semver.compare_eq]
      cases compare c cur <;> rfl

theorem result_swap (o : Ordering) : result o.swap = -result o := by
  cases o <;> rfl

theorem result_le_iff (o : Ordering) : result o ≤ 0 ↔ o.isLE := by
  cases o <;> decide

structure Release where
  text : String
  semver : Semver
  accepted : parseVersion text = some semver

/-- Versions are totally preordered by `compare`, and `Newer` is a strict order on them. -/
theorem versions_ordered (a b c : Release) :
    a.semver.compare b.semver = -b.semver.compare a.semver ∧
      a.semver.compare a.semver = 0 ∧
      (a.semver.compare b.semver ≤ 0 → b.semver.compare c.semver ≤ 0 →
        a.semver.compare c.semver ≤ 0) ∧
      ¬ newer a.text a.text ∧
      (newer a.text b.text → ¬ newer b.text a.text) ∧
      (newer a.text b.text → newer b.text c.text → newer a.text c.text) := by
  have hswap : ∀ u v : Semver, u.compare v = -v.compare u := by
    intro u v
    rw [Semver.compare_eq, Semver.compare_eq, ← result_swap, ← Std.OrientedCmp.eq_swap]
  have hself : a.semver.compare a.semver = 0 := by
    have := hswap a.semver a.semver
    omega
  refine ⟨hswap a.semver b.semver, hself, ?_, ?_, ?_, newer_trans⟩
  · simp only [Semver.compare_eq, result_le_iff]
    exact Std.TransCmp.isLE_trans
  · simp [newer_eq, a.accepted, hself]
  · simp only [newer_eq, a.accepted, b.accepted, hswap b.semver a.semver, decide_eq_true_eq]
    omega

def Release.of (text : String) (h : (parseVersion text).isSome) : Release :=
  ⟨text, (parseVersion text).get h, (Option.some_get h).symm⟩

theorem versions_ordered_identifiers :
    newer "1.0.0-rc.99999999999999999999" "1.0.0-rc..x" ∧ newer "1.0.0-rc..x" "1.0.0-rc.-01" ∧
      newer "1.0.0-rc.99999999999999999999" "1.0.0-rc.-01" := by
  have hab : newer "1.0.0-rc.99999999999999999999" "1.0.0-rc..x" := by decide +kernel
  have hbc : newer "1.0.0-rc..x" "1.0.0-rc.-01" := by decide +kernel
  exact ⟨hab, hbc, (versions_ordered (.of "1.0.0-rc.99999999999999999999" (by decide +kernel))
    (.of "1.0.0-rc..x" (by decide +kernel))
    (.of "1.0.0-rc.-01" (by decide +kernel))).2.2.2.2.2 hab hbc⟩

end Lotse.Versions
