import Lotse.Tasks

set_option autoImplicit false

/-!
# What interleaved tasks hold

Every instruction holds some number of tickets. A step moves tickets between the task that
takes it and the shared state, so that what all tasks hold together changes by what the
step's own code gains or gives up.
-/
namespace Lotse.Tasks

variable {I : Type*} (w : I → ℕ)

def held (t : List I) : ℕ := (t.map w).sum

def holdings (ts : List (List I)) : ℕ := (ts.map (held w)).sum

variable {w}

@[simp] theorem held_nil : held w [] = 0 := rfl

@[simp] theorem held_cons (ins : I) (t : List I) : held w (ins :: t) = w ins + held w t := by
  simp [held]

@[simp] theorem held_append (t u : List I) : held w (t ++ u) = held w t + held w u := by
  simp [held]

theorem held_eq_zero {t : List I} (h : ∀ ins ∈ t, w ins = 0) : held w t = 0 := by
  rw [held, List.sum_eq_zero_iff]
  intro n hn
  obtain ⟨ins, hins, rfl⟩ := List.mem_map.1 hn
  exact h ins hins

@[simp] theorem holdings_nil : holdings w [] = 0 := rfl

theorem holdings_start (ts : List (List I)) (t : List I) :
    holdings w (ts ++ [t]) = holdings w ts + held w t := by
  simp [holdings]

theorem holdings_set {ts : List (List I)} {i : ℕ} {t u : List I} (h : ts[i]? = some t) :
    holdings w (ts.set i u) + held w t = holdings w ts + held w u := by
  induction ts generalizing i with
  | nil => simp at h
  | cons s ts ih =>
    cases i with
    | zero =>
      rw [List.getElem?_cons_zero, Option.some.injEq] at h
      subst h
      simp only [holdings, List.set_cons_zero, List.map_cons, List.sum_cons]
      omega
    | succ i =>
      have := ih (by simpa using h)
      simp only [holdings, List.set_cons_succ, List.map_cons, List.sum_cons] at this ⊢
      omega

theorem holdings_next {ts : List (List I)} {i : ℕ} {ins : I} {rest : List I} (code : List I)
    (h : ts[i]? = some (ins :: rest)) :
    holdings w (ts.set i (code ++ rest)) + w ins = holdings w ts + held w code := by
  have hset := holdings_set (w := w) (u := code ++ rest) h
  rw [held_cons, held_append] at hset
  omega

/-- Any step gives up what its instruction held and gains at most what its code holds. -/
theorem holdings_step {G : Type*} {ts : List (List I)} {i : ℕ} {ins : I} {rest : List I}
    (h : ts[i]? = some (ins :: rest)) (out : Outcome G I) :
    holdings w (ts.set i (out.resume rest)) + w ins ≤ holdings w ts + held w out.code := by
  have hset := holdings_set (w := w) (u := out.resume rest) h
  have hresume : held w (out.resume rest) ≤ held w out.code + held w rest := by
    cases out with
    | next g code => rw [Outcome.resume, held_append, Outcome.code]
    | jump g code => rw [Outcome.resume, Outcome.code]; omega
  rw [held_cons] at hset
  omega

end Lotse.Tasks
