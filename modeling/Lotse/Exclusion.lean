import Lotse.Tasks

set_option autoImplicit false

namespace Lotse.Tasks

variable {I : Type*}

structure Exclusive (taken : Bool) (Out In : List I → Prop) (tasks : List (List I)) : Prop where
  free : taken = false → ∀ t ∈ tasks, Out t
  owned : taken = true → ∃ (i : ℕ) (t : List I), tasks[i]? = some t ∧ In t ∧
    ∀ (j : ℕ) (u : List I), j ≠ i → tasks[j]? = some u → Out u

namespace Exclusive

theorem nil {Out In : List I → Prop} : Exclusive false Out In [] where
  free _ t ht := absurd ht List.not_mem_nil
  owned h := by cases h

variable {taken : Bool} {Out In Out₁ In₁ : List I → Prop} {tasks : List (List I)} {i : ℕ}
  {t new : List I}

theorem start (h : Exclusive taken Out In tasks) (hnew : Out new) :
    Exclusive taken Out In (tasks ++ [new]) where
  free hfree t ht := by
    rcases List.mem_append.1 ht with ht | ht
    · exact h.free hfree t ht
    · rwa [List.mem_singleton.1 ht]
  owned htaken := by
    obtain ⟨i, t, ht, hin, hothers⟩ := h.owned htaken
    obtain ⟨hi, -⟩ := List.getElem?_eq_some_iff.1 ht
    refine ⟨i, t, by rwa [List.getElem?_append_left hi], hin, fun j u hj hu => ?_⟩
    rcases Nat.lt_or_ge j tasks.length with hlt | hge
    · exact hothers j u hj (by rwa [List.getElem?_append_left hlt] at hu)
    · rw [List.getElem?_append_right hge] at hu
      rwa [List.mem_singleton.1 (List.mem_of_getElem? hu)]

theorem outside_or_owner (h : Exclusive taken Out In tasks) (ht : tasks[i]? = some t) :
    Out t ∨ taken = true ∧ In t ∧ ∀ (j : ℕ) (u : List I), j ≠ i → tasks[j]? = some u → Out u := by
  cases taken with
  | false => exact .inl (h.free rfl t (task_mem ht))
  | true =>
    obtain ⟨k, u, hu, hin, hothers⟩ := h.owned rfl
    by_cases hik : i = k
    · subst hik
      rw [ht] at hu
      cases hu
      exact .inr ⟨rfl, hin, hothers⟩
    · exact .inl (hothers i t hik ht)

theorem step_outside (h : Exclusive taken Out In tasks) (ht : tasks[i]? = some t)
    (hnot : ¬ In t) (hout : ∀ u, Out u → Out₁ u) (hin : ∀ u, In u → In₁ u) (hnew : Out₁ new) :
    Exclusive taken Out₁ In₁ (tasks.set i new) where
  free hfree u hu := by
    rcases mem_set_task hu with rfl | hu
    · exact hnew
    · exact hout u (h.free hfree u hu)
  owned htaken := by
    obtain ⟨k, u, hu, hk, hothers⟩ := h.owned htaken
    have hik : i ≠ k := by
      rintro rfl
      rw [ht] at hu
      cases hu
      exact hnot hk
    refine ⟨k, u, by rwa [List.getElem?_set_ne hik], hin u hk, fun j v hj hv => ?_⟩
    by_cases hij : i = j
    · subst hij
      rw [List.getElem?_set_self (List.getElem?_eq_some_iff.1 ht).1] at hv
      cases hv
      exact hnew
    · exact hout v (hothers j v hj (by rwa [List.getElem?_set_ne hij] at hv))

theorem step_inside (hothers : ∀ (j : ℕ) (u : List I), j ≠ i → tasks[j]? = some u → Out₁ u)
    (ht : tasks[i]? = some t) (hnew : In₁ new) : Exclusive true Out₁ In₁ (tasks.set i new) where
  free h := by cases h
  owned _ := by
    obtain ⟨hi, -⟩ := List.getElem?_eq_some_iff.1 ht
    refine ⟨i, new, by rw [List.getElem?_set_self hi], hnew, fun j u hj hu => ?_⟩
    exact hothers j u hj (by rwa [List.getElem?_set_ne hj.symm] at hu)

theorem step_release (hothers : ∀ (j : ℕ) (u : List I), j ≠ i → tasks[j]? = some u → Out₁ u)
    (hnew : Out₁ new) : Exclusive false Out₁ In₁ (tasks.set i new) where
  free _ u hu := by
    obtain ⟨j, hj, rfl⟩ := List.mem_iff_getElem.1 hu
    by_cases hij : i = j
    · subst hij
      rwa [List.getElem_set_self]
    · rw [List.getElem_set_ne hij]
      exact hothers j _ (Ne.symm hij) (List.getElem?_eq_getElem _)
  owned h := by cases h

end Exclusive

end Lotse.Tasks
