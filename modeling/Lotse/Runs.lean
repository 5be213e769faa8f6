import Mathlib.Tactic

set_option autoImplicit false

/-!
# Runs of a partial step function

A run is a list of actions executed from a state; an action that is not enabled
makes the run undefined. `Meets ok` says that every step of a run is taken in a
state that satisfies `ok` for it.
-/
namespace Lotse.Runs

variable {σ α : Type*}

def exec (step : σ → α → Option σ) (s : σ) (acts : List α) : Option σ := acts.foldlM step s

def Meets (step : σ → α → Option σ) (ok : σ → α → Prop) : σ → List α → Prop
  | _, [] => True
  | s, a :: acts => ok s a ∧ ∀ t ∈ step s a, Meets step ok t acts

instance decidableMeets (step : σ → α → Option σ) (ok : σ → α → Prop)
    [∀ s a, Decidable (ok s a)] : (s : σ) → (acts : List α) → Decidable (Meets step ok s acts)
  | _, [] => .isTrue trivial
  | s, a :: acts =>
    match h : step s a with
    | none => decidable_of_iff (ok s a) (by simp [Meets, h])
    | some t =>
      have := decidableMeets step ok t acts
      decidable_of_iff (ok s a ∧ Meets step ok t acts) (by simp [Meets, h])

variable {step : σ → α → Option σ}

theorem exec_cons (s : σ) (a : α) (acts : List α) :
    exec step s (a :: acts) = (step s a).bind (exec step · acts) := rfl

theorem exec_cons_some {s u : σ} {a : α} {acts : List α} (h : exec step s (a :: acts) = some u) :
    ∃ t, step s a = some t ∧ exec step t acts = some u := by
  rw [exec_cons] at h
  exact Option.bind_eq_some_iff.1 h

theorem exec_getD {s : σ} {acts : List α} (h : (exec step s acts).isSome) (t : σ) :
    exec step s acts = some ((exec step s acts).getD t) := by
  obtain ⟨u, hu⟩ := Option.isSome_iff_exists.1 h
  rw [hu, Option.getD_some]

/-- What every guarded step keeps holds at the end of every guarded run. -/
theorem exec_guarded {ok : σ → α → Prop} {I : σ → Prop}
    (keep : ∀ s a t, I s → ok s a → step s a = some t → I t) {s t : σ} {acts : List α}
    (hs : I s) (hm : Meets step ok s acts) (he : exec step s acts = some t) : I t := by
  induction acts generalizing s with
  | nil =>
    cases he
    exact hs
  | cons a acts ih =>
    obtain ⟨u, hu, ht⟩ := exec_cons_some he
    exact ih (keep s a u hs hm.1 hu) (hm.2 u hu) ht

theorem exec_append (s : σ) (acts acts' : List α) :
    exec step s (acts ++ acts') = (exec step s acts).bind (exec step · acts') :=
  List.foldlM_append

theorem meets_append {ok : σ → α → Prop} {s : σ} {acts acts' : List α} (h : Meets step ok s acts)
    (h' : ∀ t ∈ exec step s acts, Meets step ok t acts') : Meets step ok s (acts ++ acts') := by
  induction acts generalizing s with
  | nil => exact h' s rfl
  | cons a acts ih =>
    refine ⟨h.1, fun t ht => ih (h.2 t ht) fun u hu => h' u ?_⟩
    rw [exec_cons, Option.mem_def.1 ht]
    exact hu

theorem meets_of_forall {ok : σ → α → Prop} (h : ∀ s a, ok s a) (s : σ) (acts : List α) :
    Meets step ok s acts := by
  induction acts generalizing s with
  | nil => trivial
  | cons a acts ih => exact ⟨h s a, fun t _ => ih t⟩

theorem meets_of_mem {P : α → Prop} {acts : List α} (h : ∀ a ∈ acts, P a) (s : σ) :
    Meets step (fun _ a => P a) s acts := by
  induction acts generalizing s with
  | nil => trivial
  | cons a acts ih =>
    exact ⟨h a List.mem_cons_self, fun t _ => ih (fun b hb => h b (List.mem_cons_of_mem _ hb)) t⟩

theorem meets_and {ok ok' : σ → α → Prop} {s : σ} {acts : List α} (h : Meets step ok s acts)
    (h' : Meets step ok' s acts) : Meets step (fun s a => ok s a ∧ ok' s a) s acts := by
  induction acts generalizing s with
  | nil => trivial
  | cons a acts ih => exact ⟨⟨h.1, h'.1⟩, fun t ht => ih (h.2 t ht) (h'.2 t ht)⟩

theorem exec_invariant {I : σ → Prop} (keep : ∀ s a t, I s → step s a = some t → I t) {s t : σ}
    {acts : List α} (hs : I s) (he : exec step s acts = some t) : I t := by
  have trivially : Meets step (fun _ _ => True) s acts := meets_of_forall (fun _ _ => trivial) s acts
  exact exec_guarded (fun s a t h _ => keep s a t h) hs trivially he

end Lotse.Runs
