import Lotse.Runs

set_option autoImplicit false

/-!
# Interleaved tasks

Concurrent handlers over a shared state. A task is the list of atomic
instructions it still has to execute. An instruction changes the shared state and
either continues, possibly with more instructions before the rest of the task, or
jumps to other code. Any task may take the next step; an oracle value resolves what
the shared state does not determine. A restart, where the machine has one, keeps the
durable part of the state and no task.
-/
namespace Lotse.Tasks

inductive Outcome (G I : Type*) where
  | next (g : G) (code : List I)
  | jump (g : G) (code : List I)

namespace Outcome
variable {G I : Type*}

def global : Outcome G I → G
  | next g _ => g
  | jump g _ => g

def code : Outcome G I → List I
  | next _ code => code
  | jump _ code => code

def resume (rest : List I) : Outcome G I → List I
  | next _ code => code ++ rest
  | jump _ code => code

@[simp] theorem global_next (g : G) (code : List I) : (next g code).global = g := rfl
@[simp] theorem resume_next (rest : List I) (g : G) (code : List I) :
    (next g code).resume rest = code ++ rest := rfl
theorem mem_resume {rest : List I} {out : Outcome G I} {ins : I} (h : ins ∈ out.resume rest) :
    ins ∈ out.code ∨ ins ∈ rest := by
  cases out with
  | next g code => exact List.mem_append.1 h
  | jump g code => exact .inl h

end Outcome

structure Machine (G I O R : Type*) where
  code : R → List I
  atomic : O → G → I → Option (Outcome G I)
  restart : G → Option G

structure Config (G I : Type*) where
  global : G
  tasks : List (List I)

inductive Action (O R : Type*) where
  | start (r : R)
  | run (i : ℕ) (o : O)
  | restart

variable {G I O R : Type*}

namespace Machine

def step (M : Machine G I O R) (c : Config G I) : Action O R → Option (Config G I)
  | .start r => some ⟨c.global, c.tasks ++ [M.code r]⟩
  | .run i o =>
    match c.tasks[i]? with
    | some (ins :: rest) =>
      (M.atomic o c.global ins).map fun out => ⟨out.global, c.tasks.set i (out.resume rest)⟩
    | _ => none
  | .restart => (M.restart c.global).map fun g => ⟨g, []⟩

/-- A condition on the instruction a step executes, in the state before it. -/
def Guard (P : Config G I → I → Prop) (c : Config G I) : Action O R → Prop
  | .run i _ => ∀ ins ∈ (c.tasks[i]?).bind List.head?, P c ins
  | _ => True

instance (P : Config G I → I → Prop) [∀ c ins, Decidable (P c ins)] (c : Config G I) :
    (a : Action O R) → Decidable (Guard P c a)
  | .run i _ => inferInstanceAs (Decidable (∀ ins ∈ (c.tasks[i]?).bind List.head?, P c ins))
  | .start _ => .isTrue trivial
  | .restart => .isTrue trivial

theorem step_run {M : Machine G I O R} {c d : Config G I} {i : ℕ} {o : O}
    (h : M.step c (.run i o) = some d) : ∃ ins rest out,
    c.tasks[i]? = some (ins :: rest) ∧ M.atomic o c.global ins = some out ∧
      d = ⟨out.global, c.tasks.set i (out.resume rest)⟩ := by
  simp only [step] at h
  split at h
  · rename_i ins rest ht
    obtain ⟨out, ho, hd⟩ := Option.map_eq_some_iff.1 h
    exact ⟨ins, rest, out, ht, ho, hd.symm⟩
  · cases h

theorem guard_run {P : Config G I → I → Prop} {c : Config G I} {i : ℕ} {o : O} {ins : I}
    {rest : List I} (h : Guard (R := R) P c (.run i o)) (ht : c.tasks[i]? = some (ins :: rest)) :
    P c ins :=
  h ins (by simp [ht])

/-- The three kinds of steps are the three cases of every invariant of a machine. -/
theorem guarded_invariant (M : Machine G I O R) {P : Config G I → I → Prop}
    {J : Config G I → Prop}
    (start : ∀ c r, J c → J ⟨c.global, c.tasks ++ [M.code r]⟩)
    (run : ∀ c i ins rest o out, J c → P c ins → c.tasks[i]? = some (ins :: rest) →
      M.atomic o c.global ins = some out → J ⟨out.global, c.tasks.set i (out.resume rest)⟩)
    (restart : ∀ c g, J c → M.restart c.global = some g → J ⟨g, []⟩)
    {c d : Config G I} {acts : List (Action O R)} (hc : J c)
    (hm : Runs.Meets M.step (Guard P) c acts) (he : Runs.exec M.step c acts = some d) : J d := by
  refine Runs.exec_guarded ?_ hc hm he
  intro s a t hs ha ht
  cases a with
  | start r =>
    cases ht
    exact start s r hs
  | run i o =>
    obtain ⟨ins, rest, out, hi, ho, rfl⟩ := step_run ht
    exact run s i ins rest o out hs (guard_run ha hi) hi ho
  | restart =>
    obtain ⟨g, hg, rfl⟩ := Option.map_eq_some_iff.1 ht
    exact restart s g hs hg

theorem invariant (M : Machine G I O R) {J : Config G I → Prop}
    (start : ∀ c r, J c → J ⟨c.global, c.tasks ++ [M.code r]⟩)
    (run : ∀ c i ins rest o out, J c → c.tasks[i]? = some (ins :: rest) →
      M.atomic o c.global ins = some out → J ⟨out.global, c.tasks.set i (out.resume rest)⟩)
    (restart : ∀ c g, J c → M.restart c.global = some g → J ⟨g, []⟩)
    {c d : Config G I} {acts : List (Action O R)} (hc : J c)
    (he : Runs.exec M.step c acts = some d) : J d := by
  have guarded : ∀ c (a : Action O R), Guard (fun (_ : Config G I) _ => True) c a := by
    intro c a
    cases a with
    | run i o => exact fun _ _ => trivial
    | start r => trivial
    | restart => trivial
  exact M.guarded_invariant start (fun c i ins rest o out h _ => run c i ins rest o out h) restart hc
    (Runs.meets_of_forall guarded c acts) he

/-- A task with nothing else in between: `code` runs to its end and leaves the last state. -/
inductive Completes (M : Machine G I O R) : G → List I → G → Prop where
  | nil (g : G) : Completes M g [] g
  | cons {g g' : G} {ins : I} {rest : List I} {o : O} {out : Outcome G I}
      (head : M.atomic o g ins = some out) (tail : Completes M out.global (out.resume rest) g') :
      Completes M g (ins :: rest) g'

theorem Completes.exec {M : Machine G I O R} {g g' : G} {code : List I}
    (h : M.Completes g code g') (ts : List (List I)) (i : ℕ) (ht : ts[i]? = some code) :
    ∃ acts : List (Action O R), (∀ a ∈ acts, ∃ o, a = .run i o) ∧
      Runs.exec M.step ⟨g, ts⟩ acts = some ⟨g', ts.set i []⟩ := by
  induction h generalizing ts with
  | nil g =>
    obtain ⟨hi, hget⟩ := List.getElem?_eq_some_iff.1 ht
    refine ⟨[], by simp, ?_⟩
    rw [← hget, List.set_getElem_self hi]
    rfl
  | @cons g g' ins rest o out head tail ih =>
    have hset : (ts.set i (out.resume rest))[i]? = some (out.resume rest) := by
      obtain ⟨hi, -⟩ := List.getElem?_eq_some_iff.1 ht
      simp [hi]
    obtain ⟨acts, hacts, hexec⟩ := ih _ hset
    refine ⟨.run i o :: acts, ?_, ?_⟩
    · intro a ha
      rcases List.mem_cons.1 ha with rfl | ha
      · exact ⟨o, rfl⟩
      · exact hacts a ha
    · rw [Runs.exec_cons]
      simp only [step, ht, head, Option.map_some, Option.bind_some]
      rw [hexec, List.set_set]

end Machine

section tasks
variable {ts : List (List I)} {i : ℕ} {t u new : List I}

theorem mem_set_task (h : t ∈ ts.set i new) : t = new ∨ t ∈ ts :=
  (List.mem_or_eq_of_mem_set h).symm

theorem mem_task_set (hu : ts[i]? = some u) (h : t ∈ ts) : t = u ∨ t ∈ ts.set i new := by
  obtain ⟨j, hj, rfl⟩ := List.mem_iff_getElem.1 h
  by_cases hij : i = j
  · subst hij
    left
    rw [List.getElem?_eq_getElem hj] at hu
    exact Option.some.inj hu
  · right
    exact List.mem_iff_getElem.2 ⟨j, by simpa using hj, by simp [hij]⟩

theorem new_mem_set (hu : ts[i]? = some u) : new ∈ ts.set i new := by
  obtain ⟨hi, _⟩ := List.getElem?_eq_some_iff.1 hu
  exact List.mem_iff_getElem.2 ⟨i, by simpa using hi, by simp⟩

theorem task_mem (hu : ts[i]? = some u) : u ∈ ts := List.mem_of_getElem? hu

theorem forall_start {P : I → Prop} (h : ∀ t ∈ ts, ∀ j ∈ t, P j) (hnew : ∀ j ∈ new, P j) :
    ∀ t ∈ ts ++ [new], ∀ j ∈ t, P j := by
  intro t ht
  rcases List.mem_append.1 ht with ht | ht
  · exact h t ht
  · rw [List.mem_singleton.1 ht]
    exact hnew

/-- What is known of every instruction after a step: of those that were there before, if the
step does not spoil it, and of the code that the step leaves. -/
theorem forall_step {P Q : I → Prop} {ins : I} {rest : List I} {out : Outcome G I}
    (ht : ts[i]? = some (ins :: rest)) (h : ∀ t ∈ ts, ∀ j ∈ t, P j) (hkeep : ∀ j, P j → Q j)
    (hcode : ∀ j ∈ out.code, Q j) : ∀ t ∈ ts.set i (out.resume rest), ∀ j ∈ t, Q j := by
  intro t hmem j hj
  rcases mem_set_task hmem with rfl | hmem
  · rcases Outcome.mem_resume hj with hj | hj
    · exact hcode j hj
    · exact hkeep j (h _ (task_mem ht) j (List.mem_cons_of_mem _ hj))
  · exact hkeep j (h t hmem j hj)

def Ahead (ts : List (List I)) (j : I) : Prop := ∃ t ∈ ts, j ∈ t

instance [DecidableEq I] (ts : List (List I)) (j : I) : Decidable (Ahead ts j) :=
  inferInstanceAs (Decidable (∃ t ∈ ts, j ∈ t))

section ahead
variable {ins j : I} {rest : List I} {out : Outcome G I}

@[simp] theorem not_ahead_nil : ¬ Ahead [] j := by simp [Ahead]

theorem ahead_start : Ahead (ts ++ [new]) j ↔ Ahead ts j ∨ j ∈ new := by
  simp [Ahead, or_and_right, exists_or]

theorem ahead_code (ht : ts[i]? = some (ins :: rest)) (h : j ∈ out.code) :
    Ahead (ts.set i (out.resume rest)) j := by
  refine ⟨_, new_mem_set ht, ?_⟩
  cases out with
  | next g code => exact List.mem_append_left _ h
  | jump g code => exact h

theorem ahead_back (ht : ts[i]? = some (ins :: rest)) (h : Ahead (ts.set i (out.resume rest)) j) :
    j ∈ out.code ∨ Ahead ts j := by
  obtain ⟨t, hmem, hj⟩ := h
  rcases mem_set_task hmem with rfl | hmem
  · rcases Outcome.mem_resume hj with hj | hj
    · exact .inl hj
    · exact .inr ⟨_, task_mem ht, List.mem_cons_of_mem _ hj⟩
  · exact .inr ⟨t, hmem, hj⟩

theorem ahead_kept (ht : ts[i]? = some (ins :: rest)) (hrest : rest ⊆ out.resume rest)
    (hne : j ≠ ins) (h : Ahead ts j) : Ahead (ts.set i (out.resume rest)) j := by
  obtain ⟨t, hmem, hj⟩ := h
  rcases mem_task_set ht hmem with rfl | hmem
  · rcases List.mem_cons.1 hj with he | hj
    · exact absurd he hne
    · exact ⟨_, new_mem_set ht, hrest hj⟩
  · exact ⟨t, hmem, hj⟩

theorem ahead_same (ht : ts[i]? = some (ins :: rest)) (hrest : rest ⊆ out.resume rest)
    (hne : j ≠ ins) (hcode : j ∉ out.code) : Ahead (ts.set i (out.resume rest)) j ↔ Ahead ts j :=
  ⟨fun h => (ahead_back ht h).resolve_left hcode, ahead_kept ht hrest hne⟩

end ahead

end tasks

end Lotse.Tasks
