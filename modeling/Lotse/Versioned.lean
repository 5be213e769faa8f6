import Lotse.Runs

set_option autoImplicit false

/-!
# Numbered changes to a shared state

A state with a version number that several processes bring up to date: each reads the
number and then applies the changes that follow it, one transaction for a change and the
new number. Processes may fail or be killed at any point, and several may be at work. What
keeps them apart is that every change makes something that was not there before, so that
it cannot be applied twice.
-/
namespace Lotse.Versioned

variable {σ α κ : Type*}

/-- Statements on a state, and what they make. Nothing that was made is lost. -/
structure Changes (σ α κ : Type*) where
  exec : α → σ → Option σ
  Has : σ → κ → Prop
  makes : α → Option κ
  keeps : ∀ {a s t k}, exec a s = some t → Has s k → Has t k
  fresh : ∀ {a s t k}, exec a s = some t → makes a = some k → ¬ Has s k
  made : ∀ {a s t k}, exec a s = some t → makes a = some k → Has t k

def Changes.runAll (C : Changes σ α κ) (as : List α) (s : σ) : Option σ :=
  as.foldlM (fun s a => C.exec a s) s

section runAll
variable {C : Changes σ α κ} {as bs : List α} {a : α} {s t : σ} {k : κ}

@[simp] theorem runAll_nil : C.runAll [] s = some s := rfl

theorem runAll_cons : C.runAll (a :: as) s = (C.exec a s).bind (C.runAll as) := rfl

theorem runAll_append : C.runAll (as ++ bs) s = (C.runAll as s).bind (C.runAll bs) := by
  unfold Changes.runAll
  rw [List.foldlM_append]
  rfl

theorem runAll_keeps (h : C.runAll as s = some t) (hk : C.Has s k) : C.Has t k := by
  induction as generalizing s with
  | nil =>
    cases h
    exact hk
  | cons a as ih =>
    rw [runAll_cons] at h
    obtain ⟨u, hu, hrest⟩ := Option.bind_eq_some_iff.1 h
    exact ih hrest (C.keeps hu hk)

theorem runAll_makes (h : C.runAll as s = some t) (ha : a ∈ as) (hk : C.makes a = some k) :
    C.Has t k := by
  induction as generalizing s with
  | nil => cases ha
  | cons b as ih =>
    rw [runAll_cons] at h
    obtain ⟨u, hu, hrest⟩ := Option.bind_eq_some_iff.1 h
    rcases List.mem_cons.1 ha with rfl | ha
    · exact runAll_keeps hrest (C.made hu hk)
    · exact ih hrest ha

/-- What has been made cannot be made again. -/
theorem runAll_again (ha : a ∈ as) (hk : C.makes a = some k) (hs : C.Has s k) :
    C.runAll as s = none := by
  induction as generalizing s with
  | nil => cases ha
  | cons b as ih =>
    rw [runAll_cons]
    cases hb : C.exec b s with
    | none => rfl
    | some u =>
      rcases List.mem_cons.1 ha with rfl | ha
      · exact absurd hs (C.fresh hb hk)
      · exact ih ha (C.keeps hb hs)

end runAll

inductive Pc where
  | read
  | loop (v : ℕ)
  | opened
  | failed
  deriving DecidableEq

/-- `log` are the statements that were committed, which nothing reads. -/
structure State (σ α : Type*) where
  version : ℕ
  schema : σ
  log : List α
  procs : List Pc

inductive Action where
  | start
  | step (i : ℕ) (fault : Bool)
  | kill (i : ℕ)
  deriving DecidableEq

variable (C : Changes σ α κ) (ms : List (List α))

def advance (g : State σ α) (i : ℕ) (fault : Bool) : Pc → Option (State σ α)
  | .read =>
    some { g with procs := g.procs.set i (if fault then .failed else .loop g.version) }
  | .loop v =>
    match ms[v]? with
    | none => some { g with procs := g.procs.set i .opened }
    | some m =>
      match fault, C.runAll m g.schema with
      | false, some schema => some ⟨v + 1, schema, g.log ++ m, g.procs.set i (.loop (v + 1))⟩
      | _, _ => some { g with procs := g.procs.set i .failed }
  | .opened | .failed => none

def step (g : State σ α) : Action → Option (State σ α)
  | .start => some { g with procs := g.procs ++ [.read] }
  | .step i fault => (g.procs[i]?).bind (advance C ms g i fault)
  | .kill i => some { g with procs := g.procs.set i .failed }

def Pc.Behind (n version : ℕ) : Pc → Prop
  | .loop v => v ≤ version
  | .opened => version = n
  | .read | .failed => True

structure Ok (base : σ) (start : ℕ) (g : State σ α) : Prop where
  from_start : start ≤ g.version
  version : g.version ≤ ms.length
  schema : C.runAll (ms.take g.version).flatten base = some g.schema
  log : g.log = ((ms.take g.version).drop start).flatten
  procs : ∀ p ∈ g.procs, p.Behind ms.length g.version

variable {C ms} {base : σ} {start : ℕ} {g g' : State σ α}

theorem Ok.set (h : Ok C ms base start g) {i : ℕ} {p : Pc} (hp : p.Behind ms.length g.version) :
    Ok C ms base start { g with procs := g.procs.set i p } := by
  refine { h with procs := fun q hq => ?_ }
  rcases List.mem_or_eq_of_mem_set hq with hq | rfl
  · exact h.procs q hq
  · exact hp

theorem Ok.stale (hmakes : ∀ m ∈ ms, ∃ a ∈ m, (C.makes a).isSome) (h : Ok C ms base start g) {v : ℕ}
    {m : List α} (hm : ms[v]? = some m) (hv : v < g.version) : C.runAll m g.schema = none := by
  obtain ⟨a, ha, hsome⟩ := hmakes m (List.mem_of_getElem? hm)
  obtain ⟨k, hk⟩ := Option.isSome_iff_exists.1 hsome
  have hmem : m ∈ ms.take g.version := by
    refine List.mem_of_getElem? (i := v) ?_
    rw [List.getElem?_take, if_pos hv, hm]
  exact runAll_again ha hk (runAll_makes h.schema (List.mem_flatten.2 ⟨m, hmem, ha⟩) hk)

theorem take_succ_flatten {v : ℕ} {m : List α} (hm : ms[v]? = some m) :
    (ms.take (v + 1)).flatten = (ms.take v).flatten ++ m := by
  rw [List.take_add_one, hm, List.flatten_append]
  simp

theorem Ok.advance (hmakes : ∀ m ∈ ms, ∃ a ∈ m, (C.makes a).isSome) (h : Ok C ms base start g)
    {i : ℕ} {fault : Bool} {p : Pc} (hi : g.procs[i]? = some p)
    (hg : advance C ms g i fault p = some g') : Ok C ms base start g' := by
  have hp := h.procs p (List.mem_of_getElem? hi)
  cases p with
  | read =>
    cases hg
    refine h.set ?_
    split_ifs
    · trivial
    · exact le_rfl
  | loop v =>
    simp only [Versioned.advance] at hg
    split at hg
    · rename_i hnone
      cases hg
      have hlen : ms.length ≤ v := List.getElem?_eq_none_iff.1 hnone
      refine h.set ?_
      change g.version = ms.length
      have hle : v ≤ g.version := hp
      have := h.version
      omega
    · rename_i m hm
      split at hg
      · rename_i schema hrun
        cases hg
        -- an older change would have failed, so that this is the next one
        have hv : v = g.version := by
          rcases Nat.lt_or_eq_of_le hp with hlt | rfl
          · rw [h.stale hmakes hm hlt] at hrun
            cases hrun
          · rfl
        subst hv
        obtain ⟨hlt, -⟩ := List.getElem?_eq_some_iff.1 hm
        refine ⟨h.from_start.trans (Nat.le_succ _), hlt, ?_, ?_, fun q hq => ?_⟩
        · rw [take_succ_flatten hm, runAll_append, h.schema]
          exact hrun
        · have hlen : (ms.take g.version).length = g.version := by
            rw [List.length_take]
            omega
          change g.log ++ m = _
          rw [h.log, List.take_add_one, hm, List.drop_append_of_le_length (by rw [hlen]; exact h.from_start),
            List.flatten_append]
          simp
        · rcases List.mem_or_eq_of_mem_set hq with hq | rfl
          · have hbehind := h.procs q hq
            cases q with
            | loop w => exact Nat.le_succ_of_le hbehind
            | opened =>
              change g.version = ms.length at hbehind
              omega
            | read | failed => trivial
          · exact le_rfl
      · cases hg
        exact h.set trivial
  | opened => cases hg
  | failed => cases hg

theorem Ok.step (hmakes : ∀ m ∈ ms, ∃ a ∈ m, (C.makes a).isSome) (h : Ok C ms base start g)
    {a : Action} (hg : step C ms g a = some g') : Ok C ms base start g' := by
  cases a with
  | start =>
    cases hg
    refine { h with procs := fun q hq => ?_ }
    rcases List.mem_append.1 hq with hq | hq
    · exact h.procs q hq
    · rw [List.mem_singleton.1 hq]
      trivial
  | step i fault =>
    obtain ⟨p, hi, hadv⟩ := Option.bind_eq_some_iff.1 hg
    exact h.advance hmakes hi hadv
  | kill i =>
    cases hg
    exact h.set trivial

theorem Ok.exec (hmakes : ∀ m ∈ ms, ∃ a ∈ m, (C.makes a).isSome) (h : Ok C ms base start g)
    {acts : List Action} (hg : Runs.exec (Versioned.step C ms) g acts = some g') :
    Ok C ms base start g' :=
  Runs.exec_invariant (fun _ _ _ ok hs => ok.step hmakes hs) h hg

theorem Ok.next {final : σ} (hall : C.runAll ms.flatten base = some final) (h : Ok C ms base start g)
    {m : List α} (hm : ms[g.version]? = some m) : ∃ schema, C.runAll m g.schema = some schema := by
  have hsplit : ms.flatten = (ms.take (g.version + 1)).flatten ++ (ms.drop (g.version + 1)).flatten := by
    rw [← List.flatten_append, List.take_append_drop]
  rw [hsplit, take_succ_flatten hm, List.append_assoc, runAll_append, h.schema] at hall
  rw [Option.bind_some, runAll_append] at hall
  obtain ⟨schema, hschema, -⟩ := Option.bind_eq_some_iff.1 hall
  exact ⟨schema, hschema⟩

theorem Ok.completes {final : σ} (hall : C.runAll ms.flatten base = some final)
    (hmakes : ∀ m ∈ ms, ∃ a ∈ m, (C.makes a).isSome) (h : Ok C ms base start g) {i : ℕ}
    (hi : g.procs[i]? = some (.loop g.version)) :
    ∃ g', Runs.exec (Versioned.step C ms) g
      (List.replicate (ms.length - g.version + 1) (.step i false)) = some g' ∧
      g'.procs[i]? = some .opened := by
  obtain ⟨hlt, -⟩ := List.getElem?_eq_some_iff.1 hi
  generalize hd : ms.length - g.version = d
  induction d generalizing g with
  | zero =>
    have hnone : ms[g.version]? = none := List.getElem?_eq_none (by omega)
    refine ⟨{ g with procs := g.procs.set i .opened }, ?_, List.getElem?_set_self hlt⟩
    change (Versioned.step C ms g (.step i false)).bind _ = _
    simp only [Versioned.step, hi, Option.bind_some, Versioned.advance, hnone]
    rfl
  | succ d ih =>
    obtain ⟨m, hm⟩ : ∃ m, ms[g.version]? = some m :=
      ⟨_, List.getElem?_eq_getElem (by omega)⟩
    obtain ⟨schema, hrun⟩ := h.next hall hm
    have hstep : Versioned.step C ms g (.step i false) =
        some ⟨g.version + 1, schema, g.log ++ m, g.procs.set i (.loop (g.version + 1))⟩ := by
      simp only [Versioned.step, hi, Option.bind_some, Versioned.advance, hm, hrun]
    obtain ⟨g', hexec, hopened⟩ := ih (h.step hmakes hstep) (List.getElem?_set_self hlt)
      (by simpa using hlt) (by change ms.length - (g.version + 1) = d; omega)
    refine ⟨g', ?_, hopened⟩
    rw [List.replicate_succ, Runs.exec_cons, hstep]
    exact hexec

end Lotse.Versioned
