import Lotse.Runs

set_option autoImplicit false

/-!
# File systems that may hang

`fsProbe`: every file-system call runs in a goroutine of its own, and whoever asked for it waits
for a second at most. An action is one critical section of `p.mu`, or what a goroutine does
between two of them. A call can return at any later time, or never.
-/
namespace Lotse.FsProbe
open Runs

/-- The functions that are passed to `run`: those of `partitions` and `usage`, and any other that
leaves the results alone. -/
inductive Work where
  | partitions
  | usage (mount : String)
  | other (key : String)

def Work.key : Work → String
  | partitions => "partitions"
  | usage mount => "usage:" ++ mount
  | other key => key

/-- Where a goroutine of `run` is: in the call, with its result stored, with its mark removed. -/
inductive Stage where
  | calling
  | unmarking
  | closing

structure Call where
  work : Work
  stage : Stage

/-- Whoever called `run`: in the `select` on a goroutine, or back from it. -/
structure Caller where
  work : Work
  waits : Option ℕ

/-- What the theorems look back on; no code reads it. -/
inductive Event (U P : Type) where
  | stored (id : ℕ) (w : Work) (u : Option U) (ps : List P)
  | timedOut (id : ℕ)
  | forgot (dropped : String → Bool)
  | usageReturned (mount : String) (u : Option U)
  | partitionsReturned (ps : List P)

/-- `running`, `usages` and `parts` are the fields of `fsProbe`; a mount has no entry, or one that
is nil after an error. `done` are the closed channels. -/
structure State (U P : Type) where
  running : String → Bool
  usages : String → Option (Option U)
  parts : List P
  calls : ℕ → Option Call
  nextCall : ℕ
  done : ℕ → Bool
  callers : ℕ → Option Caller
  nextCaller : ℕ
  log : List (Event U P)

inductive Action (U P : Type) where
  | run (w : Work)
  | returns (id : ℕ) (u : Option U) (ps : List P)
  | unmark (id : ℕ)
  | close (id : ℕ)
  | wake (i : ℕ) (timer : Bool)
  | read (i : ℕ)
  | forget (keep : String → Bool)

variable {U P : Type}

def initial : State U P :=
  ⟨fun _ => false, fun _ => none, [], fun _ => none, 0, fun _ => false, fun _ => none, 0, []⟩

namespace State

def addCaller (g : State U P) (c : Caller) : State U P :=
  { g with callers := Function.update g.callers g.nextCaller c, nextCaller := g.nextCaller + 1 }

def startCall (g : State U P) (w : Work) : State U P :=
  { g with
    running := Function.update g.running w.key true
    calls := Function.update g.calls g.nextCall (some ⟨w, .calling⟩)
    nextCall := g.nextCall + 1 }

def setUsages (g : State U P) (w : Work) (u : Option U) : String → Option (Option U) :=
  match w with
  | .usage mount => Function.update g.usages mount (some u)
  | _ => g.usages

def setParts (g : State U P) (w : Work) (ps : List P) : List P :=
  match w with
  | .partitions => ps
  | _ => g.parts

def store (g : State U P) (id : ℕ) (w : Work) (u : Option U) (ps : List P) : State U P :=
  { g with
    usages := g.setUsages w u
    parts := g.setParts w ps
    calls := Function.update g.calls id (some ⟨w, .unmarking⟩)
    log := g.log ++ [.stored id w u ps] }

def unmark (g : State U P) (id : ℕ) (w : Work) : State U P :=
  { g with
    running := Function.update g.running w.key false
    calls := Function.update g.calls id (some ⟨w, .closing⟩) }

def close (g : State U P) (id : ℕ) : State U P :=
  { g with calls := Function.update g.calls id none, done := Function.update g.done id true }

def wake (g : State U P) (i : ℕ) (w : Work) (id : ℕ) : State U P :=
  { g with
    callers := Function.update g.callers i (some ⟨w, none⟩)
    log := if g.done id then g.log else g.log ++ [.timedOut id] }

def read (g : State U P) (i : ℕ) (w : Work) : State U P :=
  { g with
    callers := Function.update g.callers i none
    log := match w with
      | .usage mount => g.log ++ [.usageReturned mount (g.usages mount).join]
      | .partitions => g.log ++ [.partitionsReturned g.parts]
      | .other _ => g.log }

def gone (g : State U P) (keep : String → Bool) (mount : String) : Bool :=
  !keep mount && !g.running (Work.usage mount).key

def forget (g : State U P) (keep : String → Bool) : State U P :=
  { g with
    usages := fun mount => if g.gone keep mount then none else g.usages mount
    log := g.log ++ [.forgot (g.gone keep)] }

end State

def step (g : State U P) : Action U P → Option (State U P)
  | .run w =>
    if g.running w.key then some (g.addCaller ⟨w, none⟩)
    else some ((g.startCall w).addCaller ⟨w, some g.nextCall⟩)
  | .returns id u ps =>
    match g.calls id with
    | some ⟨w, .calling⟩ => some (g.store id w u ps)
    | _ => none
  | .unmark id =>
    match g.calls id with
    | some ⟨w, .unmarking⟩ => some (g.unmark id w)
    | _ => none
  | .close id =>
    match g.calls id with
    | some ⟨_, .closing⟩ => some (g.close id)
    | _ => none
  | .wake i timer =>
    match g.callers i with
    | some ⟨w, some id⟩ => if g.done id || timer then some (g.wake i w id) else none
    | _ => none
  | .read i =>
    match g.callers i with
    | some ⟨w, none⟩ => some (g.read i w)
    | _ => none
  | .forget keep => some (g.forget keep)

inductive Effect (g : State U P) : State U P → Prop where
  | started (w : Work) (c : Caller) (free : g.running w.key = false) :
      Effect g ((g.startCall w).addCaller c)
  | stored (id : ℕ) (w : Work) (u : Option U) (ps : List P)
      (call : g.calls id = some ⟨w, .calling⟩) : Effect g (g.store id w u ps)
  | unmarked (id : ℕ) (w : Work) (call : g.calls id = some ⟨w, .unmarking⟩) :
      Effect g (g.unmark id w)
  | closed (id : ℕ) (w : Work) (call : g.calls id = some ⟨w, .closing⟩) : Effect g (g.close id)
  | joined (c : Caller) : Effect g (g.addCaller c)
  | woken (i : ℕ) (w : Work) (id : ℕ) : Effect g (g.wake i w id)
  | returned (i : ℕ) (w : Work) : Effect g (g.read i w)
  | forgot (keep : String → Bool) : Effect g (g.forget keep)

theorem step_effect {g g' : State U P} {a : Action U P} (h : step g a = some g') : Effect g g' := by
  cases a with
  | run w =>
    simp only [step] at h
    split_ifs at h with hbusy
    · cases h
      exact .joined _
    · cases h
      exact .started w _ (by simpa using hbusy)
  | returns id u ps =>
    simp only [step] at h
    split at h
    case h_1 w hcall =>
      cases h
      exact .stored id w u ps hcall
    case h_2 => cases h
  | unmark id =>
    simp only [step] at h
    split at h
    case h_1 w hcall =>
      cases h
      exact .unmarked id w hcall
    case h_2 => cases h
  | close id =>
    simp only [step] at h
    split at h
    case h_1 w hcall =>
      cases h
      exact .closed id w hcall
    case h_2 => cases h
  | wake i timer =>
    simp only [step] at h
    split at h
    case h_1 w id _ =>
      split_ifs at h
      cases h
      exact .woken i w id
    case h_2 => cases h
  | read i =>
    simp only [step] at h
    split at h
    case h_1 w _ =>
      cases h
      exact .returned i w
    case h_2 => cases h
  | forget keep =>
    cases h
    exact .forgot keep

def Holding (key : String) : Option Call → Prop
  | some ⟨w, .calling⟩ | some ⟨w, .unmarking⟩ => w.key = key
  | some ⟨_, .closing⟩ | none => False

def Outstanding (g : State U P) (id : ℕ) (key : String) : Prop := Holding key (g.calls id)

structure Marked (g : State U P) : Prop where
  unique : ∀ key id id', Outstanding g id key → Outstanding g id' key → id = id'
  running : ∀ key, g.running key = true ↔ ∃ id, Outstanding g id key
  fresh : ∀ id call, g.calls id = some call → id < g.nextCall

section marks

variable {g : State U P}

theorem outstanding_update {g' : State U P} {id : ℕ} {c : Option Call}
    (h : g'.calls = Function.update g.calls id c) (id' : ℕ) (key : String) :
    Outstanding g' id' key ↔ id' = id ∧ Holding key c ∨ id' ≠ id ∧ Outstanding g id' key := by
  unfold Outstanding
  rw [h]
  by_cases hid : id' = id
  · subst hid
    simp
  · simp [hid]

theorem update_cases {f : ℕ → Option Call} {id id' : ℕ} {c x : Option Call}
    (h : Function.update f id c id' = x) : id' = id ∧ c = x ∨ id' ≠ id ∧ f id' = x := by
  by_cases hid : id' = id
  · rw [hid, Function.update_self] at h
    exact Or.inl ⟨hid, h⟩
  · rw [Function.update_of_ne hid] at h
    exact Or.inr ⟨hid, h⟩

theorem fresh_update {id n : ℕ} {c : Option Call}
    (h : ∀ id call, g.calls id = some call → id < n) (hid : id < n) (id' : ℕ) (call : Call)
    (hcall : Function.update g.calls id c id' = some call) : id' < n := by
  rcases update_cases hcall with ⟨rfl, -⟩ | ⟨-, hcall⟩
  · exact hid
  · exact h id' call hcall

theorem Marked.not_outstanding (h : Marked g) {key : String} (hfree : g.running key = false)
    (id : ℕ) : ¬ Outstanding g id key := by
  intro hout
  rw [(h.running key).2 ⟨id, hout⟩] at hfree
  cases hfree

theorem Marked.start (h : Marked g) {w : Work} (hfree : g.running w.key = false) (c : Caller) :
    Marked ((g.startCall w).addCaller c) := by
  have hcalls : ((g.startCall w).addCaller c).calls =
      Function.update g.calls g.nextCall (some ⟨w, .calling⟩) := rfl
  have hnew (id : ℕ) (key : String) : Outstanding ((g.startCall w).addCaller c) id key ↔
      id = g.nextCall ∧ w.key = key ∨ id ≠ g.nextCall ∧ Outstanding g id key :=
    outstanding_update hcalls id key
  refine ⟨?_, ?_, ?_⟩
  · intro key id id' hid hid'
    rcases (hnew id key).1 hid with ⟨rfl, rfl⟩ | ⟨-, hout⟩
    · rcases (hnew id' _).1 hid' with ⟨rfl, -⟩ | ⟨-, hout'⟩
      · rfl
      · exact absurd hout' (h.not_outstanding hfree id')
    · rcases (hnew id' key).1 hid' with ⟨rfl, rfl⟩ | ⟨-, hout'⟩
      · exact absurd hout (h.not_outstanding hfree id)
      · exact h.unique key id id' hout hout'
  · intro key
    change Function.update g.running w.key true key = true ↔ _
    by_cases hkey : key = w.key
    · rw [hkey, Function.update_self]
      exact iff_of_true rfl ⟨g.nextCall, (hnew _ _).2 (Or.inl ⟨rfl, rfl⟩)⟩
    · rw [Function.update_of_ne hkey, h.running key]
      constructor
      · rintro ⟨id, hout⟩
        refine ⟨id, (hnew id key).2 (Or.inr ⟨?_, hout⟩)⟩
        -- the new id is not in use yet
        rintro rfl
        cases hcall : g.calls g.nextCall with
        | none => rw [Outstanding, hcall] at hout; exact hout
        | some call => exact absurd (h.fresh _ call hcall) (lt_irrefl _)
      · rintro ⟨id, hout⟩
        rcases (hnew id key).1 hout with ⟨-, hw⟩ | ⟨-, hout⟩
        · exact absurd hw.symm hkey
        · exact ⟨id, hout⟩
  · exact fresh_update (fun id call hcall => (h.fresh id call hcall).trans (Nat.lt_succ_self _))
      (Nat.lt_succ_self _)

theorem Marked.congr (h : Marked g) {g' : State U P}
    (hsame : ∀ id key, Outstanding g' id key ↔ Outstanding g id key)
    (hrunning : g'.running = g.running)
    (hfresh : ∀ id call, g'.calls id = some call → id < g'.nextCall) : Marked g' := by
  refine ⟨?_, ?_, hfresh⟩
  · intro key id id' hid hid'
    exact h.unique key id id' ((hsame id key).1 hid) ((hsame id' key).1 hid')
  · intro key
    rw [hrunning, h.running key]
    exact exists_congr fun id => (hsame id key).symm

theorem Marked.advance (h : Marked g) {id : ℕ} {old : Call} {c : Option Call} {g' : State U P}
    (hold : g.calls id = some old) (hcalls : g'.calls = Function.update g.calls id c)
    (hkeys : ∀ key, Holding key c ↔ Holding key (some old)) (hrunning : g'.running = g.running)
    (hnext : g'.nextCall = g.nextCall) : Marked g' := by
  refine h.congr (fun id' key => ?_) hrunning ?_
  · rw [outstanding_update hcalls, hkeys key, ← hold]
    by_cases hid : id' = id
    · subst hid
      simp [Outstanding]
    · simp [hid]
  · rw [hcalls, hnext]
    exact fresh_update h.fresh (h.fresh id old hold)

theorem Marked.unmark (h : Marked g) {id : ℕ} {w : Work}
    (hcall : g.calls id = some ⟨w, .unmarking⟩) : Marked (g.unmark id w) := by
  have hold : Outstanding g id w.key := by
    rw [Outstanding, hcall]
    rfl
  have hnew : ∀ id' key, Outstanding (g.unmark id w) id' key ↔
      id' ≠ id ∧ Outstanding g id' key := fun id' key =>
    (outstanding_update rfl id' key).trans (by simp [Holding])
  refine ⟨?_, ?_, ?_⟩
  · intro key id₁ id₂ hid₁ hid₂
    exact h.unique key id₁ id₂ ((hnew id₁ key).1 hid₁).2 ((hnew id₂ key).1 hid₂).2
  · intro key
    change Function.update g.running w.key false key = true ↔ _
    by_cases hkey : key = w.key
    · rw [hkey, Function.update_self]
      refine iff_of_false Bool.false_ne_true ?_
      rintro ⟨id', hout⟩
      obtain ⟨hne, hout⟩ := (hnew id' _).1 hout
      exact hne (h.unique _ id' id hout hold)
    · rw [Function.update_of_ne hkey, h.running key]
      refine exists_congr fun id' => ?_
      rw [hnew id' key, iff_and_self]
      rintro hout rfl
      rw [Outstanding, hcall] at hout
      exact hkey hout.symm
  · exact fresh_update h.fresh (h.fresh id _ hcall)

theorem Marked.effect (h : Marked g) {g' : State U P} (he : Effect g g') : Marked g' := by
  cases he with
  | started w c hfree => exact h.start hfree c
  | stored id w u ps hcall => exact h.advance hcall rfl (fun _ => Iff.rfl) rfl rfl
  | unmarked id w hcall => exact h.unmark hcall
  | closed id w hcall => exact h.advance hcall rfl (fun _ => Iff.rfl) rfl rfl
  | joined | woken | returned | forgot => exact h.congr (fun _ _ => Iff.rfl) rfl h.fresh

end marks

def usageNext (mount : String) (entry : Option (Option U)) : Event U P → Option (Option U)
  | .stored _ (.usage m) u _ => if m = mount then some u else entry
  | .forgot dropped => if dropped mount then none else entry
  | _ => entry

def partsNext (parts : List P) : Event U P → List P
  | .stored _ .partitions _ ps => ps
  | _ => parts

def usageAfter (mount : String) (log : List (Event U P)) : Option (Option U) :=
  log.foldl (usageNext mount) none

def partsAfter (log : List (Event U P)) : List P := log.foldl partsNext []

/-- The entries are what the events make them, and every call has returned the entry of its
time. -/
structure Results (g : State U P) : Prop where
  usages : ∀ mount, g.usages mount = usageAfter mount g.log
  parts : g.parts = partsAfter g.log
  usageReturned : ∀ before mount u after, g.log = before ++ .usageReturned mount u :: after →
    u = (usageAfter mount before).join
  partitionsReturned : ∀ before ps after, g.log = before ++ .partitionsReturned ps :: after →
    ps = partsAfter before

theorem split_concat {α : Type} {log before after : List α} {e x : α}
    (h : log ++ [e] = before ++ x :: after) :
    before = log ∧ x = e ∨ ∃ after', log = before ++ x :: after' := by
  rcases List.eq_nil_or_concat' after with rfl | ⟨after', y, rfl⟩
  · obtain ⟨hlog, he⟩ := List.append_inj' h rfl
    exact Or.inl ⟨hlog.symm, by simpa using he.symm⟩
  · rw [← List.cons_append, ← List.append_assoc] at h
    exact Or.inr ⟨after', (List.append_inj' h rfl).1⟩

section results

variable {g : State U P}

theorem Results.append (h : Results g) {g' : State U P} {e : Event U P}
    (hlog : g'.log = g.log ++ [e])
    (husages : ∀ mount, g'.usages mount = usageNext mount (g.usages mount) e)
    (hparts : g'.parts = partsNext g.parts e)
    (husage : ∀ mount u, e = .usageReturned mount u → u = (g.usages mount).join)
    (hpartitions : ∀ ps, e = .partitionsReturned ps → ps = g.parts) : Results g' := by
  refine ⟨?_, ?_, ?_, ?_⟩
  · intro mount
    rw [husages, h.usages, hlog, usageAfter, usageAfter, List.foldl_append, List.foldl_cons,
      List.foldl_nil]
  · rw [hparts, h.parts, hlog, partsAfter, partsAfter, List.foldl_append, List.foldl_cons,
      List.foldl_nil]
  · intro before mount u after hsplit
    rw [hlog] at hsplit
    rcases split_concat hsplit with ⟨rfl, he⟩ | ⟨after', hbefore⟩
    · rw [← h.usages]
      exact husage mount u he.symm
    · exact h.usageReturned before mount u after' hbefore
  · intro before ps after hsplit
    rw [hlog] at hsplit
    rcases split_concat hsplit with ⟨rfl, he⟩ | ⟨after', hbefore⟩
    · rw [← h.parts]
      exact hpartitions ps he.symm
    · exact h.partitionsReturned before ps after' hbefore

theorem Results.congr (h : Results g) {g' : State U P} (hlog : g'.log = g.log)
    (husages : g'.usages = g.usages) (hparts : g'.parts = g.parts) : Results g' := by
  refine ⟨?_, ?_, ?_, ?_⟩
  · rw [hlog, husages]
    exact h.usages
  · rw [hlog, hparts]
    exact h.parts
  · rw [hlog]
    exact h.usageReturned
  · rw [hlog]
    exact h.partitionsReturned

theorem Results.effect (h : Results g) {g' : State U P} (he : Effect g g') : Results g' := by
  cases he with
  | started | unmarked | closed | joined => exact h.congr rfl rfl rfl
  | stored id w u ps hcall =>
    refine h.append (e := .stored id w u ps) rfl (fun mount => ?_) ?_ (by simp) (by simp)
    · cases w with
      | usage m =>
        by_cases hm : m = mount
        · subst hm
          simp [State.store, State.setUsages, usageNext]
        · simp [State.store, State.setUsages, usageNext, hm, Ne.symm hm]
      | partitions | other => rfl
    · cases w <;> rfl
  | woken i w id =>
    by_cases hdone : g.done id = true
    · exact h.congr (by simp [State.wake, hdone]) rfl rfl
    · exact h.append (e := .timedOut id) (by simp [State.wake, hdone]) (fun _ => rfl) rfl (by simp)
        (by simp)
  | returned i w =>
    cases w with
    | usage mount =>
      refine h.append (e := .usageReturned mount (g.usages mount).join) rfl (fun _ => rfl) rfl ?_
        (by simp)
      intro mount' u heq
      cases heq
      rfl
    | partitions =>
      refine h.append (e := .partitionsReturned g.parts) rfl (fun _ => rfl) rfl (by simp) ?_
      intro ps heq
      cases heq
      rfl
    | other key => exact h.congr rfl rfl rfl
  | forgot keep =>
    exact h.append (e := .forgot (g.gone keep)) rfl (fun _ => rfl) rfl (by simp) (by simp)

end results

def Event.call : Event U P → Option (ℕ × String)
  | .stored id w _ _ => some (id, w.key)
  | _ => none

def Newer (e e' : Event U P) : Prop := ∀ a ∈ e.call, ∀ b ∈ e'.call, a.2 = b.2 → a.1 < b.1

/-- The results of a key are stored in the order in which its calls were started. -/
structure InOrder (g : State U P) : Prop where
  sorted : g.log.Pairwise Newer
  started : ∀ e ∈ g.log, ∀ a ∈ e.call, a.1 < g.nextCall
  calling : ∀ id w, g.calls id = some ⟨w, .calling⟩ → ∀ e ∈ g.log, ∀ a ∈ e.call,
    a.2 = w.key → a.1 < id

section order

variable {g : State U P}

theorem InOrder.append (h : InOrder g) {g' : State U P} {l : List (Event U P)}
    (hlog : g'.log = g.log ++ l) (hl : ∀ e ∈ l, e.call = none)
    (hnext : g'.nextCall = g.nextCall)
    (hcalls : ∀ id w, g'.calls id = some ⟨w, .calling⟩ → g.calls id = some ⟨w, .calling⟩) :
    InOrder g' := by
  have hold : ∀ e ∈ g'.log, ∀ a ∈ e.call, e ∈ g.log := by
    intro e he a ha
    rw [hlog, List.mem_append] at he
    rcases he with he | he
    · exact he
    · rw [hl e he] at ha
      cases ha
  refine ⟨?_, ?_, ?_⟩
  · rw [hlog]
    refine List.pairwise_append.2 ⟨h.sorted, ?_, ?_⟩
    · exact List.pairwise_iff_forall_sublist.2 fun {e e'} hsub a ha => by
        rw [hl e (hsub.subset List.mem_cons_self)] at ha
        cases ha
    · intro e _ e' he' a _ b hb
      rw [hl e' he'] at hb
      cases hb
  · intro e he a ha
    rw [hnext]
    exact h.started e (hold e he a ha) a ha
  · intro id w hcall e he a ha
    exact h.calling id w (hcalls id w hcall) e (hold e he a ha) a ha

theorem InOrder.start (h : InOrder g) (w : Work) (c : Caller) :
    InOrder ((g.startCall w).addCaller c) := by
  refine ⟨h.sorted, fun e he a ha => (h.started e he a ha).trans (Nat.lt_succ_self _), ?_⟩
  intro id w' hcall e he a ha hkey
  rcases update_cases hcall with ⟨rfl, -⟩ | ⟨-, hcall⟩
  · exact h.started e he a ha
  · exact h.calling id w' hcall e he a ha hkey

theorem InOrder.store (h : InOrder g) (hm : Marked g) {id : ℕ} {w : Work} (u : Option U)
    (ps : List P) (hcall : g.calls id = some ⟨w, .calling⟩) : InOrder (g.store id w u ps) := by
  have hmem (e : Event U P) (he : e ∈ g.log ++ [.stored id w u ps]) :
      e ∈ g.log ∨ e = .stored id w u ps := by simpa using he
  refine ⟨?_, ?_, ?_⟩
  · refine List.pairwise_append.2 ⟨h.sorted, List.pairwise_singleton _ _, ?_⟩
    intro e he e' he' a ha b hb hkey
    rw [List.mem_singleton.1 he'] at hb
    cases hb
    exact h.calling id w hcall e he a ha hkey
  · intro e he a ha
    rcases hmem e he with he | rfl
    · exact h.started e he a ha
    · cases ha
      exact hm.fresh id _ hcall
  · intro id' w' hcall' e he a ha hkey
    rcases update_cases hcall' with ⟨-, hstage⟩ | ⟨hid, hcall'⟩
    · cases hstage
    · rcases hmem e he with he | rfl
      · exact h.calling id' w' hcall' e he a ha hkey
      · -- two calls for one key would be outstanding
        cases ha
        refine absurd (hm.unique w.key id' id ?_ ?_) hid
        · rw [Outstanding, hcall']
          exact hkey.symm
        · rw [Outstanding, hcall]
          rfl

theorem InOrder.effect (h : InOrder g) (hm : Marked g) {g' : State U P} (he : Effect g g') :
    InOrder g' := by
  have hsilent {g' : State U P} (hlog : g'.log = g.log) (hnext : g'.nextCall = g.nextCall)
      (hcalls : ∀ id w, g'.calls id = some ⟨w, .calling⟩ → g.calls id = some ⟨w, .calling⟩) :
      InOrder g' :=
    h.append (hlog.trans (List.append_nil _).symm) (by simp) hnext hcalls
  -- a call that has left its first stage does not come back to it
  have hlater {id : ℕ} {c : Option Call} (hc : ∀ w, c ≠ some ⟨w, .calling⟩) (id' : ℕ) (w : Work)
      (hcall : Function.update g.calls id c id' = some ⟨w, .calling⟩) :
      g.calls id' = some ⟨w, .calling⟩ := by
    rcases update_cases hcall with ⟨-, hstage⟩ | ⟨-, hcall⟩
    · exact absurd hstage (hc w)
    · exact hcall
  cases he with
  | started w c => exact h.start w c
  | stored id w u ps hcall => exact h.store hm u ps hcall
  | unmarked => exact hsilent rfl rfl (hlater (by simp))
  | closed => exact hsilent rfl rfl (hlater (by simp))
  | joined => exact hsilent rfl rfl fun _ _ hcall => hcall
  | woken i w id =>
    by_cases hdone : g.done id = true
    · exact hsilent (by simp [State.wake, hdone]) rfl fun _ _ hcall => hcall
    · refine h.append (l := [.timedOut id]) (by simp [State.wake, hdone]) ?_ rfl
        fun _ _ hcall => hcall
      simp [Event.call]
  | returned i w =>
    cases w with
    | usage mount =>
      exact h.append (l := [.usageReturned mount (g.usages mount).join]) rfl
        (by simp [Event.call]) rfl fun _ _ hcall => hcall
    | partitions =>
      exact h.append (l := [.partitionsReturned g.parts]) rfl (by simp [Event.call]) rfl
        fun _ _ hcall => hcall
    | other key => exact hsilent rfl rfl fun _ _ hcall => hcall
  | forgot keep =>
    exact h.append (l := [.forgot (g.gone keep)]) rfl (by simp [Event.call]) rfl
      fun _ _ hcall => hcall

end order

structure Sound (g : State U P) : Prop where
  marked : Marked g
  results : Results g
  inOrder : InOrder g

theorem sound_initial : Sound (initial : State U P) := by
  refine ⟨⟨?_, ?_, ?_⟩, ⟨fun _ => rfl, rfl, ?_, ?_⟩, ⟨List.Pairwise.nil, ?_, ?_⟩⟩ <;>
    simp [initial, Outstanding, Holding]

theorem sound_exec {acts : List (Action U P)} {g : State U P}
    (h : exec step initial acts = some g) : Sound g := by
  refine exec_invariant (fun g a g' hs hstep => ?_) sound_initial h
  have he := step_effect hstep
  exact ⟨hs.marked.effect he, hs.results.effect he, hs.inOrder.effect hs.marked he⟩

section lookback

variable {g : State U P} {before between after : List (Event U P)}

theorem foldl_eq_self {α β : Type} {f : β → α → β} {b : β} {l : List α}
    (h : ∀ a ∈ l, f b a = b) : l.foldl f b = b := by
  induction l with
  | nil => rfl
  | cons a l ih =>
    rw [List.foldl_cons, h a List.mem_cons_self]
    exact ih fun a' ha' => h a' (List.mem_cons_of_mem a ha')

theorem InOrder.newer (h : InOrder g) {e e' : Event U P}
    (hlog : g.log = before ++ e :: (between ++ after)) (he' : e' ∈ between) : Newer e e' := by
  have hsorted := h.sorted
  rw [hlog] at hsorted
  have htail := (List.pairwise_append.1 hsorted).2.1
  exact (List.pairwise_cons.1 htail).1 e' (List.mem_append_left after he')

theorem Sound.usage_returned (h : Sound g) {id : ℕ} {mount : String} {u v : Option U} {ps : List P}
    (hlog : g.log = before ++
      .stored id (.usage mount) u ps :: (between ++ .usageReturned mount v :: after)) :
    v = u ∨ (∃ id' u' ps', id < id' ∧ .stored id' (.usage mount) u' ps' ∈ between) ∨
      ∃ dropped, .forgot dropped ∈ between ∧ dropped mount = true := by
  by_cases hstored : ∃ id' u' ps', Event.stored id' (.usage mount) u' ps' ∈ between
  · obtain ⟨id', u', ps', hmem⟩ := hstored
    have hnewer : id < id' := h.inOrder.newer hlog hmem (id, _) rfl (id', _) rfl rfl
    exact Or.inr (Or.inl ⟨id', u', ps', hnewer, hmem⟩)
  by_cases hforgot : ∃ dropped, Event.forgot dropped ∈ between ∧ dropped mount = true
  · exact Or.inr (Or.inr hforgot)
  refine Or.inl ?_
  have hsplit : g.log = (before ++ .stored id (.usage mount) u ps :: between) ++
      .usageReturned mount v :: after := by
    rw [hlog, List.append_assoc, List.cons_append]
  have hkept : ∀ e ∈ between, usageNext mount (some u) e = some u := by
    intro e he
    cases e with
    | stored id' w u' ps' =>
      cases w with
      | usage m =>
        have hm : m ≠ mount := by
          rintro rfl
          exact hstored ⟨id', u', ps', he⟩
        exact if_neg hm
      | partitions | other => rfl
    | forgot dropped => exact if_neg fun hdropped => hforgot ⟨dropped, he, hdropped⟩
    | timedOut | usageReturned | partitionsReturned => rfl
  rw [h.results.usageReturned _ mount v after hsplit, usageAfter, List.foldl_append,
    List.foldl_cons]
  simp only [usageNext, if_true]
  rw [foldl_eq_self hkept]
  rfl

theorem Sound.partitions_returned (h : Sound g) {id : ℕ} {u : Option U} {ps qs : List P}
    (hlog : g.log = before ++
      .stored id .partitions u ps :: (between ++ .partitionsReturned qs :: after)) :
    qs = ps ∨ ∃ id' u' ps', id < id' ∧ .stored id' .partitions u' ps' ∈ between := by
  by_cases hstored : ∃ id' u' ps', Event.stored id' .partitions u' ps' ∈ between
  · obtain ⟨id', u', ps', hmem⟩ := hstored
    have hnewer : id < id' := h.inOrder.newer hlog hmem (id, _) rfl (id', _) rfl rfl
    exact Or.inr ⟨id', u', ps', hnewer, hmem⟩
  refine Or.inl ?_
  have hsplit : g.log = (before ++ .stored id .partitions u ps :: between) ++
      .partitionsReturned qs :: after := by
    rw [hlog, List.append_assoc, List.cons_append]
  have hkept : ∀ e ∈ between, partsNext ps e = ps := by
    intro e he
    cases e with
    | stored id' w u' ps' =>
      cases w with
      | partitions => exact absurd ⟨id', u', ps', he⟩ hstored
      | usage | other => rfl
    | forgot | timedOut | usageReturned | partitionsReturned => rfl
  rw [h.results.partitionsReturned _ qs after hsplit, partsAfter, List.foldl_append,
    List.foldl_cons]
  exact foldl_eq_self hkept

theorem Marked.forget_usages (h : Marked g) (keep : String → Bool) (mount : String) :
    ((keep mount = true ∨ ∃ id, Outstanding g id (Work.usage mount).key) →
      (g.forget keep).usages mount = g.usages mount) ∧
    (¬ (keep mount = true ∨ ∃ id, Outstanding g id (Work.usage mount).key) →
      (g.forget keep).usages mount = none) := by
  have hgone : g.gone keep mount = true ↔
      ¬ (keep mount = true ∨ ∃ id, Outstanding g id (Work.usage mount).key) := by
    rw [← h.running, State.gone]
    simp
  refine ⟨fun hkept => if_neg ?_, fun hdropped => if_pos (hgone.2 hdropped)⟩
  exact fun hdropped => hgone.1 hdropped hkept

/-- Whoever has called `run` comes back with its timer, whatever the calls do. -/
theorem caller_returns {i : ℕ} {w : Work} {waits : Option ℕ}
    (h : g.callers i = some ⟨w, waits⟩) :
    ∃ acts g', acts ⊆ [.wake i true, .read i] ∧ exec step g acts = some g' ∧
      g'.callers i = none := by
  have hread {g : State U P} (h : g.callers i = some ⟨w, none⟩) :
      step g (.read i) = some (g.read i w) := by
    simp only [step, h]
  cases waits with
  | none =>
    refine ⟨[.read i], g.read i w, by simp, ?_, Function.update_self ..⟩
    rw [exec_cons, hread h]
    rfl
  | some id =>
    have hwake : step g (.wake i true) = some (g.wake i w id) := by
      simp only [step, h, Bool.or_true, if_true]
    have hback : (g.wake i w id).callers i = some ⟨w, none⟩ := Function.update_self ..
    refine ⟨_, (g.wake i w id).read i w, List.Subset.refl _, ?_, Function.update_self ..⟩
    rw [exec_cons, hwake, Option.bind_some, exec_cons, hread hback]
    rfl

end lookback

/-- In every order of calls, time-outs, late returns and `forget`. A call is outstanding until it
has removed its mark. -/
theorem hung_calls_do_not_pile_up {acts : List (Action U P)} {g : State U P}
    (h : exec step initial acts = some g) :
    (∀ key, (∀ id id', Outstanding g id key → Outstanding g id' key → id = id') ∧
      (g.running key = true ↔ ∃ id, Outstanding g id key)) ∧
    (∀ (before between after : List (Event U P)) (id : ℕ) (mount : String) (u v : Option U)
        (ps : List P),
      g.log = before ++
        .stored id (.usage mount) u ps :: (between ++ .usageReturned mount v :: after) →
      v = u ∨ (∃ id' u' ps', id < id' ∧ .stored id' (.usage mount) u' ps' ∈ between) ∨
        ∃ dropped, .forgot dropped ∈ between ∧ dropped mount = true) ∧
    (∀ (before between after : List (Event U P)) (id : ℕ) (u : Option U) (ps qs : List P),
      g.log = before ++
        .stored id .partitions u ps :: (between ++ .partitionsReturned qs :: after) →
      qs = ps ∨ ∃ id' u' ps', id < id' ∧ .stored id' .partitions u' ps' ∈ between) ∧
    (∀ i w waits, g.callers i = some ⟨w, waits⟩ → ∃ acts' g', acts' ⊆ [.wake i true, .read i] ∧
      exec step g acts' = some g' ∧ g'.callers i = none) ∧
    (∀ keep, ∃ g', step g (.forget keep) = some g' ∧ ∀ mount,
      ((keep mount = true ∨ ∃ id, Outstanding g id (Work.usage mount).key) →
        g'.usages mount = g.usages mount) ∧
      (¬ (keep mount = true ∨ ∃ id, Outstanding g id (Work.usage mount).key) →
        g'.usages mount = none)) := by
  have hs := sound_exec h
  refine ⟨fun key => ⟨hs.marked.unique key, hs.marked.running key⟩, ?_, ?_, ?_, ?_⟩
  · intro before between after id mount u v ps hlog
    exact hs.usage_returned hlog
  · intro before between after id u ps qs hlog
    exact hs.partitions_returned hlog
  · intro i w waits hcaller
    exact caller_returns hcaller
  · intro keep
    exact ⟨g.forget keep, rfl, hs.marked.forget_usages keep⟩

/-- The first call for a share hangs and is not started again; its result comes between the second
and the third time it is asked for, and the third finds it when its own call hangs. -/
def hungShare : List (Action ℕ String) :=
  [.run (.usage "/n"), .wake 0 true, .read 0, .run (.usage "/n"), .read 1, .returns 0 (some 7) [],
    .unmark 0, .close 0, .run (.usage "/n"), .wake 2 true, .read 2]

theorem hung_calls_do_not_pile_up_hungShare : ∃ g : State ℕ String,
    exec step initial hungShare = some g ∧
    g.log = [.timedOut 0, .usageReturned "/n" none, .usageReturned "/n" none,
      .stored 0 (.usage "/n") (some 7) [], .timedOut 1, .usageReturned "/n" (some 7)] ∧
    Outstanding g 1 "usage:/n" ∧ (∀ id, Outstanding g id "usage:/n" → id = 1) ∧
    ∃ g', step g (.forget fun _ => false) = some g' ∧ g'.usages "/n" = g.usages "/n" := by
  have hrun : exec step initial hungShare = some ((exec step initial hungShare).getD initial) :=
    exec_getD (by decide +kernel) initial
  have hout : Outstanding ((exec step initial hungShare).getD initial) 1 "usage:/n" := rfl
  obtain ⟨hmarks, -, -, -, hforget⟩ := hung_calls_do_not_pile_up hrun
  obtain ⟨g', hg', husages⟩ := hforget fun _ => false
  refine ⟨_, hrun, by rfl, hout, fun id hid => (hmarks _).1 id 1 hid hout, g', hg', ?_⟩
  exact (husages "/n").1 (Or.inr ⟨1, hout⟩)

end Lotse.FsProbe
