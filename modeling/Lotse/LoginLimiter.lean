import Mathlib.Data.List.MinMax
import Mathlib.Data.Prod.Lex
import Mathlib.Order.BooleanAlgebra.Basic
import Lotse.Runs
import Lotse.Rows

set_option autoImplicit false

/-!
# The login limiter

`loginLimiter` with its map from client keys to records. Records are pointers, so that an
attempt keeps its record when the map has dropped or replaced it. `begin`, `locked` and
`end` hold the limiter's mutex and `fail` touches its own attempt only; a run is a sequence
of such calls at times that do not decrease. The order in which `evictLocked` meets the
map's entries is given with the call.
-/
namespace Lotse.Limiter

structure Limits where
  loginFailures : ℕ
  loginLockout : ℕ
  maxTrackedClients : ℕ
  failures_pos : 0 < loginFailures
  clients_pos : 0 < maxTrackedClients

/-- The limits of the hub; times are nanoseconds. -/
def hubLimits : Limits := ⟨5, 5 * 60 * 10 ^ 9, 10000, by decide, by decide⟩

structure FailRecord where
  count : ℕ
  first : ℕ
  deriving DecidableEq

/-- The code keeps of `failedAt` only whether `fail` was called, and of `ended` nothing. -/
structure Attempt (κ : Type*) where
  key : κ
  record : ℕ
  failedAt : Option ℕ
  ended : Bool
  deriving DecidableEq

structure State (κ : Type*) where
  clock : ℕ
  heap : ℕ → FailRecord
  next : ℕ
  fails : List (κ × ℕ)
  attempts : List (Attempt κ)

def initial (κ : Type*) : State κ := ⟨0, fun _ => ⟨0, 0⟩, 0, [], []⟩

def isLocked (L : Limits) (r : FailRecord) : Bool := L.loginFailures ≤ r.count

def expired (L : Limits) (now : ℕ) (r : FailRecord) : Bool := r.first + L.loginLockout < now

variable {κ : Type*} [DecidableEq κ]

def State.record (g : State κ) (key : κ) : Option ℕ := (Rows.lookup Prod.fst key g.fails).map Prod.snd

def State.delete (g : State κ) (key : κ) : State κ :=
  { g with fails := Rows.erase Prod.fst key g.fails }

def better (L : Limits) (victim : Option FailRecord) (r : FailRecord) : Bool :=
  match victim with
  | none => true
  | some v => isLocked L v && !isLocked L r || isLocked L r == isLocked L v && r.first < v.first

def visit (L : Limits) (heap : ℕ → FailRecord) (now : ℕ)
    (s : List (κ × ℕ) × Option (κ × ℕ)) (e : κ × ℕ) : List (κ × ℕ) × Option (κ × ℕ) :=
  if expired L now (heap e.2) then (Rows.erase Prod.fst e.1 s.1, s.2)
  else if better L (s.2.map fun v => heap v.2) (heap e.2) then (s.1, some e)
  else s

def evictLocked (L : Limits) (heap : ℕ → FailRecord) (now : ℕ) (order fails : List (κ × ℕ)) :
    List (κ × ℕ) :=
  match order.foldl (visit L heap now) (fails, none) with
  | (fails, victim) =>
    if L.maxTrackedClients ≤ fails.length then
      match victim with
      | some v => Rows.erase Prod.fst v.1 fails
      | none => fails
    else fails

/-- `recordLocked` forgets the key's record once it has expired. -/
def dropExpired (L : Limits) (g : State κ) (key : κ) : State κ :=
  match g.record key with
  | some id => if expired L g.clock (g.heap id) then g.delete key else g
  | none => g

def makeRoom (L : Limits) (order : List (κ × ℕ)) (g : State κ) : State κ :=
  if L.maxTrackedClients ≤ g.fails.length then
    { g with fails := evictLocked L g.heap g.clock order g.fails }
  else g

def newRecord (g : State κ) (key : κ) : State κ :=
  { g with
    heap := Function.update g.heap g.next ⟨0, g.clock⟩
    next := g.next + 1
    fails := g.fails ++ [(key, g.next)] }

def recordLocked (L : Limits) (order : List (κ × ℕ)) (g : State κ) (key : κ) (create : Bool) :
    State κ × Option ℕ :=
  let g := dropExpired L g key
  match g.record key with
  | some id => (g, some id)
  | none =>
    if create then
      let g := makeRoom L order g
      (newRecord g key, some g.next)
    else (g, none)

def addCount (heap : ℕ → FailRecord) (id : ℕ) : ℕ → FailRecord :=
  Function.update heap id { heap id with count := (heap id).count + 1 }

def subCount (heap : ℕ → FailRecord) (id : ℕ) : ℕ → FailRecord :=
  Function.update heap id { heap id with count := (heap id).count - 1 }

def reserve (g : State κ) (key : κ) (id : ℕ) : State κ :=
  { g with heap := addCount g.heap id, attempts := g.attempts ++ [⟨key, id, none, false⟩] }

def begin (L : Limits) (order : List (κ × ℕ)) (g : State κ) (key : κ) : State κ × Option ℕ :=
  match recordLocked L order g key true with
  | (g, none) => (g, none)
  | (g, some id) =>
    if isLocked L (g.heap id) then (g, none) else (reserve g key id, some g.attempts.length)

def locked (L : Limits) (g : State κ) (key : κ) : State κ × Bool :=
  match recordLocked L [] g key false with
  | (g, none) => (g, false)
  | (g, some id) => (g, isLocked L (g.heap id))

def fail (g : State κ) (i : ℕ) (a : Attempt κ) : State κ :=
  { g with attempts := g.attempts.set i { a with failedAt := a.failedAt <|> some g.clock } }

def setEnded (g : State κ) (i : ℕ) (a : Attempt κ) : State κ :=
  { g with attempts := g.attempts.set i { a with ended := true } }

def endAttempt (g : State κ) (i : ℕ) (a : Attempt κ) : State κ :=
  let g := setEnded g i a
  if a.failedAt.isSome then g
  else
    let g := { g with heap := subCount g.heap a.record }
    if (g.heap a.record).count = 0 ∧ g.record a.key = some a.record then g.delete a.key else g

inductive Op (α κ : Type*) where
  | tick (d : ℕ)
  | begin (ip : α) (order : List (κ × ℕ))
  | locked (ip : α)
  | fail (i : ℕ)
  | endAttempt (i : ℕ)

/-- `begin` finds no record for the key and the map full. -/
def evicts (L : Limits) (g : State κ) (key : κ) : Bool :=
  let g := dropExpired L g key
  (g.record key).isNone && L.maxTrackedClients ≤ g.fails.length

def running (g : State κ) (i : ℕ) : Option (Attempt κ) :=
  (g.attempts[i]?).filter fun a => !a.ended

variable {α : Type*}

def step (L : Limits) (clientKey : α → κ) (g : State κ) : Op α κ → Option (State κ)
  | .tick d => some { g with clock := g.clock + d }
  | .begin ip order =>
    if evicts L g (clientKey ip) && !order.isPerm (dropExpired L g (clientKey ip)).fails then none
    else some (begin L order g (clientKey ip)).1
  | .locked ip => some (locked L g (clientKey ip)).1
  | .fail i => (running g i).map (fail g i)
  | .endAttempt i => (running g i).map (endAttempt g i)

section evict
variable (L : Limits) (heap : ℕ → FailRecord) (now : ℕ)

/-- Records that are not locked out come first, older ones before younger ones. -/
def rank (r : FailRecord) : Bool ×ₗ ℕ := toLex (isLocked L r, r.first)

def alive (fails : List (κ × ℕ)) : List (κ × ℕ) :=
  fails.filter fun e => !expired L now (heap e.2)

variable {L heap now}

theorem better_iff {v r : FailRecord} : better L (some v) r = true ↔ rank L r < rank L v := by
  rw [rank, rank, Prod.Lex.toLex_lt_toLex, better]
  cases isLocked L v <;> cases isLocked L r <;> simp

theorem visit_of_expired {s : List (κ × ℕ) × Option (κ × ℕ)} {e : κ × ℕ}
    (h : expired L now (heap e.2) = true) :
    visit L heap now s e = (Rows.erase Prod.fst e.1 s.1, s.2) := if_pos h

theorem visit_of_alive {s : List (κ × ℕ) × Option (κ × ℕ)} {e : κ × ℕ}
    (h : expired L now (heap e.2) = false) :
    visit L heap now s e =
      (s.1, if better L (s.2.map fun v => heap v.2) (heap e.2) then some e else s.2) := by
  rw [visit, if_neg (by simp [h])]
  split_ifs <;> rfl

theorem visit_fst (order fails : List (κ × ℕ)) (v : Option (κ × ℕ)) :
    (order.foldl (visit L heap now) (fails, v)).1 =
      fails.filter fun e => decide (∀ o ∈ order, expired L now (heap o.2) = true → e.1 ≠ o.1) := by
  induction order generalizing fails v with
  | nil => simp
  | cons o order ih =>
    rw [List.foldl_cons]
    cases ho : expired L now (heap o.2) with
    | true =>
      rw [visit_of_expired ho, ih, Rows.erase, List.filter_filter]
      apply List.filter_congr
      intro e _
      rw [Bool.eq_iff_iff]
      simp only [Bool.and_eq_true, decide_eq_true_eq, List.forall_mem_cons, ho, true_imp_iff]
      exact and_comm
    | false =>
      rw [visit_of_alive ho, ih]
      apply List.filter_congr
      intro e _
      simp [ho]

omit [DecidableEq κ] in
theorem alive_concat (order : List (κ × ℕ)) (o : κ × ℕ) : alive L heap now (order ++ [o]) =
    if expired L now (heap o.2) then alive L heap now order else alive L heap now order ++ [o] := by
  rw [alive, List.filter_append]
  cases ho : expired L now (heap o.2) <;> simp [alive, ho]

variable (L heap now) in
theorem visit_snd (order fails : List (κ × ℕ)) :
    (order.foldl (visit L heap now) (fails, none)).2 =
      (alive L heap now order).argmin fun e => rank L (heap e.2) := by
  induction order using List.reverseRecOn with
  | nil => rfl
  | append_singleton order o ih =>
    rw [List.foldl_append, List.foldl_cons, List.foldl_nil, alive_concat]
    cases ho : expired L now (heap o.2) with
    | true =>
      rw [visit_of_expired ho, if_pos rfl]
      exact ih
    | false =>
      have hsnoc : (if false = true then alive L heap now order
          else alive L heap now order ++ [o]) = alive L heap now order ++ [o] := if_neg (by simp)
      rw [visit_of_alive ho, hsnoc, List.argmin_concat, ih]
      cases (alive L heap now order).argmin fun e => rank L (heap e.2) with
      | none => rfl
      | some v =>
        simp only [Option.map_some]
        by_cases hlt : rank L (heap o.2) < rank L (heap v.2)
        · rw [if_pos (better_iff.2 hlt), if_pos hlt]
        · rw [if_neg (fun h => hlt (better_iff.1 h)), if_neg hlt]

omit [DecidableEq κ] in
theorem eq_of_fst_eq {fails : List (κ × ℕ)} (hd : (fails.map Prod.fst).Nodup) {e o : κ × ℕ}
    (he : e ∈ fails) (ho : o ∈ fails) (h : e.1 = o.1) : e = o :=
  List.inj_on_of_nodup_map hd he ho h

variable (L heap now) in
/-- In whatever order the map is met, the expired entries go, and a minimum of the others
if there is still no room. -/
theorem evictLocked_spec {order fails : List (κ × ℕ)} (hd : (fails.map Prod.fst).Nodup)
    (hp : order.Perm fails) :
    evictLocked L heap now order fails = alive L heap now fails ∧
      (alive L heap now fails).length < L.maxTrackedClients ∨
    ∃ v ∈ alive L heap now fails,
      evictLocked L heap now order fails = Rows.erase Prod.fst v.1 (alive L heap now fails) ∧
      L.maxTrackedClients ≤ (alive L heap now fails).length ∧
      ∀ e ∈ alive L heap now fails, rank L (heap v.2) ≤ rank L (heap e.2) := by
  have hfst : (order.foldl (visit L heap now) (fails, none)).1 = alive L heap now fails := by
    rw [visit_fst, alive]
    apply List.filter_congr
    intro e he
    rw [Bool.eq_iff_iff, decide_eq_true_eq, Bool.not_eq_true', ← Bool.not_eq_true]
    constructor
    · intro h hexp
      exact h e (hp.mem_iff.2 he) hexp rfl
    · intro h o ho hexp heq
      rw [eq_of_fst_eq hd he (hp.mem_iff.1 ho) heq] at h
      exact h hexp
  have hsnd := visit_snd L heap now order fails
  have hperm : (alive L heap now order).Perm (alive L heap now fails) := hp.filter _
  rw [evictLocked, ← Prod.mk.eta (p := order.foldl (visit L heap now) (fails, none)), hfst, hsnd]
  simp only
  by_cases hfull : L.maxTrackedClients ≤ (alive L heap now fails).length
  · right
    rw [if_pos hfull]
    cases hv : (alive L heap now order).argmin fun e => rank L (heap e.2) with
    | none =>
      have hnil := List.argmin_eq_none.1 hv
      have := L.clients_pos
      rw [hnil] at hperm
      rw [hperm.symm.eq_nil, List.length_nil] at hfull
      omega
    | some v =>
      refine ⟨v, hperm.mem_iff.1 (List.argmin_mem hv), rfl, hfull, fun e he => ?_⟩
      exact List.le_of_mem_argmin (f := fun e => rank L (heap e.2)) (hperm.mem_iff.2 he) hv
  · left
    rw [if_neg hfull]
    exact ⟨rfl, by omega⟩

end evict

section calls
variable {g : State κ} {key : κ} {id : ℕ} {L : Limits}

theorem mem_of_record (h : g.record key = some id) : (key, id) ∈ g.fails := by
  obtain ⟨e, he, rfl⟩ := Option.map_eq_some_iff.1 h
  have hkey := Rows.lookup_key he
  rw [← hkey]
  exact Rows.lookup_mem he

theorem record_of_mem (hd : (g.fails.map Prod.fst).Nodup) (h : (key, id) ∈ g.fails) :
    g.record key = some id := by
  obtain ⟨e, he⟩ := Rows.exists_lookup (k := Prod.fst) h
  have hsame : e = (key, id) := eq_of_fst_eq hd (Rows.lookup_mem he) h (Rows.lookup_key he)
  change Rows.lookup Prod.fst key g.fails = some e at he
  rw [State.record, he, hsame]
  rfl

theorem record_eq_none : g.record key = none ↔ ∀ e ∈ g.fails, e.1 ≠ key := by
  rw [State.record, Option.map_eq_none_iff, Rows.lookup_eq_none]

structure Shrinks (g g' : State κ) : Prop where
  clock : g'.clock = g.clock
  heap : g'.heap = g.heap
  next : g'.next = g.next
  attempts : g'.attempts = g.attempts
  fails : g'.fails.Sublist g.fails

omit [DecidableEq κ] in
theorem Shrinks.refl (g : State κ) : Shrinks g g := ⟨rfl, rfl, rfl, rfl, List.Sublist.refl _⟩

theorem shrinks_delete (g : State κ) (key : κ) : Shrinks g (g.delete key) :=
  ⟨rfl, rfl, rfl, rfl, List.filter_sublist⟩

theorem shrinks_dropExpired (L : Limits) (g : State κ) (key : κ) :
    Shrinks g (dropExpired L g key) := by
  rw [dropExpired]
  split
  · split_ifs
    · exact shrinks_delete g key
    · exact .refl g
  · exact .refl g

theorem dropExpired_cases (L : Limits) (g : State κ) (key : κ) : dropExpired L g key = g ∨
    ∃ id, g.record key = some id ∧ expired L g.clock (g.heap id) = true ∧
      dropExpired L g key = g.delete key := by
  rw [dropExpired]
  cases hr : g.record key with
  | none => exact .inl rfl
  | some id =>
    simp only
    split_ifs with hexp
    · exact .inr ⟨id, rfl, hexp, rfl⟩
    · exact .inl rfl

theorem record_dropExpired (L : Limits) :
    (dropExpired L g key).record key = some id ↔
      g.record key = some id ∧ expired L g.clock (g.heap id) = false := by
  rw [dropExpired]
  cases hr : g.record key with
  | none => simp [hr]
  | some id' =>
    simp only
    cases hexp : expired L g.clock (g.heap id') with
    | true =>
      have hnone : (g.delete key).record key = none := by
        rw [State.record, State.delete, Rows.lookup_erase_self]
        rfl
      simp only [if_true, hnone, Option.some.injEq, reduceCtorEq, false_iff, not_and]
      rintro rfl
      simp [hexp]
    | false =>
      simp only [Bool.false_eq_true, if_false, hr, Option.some.injEq]
      constructor
      · rintro rfl
        exact ⟨rfl, hexp⟩
      · exact And.left

theorem evictLocked_sublist (L : Limits) (heap : ℕ → FailRecord) (now : ℕ) (order fails : List (κ × ℕ)) :
    (evictLocked L heap now order fails).Sublist fails := by
  have hsub : (order.foldl (visit L heap now) (fails, none)).1.Sublist fails := by
    rw [visit_fst]
    exact List.filter_sublist
  rw [evictLocked]
  revert hsub
  cases order.foldl (visit L heap now) (fails, none) with
  | mk fails' victim =>
    intro hsub
    simp only
    split_ifs
    · cases victim with
      | none => exact hsub
      | some v => exact List.filter_sublist.trans hsub
    · exact hsub

theorem shrinks_makeRoom (L : Limits) (order : List (κ × ℕ)) (g : State κ) :
    Shrinks g (makeRoom L order g) := by
  rw [makeRoom]
  split_ifs
  · exact ⟨rfl, rfl, rfl, rfl, evictLocked_sublist _ _ _ _ _⟩
  · exact .refl g

omit [DecidableEq κ] in
theorem heap_newRecord (g : State κ) (key : κ) :
    (newRecord g key).heap g.next = ⟨0, g.clock⟩ := Function.update_self ..

omit [DecidableEq κ] in
theorem heap_newRecord_ne (g : State κ) (key : κ) {id : ℕ} (h : id ≠ g.next) :
    (newRecord g key).heap id = g.heap id := Function.update_of_ne h ..

theorem count_addCount (heap : ℕ → FailRecord) (id id' : ℕ) :
    (addCount heap id id').count = (heap id').count + if id = id' then 1 else 0 := by
  rw [addCount]
  by_cases hid : id = id'
  · subst hid
    simp
  · rw [Function.update_of_ne (Ne.symm hid), if_neg hid, Nat.add_zero]

theorem count_subCount (heap : ℕ → FailRecord) (id id' : ℕ) :
    (subCount heap id id').count = (heap id').count - if id = id' then 1 else 0 := by
  rw [subCount]
  by_cases hid : id = id'
  · subst hid
    simp
  · rw [Function.update_of_ne (Ne.symm hid), if_neg hid, Nat.sub_zero]

theorem first_addCount (heap : ℕ → FailRecord) (id id' : ℕ) :
    (addCount heap id id').first = (heap id').first := by
  rw [addCount]
  by_cases hid : id' = id
  · subst hid
    simp
  · rw [Function.update_of_ne hid]

theorem first_subCount (heap : ℕ → FailRecord) (id id' : ℕ) :
    (subCount heap id id').first = (heap id').first := by
  rw [subCount]
  by_cases hid : id' = id
  · subst hid
    simp
  · rw [Function.update_of_ne hid]

/-- The key's record is locked, or it gets one more attempt, or it is a new one. -/
theorem begin_cases (L : Limits) (order : List (κ × ℕ)) (g : State κ) (key : κ) :
    (∃ id, (dropExpired L g key).record key = some id ∧ isLocked L (g.heap id) = true ∧
      begin L order g key = (dropExpired L g key, none)) ∨
    (∃ id i, (dropExpired L g key).record key = some id ∧ isLocked L (g.heap id) = false ∧
      begin L order g key = (reserve (dropExpired L g key) key id, some i)) ∨
    ∃ g' i, (dropExpired L g key).record key = none ∧ g' = makeRoom L order (dropExpired L g key) ∧
      begin L order g key = (reserve (newRecord g' key) key g'.next, some i) := by
  have hheap := (shrinks_dropExpired L g key).heap
  simp only [begin, recordLocked]
  cases hr : (dropExpired L g key).record key with
  | some id =>
    simp only [hheap]
    cases hl : isLocked L (g.heap id) with
    | true => exact .inl ⟨id, rfl, hl, rfl⟩
    | false => exact .inr (.inl ⟨id, _, rfl, hl, rfl⟩)
  | none =>
    refine .inr (.inr ⟨_, (makeRoom L order (dropExpired L g key)).attempts.length, rfl, rfl, ?_⟩)
    have hopen : isLocked L ((newRecord (makeRoom L order (dropExpired L g key)) key).heap
        (makeRoom L order (dropExpired L g key)).next) = false := by
      rw [heap_newRecord, isLocked]
      have := L.failures_pos
      simp only [decide_eq_false_iff_not]
      omega
    simp only [if_true, hopen]
    rfl

theorem locked_eq (L : Limits) (g : State κ) (key : κ) : locked L g key =
    (dropExpired L g key, ((dropExpired L g key).record key).any fun id => isLocked L (g.heap id)) := by
  have hheap := (shrinks_dropExpired L g key).heap
  simp only [locked, recordLocked]
  cases hr : (dropExpired L g key).record key with
  | some id => simp [hheap]
  | none => simp

theorem endAttempt_cases (g : State κ) (i : ℕ) (a : Attempt κ) :
    a.failedAt.isSome = true ∧ endAttempt g i a = setEnded g i a ∨
    a.failedAt = none ∧
      ((subCount g.heap a.record a.record).count = 0 ∧ g.record a.key = some a.record ∧
        endAttempt g i a = State.delete { setEnded g i a with heap := subCount g.heap a.record } a.key ∨
      ¬ ((subCount g.heap a.record a.record).count = 0 ∧ g.record a.key = some a.record) ∧
        endAttempt g i a = { setEnded g i a with heap := subCount g.heap a.record }) := by
  by_cases hf : a.failedAt.isSome = true
  · exact .inl ⟨hf, if_pos hf⟩
  · refine .inr ⟨by simpa using hf, ?_⟩
    by_cases hz : (subCount g.heap a.record a.record).count = 0 ∧ g.record a.key = some a.record
    · exact .inl ⟨hz.1, hz.2, (if_neg hf).trans (if_pos hz)⟩
    · exact .inr ⟨hz, (if_neg hf).trans (if_neg hz)⟩

structure Ends (g g' : State κ) (i : ℕ) (a : Attempt κ) : Prop where
  clock : g'.clock = g.clock
  next : g'.next = g.next
  attempts : g'.attempts = g.attempts.set i { a with ended := true }
  fails : g'.fails.Sublist g.fails
  first : ∀ id, (g'.heap id).first = (g.heap id).first

theorem ends_endAttempt (g : State κ) (i : ℕ) (a : Attempt κ) : Ends g (endAttempt g i a) i a := by
  rcases endAttempt_cases g i a with ⟨-, heq⟩ | ⟨-, ⟨-, -, heq⟩ | ⟨-, heq⟩⟩
  · rw [heq]
    exact ⟨rfl, rfl, rfl, List.Sublist.refl _, fun _ => rfl⟩
  · rw [heq]
    exact ⟨rfl, rfl, rfl, List.filter_sublist, first_subCount g.heap a.record⟩
  · rw [heq]
    exact ⟨rfl, rfl, rfl, List.Sublist.refl _, first_subCount g.heap a.record⟩

omit [DecidableEq κ] in
theorem running_eq_some {i : ℕ} {a : Attempt κ} :
    running g i = some a ↔ g.attempts[i]? = some a ∧ a.ended = false := by
  simp [running, Option.filter_eq_some_iff]

end calls

end Lotse.Limiter
