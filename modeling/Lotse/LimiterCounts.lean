import Lotse.LoginLimiter

set_option autoImplicit false

namespace Lotse.Limiter

variable {κ : Type*}

def Attempt.counts (a : Attempt κ) : Bool := !a.ended || a.failedAt.isSome

def counted (g : State κ) (id : ℕ) : ℕ := g.attempts.countP fun a => a.record == id && a.counts

theorem countP_set {ρ : Type*} {l : List ρ} {i : ℕ} {a b : ρ} (p : ρ → Bool) (h : l[i]? = some a) :
    (l.set i b).countP p + (if p a then 1 else 0) = l.countP p + if p b then 1 else 0 := by
  induction l generalizing i with
  | nil => simp at h
  | cons x l ih =>
    cases i with
    | zero =>
      rw [List.getElem?_cons_zero, Option.some.injEq] at h
      subst h
      rw [List.set_cons_zero, List.countP_cons, List.countP_cons]
      omega
    | succ i =>
      have := ih (by simpa using h)
      rw [List.set_cons_succ, List.countP_cons, List.countP_cons]
      omega

theorem forall_mem_set {ρ : Type*} {P : ρ → Prop} {l : List ρ} {i : ℕ} {b : ρ}
    (h : ∀ x ∈ l, P x) (hb : P b) : ∀ x ∈ l.set i b, P x := by
  intro x hx
  rcases List.mem_or_eq_of_mem_set hx with hx | rfl
  · exact h x hx
  · exact hb

structure Inv (L : Limits) (g : State κ) : Prop where
  keys : (g.fails.map Prod.fst).Nodup
  allocated : ∀ e ∈ g.fails, e.2 < g.next
  recorded : ∀ a ∈ g.attempts, a.record < g.next
  owner : ∀ e ∈ g.fails, ∀ a ∈ g.attempts, a.record = e.2 → a.key = e.1
  count : ∀ id, (g.heap id).count = counted g id
  le : ∀ id, (g.heap id).count ≤ L.loginFailures
  pos : ∀ e ∈ g.fails, 1 ≤ (g.heap e.2).count
  size : g.fails.length ≤ L.maxTrackedClients

section inv
variable {L : Limits} {g g' : State κ} {key : κ} {id i : ℕ} {a : Attempt κ}

theorem inv_initial (L : Limits) (κ : Type*) : Inv L (initial κ) where
  keys := List.nodup_nil
  allocated _ he := absurd he List.not_mem_nil
  recorded _ ha := absurd ha List.not_mem_nil
  owner _ he := absurd he List.not_mem_nil
  count _ := rfl
  le _ := Nat.zero_le _
  pos _ he := absurd he List.not_mem_nil
  size := Nat.zero_le _

theorem Inv.shrink (h : Inv L g) (hs : Shrinks g g') : Inv L g' where
  keys := h.keys.sublist (hs.fails.map _)
  allocated e he := by
    rw [hs.next]
    exact h.allocated e (hs.fails.subset he)
  recorded := by
    rw [hs.attempts, hs.next]
    exact h.recorded
  owner e he := by
    rw [hs.attempts]
    exact h.owner e (hs.fails.subset he)
  count id := by
    rw [hs.heap, counted, hs.attempts]
    exact h.count id
  le id := by
    rw [hs.heap]
    exact h.le id
  pos e he := by
    rw [hs.heap]
    exact h.pos e (hs.fails.subset he)
  size := hs.fails.length_le.trans h.size

theorem Inv.entry_eq (h : Inv L g) {e e' : κ × ℕ} (he : e ∈ g.fails) (he' : e' ∈ g.fails)
    (heq : e.2 = e'.2) : e = e' := by
  have hpos : 0 < counted g e.2 := by
    have := h.pos e he
    rw [h.count] at this
    omega
  obtain ⟨a, ha, hp⟩ := List.countP_pos_iff.1 hpos
  simp only [Bool.and_eq_true, beq_iff_eq] at hp
  have hkey : e.1 = e'.1 :=
    (h.owner e he a ha hp.1).symm.trans (h.owner e' he' a ha (hp.1.trans heq))
  exact eq_of_fst_eq h.keys he he' hkey

theorem counted_reserve (g : State κ) (key : κ) (id id' : ℕ) :
    counted (reserve g key id) id' = counted g id' + if id = id' then 1 else 0 := by
  rw [counted, reserve, List.countP_append, List.countP_singleton]
  simp [counted, Attempt.counts]

theorem count_reserve (g : State κ) (key : κ) (id id' : ℕ) :
    ((reserve g key id).heap id').count = (g.heap id').count + if id = id' then 1 else 0 :=
  count_addCount g.heap id id'

theorem Inv.reserve (h : Inv L g) (hmem : (key, id) ∈ g.fails)
    (hopen : isLocked L (g.heap id) = false) : Inv L (reserve g key id) where
  keys := h.keys
  allocated := h.allocated
  recorded a ha := by
    rcases List.mem_append.1 ha with ha | ha
    · exact h.recorded a ha
    · rw [List.mem_singleton.1 ha]
      exact h.allocated _ hmem
  owner e he a ha hrec := by
    rcases List.mem_append.1 ha with ha | ha
    · exact h.owner e he a ha hrec
    · obtain rfl := List.mem_singleton.1 ha
      rw [h.entry_eq he hmem hrec.symm]
  count id' := by
    rw [count_reserve, counted_reserve, h.count]
  le id' := by
    rw [count_reserve]
    split_ifs with hid
    · subst hid
      simp only [isLocked, decide_eq_false_iff_not, not_le] at hopen
      omega
    · exact h.le id'
  pos e he := by
    rw [count_reserve]
    exact (h.pos e he).trans (Nat.le_add_right _ _)
  size := h.size

theorem Inv.reserve_newRecord [DecidableEq κ] (h : Inv L g) (hnone : g.record key = none)
    (hroom : g.fails.length < L.maxTrackedClients) :
    Inv L (Limiter.reserve (newRecord g key) key g.next) := by
  have hfresh : counted g g.next = 0 := by
    rw [counted, List.countP_eq_zero]
    intro a ha
    have := h.recorded a ha
    simp only [Bool.and_eq_true, beq_iff_eq, not_and]
    omega
  have hcount : ∀ id, ((Limiter.reserve (newRecord g key) key g.next).heap id).count =
      (g.heap id).count + if g.next = id then 1 else 0 := by
    intro id
    rw [count_reserve]
    by_cases hid : g.next = id
    · subst hid
      rw [heap_newRecord, h.count, hfresh]
    · rw [heap_newRecord_ne g key (Ne.symm hid)]
  refine ⟨?_, ?_, ?_, ?_, ?_, ?_, ?_, ?_⟩
  · rw [record_eq_none] at hnone
    change ((g.fails ++ [(key, g.next)]).map Prod.fst).Nodup
    exact Rows.nodup_append h.keys (Rows.lookup_eq_none.2 hnone)
  · intro e he
    rcases List.mem_append.1 he with he | he
    · exact (h.allocated e he).trans (Nat.lt_succ_self _)
    · rw [List.mem_singleton.1 he]
      exact Nat.lt_succ_self _
  · intro a ha
    rcases List.mem_append.1 ha with ha | ha
    · exact (h.recorded a ha).trans (Nat.lt_succ_self _)
    · rw [List.mem_singleton.1 ha]
      exact Nat.lt_succ_self _
  · intro e he a ha hrec
    rcases List.mem_append.1 he with he | he <;> rcases List.mem_append.1 ha with ha | ha
    · exact h.owner e he a ha hrec
    · obtain rfl := List.mem_singleton.1 ha
      exact absurd hrec.symm (h.allocated e he).ne
    · obtain rfl := List.mem_singleton.1 he
      exact absurd hrec (h.recorded a ha).ne
    · obtain rfl := List.mem_singleton.1 he
      obtain rfl := List.mem_singleton.1 ha
      rfl
  · intro id
    have hcounted : counted (newRecord g key) id = counted g id := rfl
    rw [hcount, counted_reserve, h.count, hcounted]
  · intro id
    rw [hcount]
    split_ifs with hid
    · subst hid
      have := L.failures_pos
      rw [h.count, hfresh]
      omega
    · exact h.le id
  · intro e he
    rw [hcount]
    rcases List.mem_append.1 he with he | he
    · exact (h.pos e he).trans (Nat.le_add_right _ _)
    · rw [List.mem_singleton.1 he, if_pos rfl]
      omega
  · change (g.fails ++ [(key, g.next)]).length ≤ _
    rw [List.length_append, List.length_singleton]
    exact hroom

/-- There is room for a new record after an eviction, which meets every entry once. -/
theorem room [DecidableEq κ] (h : Inv L g) {order : List (κ × ℕ)}
    (hperm : L.maxTrackedClients ≤ g.fails.length → order.Perm g.fails) :
    (makeRoom L order g).fails.length < L.maxTrackedClients := by
  rw [makeRoom]
  split_ifs with hfull
  · change (evictLocked L g.heap g.clock order g.fails).length < L.maxTrackedClients
    rcases evictLocked_spec L g.heap g.clock h.keys (hperm hfull) with
      ⟨heq, hlt⟩ | ⟨v, hv, heq, -, -⟩
    · rw [heq]
      exact hlt
    · rw [heq]
      have hlt : (Rows.erase Prod.fst v.1 (alive L g.heap g.clock g.fails)).length <
          (alive L g.heap g.clock g.fails).length :=
        List.length_filter_lt_length_iff_exists.2 ⟨v, hv, by simp⟩
      have hle : (alive L g.heap g.clock g.fails).length ≤ g.fails.length :=
        List.length_filter_le _ _
      have := h.size
      omega
  · omega

theorem counted_set {b : Attempt κ} (ha : g.attempts[i]? = some a) (hrec : b.record = a.record)
    (id : ℕ) :
    (g.attempts.set i b).countP (fun a => a.record == id && a.counts) +
        (if a.record = id ∧ a.counts = true then 1 else 0) =
      counted g id + if a.record = id ∧ b.counts = true then 1 else 0 := by
  have := countP_set (b := b) (fun a => a.record == id && a.counts) ha
  simpa [counted, hrec] using this

theorem Inv.fail (h : Inv L g) (ha : g.attempts[i]? = some a) (hrun : a.ended = false) :
    Inv L (fail g i a) where
  keys := h.keys
  allocated := h.allocated
  recorded := forall_mem_set h.recorded (h.recorded a (List.mem_of_getElem? ha))
  owner e he := forall_mem_set (h.owner e he) (h.owner e he a (List.mem_of_getElem? ha))
  count id := by
    have hset := counted_set (b := { a with failedAt := a.failedAt <|> some g.clock }) ha rfl id
    have hold : a.counts = true := by simp [Attempt.counts, hrun]
    have hnew : ({ a with failedAt := a.failedAt <|> some g.clock } : Attempt κ).counts = true := by
      simp [Attempt.counts, hrun]
    simp only [hold, hnew] at hset
    change (g.heap id).count = _
    rw [h.count]
    exact (Nat.add_right_cancel hset).symm
  le := h.le
  pos := h.pos
  size := h.size

theorem Inv.end_failed (h : Inv L g) (ha : g.attempts[i]? = some a) (hfailed : a.failedAt.isSome) :
    Inv L (setEnded g i a) where
  keys := h.keys
  allocated := h.allocated
  recorded := forall_mem_set h.recorded (h.recorded a (List.mem_of_getElem? ha))
  owner e he := forall_mem_set (h.owner e he) (h.owner e he a (List.mem_of_getElem? ha))
  count id := by
    have hset := counted_set (b := { a with ended := true }) ha rfl id
    have hold : a.counts = true := by simp [Attempt.counts, hfailed]
    have hnew : ({ a with ended := true } : Attempt κ).counts = true := by
      simp [Attempt.counts, hfailed]
    simp only [hold, hnew] at hset
    change (g.heap id).count = _
    rw [h.count]
    exact (Nat.add_right_cancel hset).symm
  le := h.le
  pos := h.pos
  size := h.size

theorem Inv.end_count (h : Inv L g) (ha : g.attempts[i]? = some a) (hrun : a.ended = false)
    (hok : a.failedAt = none) (id : ℕ) :
    (subCount g.heap a.record id).count =
      (g.attempts.set i { a with ended := true }).countP fun b => b.record == id && b.counts := by
  have hset := counted_set (b := { a with ended := true }) ha rfl id
  have hold : a.counts = true := by simp [Attempt.counts, hrun]
  have hnew : ({ a with ended := true } : Attempt κ).counts = false := by
    simp [Attempt.counts, hok]
  simp only [hold, hnew, and_true, Bool.false_eq_true, and_false, if_false, Nat.add_zero] at hset
  rw [count_subCount, h.count, ← hset]
  omega

theorem Inv.endAttempt [DecidableEq κ] (h : Inv L g) (ha : g.attempts[i]? = some a)
    (hrun : a.ended = false) : Inv L (endAttempt g i a) := by
  have hmem := List.mem_of_getElem? ha
  have hrecorded : ∀ b ∈ (setEnded g i a).attempts, b.record < g.next :=
    forall_mem_set h.recorded (h.recorded a hmem)
  have howner : ∀ e ∈ g.fails, ∀ b ∈ (setEnded g i a).attempts, b.record = e.2 → b.key = e.1 :=
    fun e he => forall_mem_set (h.owner e he) (h.owner e he a hmem)
  have hle : ∀ id, (subCount g.heap a.record id).count ≤ L.loginFailures := by
    intro id
    rw [count_subCount]
    exact (Nat.sub_le _ _).trans (h.le id)
  have hpos : ∀ e ∈ g.fails, e.2 ≠ a.record ∨ (subCount g.heap a.record a.record).count ≠ 0 →
      1 ≤ (subCount g.heap a.record e.2).count := by
    intro e he hne
    by_cases hrec : e.2 = a.record
    · rw [hrec]
      have := hne.resolve_left (not_not.2 hrec)
      omega
    · rw [count_subCount, if_neg (Ne.symm hrec), Nat.sub_zero]
      exact h.pos e he
  rcases endAttempt_cases g i a with ⟨hf, heq⟩ | ⟨hok, ⟨hz, hr, heq⟩ | ⟨hz, heq⟩⟩
  · rw [heq]
    exact h.end_failed ha hf
  · rw [heq]
    refine ⟨h.keys.sublist (List.filter_sublist.map _), ?_, hrecorded, ?_, h.end_count ha hrun hok,
      hle, ?_, (List.length_filter_le _ _).trans h.size⟩
    · exact fun e he => h.allocated e (List.mem_filter.1 he).1
    · exact fun e he => howner e (List.mem_filter.1 he).1
    · intro e he
      obtain ⟨he, hkey⟩ := List.mem_filter.1 he
      refine hpos e he (.inl fun hrec => ?_)
      simp only [decide_eq_true_eq] at hkey
      exact hkey (h.owner e he a hmem hrec.symm).symm
  · rw [heq]
    refine ⟨h.keys, h.allocated, hrecorded, howner, h.end_count ha hrun hok, hle,
      fun e he => hpos e he ?_, h.size⟩
    by_cases hrec : e.2 = a.record
    · right
      intro hzero
      refine hz ⟨hzero, record_of_mem h.keys ?_⟩
      rw [h.owner e he a hmem hrec.symm, ← hrec]
      exact he
    · exact .inl hrec

end inv

section runs
variable [DecidableEq κ] {L : Limits} {g g' : State κ} {key : κ} {id i : ℕ} {a : Attempt κ}

theorem Shrinks.record_none (h : Shrinks g g') (hnone : g.record key = none) :
    g'.record key = none := by
  rw [record_eq_none] at hnone ⊢
  exact fun e he => hnone e (h.fails.subset he)

theorem evicts_of_full (hnone : (dropExpired L g key).record key = none)
    (hfull : L.maxTrackedClients ≤ (dropExpired L g key).fails.length) :
    evicts L g key = true := by
  simp [evicts, hnone, hfull]

theorem Inv.begin (h : Inv L g) {order : List (κ × ℕ)}
    (hperm : evicts L g key = true → order.Perm (dropExpired L g key).fails) :
    Inv L (begin L order g key).1 := by
  have hdrop := shrinks_dropExpired L g key
  have hdropped := h.shrink hdrop
  rcases begin_cases L order g key with
    ⟨id, -, -, heq⟩ | ⟨id, i, hr, hopen, heq⟩ | ⟨g', i, hnone, rfl, heq⟩
  · rw [heq]
    exact hdropped
  · rw [heq]
    refine hdropped.reserve (mem_of_record hr) ?_
    rw [hdrop.heap]
    exact hopen
  · rw [heq]
    have hroom := shrinks_makeRoom L order (dropExpired L g key)
    refine (hdropped.shrink hroom).reserve_newRecord (hroom.record_none hnone) ?_
    exact room hdropped fun hfull => hperm (evicts_of_full hnone hfull)

variable {α : Type*} {clientKey : α → κ}

theorem step_begin {ip : α} {order : List (κ × ℕ)}
    (h : step L clientKey g (.begin ip order) = some g') :
    g' = (begin L order g (clientKey ip)).1 ∧
      (evicts L g (clientKey ip) = true → order.Perm (dropExpired L g (clientKey ip)).fails) := by
  simp only [step, Option.ite_none_left_eq_some, Option.some.injEq] at h
  refine ⟨h.2.symm, fun hev => ?_⟩
  have := h.1
  simp only [hev, Bool.true_and, Bool.not_eq_true', Bool.not_eq_false] at this
  exact List.isPerm_iff.1 this

theorem Inv.step (h : Inv L g) {op : Op α κ} (hs : step L clientKey g op = some g') : Inv L g' := by
  cases op with
  | tick d =>
    cases hs
    exact ⟨h.keys, h.allocated, h.recorded, h.owner, h.count, h.le, h.pos, h.size⟩
  | begin ip order =>
    obtain ⟨rfl, hperm⟩ := step_begin hs
    exact h.begin hperm
  | locked ip =>
    cases hs
    rw [locked_eq]
    exact h.shrink (shrinks_dropExpired L g (clientKey ip))
  | fail i =>
    obtain ⟨a, ha, rfl⟩ := Option.map_eq_some_iff.1 hs
    obtain ⟨ha, hrun⟩ := running_eq_some.1 ha
    exact h.fail ha hrun
  | endAttempt i =>
    obtain ⟨a, ha, rfl⟩ := Option.map_eq_some_iff.1 hs
    obtain ⟨ha, hrun⟩ := running_eq_some.1 ha
    exact h.endAttempt ha hrun

theorem inv_run {ops : List (Op α κ)}
    (run : Runs.exec (Limiter.step L clientKey) (initial κ) ops = some g) : Inv L g :=
  Runs.exec_invariant (fun _ _ _ hs ht => hs.step ht) (inv_initial L κ) run

theorem begin_eq_none_iff (h : Inv L g) (order : List (κ × ℕ)) (key : κ) :
    (begin L order g key).2 = none ↔ ∃ id, (key, id) ∈ g.fails ∧
      expired L g.clock (g.heap id) = false ∧ (g.heap id).count = L.loginFailures := by
  have hlocked : ∀ id, isLocked L (g.heap id) = true ↔ (g.heap id).count = L.loginFailures := by
    intro id
    have := h.le id
    simp only [isLocked, decide_eq_true_eq]
    omega
  constructor
  · intro hnone
    rcases begin_cases L order g key with
      ⟨id, hr, hl, -⟩ | ⟨id, i, -, -, heq⟩ | ⟨g', i, -, -, heq⟩
    · obtain ⟨hr, hexp⟩ := record_dropExpired L |>.1 hr
      exact ⟨id, mem_of_record hr, hexp, (hlocked id).1 hl⟩
    · rw [heq] at hnone
      cases hnone
    · rw [heq] at hnone
      cases hnone
  · rintro ⟨id, hmem, hexp, hfull⟩
    have hrec : (dropExpired L g key).record key = some id :=
      (record_dropExpired L).2 ⟨record_of_mem h.keys hmem, hexp⟩
    rcases begin_cases L order g key with
      ⟨id, -, -, heq⟩ | ⟨id', i, hr, hopen, -⟩ | ⟨g', i, hnone, -, -⟩
    · rw [heq]
    · rw [hrec] at hr
      cases hr
      rw [(hlocked id).2 hfull] at hopen
      cases hopen
    · rw [hrec] at hnone
      cases hnone

theorem endAttempt_others (h : Inv L g) (i : ℕ) (a : Attempt κ) {id : ℕ} (hid : id ≠ a.record) :
    ((endAttempt g i a).heap id).count = (g.heap id).count ∧
      ∀ key, (key, id) ∈ (endAttempt g i a).fails ↔ (key, id) ∈ g.fails := by
  have hcount : (subCount g.heap a.record id).count = (g.heap id).count := by
    rw [count_subCount, if_neg (Ne.symm hid), Nat.sub_zero]
  rcases endAttempt_cases g i a with ⟨-, heq⟩ | ⟨-, ⟨-, hr, heq⟩ | ⟨-, heq⟩⟩
  · rw [heq]
    exact ⟨rfl, fun _ => Iff.rfl⟩
  · rw [heq]
    refine ⟨hcount, fun key => ⟨fun hm => (List.mem_filter.1 hm).1, fun hm => ?_⟩⟩
    refine List.mem_filter.2 ⟨hm, ?_⟩
    simp only [ne_eq, decide_eq_true_eq]
    rintro rfl
    rw [record_of_mem h.keys hm] at hr
    exact hid (Option.some.inj hr)
  · rw [heq]
    exact ⟨hcount, fun _ => Iff.rfl⟩

/-- In every state of the limiter: a record in the map counts the failed attempts and the
attempts in progress begun on it, and that is between one and the limit; `begin` refuses a
key exactly when its record has reached the limit; an attempt that ends changes no other
record; the map is bounded. -/
theorem limiter_counts_exactly {ops : List (Op α κ)}
    (run : Runs.exec (Limiter.step hubLimits clientKey) (initial κ) ops = some g) :
    (g.fails.map Prod.fst).Nodup ∧
    (∀ e ∈ g.fails, (g.heap e.2).count = counted g e.2 ∧ 1 ≤ (g.heap e.2).count ∧
      (g.heap e.2).count ≤ hubLimits.loginFailures) ∧
    (∀ order ip, (Limiter.begin hubLimits order g (clientKey ip)).2 = none ↔
      ∃ id, (clientKey ip, id) ∈ g.fails ∧ expired hubLimits g.clock (g.heap id) = false ∧
        (g.heap id).count = hubLimits.loginFailures) ∧
    (∀ i a, running g i = some a → a.failedAt = none → ∀ id ≠ a.record,
      ((endAttempt g i a).heap id).count = (g.heap id).count ∧
        ∀ key, (key, id) ∈ (endAttempt g i a).fails ↔ (key, id) ∈ g.fails) ∧
    g.fails.length ≤ hubLimits.maxTrackedClients := by
  have h := inv_run run
  refine ⟨h.keys, fun e he => ⟨h.count e.2, h.pos e he, h.le e.2⟩, fun order ip => ?_, ?_, h.size⟩
  · exact begin_eq_none_iff h order (clientKey ip)
  · intro i a _ _ id hid
    exact endAttempt_others h i a hid

end runs

def threeAttempts : List (Op ℕ ℕ) :=
  [.begin 1 [], .fail 0, .endAttempt 0, .tick 10, .begin 1 [], .begin 2 [], .begin 1 [], .endAttempt 2]

theorem three_attempts_counted : ∃ g,
    Runs.exec (step hubLimits id) (initial ℕ) threeAttempts = some g ∧
    g.fails = [(1, 0)] ∧ (g.heap 0).count = 3 ∧ counted g 0 = 3 := by
  have hfinal : (Runs.exec (step hubLimits id) (initial ℕ) threeAttempts).map
      (fun g => (g.fails, (g.heap 0).count)) = some ([(1, 0)], 3) := by
    decide +kernel
  obtain ⟨g, hg, hview⟩ := Option.map_eq_some_iff.1 hfinal
  obtain ⟨hfails, hcount⟩ := Prod.mk.inj hview
  obtain ⟨-, hrecords, -⟩ := limiter_counts_exactly hg
  obtain ⟨heq, -⟩ := hrecords (1, 0) (by simp [hfails])
  exact ⟨g, hg, hfails, hcount, heq.symm.trans hcount⟩

end Lotse.Limiter
