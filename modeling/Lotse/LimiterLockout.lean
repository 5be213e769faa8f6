import Lotse.LimiterCounts

set_option autoImplicit false

namespace Lotse.Limiter

section floods
variable {α κ : Type*} {L : Limits} {g g' : State κ} {key : κ} {id : ℕ} {clientKey : α → κ}

def FullKept (L : Limits) (g : State κ) : Prop := ∀ id, (g.heap id).count = L.loginFailures →
  (∃ key, (key, id) ∈ g.fails) ∨ expired L g.clock (g.heap id) = true

theorem FullKept.of_shrinks (h : FullKept L g) (hs : Shrinks g g')
    (hgone : ∀ e ∈ g.fails, e ∈ g'.fails ∨ expired L g.clock (g.heap e.2) = true ∨
      isLocked L (g.heap e.2) = false) : FullKept L g' := by
  intro id hfull
  rw [hs.heap] at hfull ⊢
  rw [hs.clock]
  rcases h id hfull with ⟨key, hmem⟩ | hexp
  · rcases hgone (key, id) hmem with hmem | hexp | hopen
    · exact .inl ⟨key, hmem⟩
    · exact .inr hexp
    · simp only [isLocked, decide_eq_false_iff_not, hfull, le_refl, not_true_eq_false] at hopen
  · exact .inr hexp

theorem FullKept.reserve (h : FullKept L g) (hmem : (key, id) ∈ g.fails) :
    FullKept L (reserve g key id) := by
  intro id' hfull
  by_cases hid : id = id'
  · subst hid
    exact .inl ⟨key, hmem⟩
  · rw [count_reserve, if_neg hid, Nat.add_zero] at hfull
    rcases h id' hfull with hmapped | hexp
    · exact .inl hmapped
    · right
      rw [expired, Limiter.reserve, first_addCount]
      exact hexp

theorem FullKept.newRecord (h : FullKept L g) (key : κ) : FullKept L (newRecord g key) := by
  intro id hfull
  by_cases hid : id = g.next
  · subst hid
    exact .inl ⟨key, List.mem_append.2 (.inr (List.mem_singleton.2 rfl))⟩
  · rw [heap_newRecord_ne g key hid] at hfull ⊢
    rcases h id hfull with ⟨k, hmem⟩ | hexp
    · exact .inl ⟨k, List.mem_append.2 (.inl hmem)⟩
    · exact .inr hexp

theorem rank_open {v e : FailRecord} (hle : rank L v ≤ rank L e) (he : isLocked L e = false) :
    isLocked L v = false := by
  rw [rank, rank, Prod.Lex.toLex_le_toLex, he] at hle
  cases hv : isLocked L v with
  | false => rfl
  | true =>
    simp only [hv, false_and, or_false, reduceCtorEq] at hle
    exact absurd hle (by decide)

variable [DecidableEq κ]

/-- Where `begin` evicts, some record has neither expired nor reached the limit. -/
def EvictsOpen (L : Limits) (clientKey : α → κ) (g : State κ) : Op α κ → Prop
  | .begin ip _ => evicts L g (clientKey ip) = true →
      ∃ e ∈ alive L g.heap g.clock (dropExpired L g (clientKey ip)).fails,
        isLocked L (g.heap e.2) = false
  | _ => True

instance (L : Limits) (clientKey : α → κ) (g : State κ) :
    (op : Op α κ) → Decidable (EvictsOpen L clientKey g op)
  | .begin ip _ => inferInstanceAs (Decidable (evicts L g (clientKey ip) = true →
      ∃ e ∈ alive L g.heap g.clock (dropExpired L g (clientKey ip)).fails,
        isLocked L (g.heap e.2) = false))
  | .tick _ | .locked _ | .fail _ | .endAttempt _ => .isTrue trivial

def failedOn (g : State κ) (key : κ) (id : ℕ) : ℕ :=
  g.attempts.countP fun a => a.key == key && (a.record == id && a.failedAt.isSome)

theorem gone_dropExpired (h : Inv L g) (key : κ) : ∀ e ∈ g.fails,
    e ∈ (dropExpired L g key).fails ∨ e.1 = key ∧ expired L g.clock (g.heap e.2) = true := by
  intro e he
  rcases dropExpired_cases L g key with heq | ⟨id, hr, hexp, heq⟩
  · rw [heq]
    exact .inl he
  · rw [heq]
    by_cases hkey : e.1 = key
    · right
      have hsame : e = (key, id) := eq_of_fst_eq h.keys he (mem_of_record hr) hkey
      rw [hsame]
      exact ⟨rfl, hexp⟩
    · exact .inl (List.mem_filter.2 ⟨he, by simpa using hkey⟩)

theorem gone_makeRoom (h : Inv L g) {order : List (κ × ℕ)}
    (hperm : L.maxTrackedClients ≤ g.fails.length → order.Perm g.fails)
    (hopen : L.maxTrackedClients ≤ g.fails.length →
      ∃ e ∈ alive L g.heap g.clock g.fails, isLocked L (g.heap e.2) = false) :
    ∀ e ∈ g.fails, e ∈ (makeRoom L order g).fails ∨ expired L g.clock (g.heap e.2) = true ∨
      isLocked L (g.heap e.2) = false := by
  intro e he
  rw [makeRoom]
  split_ifs with hfull
  · cases hexp : expired L g.clock (g.heap e.2) with
    | true => exact .inr (.inl rfl)
    | false =>
      have halive : e ∈ alive L g.heap g.clock g.fails :=
        List.mem_filter.2 ⟨he, by simp [hexp]⟩
      change e ∈ evictLocked L g.heap g.clock order g.fails ∨ _
      rcases evictLocked_spec L g.heap g.clock h.keys (hperm hfull) with
        ⟨heq, -⟩ | ⟨v, hv, heq, -, hmin⟩
      · rw [heq]
        exact .inl halive
      · by_cases hkey : e.1 = v.1
        · obtain rfl : e = v := eq_of_fst_eq h.keys he (List.mem_filter.1 hv).1 hkey
          obtain ⟨o, ho, hunlocked⟩ := hopen hfull
          exact .inr (.inr (rank_open (hmin o ho) hunlocked))
        · rw [heq]
          exact .inl (List.mem_filter.2 ⟨halive, by simpa using hkey⟩)
  · exact .inl he

theorem FullKept.begin (h : FullKept L g) (hg : Inv L g) {order : List (κ × ℕ)}
    (hperm : evicts L g key = true → order.Perm (dropExpired L g key).fails)
    (hopen : evicts L g key = true →
      ∃ e ∈ alive L g.heap g.clock (dropExpired L g key).fails, isLocked L (g.heap e.2) = false) :
    FullKept L (begin L order g key).1 := by
  have hs := shrinks_dropExpired L g key
  have hdrop : FullKept L (dropExpired L g key) := by
    refine h.of_shrinks hs fun e he => ?_
    rcases gone_dropExpired hg key e he with hmem | ⟨-, hexp⟩
    · exact .inl hmem
    · exact .inr (.inl hexp)
  rcases begin_cases L order g key with
    ⟨id, -, -, heq⟩ | ⟨id, i, hr, -, heq⟩ | ⟨g', i, hnone, rfl, heq⟩
  · rw [heq]
    exact hdrop
  · rw [heq]
    exact hdrop.reserve (mem_of_record hr)
  · rw [heq]
    have hroom : FullKept L (makeRoom L order (dropExpired L g key)) := by
      refine hdrop.of_shrinks (shrinks_makeRoom L order _) ?_
      refine gone_makeRoom (hg.shrink hs)
        (fun hfull => hperm (evicts_of_full hnone hfull)) fun hfull => ?_
      rw [hs.heap, hs.clock]
      exact hopen (evicts_of_full hnone hfull)
    exact (hroom.newRecord key).reserve (List.mem_append.2 (.inr (List.mem_singleton.2 rfl)))

theorem FullKept.endAttempt (h : FullKept L g) (hg : Inv L g) (i : ℕ) (a : Attempt κ) :
    FullKept L (endAttempt g i a) := by
  have hends := ends_endAttempt g i a
  intro id hfull
  rw [expired, hends.first, hends.clock]
  by_cases hid : id = a.record
  · rcases endAttempt_cases g i a with ⟨-, heq⟩ | ⟨-, hback⟩
    · rw [heq] at hfull ⊢
      exact h id hfull
    · have hheap : (Limiter.endAttempt g i a).heap id = subCount g.heap a.record id := by
        rcases hback with ⟨-, -, heq⟩ | ⟨-, heq⟩
        · rw [heq]
          rfl
        · rw [heq]
      rw [hheap, count_subCount, if_pos hid.symm] at hfull
      have := hg.le id
      have := L.failures_pos
      omega
  · obtain ⟨hcount, hmap⟩ := endAttempt_others hg i a hid
    rw [hcount] at hfull
    rcases h id hfull with ⟨key, hmem⟩ | hexp
    · exact .inl ⟨key, (hmap key).2 hmem⟩
    · exact .inr hexp

theorem FullKept.step (h : FullKept L g) (hg : Inv L g) {op : Op α κ}
    (hopen : EvictsOpen L clientKey g op) (hs : step L clientKey g op = some g') :
    FullKept L g' := by
  cases op with
  | tick d =>
    cases hs
    intro id hfull
    rcases h id hfull with hmapped | hexp
    · exact .inl hmapped
    · right
      simp only [expired, decide_eq_true_eq] at hexp ⊢
      omega
  | begin ip order =>
    obtain ⟨rfl, hperm⟩ := step_begin hs
    exact h.begin hg hperm hopen
  | locked ip =>
    cases hs
    rw [locked_eq]
    refine h.of_shrinks (shrinks_dropExpired L g (clientKey ip)) fun e he => ?_
    rcases gone_dropExpired hg (clientKey ip) e he with hmem | ⟨-, hexp⟩
    · exact .inl hmem
    · exact .inr (.inl hexp)
  | fail i =>
    obtain ⟨a, -, rfl⟩ := Option.map_eq_some_iff.1 hs
    exact h
  | endAttempt i =>
    obtain ⟨a, -, rfl⟩ := Option.map_eq_some_iff.1 hs
    exact h.endAttempt hg i a

theorem fullKept_run {ops : List (Op α κ)}
    (hm : Runs.Meets (step L clientKey) (EvictsOpen L clientKey) (initial κ) ops)
    (run : Runs.exec (step L clientKey) (initial κ) ops = some g) : Inv L g ∧ FullKept L g := by
  refine Runs.exec_guarded (I := fun g => Inv L g ∧ FullKept L g)
    (fun g op g' h hopen hs => ⟨h.1.step hs, h.2.step h.1 hopen hs⟩) ?_ hm run
  refine ⟨inv_initial L κ, fun id hfull => ?_⟩
  have := L.failures_pos
  change 0 = L.loginFailures at hfull
  omega

theorem failedOn_le (g : State κ) (key : κ) (id : ℕ) : failedOn g key id ≤ counted g id := by
  refine List.countP_mono_left fun a _ hp => ?_
  simp only [Bool.and_eq_true] at hp
  simp only [Bool.and_eq_true, Attempt.counts, Bool.or_eq_true]
  exact ⟨hp.2.1, .inr hp.2.2⟩

/-- A key with the limit of failed attempts on one record is refused until that record
expires, whatever the other keys do. -/
theorem refused_of_failedOn (hg : Inv L g) (hkept : FullKept L g)
    (hfailed : L.loginFailures ≤ failedOn g key id)
    (hexp : expired L g.clock (g.heap id) = false) (order : List (κ × ℕ)) :
    (begin L order g key).2 = none ∧ (locked L g key).2 = true := by
  have hle := failedOn_le g key id
  have hfull : (g.heap id).count = L.loginFailures := by
    have hcount := hg.count id
    have := hg.le id
    omega
  have hpos : 0 < failedOn g key id := by
    have := L.failures_pos
    omega
  obtain ⟨a, ha, hp⟩ := List.countP_pos_iff.1 hpos
  simp only [Bool.and_eq_true, beq_iff_eq] at hp
  rcases hkept id hfull with ⟨k, hmem⟩ | hexp'
  · have hkey : key = k := hp.1.symm.trans (hg.owner _ hmem a ha hp.2.1)
    subst hkey
    refine ⟨(begin_eq_none_iff hg order key).2 ⟨id, hmem, hexp, hfull⟩, ?_⟩
    have hrec : (dropExpired L g key).record key = some id :=
      (record_dropExpired L).2 ⟨record_of_mem hg.keys hmem, hexp⟩
    rw [locked_eq, hrec]
    simp [isLocked, hfull]
  · rw [hexp] at hexp'
    cases hexp'

/-- An eviction that turns `fails` into `left` removes the expired entries and at most one
other, which is a minimum by (locked, first). -/
structure EvictionOk (L : Limits) (heap : ℕ → FailRecord) (now : ℕ) (fails left : List (κ × ℕ)) :
    Prop where
  kept : ∀ e ∈ left, e ∈ fails ∧ expired L now (heap e.2) = false
  minimal : ∀ e ∈ fails, expired L now (heap e.2) = false → e ∉ left →
    ∀ o ∈ fails, expired L now (heap o.2) = false → rank L (heap e.2) ≤ rank L (heap o.2)
  once : ∀ e ∈ fails, expired L now (heap e.2) = false → e ∉ left →
    ∀ o ∈ fails, expired L now (heap o.2) = false → o ∉ left → o = e

theorem evictLocked_ok {heap : ℕ → FailRecord} {now : ℕ} {order fails : List (κ × ℕ)}
    (hd : (fails.map Prod.fst).Nodup) (hperm : order.Perm fails) :
    EvictionOk L heap now fails (evictLocked L heap now order fails) := by
  have halive : ∀ e, e ∈ alive L heap now fails ↔ e ∈ fails ∧ expired L now (heap e.2) = false := by
    intro e
    rw [alive, List.mem_filter, Bool.not_eq_true']
  rcases evictLocked_spec L heap now hd hperm with ⟨heq, -⟩ | ⟨v, hv, heq, -, hmin⟩
  · rw [heq]
    have hnone : ∀ e ∈ fails, expired L now (heap e.2) = false → e ∉ alive L heap now fails → False :=
      fun e he hexp hnot => hnot ((halive e).2 ⟨he, hexp⟩)
    exact ⟨fun e he => (halive e).1 he, fun e he hexp hnot => (hnone e he hexp hnot).elim,
      fun e he hexp hnot => (hnone e he hexp hnot).elim⟩
  · have hvictim : ∀ e ∈ fails, expired L now (heap e.2) = false →
        e ∉ evictLocked L heap now order fails → e = v := by
      intro e he hexp hnot
      rw [heq] at hnot
      refine eq_of_fst_eq hd he ((halive v).1 hv).1 ?_
      by_contra hne
      exact hnot (List.mem_filter.2 ⟨(halive e).2 ⟨he, hexp⟩, by simpa using hne⟩)
    refine ⟨fun e he => ?_, fun e he hexp hnot o ho hexp' => ?_, fun e he hexp hnot o ho hexp' hnot' => ?_⟩
    · rw [heq] at he
      exact (halive e).1 (List.mem_filter.1 he).1
    · rw [hvictim e he hexp hnot]
      exact hmin o ((halive o).2 ⟨ho, hexp'⟩)
    · rw [hvictim e he hexp hnot, hvictim o ho hexp' hnot']

/-- Flooding does not lift a lockout. In a run whose evictions all find a record below the
limit, a key with the limit of failed attempts on its record is locked until more than
`loginLockout` after the record's first attempt, and every eviction is as it should be. -/
theorem flooding_keeps_lockouts {ops : List (Op α κ)}
    (hm : Runs.Meets (step hubLimits clientKey) (EvictsOpen hubLimits clientKey) (initial κ) ops)
    (run : Runs.exec (step hubLimits clientKey) (initial κ) ops = some g) :
    (∀ ip id, hubLimits.loginFailures ≤ failedOn g (clientKey ip) id →
      g.clock ≤ (g.heap id).first + hubLimits.loginLockout → ∀ order,
      (begin hubLimits order g (clientKey ip)).2 = none ∧
        (locked hubLimits g (clientKey ip)).2 = true) ∧
    ∀ ip order, order.Perm (dropExpired hubLimits g (clientKey ip)).fails →
      EvictionOk hubLimits g.heap g.clock (dropExpired hubLimits g (clientKey ip)).fails
        (evictLocked hubLimits g.heap g.clock order (dropExpired hubLimits g (clientKey ip)).fails) := by
  obtain ⟨hg, hkept⟩ := fullKept_run hm run
  refine ⟨fun ip id hfailed hclock order => ?_, fun ip order hperm => ?_⟩
  · refine refused_of_failedOn hg hkept hfailed ?_ order
    simp only [expired, decide_eq_false_iff_not]
    omega
  · exact evictLocked_ok (hg.shrink (shrinks_dropExpired hubLimits g (clientKey ip))).keys hperm

end floods

section full
variable {κ : Type*} {L : Limits} {g g' : State κ} {key : κ}

/-- The records of `g` and their attempts are in `g'` as they were. -/
structure Extends (g g' : State κ) : Prop where
  clock : g'.clock = g.clock
  next : g.next ≤ g'.next
  heap : ∀ id < g.next, g'.heap id = g.heap id
  attempts : g.attempts <+: g'.attempts

theorem Extends.trans {g'' : State κ} (h : Extends g g') (h' : Extends g' g'') :
    Extends g g'' where
  clock := h'.clock.trans h.clock
  next := h.next.trans h'.next
  heap id hid := (h'.heap id (hid.trans_le h.next)).trans (h.heap id hid)
  attempts := h.attempts.trans h'.attempts

variable [DecidableEq κ]

theorem Extends.failedOn_le (h : Extends g g') (key : κ) (id : ℕ) :
    failedOn g key id ≤ failedOn g' key id :=
  h.attempts.sublist.countP_le

theorem dropExpired_of_none (hnone : g.record key = none) : dropExpired L g key = g := by
  rw [dropExpired, hnone]

theorem begin_new (order : List (κ × ℕ)) (hnone : g.record key = none) :
    (begin L order g key).1 =
      reserve (newRecord (makeRoom L order g) key) key (makeRoom L order g).next := by
  have hdrop := dropExpired_of_none (L := L) hnone
  rcases begin_cases L order g key with
    ⟨id, hr, -, -⟩ | ⟨id, i, hr, -, -⟩ | ⟨g', i, -, rfl, heq⟩
  · rw [hdrop, hnone] at hr
    cases hr
  · rw [hdrop, hnone] at hr
    cases hr
  · rw [heq, hdrop]

theorem extends_begin (order : List (κ × ℕ)) (hnone : g.record key = none) :
    Extends g (begin L order g key).1 ∧ (begin L order g key).1.next = g.next + 1 ∧
      (begin L order g key).1.heap g.next = ⟨1, g.clock⟩ := by
  have hs := shrinks_makeRoom L order g
  rw [begin_new order hnone]
  refine ⟨⟨hs.clock, ?_, fun id hid => ?_, ?_⟩, ?_, ?_⟩
  · change g.next ≤ (makeRoom L order g).next + 1
    rw [hs.next]
    omega
  · have hne : id ≠ (makeRoom L order g).next := by
      rw [hs.next]
      omega
    change addCount (newRecord (makeRoom L order g) key).heap (makeRoom L order g).next id = _
    rw [addCount, Function.update_of_ne hne, heap_newRecord_ne _ _ hne, hs.heap]
  · change g.attempts <+: (makeRoom L order g).attempts ++ _
    rw [hs.attempts]
    exact List.prefix_append _ _
  · change (makeRoom L order g).next + 1 = _
    rw [hs.next]
  · change addCount (newRecord (makeRoom L order g) key).heap (makeRoom L order g).next _ = _
    rw [← hs.next, addCount, Function.update_self, heap_newRecord, hs.clock]

theorem step_begin_room (hnew : ∀ e ∈ g.fails, e.1 ≠ key)
    (hroom : g.fails.length < L.maxTrackedClients) :
    step L id g (.begin key []) = some (begin L [] g key).1 ∧ EvictsOpen L id g (.begin key []) ∧
      (begin L [] g key).1.fails = g.fails ++ [(key, g.next)] := by
  have hnone : g.record key = none := record_eq_none.2 hnew
  have hstays : evicts L g key = false := by
    rw [evicts, dropExpired_of_none hnone]
    simp [hroom]
  refine ⟨?_, fun hev => ?_, ?_⟩
  · simp [step, hstays]
  · rw [id_eq, hstays] at hev
    cases hev
  · rw [begin_new [] hnone, makeRoom, if_neg (by omega)]
    rfl

/-- New clients fill the map as long as there is room, and each gets an open record. -/
theorem fill (ks : List κ) (hnodup : ks.Nodup) (hnew : ∀ k ∈ ks, ∀ e ∈ g.fails, e.1 ≠ k)
    (hroom : g.fails.length + ks.length ≤ L.maxTrackedClients) :
    ∃ g', Runs.exec (step L id) g (ks.map (.begin · [])) = some g' ∧
      Runs.Meets (step L id) (EvictsOpen L id) g (ks.map (.begin · [])) ∧
      Extends g g' ∧ g'.fails = g.fails ++ ks.zipIdx g.next ∧
      ∀ e ∈ ks.zipIdx g.next, g'.heap e.2 = ⟨1, g.clock⟩ := by
  induction ks generalizing g with
  | nil =>
    exact ⟨g, rfl, trivial, ⟨rfl, le_rfl, fun _ _ => rfl, List.prefix_rfl⟩, by simp, by simp⟩
  | cons k ks ih =>
    rw [List.length_cons] at hroom
    obtain ⟨hstep, hopen, hfails⟩ :=
      step_begin_room (L := L) (hnew k List.mem_cons_self) (by omega)
    obtain ⟨hext, hnext, hheap⟩ := extends_begin (L := L) []
      (record_eq_none.2 (hnew k List.mem_cons_self))
    obtain ⟨hk, hnodup⟩ := List.nodup_cons.1 hnodup
    have hnew' : ∀ k' ∈ ks, ∀ e ∈ (begin L [] g k).1.fails, e.1 ≠ k' := by
      intro k' hk' e he
      rw [hfails, List.mem_append, List.mem_singleton] at he
      rcases he with he | rfl
      · exact hnew k' (List.mem_cons_of_mem k hk') e he
      · rintro rfl
        exact hk hk'
    obtain ⟨g', hexec, hmeets, hext', hfails', hheap'⟩ :=
      ih hnodup hnew' (by rw [hfails, List.length_append, List.length_singleton]; omega)
    refine ⟨g', ?_, ⟨hopen, fun t ht => ?_⟩, hext.trans hext', ?_, ?_⟩
    · rw [List.map_cons, Runs.exec_cons, hstep]
      exact hexec
    · cases hstep.symm.trans ht
      exact hmeets
    · rw [hfails', hfails, hnext, List.append_assoc, List.zipIdx_cons]
      rfl
    · intro e he
      rw [List.zipIdx_cons, List.mem_cons, ← hnext] at he
      rcases he with rfl | he
      · rw [hext'.heap _ (by omega), hheap]
      · rw [hheap' e he, hext.clock]

theorem step_begin_full (hnew : ∀ e ∈ g.fails, e.1 ≠ key)
    (hfull : L.maxTrackedClients ≤ g.fails.length) {e : κ × ℕ} (he : e ∈ g.fails)
    (halive : expired L g.clock (g.heap e.2) = false) (hopen : isLocked L (g.heap e.2) = false) :
    evicts L g key = true ∧
      step L id g (.begin key g.fails) = some (begin L g.fails g key).1 ∧
      EvictsOpen L id g (.begin key g.fails) := by
  have hdrop := dropExpired_of_none (L := L) (record_eq_none.2 hnew)
  have hperm : g.fails.isPerm (dropExpired L g key).fails = true := by
    rw [hdrop]
    exact List.isPerm_iff.2 (.refl _)
  refine ⟨?_, ?_, fun _ => ⟨e, ?_, hopen⟩⟩
  · rw [evicts, hdrop, record_eq_none.2 hnew]
    simpa using hfull
  · simp [step, hperm]
  · rw [id_eq, hdrop]
    exact List.mem_filter.2 ⟨he, by rw [halive]; rfl⟩

end full

def fiveFailures : List (Op ℕ ℕ) :=
  ((List.range 5).flatMap fun i => [.begin 1 [], .fail i, .endAttempt i]) ++
    [.tick (60 * 10 ^ 9)]

theorem five_failures_view : (Runs.exec (step hubLimits id) (initial ℕ) fiveFailures).map (fun g =>
    (g.clock, g.next, g.fails, (g.heap 0).first, failedOn g 1 0)) =
    some (60 * 10 ^ 9, 1, [(1, 0)], 0, 5) := by
  decide +kernel

def failuresAndOthers : List (Op ℕ ℕ) :=
  fiveFailures ++ (List.range' 2 9999).map (.begin · [])

/-- The map is full, client 1 has its five failures, and the record of client 2 may go. -/
theorem failures_and_others_fill : ∃ g,
    Runs.exec (step hubLimits id) (initial ℕ) failuresAndOthers = some g ∧
    Runs.Meets (step hubLimits id) (EvictsOpen hubLimits id) (initial ℕ) failuresAndOthers ∧
    (∀ e ∈ g.fails, e.1 ≠ 10001) ∧ hubLimits.maxTrackedClients ≤ g.fails.length ∧
    (2, 1) ∈ g.fails ∧ g.heap 1 = ⟨1, g.clock⟩ ∧ g.clock = 60 * 10 ^ 9 ∧
    0 < g.next ∧ (g.heap 0).first = 0 ∧ 5 ≤ failedOn g 1 0 := by
  obtain ⟨g₀, hg₀, hview⟩ := Option.map_eq_some_iff.1 five_failures_view
  simp only [Prod.mk.injEq] at hview
  obtain ⟨hclock, hnext, hfails, hfirst, hfailed⟩ := hview
  obtain ⟨g, hfill, hmeets, hext, hfails', hheap⟩ := fill (L := hubLimits) (g := g₀)
    (List.range' 2 9999) List.nodup_range'
    (by simp only [hfails, List.mem_range'_1, List.forall_mem_singleton]; omega)
    (by rw [hfails, List.length_range']; decide)
  rw [hfails, hnext] at hfails'
  rw [hnext] at hheap
  have hsecond : (2, 1) ∈ (List.range' 2 9999).zipIdx 1 := by
    rw [List.range'_succ, List.zipIdx_cons]
    exact List.mem_cons_self
  refine ⟨g, ?_, ?_, fun e he => ?_, ?_, ?_, ?_, hext.clock.trans hclock, ?_, ?_, ?_⟩
  · rw [failuresAndOthers, Runs.exec_append, hg₀]
    exact hfill
  · refine Runs.meets_append (by decide +kernel) fun t ht => ?_
    cases hg₀.symm.trans ht
    exact hmeets
  · rw [hfails', List.mem_append, List.mem_singleton] at he
    rcases he with rfl | he
    · decide
    · have := List.mem_range'_1.1 (List.fst_mem_of_mem_zipIdx he)
      omega
  · rw [hfails', List.length_append, List.length_zipIdx, List.length_range']
    decide
  · rw [hfails']
    exact List.mem_append.2 (.inr hsecond)
  · rw [hheap _ hsecond, hext.clock]
  · have := hext.next
    omega
  · rw [hext.heap 0 (by omega), hfirst]
  · exact hfailed.ge.trans (hext.failedOn_le 1 0)

/-- The attempt of one more client evicts, and client 1 stays locked out. -/
theorem failures_and_others_locked : ∃ g g',
    Runs.exec (step hubLimits id) (initial ℕ) failuresAndOthers = some g ∧
    evicts hubLimits g 10001 = true ∧
    step hubLimits id g (.begin 10001 g.fails) = some g' ∧
    ∀ order, (begin hubLimits order g' 1).2 = none ∧ (locked hubLimits g' 1).2 = true := by
  obtain ⟨g, hrun, hmeets, hkeys, hfull, hsecond, hheap, hclock, hnext, hfirst, hfailed⟩ :=
    failures_and_others_fill
  obtain ⟨hevicts, hstep, hopen⟩ := step_begin_full (L := hubLimits) hkeys hfull hsecond
    (by rw [hheap]; simp [expired]) (by rw [hheap]; rfl)
  have hext := (extends_begin (L := hubLimits) g.fails (record_eq_none.2 hkeys)).1
  have hguarded : Runs.Meets (step hubLimits id) (EvictsOpen hubLimits id) (initial ℕ)
      (failuresAndOthers ++ [.begin 10001 g.fails]) := by
    refine Runs.meets_append hmeets fun t ht => ?_
    cases hrun.symm.trans ht
    exact ⟨hopen, fun _ _ => trivial⟩
  obtain ⟨hlocked, -⟩ := flooding_keeps_lockouts hguarded
    (by rw [Runs.exec_append, hrun]; exact congrArg (Option.bind · some) hstep)
  refine ⟨g, _, hrun, hevicts, hstep, hlocked 1 0 (hfailed.trans (hext.failedOn_le 1 0)) ?_⟩
  rw [hext.clock, hext.heap 0 hnext, hclock, hfirst]
  decide

end Lotse.Limiter
