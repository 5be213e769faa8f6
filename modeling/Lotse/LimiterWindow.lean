import Lotse.LimiterCounts

set_option autoImplicit false

namespace Lotse.Limiter

section window
variable {α κ : Type*} {L : Limits} {g g' : State κ} {key : κ} {id i : ℕ} {a : Attempt κ}
  {clientKey : α → κ}

/-- Where the attempts that count are: on the record in the map, or on one that was dropped
long after they failed. -/
structure Placed (L : Limits) (g : State κ) : Prop where
  place : ∀ a ∈ g.attempts, a.counts = true → (a.key, a.record) ∈ g.fails ∨
    a.ended = true ∧ ∀ s ∈ a.failedAt, s + L.loginLockout < g.clock ∧
      ∀ e ∈ g.fails, e.1 = a.key → s + L.loginLockout < (g.heap e.2).first
  after : ∀ a ∈ g.attempts, ∀ s ∈ a.failedAt, (g.heap a.record).first ≤ s
  firsts : ∀ id < g.next, (g.heap id).first ≤ g.clock

theorem Placed.reserve (h : Placed L g) (hmem : (key, id) ∈ g.fails) :
    Placed L (reserve g key id) := by
  have hfirst : ∀ id', ((Limiter.reserve g key id).heap id').first = (g.heap id').first :=
    first_addCount g.heap id
  refine ⟨fun a ha hc => ?_, fun a ha s hs => ?_, fun id' hid => ?_⟩
  · rcases List.mem_append.1 ha with ha | ha
    · simp only [hfirst]
      exact h.place a ha hc
    · obtain rfl := List.mem_singleton.1 ha
      exact .inl hmem
  · rw [hfirst]
    rcases List.mem_append.1 ha with ha | ha
    · exact h.after a ha s hs
    · obtain rfl := List.mem_singleton.1 ha
      cases hs
  · rw [hfirst]
    exact h.firsts id' hid

theorem Placed.newRecord (h : Placed L g) (hg : Inv L g) (key : κ) : Placed L (newRecord g key) := by
  refine ⟨fun a ha hc => ?_, fun a ha s hs => ?_, fun id hid => ?_⟩
  · rcases h.place a ha hc with hmem | ⟨hended, hdropped⟩
    · exact .inl (List.mem_append.2 (.inl hmem))
    · refine .inr ⟨hended, fun s hs => ⟨(hdropped s hs).1, fun e he hek => ?_⟩⟩
      rcases List.mem_append.1 he with he | he
      · rw [heap_newRecord_ne g key (hg.allocated e he).ne]
        exact (hdropped s hs).2 e he hek
      · rw [List.mem_singleton.1 he, heap_newRecord]
        exact (hdropped s hs).1
  · rw [heap_newRecord_ne g key (hg.recorded a ha).ne]
    exact h.after a ha s hs
  · by_cases hnext : id = g.next
    · rw [hnext, heap_newRecord]
      exact le_rfl
    · rw [heap_newRecord_ne g key hnext]
      have hlt : id < g.next + 1 := hid
      exact h.firsts id (by omega)

theorem Placed.fail (h : Placed L g) (hg : Inv L g)
    (ha : g.attempts[i]? = some a) (hrun : a.ended = false) : Placed L (fail g i a) := by
  have hmem := List.mem_of_getElem? ha
  refine ⟨forall_mem_set h.place fun _ => ?_, forall_mem_set h.after fun s hs => ?_, h.firsts⟩
  · rcases h.place a hmem (by simp [Attempt.counts, hrun]) with hm | ⟨hended, -⟩
    · exact .inl hm
    · rw [hrun] at hended
      cases hended
  · change s ∈ (a.failedAt <|> some g.clock) at hs
    cases hf : a.failedAt with
    | some t =>
      rw [hf] at hs
      exact h.after a hmem s (hf ▸ hs)
    | none =>
      rw [hf] at hs
      cases hs
      exact h.firsts a.record (hg.recorded a hmem)

variable [DecidableEq κ]

def NoEviction (L : Limits) (clientKey : α → κ) (g : State κ) : Op α κ → Prop
  | .begin ip _ => evicts L g (clientKey ip) = false
  | _ => True

/-- A record that has expired when it is looked up has no attempt in progress, and its last
failure is as long ago. -/
def ExpiresLate (L : Limits) (g : State κ) (key : κ) : Prop := ∀ id ∈ g.record key,
  expired L g.clock (g.heap id) = true → ∀ a ∈ g.attempts, a.record = id →
    a.ended = true ∧ ∀ s ∈ a.failedAt, s + L.loginLockout < g.clock

def LooksUpLate (L : Limits) (clientKey : α → κ) (g : State κ) : Op α κ → Prop
  | .begin ip _ => ExpiresLate L g (clientKey ip)
  | .locked ip => ExpiresLate L g (clientKey ip)
  | _ => True

instance (L : Limits) (g : State κ) (key : κ) : Decidable (ExpiresLate L g key) :=
  inferInstanceAs (Decidable (∀ id ∈ g.record key, expired L g.clock (g.heap id) = true →
    ∀ a ∈ g.attempts, a.record = id →
      a.ended = true ∧ ∀ s ∈ a.failedAt, s + L.loginLockout < g.clock))

instance (L : Limits) (clientKey : α → κ) (g : State κ) :
    (op : Op α κ) → Decidable (NoEviction L clientKey g op)
  | .begin ip _ => inferInstanceAs (Decidable (evicts L g (clientKey ip) = false))
  | .tick _ | .locked _ | .fail _ | .endAttempt _ => .isTrue trivial

instance (L : Limits) (clientKey : α → κ) (g : State κ) :
    (op : Op α κ) → Decidable (LooksUpLate L clientKey g op)
  | .begin ip _ => inferInstanceAs (Decidable (ExpiresLate L g (clientKey ip)))
  | .locked ip => inferInstanceAs (Decidable (ExpiresLate L g (clientKey ip)))
  | .tick _ | .fail _ | .endAttempt _ => .isTrue trivial

/-- The failed attempts of `key` that are at most `loginLockout` older than `t`. -/
def failuresIn (L : Limits) (g : State κ) (key : κ) (t : ℕ) : ℕ :=
  g.attempts.countP fun a => a.key == key && a.failedAt.any fun s => s ≤ t && t ≤ s + L.loginLockout

theorem Placed.dropExpired (h : Placed L g) (hg : Inv L g) (hlate : ExpiresLate L g key) :
    Placed L (dropExpired L g key) := by
  rcases dropExpired_cases L g key with heq | ⟨id, hr, hexp, heq⟩
  · rw [heq]
    exact h
  · rw [heq]
    refine ⟨fun a ha hc => ?_, h.after, h.firsts⟩
    rcases h.place a ha hc with hmem | ⟨hended, hdropped⟩
    · by_cases hkey : a.key = key
      · right
        have hid : a.record = id := by
          have := record_of_mem hg.keys hmem
          rw [hkey, hr] at this
          exact (Option.some.inj this).symm
        obtain ⟨hended, hold⟩ := hlate id hr hexp a ha hid
        refine ⟨hended, fun s hs => ⟨hold s hs, fun e he hek => ?_⟩⟩
        have hne := (List.mem_filter.1 he).2
        simp only [ne_eq, decide_eq_true_eq] at hne
        exact absurd (hek.trans hkey) hne
      · exact .inl (List.mem_filter.2 ⟨hmem, by simpa using hkey⟩)
    · exact .inr ⟨hended, fun s hs => ⟨(hdropped s hs).1,
        fun e he => (hdropped s hs).2 e (List.mem_filter.1 he).1⟩⟩

theorem Placed.begin (h : Placed L g) (hg : Inv L g) {order : List (κ × ℕ)}
    (hno : evicts L g key = false) (hlate : ExpiresLate L g key) :
    Placed L (begin L order g key).1 := by
  have hdrop := h.dropExpired hg hlate
  rcases begin_cases L order g key with
    ⟨id, -, -, heq⟩ | ⟨id, i, hr, -, heq⟩ | ⟨g', i, hnone, rfl, heq⟩
  · rw [heq]
    exact hdrop
  · rw [heq]
    exact hdrop.reserve (mem_of_record hr)
  · have hsame : makeRoom L order (Limiter.dropExpired L g key) = Limiter.dropExpired L g key := by
      refine if_neg fun hfull => ?_
      rw [evicts_of_full hnone hfull] at hno
      cases hno
    rw [heq, hsame]
    exact (hdrop.newRecord (hg.shrink (shrinks_dropExpired L g key)) key).reserve
      (List.mem_append.2 (.inr (List.mem_singleton.2 rfl)))

theorem Placed.endAttempt (h : Placed L g) (hg : Inv L g) (ha : g.attempts[i]? = some a)
    (hrun : a.ended = false) : Placed L (endAttempt g i a) := by
  have hmem := List.mem_of_getElem? ha
  have hends := ends_endAttempt g i a
  have hmapped : (a.key, a.record) ∈ g.fails := by
    rcases h.place a hmem (by simp [Attempt.counts, hrun]) with hm | ⟨hended, -⟩
    · exact hm
    · rw [hrun] at hended
      cases hended
  have hstays : ∀ b ∈ (Limiter.endAttempt g i a).attempts, b.counts = true →
      (b.key, b.record) ∈ g.fails → (b.key, b.record) ∈ (Limiter.endAttempt g i a).fails := by
    intro b hb hc hbm
    by_cases hrec : b.record = a.record
    · have hpos : ((Limiter.endAttempt g i a).heap a.record).count ≠ 0 := by
        rw [(hg.endAttempt ha hrun).count]
        refine (List.countP_pos_iff.2 ⟨b, hb, ?_⟩).ne'
        simp [hrec, hc]
      rcases endAttempt_cases g i a with ⟨-, heq⟩ | ⟨-, ⟨hz, -, heq⟩ | ⟨-, heq⟩⟩
      · rw [heq]
        exact hbm
      · rw [heq] at hpos
        exact absurd hz hpos
      · rw [heq]
        exact hbm
    · exact ((endAttempt_others hg i a hrec).2 b.key).2 hbm
  refine ⟨fun b hb hc => ?_, ?_, fun id hid => ?_⟩
  · have hold := hb
    rw [hends.attempts] at hold
    rcases List.mem_or_eq_of_mem_set hold with hold | rfl
    · rcases h.place b hold hc with hbm | ⟨hended, hdropped⟩
      · exact .inl (hstays b hb hc hbm)
      · refine .inr ⟨hended, fun s hs => ⟨by rw [hends.clock]; exact (hdropped s hs).1, ?_⟩⟩
        intro e he hek
        rw [hends.first]
        exact (hdropped s hs).2 e (hends.fails.subset he) hek
    · exact .inl (hstays _ hb hc hmapped)
  · rw [hends.attempts]
    refine forall_mem_set (fun b hb s hs => ?_) fun s hs => ?_
    · rw [hends.first]
      exact h.after b hb s hs
    · rw [hends.first]
      exact h.after a hmem s hs
  · rw [hends.first, hends.clock]
    rw [hends.next] at hid
    exact h.firsts id hid

theorem Placed.step (h : Placed L g) (hg : Inv L g) {op : Op α κ}
    (hno : NoEviction L clientKey g op) (hlate : LooksUpLate L clientKey g op)
    (hs : step L clientKey g op = some g') : Placed L g' := by
  cases op with
  | tick d =>
    cases hs
    refine ⟨fun a ha hc => ?_, h.after, fun id hid => (h.firsts id hid).trans (Nat.le_add_right _ d)⟩
    rcases h.place a ha hc with hmem | ⟨hended, hdropped⟩
    · exact .inl hmem
    · refine .inr ⟨hended, fun s hs => ⟨?_, (hdropped s hs).2⟩⟩
      exact (hdropped s hs).1.trans_le (Nat.le_add_right _ d)
  | begin ip order =>
    obtain ⟨rfl, -⟩ := step_begin hs
    exact h.begin hg hno hlate
  | locked ip =>
    cases hs
    rw [locked_eq]
    exact h.dropExpired hg hlate
  | fail i =>
    obtain ⟨a, ha, rfl⟩ := Option.map_eq_some_iff.1 hs
    obtain ⟨ha, hrun⟩ := running_eq_some.1 ha
    exact h.fail hg ha hrun
  | endAttempt i =>
    obtain ⟨a, ha, rfl⟩ := Option.map_eq_some_iff.1 hs
    obtain ⟨ha, hrun⟩ := running_eq_some.1 ha
    exact h.endAttempt hg ha hrun

theorem placed_initial (L : Limits) (κ : Type*) : Placed L (initial κ) where
  place _ ha := absurd ha List.not_mem_nil
  after _ ha := absurd ha List.not_mem_nil
  firsts _ hid := absurd hid (Nat.not_lt_zero _)

/-- With an attempt that failed at `t` on a record that is looked up in time, all failures
since `t - loginLockout` are on that record. -/
theorem refused_of_failuresIn (h : Placed L g) (hg : Inv L g) {t : ℕ}
    (hfive : L.loginFailures ≤ failuresIn L g key t)
    (hlast : ∃ a ∈ g.attempts, a.key = key ∧ a.failedAt = some t)
    (hsoon : g.clock ≤ t + L.loginLockout) (hlate : ExpiresLate L g key)
    (order : List (κ × ℕ)) : (begin L order g key).2 = none := by
  obtain ⟨a, ha, rfl, hfailed⟩ := hlast
  have hcounts : ∀ b : Attempt κ, b.failedAt.isSome = true → b.counts = true := by
    intro b hb
    simp [Attempt.counts, hb]
  have hmem : (a.key, a.record) ∈ g.fails := by
    rcases h.place a ha (hcounts a (by simp [hfailed])) with hmem | ⟨-, hdropped⟩
    · exact hmem
    · have := (hdropped t (by simp [hfailed])).1
      omega
  have hstart : (g.heap a.record).first ≤ t := h.after a ha t (by simp [hfailed])
  have hsame : failuresIn L g a.key t ≤ counted g a.record := by
    refine List.countP_mono_left fun b hb hp => ?_
    simp only [Bool.and_eq_true, beq_iff_eq, Option.any_eq_true, decide_eq_true_eq] at hp
    obtain ⟨hkey, s, hs, -, hts⟩ := hp
    have hbc := hcounts b (by simp [hs])
    simp only [Bool.and_eq_true, beq_iff_eq]
    refine ⟨?_, hbc⟩
    rcases h.place b hb hbc with hbm | ⟨-, hdropped⟩
    · rw [hkey] at hbm
      exact congrArg Prod.snd (eq_of_fst_eq hg.keys hbm hmem rfl)
    · have hnew : s + L.loginLockout < (g.heap a.record).first :=
        (hdropped s (by simp [hs])).2 _ hmem hkey.symm
      omega
  refine (begin_eq_none_iff hg order a.key).2 ⟨a.record, hmem, ?_, ?_⟩
  · by_contra hexp
    rw [Bool.not_eq_false] at hexp
    have := (hlate a.record (record_of_mem hg.keys hmem) hexp a ha rfl).2 t (by simp [hfailed])
    omega
  · have hcount := hg.count a.record
    have := hg.le a.record
    omega

/-- In a run without evictions in which no record expires while it has an attempt in
progress or a failure in the last `loginLockout`: after the fifth failed attempt of a key
within `loginLockout`, at time `t`, every `begin` until `t + loginLockout` is refused. -/
theorem five_failures_lock_out {ops : List (Op α κ)}
    (hno : Runs.Meets (step hubLimits clientKey) (NoEviction hubLimits clientKey) (initial κ) ops)
    (hlate : Runs.Meets (step hubLimits clientKey) (LooksUpLate hubLimits clientKey) (initial κ) ops)
    (run : Runs.exec (step hubLimits clientKey) (initial κ) ops = some g) (ip : α)
    (order : List (κ × ℕ)) (hbegin : LooksUpLate hubLimits clientKey g (.begin ip order)) {t : ℕ}
    (hfive : hubLimits.loginFailures ≤ failuresIn hubLimits g (clientKey ip) t)
    (hfifth : ∃ a ∈ g.attempts, a.key = clientKey ip ∧ a.failedAt = some t)
    (hsoon : g.clock ≤ t + hubLimits.loginLockout) :
    (begin hubLimits order g (clientKey ip)).2 = none := by
  have hinv : Inv hubLimits g ∧ Placed hubLimits g := by
    refine Runs.exec_guarded (I := fun g => Inv hubLimits g ∧ Placed hubLimits g)
      (fun g op g' h hop hs => ⟨h.1.step hs, h.2.step h.1 hop.1 hop.2 hs⟩)
      ⟨inv_initial hubLimits κ, placed_initial hubLimits κ⟩ (Runs.meets_and hno hlate) run
  exact refused_of_failuresIn hinv.2 hinv.1 hfive hfifth hsoon hbegin order

end window

def failuresAtOnce : List (Op ℕ ℕ) :=
  (List.range 5).flatMap fun i => [.begin 1 [], .fail i, .endAttempt i, .tick (10 * 10 ^ 9)]

theorem failures_at_once_lock_out : ∃ g,
    Runs.exec (step hubLimits id) (initial ℕ) failuresAtOnce = some g ∧
    g.clock = 50 * 10 ^ 9 ∧ (begin hubLimits [] g 1).2 = none := by
  have hfinal : (Runs.exec (step hubLimits id) (initial ℕ) failuresAtOnce).map (fun g =>
      (g.clock, failuresIn hubLimits g 1 (40 * 10 ^ 9),
        decide (∃ a ∈ g.attempts, a.key = 1 ∧ a.failedAt = some (40 * 10 ^ 9)),
        decide (LooksUpLate hubLimits id g (.begin 1 [])))) = some (50 * 10 ^ 9, 5, true, true) := by
    decide +kernel
  obtain ⟨g, hg, hview⟩ := Option.map_eq_some_iff.1 hfinal
  simp only [Prod.mk.injEq, decide_eq_true_eq] at hview
  obtain ⟨hclock, hfive, hfifth, hbegin⟩ := hview
  refine ⟨g, hg, hclock, ?_⟩
  exact five_failures_lock_out (by decide +kernel) (by decide +kernel) hg 1 [] hbegin hfive.ge hfifth
    (by rw [hclock]; decide)

/-- One failed attempt, four more almost five minutes later, and two seconds. -/
def failuresSpread : List (Op ℕ ℕ) :=
  [.begin 1 [], .fail 0, .endAttempt 0, .tick (299 * 10 ^ 9)] ++
    ((List.range 4).flatMap fun i => [.begin 1 [], .fail (i + 1), .endAttempt (i + 1)]) ++
    [.tick (2 * 10 ^ 9)]

/-- Two seconds after its fifth failure within five minutes the client may try again. -/
theorem lockout_ends_early : ∃ g,
    Runs.exec (step hubLimits id) (initial ℕ) failuresSpread = some g ∧
    Runs.Meets (step hubLimits id) (NoEviction hubLimits id) (initial ℕ) failuresSpread ∧
    hubLimits.loginFailures ≤ failuresIn hubLimits g 1 (299 * 10 ^ 9) ∧
    (∃ a ∈ g.attempts, a.key = 1 ∧ a.failedAt = some (299 * 10 ^ 9)) ∧
    g.clock = 301 * 10 ^ 9 ∧ g.clock ≤ 299 * 10 ^ 9 + hubLimits.loginLockout ∧
    (begin hubLimits [] g 1).2 ≠ none := by
  have hfinal : (Runs.exec (step hubLimits id) (initial ℕ) failuresSpread).map (fun g =>
      (g.clock, failuresIn hubLimits g 1 (299 * 10 ^ 9),
        decide (∃ a ∈ g.attempts, a.key = 1 ∧ a.failedAt = some (299 * 10 ^ 9)),
        (begin hubLimits [] g 1).2)) = some (301 * 10 ^ 9, 5, true, some 5) := by
    decide +kernel
  obtain ⟨g, hg, hview⟩ := Option.map_eq_some_iff.1 hfinal
  simp only [Prod.mk.injEq, decide_eq_true_eq] at hview
  obtain ⟨hclock, hfive, hfifth, hbegin⟩ := hview
  refine ⟨g, hg, by decide +kernel, hfive.ge, hfifth, hclock, by rw [hclock]; decide, ?_⟩
  rw [hbegin]
  simp

end Lotse.Limiter
