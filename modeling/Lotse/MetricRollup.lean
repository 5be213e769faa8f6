import Lotse.MetricTable

set_option autoImplicit false

namespace Lotse.MetricRollup
open Samples MetricTable Runs

/-- At a catch-up, the first bucket of the window has all of its 1-minute rows or has lost
all of them, and in the second case it was covered before. -/
def EdgeWhole (g : State) : Op → Prop
  | .catchUp done => ∀ key ∈ g.inserted, ∀ r ∈ coarse, r ∈ done →
    rollupSince r (retention .res1) g.clock ≤ key.ts →
    key.ts < rollupSince r (retention .res1) g.clock + bucket r →
    (g.table key.sys .res1 key.ts).isNone →
      (rowsIn (g.table key.sys .res1) (rollupSince r (retention .res1) g.clock) (bucket r)).isEmpty ∧
      g.covered key.sys r (rollupSince r (retention .res1) g.clock)
  | _ => True

instance (g : State) : (op : Op) → Decidable (EdgeWhole g op)
  | .catchUp done => inferInstanceAs (Decidable (∀ key ∈ g.inserted, ∀ r ∈ coarse, r ∈ done →
      rollupSince r (retention .res1) g.clock ≤ key.ts →
      key.ts < rollupSince r (retention .res1) g.clock + bucket r →
      (g.table key.sys .res1 key.ts).isNone →
        (rowsIn (g.table key.sys .res1) (rollupSince r (retention .res1) g.clock)
          (bucket r)).isEmpty ∧
        g.covered key.sys r (rollupSince r (retention .res1) g.clock)))
  | .advance _ | .insert .. | .rollup _ | .prune _ => .isTrue trivial

structure Inv (g : State) : Prop where
  owned : ∀ sys ts, (g.source sys ts).isSome → g.systems sys
  listed : ∀ sys ts, (g.source sys ts).isSome → ⟨sys, ts⟩ ∈ g.inserted
  kept : ∀ sys ts, g.table sys .res1 ts = g.source sys ts ∨
    g.table sys .res1 ts = none ∧ ts + retention .res1 < g.clock
  isCoarse : ∀ sys r b, g.covered sys r b → r ≠ .res1
  faithful : ∀ sys r b, g.covered sys r b →
    g.table sys r b = some (aggregate (rowsIn (g.source sys) b (bucket r)))

theorem inv_initial (systems : ℕ+ → Bool) : Inv (initial systems) where
  owned _ _ h := by cases h
  listed _ _ h := by cases h
  kept _ _ := .inl rfl
  isCoarse _ _ _ h := by cases h
  faithful _ _ _ h := by cases h

section steps
variable {g : State}

theorem inv_advance (h : Inv g) (seconds : ℕ) : Inv (g.advance seconds) where
  owned := h.owned
  listed := h.listed
  kept sys ts := (h.kept sys ts).imp_right fun ⟨hnone, hlt⟩ =>
    ⟨hnone, Nat.lt_of_lt_of_le hlt (Nat.le_add_right ..)⟩
  isCoarse := h.isCoarse
  faithful := h.faithful

theorem inv_insert (h : Inv g) (sys : ℕ+) (ts : ℕ) (v : Values) : Inv (g.insert sys ts v) := by
  unfold State.insert
  split_ifs with hsys
  · refine ⟨?_, ?_, ?_, ?_, ?_⟩
    · intro s x hsome
      dsimp only at hsome ⊢
      split_ifs at hsome with heq
      · rwa [heq.1]
      · exact h.owned s x hsome
    · intro s x hsome
      dsimp only at hsome ⊢
      split_ifs at hsome with heq
      · rw [heq.1, heq.2]
        exact List.mem_cons_self
      · exact List.mem_cons_of_mem _ (h.listed s x hsome)
    · intro s x
      by_cases heq : s = sys ∧ x = ts
      · simp [insertMetrics, heq]
      · simpa [insertMetrics, heq] using h.kept s x
    · intro s r b hc
      exact h.isCoarse s r b (Bool.and_eq_true_iff.1 hc).1
    · intro s r b hc
      obtain ⟨hold, hnew⟩ := Bool.and_eq_true_iff.1 hc
      have hr := h.isCoarse s r b hold
      have hout : ¬ (s = sys ∧ b ≤ ts ∧ ts < b + bucket r) := by
        simpa only [Bool.not_eq_true', decide_eq_false_iff_not] using hnew
      have hrows : rowsIn (fun x => if s = sys ∧ x = ts then some v else g.source s x) b (bucket r) =
          rowsIn (g.source s) b (bucket r) := by
        refine rowsIn_congr fun x hb hlt => if_neg ?_
        rintro ⟨rfl, rfl⟩
        exact hout ⟨rfl, hb, hlt⟩
      change insertMetrics g.table sys .res1 ts v s r b = some (aggregate (rowsIn _ b (bucket r)))
      rw [hrows, insertMetrics, if_neg fun heq => hr heq.2.1]
      exact h.faithful s r b hold
  · exact h

theorem inv_prune (h : Inv g) (done : List Res) : Inv (g.prune done) where
  owned := h.owned
  listed := h.listed
  kept sys ts := by
    change pruneMetrics g.systems g.table done g.clock sys .res1 ts = g.source sys ts ∨
      pruneMetrics g.systems g.table done g.clock sys .res1 ts = none ∧
        ts + retention .res1 < g.clock
    by_cases hold : .res1 ∈ done ∧ g.systems sys ∧ ts + retention .res1 < g.clock
    · exact .inr ⟨if_pos hold, hold.2.2⟩
    · rw [pruneMetrics, if_neg hold]
      exact h.kept sys ts
  isCoarse sys r b hc := h.isCoarse sys r b (Bool.and_eq_true_iff.1 hc).1
  faithful sys r b hc := by
    obtain ⟨hc, hkeep⟩ := Bool.and_eq_true_iff.1 hc
    have hkeep : ¬ (r ∈ done ∧ b + retention r < g.clock) := by
      simpa only [Bool.not_eq_true', decide_eq_false_iff_not] using hkeep
    change pruneMetrics g.systems g.table done g.clock sys r b = _
    rw [pruneMetrics, if_neg fun hold => hkeep ⟨hold.1, hold.2.2⟩]
    exact h.faithful sys r b hc

/-- A pass is harmless where every bucket of its window has all of its rows, or has none
left and was covered before. -/
theorem inv_rollup (h : Inv g) {window : ℕ} {done : List Res}
    (whole : ∀ sys r b, r ∈ coarse → r ∈ done → b % bucket r = 0 → inWindow r window g.clock b →
      rowsIn (g.table sys .res1) b (bucket r) = rowsIn (g.source sys) b (bucket r) ∨
      (rowsIn (g.table sys .res1) b (bucket r)).isEmpty ∧ g.covered sys r b) :
    Inv (g.rollup window done) where
  owned := h.owned
  listed := h.listed
  kept sys ts := by
    rw [rollup_table, if_neg fun hw => by simp [coarse] at hw]
    exact h.kept sys ts
  isCoarse sys r b hc := by
    rcases Bool.or_eq_true_iff.1 hc with hc | hc
    · exact h.isCoarse sys r b hc
    · rintro rfl
      simp [coarse] at hc
  faithful sys r b hc := by
    rw [rollup_table]
    change _ = some (aggregate (rowsIn (g.source sys) b (bucket r)))
    split_ifs with hw
    · obtain ⟨hr, hdone, -, hb, hin, hne⟩ := hw
      rcases whole sys r b hr hdone hb hin with heq | ⟨hempty, -⟩
      · rw [heq]
      · exact absurd hempty hne
    · rcases Bool.or_eq_true_iff.1 hc with hc | hc
      · exact h.faithful sys r b hc
      · obtain ⟨hr, hdone, hb, hin, hne⟩ := of_decide_eq_true hc
        have hsys : g.systems sys := by
          by_contra hsys
          refine hne (rowsIn_isEmpty.2 fun ts _ _ => Option.eq_none_iff_forall_ne_some.2 fun v hv => ?_)
          exact hsys (h.owned sys ts (by rw [hv]; rfl))
        rcases whole sys r b hr hdone hb hin with heq | ⟨-, hcov⟩
        · exact absurd ⟨hr, hdone, hsys, hb, hin, by rwa [heq]⟩ hw
        · exact h.faithful sys r b hcov

theorem rows_kept (h : Inv g) {sys : ℕ+} {b len : ℕ}
    (hyoung : ∀ ts, b ≤ ts → ts < b + len → (g.source sys ts).isSome →
      (g.table sys .res1 ts).isNone → g.clock ≤ ts + retention .res1) :
    rowsIn (g.table sys .res1) b len = rowsIn (g.source sys) b len := by
  refine rowsIn_congr fun ts hb hlt => ?_
  rcases h.kept sys ts with heq | ⟨hnone, hold⟩
  · exact heq
  · cases hsource : g.source sys ts with
    | none => exact hnone
    | some v =>
      have := hyoung ts hb hlt (by rw [hsource]; rfl) (by rw [hnone]; rfl)
      omega

theorem young_of_tick {r : Res} {now b ts : ℕ} (hr : r ∈ coarse)
    (hw : inWindow r (2 * 3600) now b) (hb : b ≤ ts) : now ≤ ts + retention .res1 := by
  obtain ⟨hsince, -⟩ := hw
  cases r with
  | res1 => simp [coarse] at hr
  | res10 | res60 =>
    simp only [rollupSince, rollupUntil, bucket, Res.minutes, retention] at hsince ⊢
    omega

/-- Only the first bucket of a 48 h window is old enough to have lost a row. -/
theorem edge_of_catchUp {r : Res} {now b ts : ℕ} (hr : r ∈ coarse) (hb : b % bucket r = 0)
    (hw : inWindow r (retention .res1) now b) (hts : b ≤ ts) (hold : ts + retention .res1 < now) :
    b = rollupSince r (retention .res1) now := by
  obtain ⟨hsince, -⟩ := hw
  cases r with
  | res1 => simp [coarse] at hr
  | res10 | res60 =>
    simp only [rollupSince, rollupUntil, bucket, Res.minutes, retention] at *
    omega

theorem inv_tick (h : Inv g) (done : List Res) : Inv (g.rollup (2 * 3600) done) :=
  inv_rollup h fun _ _ _ hr _ _ hw =>
    .inl (rows_kept h fun _ hts _ _ _ => young_of_tick hr hw hts)

theorem inv_catchUp (h : Inv g) {done : List Res} (hok : EdgeWhole g (.catchUp done)) :
    Inv (g.rollup (retention .res1) done) := by
  refine inv_rollup h fun sys r b hr hdone hb hw => ?_
  by_cases hlost : ∃ ts, b ≤ ts ∧ ts < b + bucket r ∧ (g.source sys ts).isSome ∧
      (g.table sys .res1 ts).isNone ∧ ts + retention .res1 < g.clock
  · obtain ⟨ts, hts, hlt, hsource, hnone, hold⟩ := hlost
    obtain rfl := edge_of_catchUp hr hb hw hts hold
    exact .inr (hok ⟨sys, ts⟩ (h.listed sys ts hsource) r hr hdone hts hlt hnone)
  · refine .inl (rows_kept h fun ts hts hlt hsource hnone => Nat.le_of_not_lt fun hold => ?_)
    exact hlost ⟨ts, hts, hlt, hsource, hnone, hold⟩

end steps

theorem inv_step (g : State) (op : Op) (g' : State) (h : Inv g) (hok : EdgeWhole g op)
    (hs : step g op = some g') : Inv g' := by
  cases hs
  cases op with
  | advance seconds => exact inv_advance h seconds
  | insert sys ts v => exact inv_insert h sys ts v
  | catchUp done => exact inv_catchUp h hok
  | rollup done => exact inv_tick h done
  | prune done => exact inv_prune h done

/-- Where every catch-up finds its first bucket whole or gone, a coarse row that was
covered is the aggregate of all 1-minute rows of its bucket. -/
theorem rollups_keep_history (systems : ℕ+ → Bool) (ops : List Op) (g : State)
    (hm : Meets step EdgeWhole (initial systems) ops)
    (he : exec step (initial systems) ops = some g)
    (sys : ℕ+) (r : Res) (b : ℕ) (hc : g.covered sys r b) :
    g.table sys r b = some (aggregate (rowsIn (g.source sys) b (bucket r))) :=
  (exec_guarded inv_step (inv_initial systems) hm he).faithful sys r b hc

def load (cpu : ℚ) : Values
  | .cpu => cpu
  | _ => 0

def goneRun : List Op :=
  [.insert 1 0 (load 10), .insert 1 540 (load 20), .advance 3600, .rollup coarse,
    .advance 169800, .prune resolutions, .catchUp coarse, .prune resolutions]

theorem rollups_keep_history_gone :
    let g := goneRun.foldl State.apply (initial fun _ => true)
    Meets step EdgeWhole (initial fun _ => true) goneRun ∧ g.table 1 .res1 0 = none ∧
      g.covered 1 .res60 0 ∧
      g.table 1 .res60 0 = some (aggregate (rowsIn (g.source 1) 0 3600)) :=
  have hm : Meets step EdgeWhole (initial fun _ => true) goneRun := by decide +kernel
  have hc : (goneRun.foldl State.apply (initial fun _ => true)).covered 1 .res60 0 := by
    decide +kernel
  ⟨hm, by rfl, hc, rollups_keep_history _ goneRun _ hm rfl 1 .res60 0 hc⟩

/-- Two rows, rolled up in time; the first is deleted before the hub starts again. -/
def cutRun : List Op :=
  [.insert 1 0 (load 10), .insert 1 540 (load 20), .advance 600, .rollup coarse,
    .advance 172260, .prune resolutions, .advance 60, .catchUp coarse, .prune resolutions]

/-- A catch-up replaces the average of a bucket by that of its remaining rows. -/
theorem catchUp_cuts_history : ∃ ops g, exec step (initial fun _ => true) ops = some g ∧
    g.covered 1 .res10 0 ∧
    g.table 1 .res10 0 ≠ some (aggregate (rowsIn (g.source 1) 0 600)) := by
  refine ⟨cutRun, cutRun.foldl State.apply (initial fun _ => true), rfl, by decide +kernel, ?_⟩
  intro heq
  have hcpu := congrArg (Option.map (· .cpu)) heq
  exact absurd hcpu (by decide +kernel)

end Lotse.MetricRollup
