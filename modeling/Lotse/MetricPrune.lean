import Lotse.MetricTable

set_option autoImplicit false

namespace Lotse.MetricPrune
open Samples MetricTable Runs

def bucketEnd (r : Res) (ts : ℕ) : ℕ := ts / bucket r * bucket r + bucket r

def passesSince (g : State) (key : Key) : List Pass :=
  g.passes.take (g.passes.length - g.born key.sys key.ts)

/-- The pass ran after the bucket of `ts` ended and less than its window later. -/
def Timely (r : Res) (ts : ℕ) (p : Pass) : Prop :=
  bucketEnd r ts ≤ p.time ∧ p.time < bucketEnd r ts + p.window

instance (r : Res) (ts : ℕ) (p : Pass) : Decidable (Timely r ts p) :=
  inferInstanceAs (Decidable (_ ∧ _))

/-- For every row that pruning is about to delete and each resolution, the statement of a timely
pass succeeded. -/
def PassInTime (g : State) : Op → Prop
  | .prune done => .res1 ∈ done → ∀ key ∈ g.inserted, g.deletes key → ∀ r ∈ coarse,
    ∃ p ∈ passesSince g key, r ∈ p.done ∧ Timely r key.ts p
  | _ => True

instance (g : State) : (op : Op) → Decidable (PassInTime g op)
  | .prune done => inferInstanceAs (Decidable (.res1 ∈ done → ∀ key ∈ g.inserted, g.deletes key →
      ∀ r ∈ coarse, ∃ p ∈ passesSince g key, r ∈ p.done ∧ Timely r key.ts p))
  | .advance _ | .insert .. | .catchUp _ | .rollup _ => .isTrue trivial

structure Inv (g : State) : Prop where
  born_le : ∀ key : Key, g.born key.sys key.ts ≤ g.passes.length
  rolled : ∀ key : Key, (g.table key.sys .res1 key.ts).isSome → ∀ r ∈ coarse,
    ∀ p ∈ passesSince g key, r ∈ p.done → Timely r key.ts p → g.rolled key.sys r key.ts
  none_lost : g.lost = []

theorem timely_iff_inWindow {r : Res} {hours now ts : ℕ} {done : List Res} (hr : r ∈ coarse) :
    Timely r ts ⟨now, hours * 3600, done⟩ ↔ inWindow r (hours * 3600) now ts := by
  cases r with
  | res1 => simp [coarse] at hr
  | res10 | res60 =>
    simp only [Timely, bucketEnd, inWindow, rollupSince, rollupUntil, bucket, Res.minutes]
    omega

section steps
variable {g : State}

theorem inv_advance (h : Inv g) (seconds : ℕ) : Inv (g.advance seconds) where
  born_le := h.born_le
  rolled := h.rolled
  none_lost := h.none_lost

theorem inv_insert (h : Inv g) (sys : ℕ+) (ts : ℕ) (v : Values) : Inv (g.insert sys ts v) := by
  unfold State.insert
  split_ifs with hsys
  · refine ⟨fun key => ?_, fun key hsome r hr p hp hdone htimely => ?_, h.none_lost⟩
    · dsimp only
      split_ifs
      · exact le_rfl
      · exact h.born_le key
    · by_cases heq : key.sys = sys ∧ key.ts = ts
      · simp [passesSince, heq] at hp
      · have hsome : (g.table key.sys .res1 key.ts).isSome := by
          simpa [insertMetrics, heq] using hsome
        have hp : p ∈ passesSince g key := by simpa [passesSince, heq] using hp
        simpa [heq] using h.rolled key hsome r hr p hp hdone htimely
  · exact h

theorem passesSince_rollup (h : Inv g) (window : ℕ) (done : List Res) (key : Key) :
    passesSince (g.rollup window done) key = ⟨g.clock, window, done⟩ :: passesSince g key := by
  change List.take (g.passes.length + 1 - g.born key.sys key.ts) (_ :: g.passes) = _
  rw [Nat.succ_sub (h.born_le key), List.take_succ_cons]
  rfl

theorem inv_rollup (h : Inv g) (hours : ℕ) (done : List Res) :
    Inv (g.rollup (hours * 3600) done) where
  born_le key := (h.born_le key).trans (Nat.le_succ _)
  rolled key hsome r hr p hp hdone htimely := by
    have hsome : (g.table key.sys .res1 key.ts).isSome := by
      rwa [rollup_table, if_neg fun hw => by simp [coarse] at hw] at hsome
    rw [passesSince_rollup h] at hp
    refine Bool.or_eq_true_iff.2 ?_
    rcases List.mem_cons.1 hp with rfl | hp
    · exact .inr (decide_eq_true ⟨hr, hdone, (timely_iff_inWindow hr).1 htimely, hsome⟩)
    · exact .inl (h.rolled key hsome r hr p hp hdone htimely)
  none_lost := h.none_lost

theorem inv_prune (h : Inv g) {done : List Res} (hok : PassInTime g (.prune done)) :
    Inv (g.prune done) where
  born_le := h.born_le
  rolled key hsome := by
    refine h.rolled key ?_
    change (pruneMetrics g.systems g.table done g.clock key.sys .res1 key.ts).isSome at hsome
    unfold pruneMetrics at hsome
    split_ifs at hsome
    · cases hsome
    · exact hsome
  none_lost := by
    change g.lost ++ _ = []
    rw [h.none_lost, List.nil_append, List.filter_eq_nil_iff]
    intro key hkey hlost
    obtain ⟨hres, hdel, -, hmissed⟩ := of_decide_eq_true hlost
    have hrolled : ∀ r ∈ coarse, g.rolled key.sys r key.ts := fun r hr => by
      obtain ⟨p, hp, hdone, htimely⟩ := hok hres key hkey hdel r hr
      exact h.rolled key hdel.2.1 r hr p hp hdone htimely
    exact hmissed ⟨hrolled .res10 (by decide), hrolled .res60 (by decide)⟩

end steps

theorem inv_step (g : State) (op : Op) (g' : State) (h : Inv g) (hok : PassInTime g op)
    (hs : step g op = some g') : Inv g' := by
  cases hs
  cases op with
  | advance seconds => exact inv_advance h seconds
  | insert sys ts v => exact inv_insert h sys ts v
  | catchUp done => exact inv_rollup h 48 done
  | rollup done => exact inv_rollup h 2 done
  | prune done => exact inv_prune h hok

theorem inv_initial (systems : ℕ+ → Bool) : Inv (initial systems) where
  born_le _ := le_rfl
  rolled _ h := by cases h
  none_lost := rfl

/-- Where a timely pass succeeded for every deleted row, none was deleted unread. -/
theorem pruned_after_rollup (systems : ℕ+ → Bool) (ops : List Op) (g : State)
    (hm : Meets step PassInTime (initial systems) ops)
    (he : exec step (initial systems) ops = some g) : g.lost = [] :=
  (exec_guarded inv_step (inv_initial systems) hm he).none_lost

def readRun : List Op :=
  [.advance 60, .insert 1 0 (fun _ => 0), .advance 3540, .rollup coarse, .advance 169260,
    .prune resolutions]

theorem pruned_after_rollup_read :
    let g := readRun.foldl State.apply (initial fun _ => true)
    Meets step PassInTime (initial fun _ => true) readRun ∧
      g.table 1 .res1 0 = none ∧ g.inserted = [⟨1, 0⟩] ∧ g.lost = [] :=
  have hm : Meets step PassInTime (initial fun _ => true) readRun := by decide +kernel
  ⟨hm, rfl, rfl, pruned_after_rollup _ readRun _ hm rfl⟩

/-- The machine is suspended for two days: on waking, the pass of the ticker is too late. -/
def suspendedRun : List Op :=
  [.advance 60, .insert 1 0 (fun _ => 0), .advance 172801, .rollup coarse, .prune resolutions]

theorem pruned_unread : ∃ ops g, exec step (initial fun _ => true) ops = some g ∧
    g.lost = [⟨1, 0⟩] :=
  ⟨suspendedRun, suspendedRun.foldl State.apply (initial fun _ => true), rfl,
    by decide +kernel⟩

end Lotse.MetricPrune
