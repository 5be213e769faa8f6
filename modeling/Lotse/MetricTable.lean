import Lotse.Rows
import Lotse.Runs
import Lotse.Samples

set_option autoImplicit false

/-!
# The metrics table

Rows by system, resolution and bucket start in seconds, and the statements on them:
`InsertMetrics`, `Rollup` and `PruneMetrics`. A run of the hub inserts 1-minute rows and
executes the calls of `maintenance` at any times: its catch-up at the start of the hub,
which `prune` follows, and its ticks. Any of their statements may fail, which is only logged.
-/
namespace Lotse.MetricTable
open Samples

inductive Res where
  | res1
  | res10
  | res60
  deriving DecidableEq

def Res.minutes : Res → ℕ
  | res1 => 1
  | res10 => 10
  | res60 => 60

def bucket (r : Res) : ℕ := r.minutes * 60

/-- Seconds, as in `Retention`. -/
def retention : Res → ℕ
  | .res1 => 48 * 3600
  | .res10 => 31 * 24 * 3600
  | .res60 => 366 * 24 * 3600

def resolutions : List Res := [.res1, .res10, .res60]

def coarse : List Res := [.res10, .res60]

def Table : Type := ℕ+ → Res → ℕ → Option Values

/-- Capacity columns roll up with `MAX`, everything else with `AVG`. -/
def maxCols : MetricCol → Bool
  | .memTotal | .swapTotal | .diskTotal => true
  | _ => false

def average (xs : List ℚ) : ℚ := xs.sum / xs.length

def aggregate (rows : List Values) : Values := fun c =>
  if maxCols c then (rows.map (· c)).max?.getD 0 else average (rows.map (· c))

def rowsIn (rows : ℕ → Option Values) (b len : ℕ) : List Values :=
  (List.range len).filterMap fun i => rows (b + i)

def rollupUntil (r : Res) (now : ℕ) : ℕ := now / bucket r * bucket r

def rollupSince (r : Res) (window now : ℕ) : ℕ := (rollupUntil r now - window) / bucket r * bucket r

def inWindow (r : Res) (window now ts : ℕ) : Prop :=
  rollupSince r window now ≤ ts ∧ ts < rollupUntil r now

instance (r : Res) (window now ts : ℕ) : Decidable (inWindow r window now ts) :=
  inferInstanceAs (Decidable (_ ∧ _))

/-- `INSERT OR REPLACE` of one row for every bucket that has a 1-minute row in the window. -/
def rollup (systems : ℕ+ → Bool) (t : Table) (res : Res) (window now : ℕ) : Table := fun sys r b =>
  let rows := rowsIn (t sys .res1) b (bucket res)
  if systems sys ∧ r = res ∧ b % bucket res = 0 ∧ inWindow res window now b ∧ ¬ rows.isEmpty then
    some (aggregate rows)
  else t sys r b

/-- `done` are the resolutions whose statement succeeds. The first that fails ends the loop, but
the order of the map is not determined. -/
def pruneMetrics (systems : ℕ+ → Bool) (t : Table) (done : List Res) (now : ℕ) : Table :=
  fun sys r ts => if r ∈ done ∧ systems sys ∧ ts + retention r < now then none else t sys r ts

def insertMetrics (t : Table) (sys : ℕ+) (res : Res) (ts : ℕ) (v : Values) : Table := fun s r x =>
  if s = sys ∧ r = res ∧ x = ts then some v else t s r x

structure Key where
  sys : ℕ+
  ts : ℕ
  deriving DecidableEq

/-- One execution of `Hub.rollup`, with the resolutions whose statement succeeded. -/
structure Pass where
  time : ℕ
  window : ℕ
  done : List Res
  deriving DecidableEq

/-- `systems` are the ids in the systems table. The other fields after `table` are
history that no code reads: the keys of all 1-minute rows ever inserted and the rows
themselves, the buckets that a roll-up has covered since their last row was inserted,
the 1-minute rows that a roll-up has included, those that were deleted after their hour
without having been included twice, all roll-ups, and how many there were when a row was
inserted. -/
structure State where
  clock : ℕ
  systems : ℕ+ → Bool
  table : Table
  inserted : List Key
  source : ℕ+ → ℕ → Option Values
  covered : ℕ+ → Res → ℕ → Bool
  rolled : ℕ+ → Res → ℕ → Bool
  lost : List Key
  passes : List Pass
  born : ℕ+ → ℕ → ℕ

def initial (systems : ℕ+ → Bool) : State where
  clock := 0
  systems := systems
  table _ _ _ := none
  inserted := []
  source _ _ := none
  covered _ _ _ := false
  rolled _ _ _ := false
  lost := []
  passes := []
  born _ _ := 0

inductive Op where
  | advance (seconds : ℕ)
  | insert (sys : ℕ+) (ts : ℕ) (v : Values)
  | catchUp (done : List Res)
  | rollup (done : List Res)
  | prune (done : List Res)

namespace State

def advance (g : State) (seconds : ℕ) : State := { g with clock := g.clock + seconds }

def insert (g : State) (sys : ℕ+) (ts : ℕ) (v : Values) : State :=
  if g.systems sys then
    { g with
      table := insertMetrics g.table sys .res1 ts v
      inserted := ⟨sys, ts⟩ :: g.inserted
      source := fun s x => if s = sys ∧ x = ts then some v else g.source s x
      covered := fun s r b => g.covered s r b && !(decide (s = sys ∧ b ≤ ts ∧ ts < b + bucket r))
      rolled := fun s r x => g.rolled s r x && !(decide (s = sys ∧ x = ts))
      born := fun s x => if s = sys ∧ x = ts then g.passes.length else g.born s x }
  else g

/-- `Hub.rollup`: both coarse resolutions with one reading of the clock. -/
def rollup (g : State) (window : ℕ) (done : List Res) : State :=
  { g with
    table := coarse.foldl (fun t r =>
      if r ∈ done then MetricTable.rollup g.systems t r window g.clock else t) g.table
    covered := fun s r b => g.covered s r b || decide (r ∈ coarse ∧ r ∈ done ∧ b % bucket r = 0 ∧
      inWindow r window g.clock b ∧ ¬ (rowsIn (g.source s) b (bucket r)).isEmpty)
    rolled := fun s r ts => g.rolled s r ts || decide (r ∈ coarse ∧ r ∈ done ∧
      inWindow r window g.clock ts ∧ (g.table s .res1 ts).isSome)
    passes := ⟨g.clock, window, done⟩ :: g.passes }

def deletes (g : State) (key : Key) : Prop :=
  g.systems key.sys ∧ (g.table key.sys .res1 key.ts).isSome ∧ key.ts + retention .res1 < g.clock

instance (g : State) (key : Key) : Decidable (g.deletes key) := inferInstanceAs (Decidable (_ ∧ _))

def hourEnded (g : State) (key : Key) : Prop := key.ts / 3600 * 3600 + 3600 ≤ g.clock

instance (g : State) (key : Key) : Decidable (g.hourEnded key) := inferInstanceAs (Decidable (_ ≤ _))

def prune (g : State) (done : List Res) : State :=
  { g with
    table := pruneMetrics g.systems g.table done g.clock
    covered := fun s r b => g.covered s r b && !(decide (r ∈ done ∧ b + retention r < g.clock))
    lost := g.lost ++ g.inserted.filter fun key => .res1 ∈ done ∧ g.deletes key ∧ g.hourEnded key ∧
      ¬ (g.rolled key.sys .res10 key.ts ∧ g.rolled key.sys .res60 key.ts) }

def apply (g : State) : Op → State
  | .advance seconds => g.advance seconds
  | .insert sys ts v => g.insert sys ts v
  | .catchUp done => g.rollup (retention .res1) done
  | .rollup done => g.rollup (2 * 3600) done
  | .prune done => g.prune done

end State

def step (g : State) (op : Op) : Option State := some (g.apply op)

section rows
variable {rows rows' : ℕ → Option Values} {b len : ℕ}

theorem rowsIn_congr (h : ∀ ts, b ≤ ts → ts < b + len → rows ts = rows' ts) :
    rowsIn rows b len = rowsIn rows' b len := by
  refine List.filterMap_congr fun i hi => h (b + i) (by omega) ?_
  have := List.mem_range.1 hi
  omega

theorem rowsIn_isEmpty :
    (rowsIn rows b len).isEmpty = true ↔ ∀ ts, b ≤ ts → ts < b + len → rows ts = none := by
  rw [List.isEmpty_iff, rowsIn, List.filterMap_eq_nil_iff]
  constructor
  · intro h ts hb hlt
    have := h (ts - b) (List.mem_range.2 (by omega))
    rwa [show b + (ts - b) = ts by omega] at this
  · intro h i hi
    have := List.mem_range.1 hi
    exact h (b + i) (by omega) (by omega)

end rows

section rollup
variable {systems : ℕ+ → Bool} {t : Table} {res r : Res} {window now b : ℕ} {sys : ℕ+}

theorem rollup_other (h : r ≠ res) : rollup systems t res window now sys r b = t sys r b := by
  simp [rollup, h]

theorem rollup_res : rollup systems t res window now sys res b =
    if systems sys ∧ b % bucket res = 0 ∧ inWindow res window now b ∧
      ¬ (rowsIn (t sys .res1) b (bucket res)).isEmpty
    then some (aggregate (rowsIn (t sys .res1) b (bucket res))) else t sys res b := by
  simp [rollup]

end rollup

theorem rollup_table (g : State) (window : ℕ) (done : List Res) (sys : ℕ+) (r : Res) (b : ℕ) :
    (g.rollup window done).table sys r b =
      if r ∈ coarse ∧ r ∈ done ∧ g.systems sys ∧ b % bucket r = 0 ∧ inWindow r window g.clock b ∧
        ¬ (rowsIn (g.table sys .res1) b (bucket r)).isEmpty
      then some (aggregate (rowsIn (g.table sys .res1) b (bucket r))) else g.table sys r b := by
  have hsource : ∀ s, rollup g.systems g.table .res10 window g.clock s .res1 = g.table s .res1 :=
    fun s => funext fun ts => rollup_other (by decide)
  simp only [State.rollup, coarse, List.foldl_cons, List.foldl_nil]
  cases r with
  | res1 => split_ifs <;> simp_all [rollup_other]
  | res10 =>
    split_ifs <;> simp_all [rollup_other, rollup_res]
  | res60 =>
    split_ifs <;> simp_all [rollup_other, rollup_res]

end Lotse.MetricTable
