import Lotse.MetricTable
import Lotse.Tasks

set_option autoImplicit false

/-!
# The bucket of the minute in progress

`record`, `flushState` and the forced flush of `unregister` for one system. `st.mu` guards
one instruction; the clock is read before it and the row is written after it.
-/
namespace Lotse.Bucket
open Samples MetricTable Tasks

structure MetricRow where
  ts : ℕ
  values : Values

/-- The bucket being averaged; the zero value before the first sample. -/
structure SysState where
  bucketTS : ℕ
  sum : Values
  n : ℕ

namespace SysState

def zero : SysState := ⟨0, fun _ => 0, 0⟩

def row (st : SysState) : MetricRow := ⟨st.bucketTS, fun c => st.sum c / st.n⟩

def takeBucket (st : SysState) : MetricRow × SysState :=
  (st.row, { st with sum := fun _ => 0, n := 0 })

def add (st : SysState) (minute : ℕ) (v : Values) : SysState :=
  ⟨minute, fun c => st.sum c + v c, st.n + 1⟩

/-- The locked part of `record`: a bucket of another minute is taken first. -/
def record (st : SysState) (minute : ℕ) (v : Values) : Option MetricRow × SysState :=
  if 0 < st.n ∧ st.bucketTS ≠ minute then
    (some st.takeBucket.1, st.takeBucket.2.add minute v)
  else (none, st.add minute v)

def flush (st : SysState) (force : Bool) (minute : ℕ) : Option MetricRow × SysState :=
  if st.n = 0 ∨ ¬ force ∧ minute ≤ st.bucketTS then (none, st)
  else (some st.takeBucket.1, st.takeBucket.2)

end SysState

/-- `table` holds the 1-minute rows of the system. `samples` and `closed` are history that
no code reads: the samples added so far, by minute, and the minutes whose bucket was
taken. -/
structure State where
  clock : ℕ
  agent : Option ℕ
  nextConn : ℕ
  st : SysState
  table : ℕ → Option Values
  samples : List (ℕ × Values)
  closed : List ℕ

def initial : State := ⟨0, none, 0, .zero, fun _ => none, [], []⟩

inductive Instr where
  | now (v : Values)
  | liveState (minute : ℕ) (v : Values)
  | record (minute : ℕ) (v : Values)
  | writeBucket (row : MetricRow)
  | flush (force : Bool)
  | flushState (force : Bool) (minute : ℕ)
  | register
  | serve
  | unregister (conn : ℕ)
  | tick (seconds : ℕ)

inductive Request where
  | record (m : Metrics)
  | connect
  | flush
  | tick (seconds : ℕ)

def code : Request → List Instr
  | .record m => [.now (metricValues m)]
  | .connect => [.register]
  | .flush => [.flush false]
  | .tick seconds => [.tick seconds]

namespace State

def minute (g : State) : ℕ := g.clock / 60 * 60

def close (g : State) : State :=
  { g with st := g.st.takeBucket.2, closed := g.st.bucketTS :: g.closed }

def add (g : State) (minute : ℕ) (v : Values) : State :=
  { g with st := g.st.add minute v, samples := (minute, v) :: g.samples }

def record (g : State) (minute : ℕ) (v : Values) : State :=
  { g with
    st := (g.st.record minute v).2
    samples := (minute, v) :: g.samples
    closed := (g.st.record minute v).1.toList.map MetricRow.ts ++ g.closed }

def flushState (g : State) (force : Bool) (minute : ℕ) : State :=
  { g with
    st := (g.st.flush force minute).2
    closed := (g.st.flush force minute).1.toList.map MetricRow.ts ++ g.closed }

def writeBucket (g : State) (row : MetricRow) : State :=
  { g with table := Function.update g.table row.ts (some row.values) }

def samplesOf (g : State) (minute : ℕ) : List Values :=
  (g.samples.filter fun s => s.1 = minute).map Prod.snd

end State

def writes (done : Option MetricRow) : List Instr := done.toList.map .writeBucket

def atomic (_ : Unit) (g : State) : Instr → Option (Outcome State Instr)
  | .now v => some (.next g [.liveState g.minute v])
  | .liveState minute v =>
    if g.agent = none then some (.next g []) else some (.next g [.record minute v])
  | .record minute v => some (.next (g.record minute v) (writes (g.st.record minute v).1))
  | .writeBucket row => some (.next (g.writeBucket row) [])
  | .flush force => some (.next g [.flushState force g.minute])
  | .flushState force minute =>
    some (.next (g.flushState force minute) (writes (g.st.flush force minute).1))
  | .register => some (.next { g with agent := some g.nextConn, nextConn := g.nextConn + 1 }
      [.serve, .unregister g.nextConn])
  | .serve => some (.next g [])
  | .unregister conn =>
    if g.agent = some conn then some (.next { g with agent := none } [.flush true])
    else some (.next g [])
  | .tick seconds => some (.next { g with clock := g.clock + seconds } [])

def machine : Machine State Instr Unit Request := ⟨code, atomic, fun _ => none⟩

def init : Config State Instr := ⟨initial, []⟩

inductive Effect (g : State) : Instr → State → List Instr → Prop where
  | record (minute v) :
    Effect g (.record minute v) (g.record minute v) (writes (g.st.record minute v).1)
  | writeBucket (row) : Effect g (.writeBucket row) (g.writeBucket row) []
  | flushState (force minute) : Effect g (.flushState force minute) (g.flushState force minute)
      (writes (g.st.flush force minute).1)
  | other {ins g' code} (hst : g'.st = g.st) (htable : g'.table = g.table)
    (hsamples : g'.samples = g.samples) (hclosed : g'.closed = g.closed)
    (hins : ∀ row, ins ≠ .writeBucket row) (hcode : ∀ row, .writeBucket row ∉ code) :
    Effect g ins g' code

theorem atomic_effect {o : Unit} {g : State} {ins : Instr} {out : Outcome State Instr}
    (h : atomic o g ins = some out) :
    ∃ g' code, out = .next g' code ∧ Effect g ins g' code := by
  cases ins with
  | record minute v =>
    cases h
    exact ⟨_, _, rfl, .record minute v⟩
  | writeBucket row =>
    cases h
    exact ⟨_, _, rfl, .writeBucket row⟩
  | flushState force minute =>
    cases h
    exact ⟨_, _, rfl, .flushState force minute⟩
  | liveState minute v =>
    simp only [atomic] at h
    split_ifs at h <;> cases h <;> exact ⟨_, _, rfl, .other rfl rfl rfl rfl (by simp) (by simp)⟩
  | unregister conn =>
    simp only [atomic] at h
    split_ifs at h <;> cases h <;> exact ⟨_, _, rfl, .other rfl rfl rfl rfl (by simp) (by simp)⟩
  | now v | flush force | register | serve | tick seconds =>
    cases h
    exact ⟨_, _, rfl, .other rfl rfl rfl rfl (by simp) (by simp)⟩

end Lotse.Bucket
