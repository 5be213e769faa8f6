import Lotse.BucketMeans

set_option autoImplicit false

/-!
# What the buckets are made of

`record`, `flush`, the forced `flushState` and `currentBucket` on the state of one system, in any
order and with any clock: each reads the time before it takes `st.mu`, so the minutes of
successive samples may jump and go back. What a bucket is taken from, and what has not been
taken yet, is kept beside the state. The sums are exact.
-/
namespace Lotse.BucketParts
open Samples Tasks
open Bucket (mean)

structure MetricRow where
  ts : ℤ
  values : Values

structure Sample where
  time : ℤ
  values : Values

def minuteOf (time : ℤ) : ℤ := time.tdiv 60 * 60

def Sample.minute (s : Sample) : ℤ := minuteOf s.time

structure SysState where
  bucketTS : ℤ
  sum : Values
  n : ℕ
  latestAt : ℤ

namespace SysState

def zero : SysState := ⟨0, fun _ => 0, 0, 0⟩

def takeBucket (st : SysState) : MetricRow × SysState :=
  (⟨st.bucketTS, fun c => st.sum c / st.n⟩, { st with sum := fun _ => 0, n := 0 })

def add (st : SysState) (s : Sample) : SysState :=
  ⟨s.minute, fun c => st.sum c + s.values c, st.n + 1, s.time⟩

/-- The locked part of `record`. -/
def record (st : SysState) (s : Sample) : Option MetricRow × SysState :=
  if 0 < st.n ∧ st.bucketTS ≠ s.minute then
    (some st.takeBucket.1, st.takeBucket.2.add s)
  else (none, st.add s)

def flush (st : SysState) (force : Bool) (minute : ℤ) : Option MetricRow × SysState :=
  if st.n = 0 ∨ ¬ force ∧ minute ≤ st.bucketTS then (none, st)
  else (some st.takeBucket.1, st.takeBucket.2)

def currentBucket (st : SysState) : Option MetricRow :=
  if st.n = 0 then none else some ⟨st.latestAt, fun c => st.sum c / st.n⟩

end SysState

/-- `table` holds the 1-minute rows of the system. The rest is history that no code reads: the
samples in the order in which they were recorded, the rows in the order in which they were
taken, and the answers of `currentBucket`. -/
structure State where
  st : SysState
  table : ℤ → Option Values
  samples : List Sample
  taken : List MetricRow
  answers : List (Option MetricRow)

def initial : State := ⟨.zero, fun _ => none, [], [], []⟩

inductive Instr where
  | now (v : Values)
  | liveState (s : Sample)
  | record (s : Sample)
  | flush (force : Bool)
  | flushState (force : Bool) (minute : ℤ)
  | writeBucket (row : MetricRow)
  | currentBucket

inductive Request where
  | record (m : Metrics)
  | flush (force : Bool)
  | currentBucket

/-- The clock, whether the agent is still connected, and whether `InsertMetrics` succeeds. -/
structure Oracle where
  now : ℤ
  live : Bool
  inserted : Bool

def code : Request → List Instr
  | .record m => [.now (metricValues m)]
  | .flush force => [.flush force]
  | .currentBucket => [.currentBucket]

namespace State

def record (g : State) (s : Sample) : State :=
  { g with
    st := (g.st.record s).2
    samples := g.samples ++ [s]
    taken := g.taken ++ (g.st.record s).1.toList }

def flushState (g : State) (force : Bool) (minute : ℤ) : State :=
  { g with
    st := (g.st.flush force minute).2
    taken := g.taken ++ (g.st.flush force minute).1.toList }

def writeBucket (g : State) (row : MetricRow) : State :=
  { g with table := Function.update g.table row.ts (some row.values) }

end State

def writes (done : Option MetricRow) : List Instr := done.toList.map .writeBucket

def atomic (o : Oracle) (g : State) : Instr → Outcome State Instr
  | .now v => .next g [.liveState ⟨o.now, v⟩]
  | .liveState s => if o.live then .next g [.record s] else .next g []
  | .record s => .next (g.record s) (writes (g.st.record s).1)
  | .flush force => .next g [.flushState force (minuteOf o.now)]
  | .flushState force minute =>
    .next (g.flushState force minute) (writes (g.st.flush force minute).1)
  | .writeBucket row => if o.inserted then .next (g.writeBucket row) [] else .next g []
  | .currentBucket => .next { g with answers := g.answers ++ [g.st.currentBucket] } []

def machine : Machine State Instr Oracle Request :=
  ⟨code, fun o g ins => some (atomic o g ins), fun _ => none⟩

def init : Config State Instr := ⟨initial, []⟩

namespace SysState

def toBucket (st : SysState) : Bucket.SysState := ⟨st.bucketTS.toNat, st.sum, st.n⟩

end SysState

def MetricRow.toBucket (row : MetricRow) : Bucket.MetricRow := ⟨row.ts.toNat, row.values⟩

theorem toBucket_record (st : SysState) (s : Sample) (hst : 0 ≤ st.bucketTS)
    (hs : 0 ≤ s.minute) :
    st.toBucket.record s.minute.toNat s.values =
      ((st.record s).1.map MetricRow.toBucket, (st.record s).2.toBucket) := by
  have hn : st.toBucket.n = st.n := rfl
  have hts : st.toBucket.bucketTS ≠ s.minute.toNat ↔ st.bucketTS ≠ s.minute := by
    simp only [SysState.toBucket]
    omega
  unfold Bucket.SysState.record SysState.record
  rw [hn]
  by_cases hother : 0 < st.n ∧ st.bucketTS ≠ s.minute
  · rw [if_pos hother, if_pos ⟨hother.1, hts.2 hother.2⟩]
    rfl
  · rw [if_neg hother, if_neg fun h => hother ⟨h.1, hts.1 h.2⟩]
    rfl

theorem toBucket_flush (st : SysState) (force : Bool) {minute : ℤ} (hst : 0 ≤ st.bucketTS)
    (hm : 0 ≤ minute) :
    st.toBucket.flush force minute.toNat =
      ((st.flush force minute).1.map MetricRow.toBucket, (st.flush force minute).2.toBucket) := by
  have hn : st.toBucket.n = st.n := rfl
  have hts : minute.toNat ≤ st.toBucket.bucketTS ↔ minute ≤ st.bucketTS := by
    simp only [SysState.toBucket]
    omega
  unfold Bucket.SysState.flush SysState.flush
  rw [hn]
  by_cases hkeep : st.n = 0 ∨ ¬ force ∧ minute ≤ st.bucketTS
  · rw [if_pos hkeep, if_pos (hkeep.imp_right fun h => ⟨h.1, hts.2 h.2⟩)]
    rfl
  · rw [if_neg hkeep, if_neg fun h => hkeep (h.imp_right fun h => ⟨h.1, hts.1 h.2⟩)]
    rfl

/-- The row is the mean of the samples, which are all of its minute. -/
structure MadeOf (row : MetricRow) (part : List Sample) : Prop where
  ne_nil : part ≠ []
  minute : ∀ s ∈ part, s.minute = row.ts
  values : row.values = mean (part.map Sample.values)

structure Holds (st : SysState) (pending : List Sample) : Prop where
  n : st.n = pending.length
  sum : st.sum = fun c => ((pending.map Sample.values).map (· c)).sum
  minute : ∀ s ∈ pending, s.minute = st.bucketTS
  latest : ∀ s, pending.getLast? = some s → st.latestAt = s.time

theorem Holds.values {st : SysState} {pending : List Sample} (h : Holds st pending) :
    (fun c => st.sum c / st.n) = mean (pending.map Sample.values) := by
  funext c
  rw [h.n, h.sum]
  simp [mean, MetricTable.average]

theorem Holds.takeBucket {st : SysState} {pending : List Sample} (h : Holds st pending)
    (hne : pending ≠ []) : MadeOf st.takeBucket.1 pending ∧ Holds st.takeBucket.2 [] :=
  ⟨⟨hne, h.minute, h.values⟩, ⟨rfl, rfl, by simp, by simp⟩⟩

theorem Holds.add {st : SysState} {pending : List Sample} (h : Holds st pending) (s : Sample)
    (hminute : pending = [] ∨ st.bucketTS = s.minute) : Holds (st.add s) (pending ++ [s]) := by
  refine ⟨?_, ?_, ?_, ?_⟩
  · simp [SysState.add, h.n]
  · funext c
    simp [SysState.add, h.sum]
  · intro s' hs'
    rcases List.mem_append.1 hs' with hs' | hs'
    · rcases hminute with rfl | hminute
      · cases hs'
      · exact (h.minute s' hs').trans hminute
    · rw [List.mem_singleton.1 hs']
      rfl
  · intro s' hs'
    rw [List.getLast?_concat, Option.some.injEq] at hs'
    rw [← hs']
    rfl

theorem Holds.pos_iff {st : SysState} {pending : List Sample} (h : Holds st pending) :
    0 < st.n ↔ pending ≠ [] := by
  rw [h.n, List.length_pos_iff]

theorem Holds.record {st : SysState} {pending : List Sample} (h : Holds st pending) (s : Sample) :
    ((st.record s).1 = none ∧ Holds (st.record s).2 (pending ++ [s])) ∨
      ∃ row, (st.record s).1 = some row ∧ MadeOf row pending ∧ Holds (st.record s).2 [s] := by
  unfold SysState.record
  split_ifs with hother
  · have htake := h.takeBucket (h.pos_iff.1 hother.1)
    exact Or.inr ⟨_, rfl, htake.1, htake.2.add s (Or.inl rfl)⟩
  · refine Or.inl ⟨rfl, h.add s ?_⟩
    by_cases hne : pending = []
    · exact Or.inl hne
    · right
      by_contra hminute
      exact hother ⟨h.pos_iff.2 hne, hminute⟩

theorem Holds.flush {st : SysState} {pending : List Sample} (h : Holds st pending) (force : Bool)
    (minute : ℤ) : ((st.flush force minute).1 = none ∧ Holds (st.flush force minute).2 pending) ∨
      ∃ row, (st.flush force minute).1 = some row ∧ MadeOf row pending ∧
        Holds (st.flush force minute).2 [] := by
  unfold SysState.flush
  split_ifs with hkeep
  · exact Or.inl ⟨rfl, h⟩
  · have hne : pending ≠ [] := h.pos_iff.1 (Nat.pos_of_ne_zero fun hn => hkeep (Or.inl hn))
    have htake := h.takeBucket hne
    exact Or.inr ⟨_, rfl, htake.1, htake.2⟩

/-- The samples are cut in order into the parts that the rows were made of and what is
pending. -/
structure Partition (g : State) (parts : List (List Sample)) (pending : List Sample) : Prop where
  samples : g.samples = parts.flatten ++ pending
  taken : List.Forall₂ MadeOf g.taken parts
  holds : Holds g.st pending

theorem Partition.record {g : State} {parts : List (List Sample)} {pending : List Sample}
    (h : Partition g parts pending) (s : Sample) :
    ∃ parts' pending', Partition (g.record s) parts' pending' := by
  rcases h.holds.record s with ⟨hnone, hholds⟩ | ⟨row, hrow, hmade, hholds⟩
  · exact ⟨parts, pending ++ [s], by simp [State.record, h.samples],
      by simpa [State.record, hnone] using h.taken, hholds⟩
  · refine ⟨parts ++ [pending], [s], by simp [State.record, h.samples], ?_, hholds⟩
    simp only [State.record, hrow, Option.toList_some]
    exact List.rel_append h.taken (.cons hmade .nil)

theorem Partition.flushState {g : State} {parts : List (List Sample)} {pending : List Sample}
    (h : Partition g parts pending) (force : Bool) (minute : ℤ) :
    ∃ parts' pending', Partition (g.flushState force minute) parts' pending' := by
  rcases h.holds.flush force minute with ⟨hnone, hholds⟩ | ⟨row, hrow, hmade, hholds⟩
  · exact ⟨parts, pending, h.samples, by simpa [State.flushState, hnone] using h.taken, hholds⟩
  · refine ⟨parts ++ [pending], [], by simp [State.flushState, h.samples], ?_, hholds⟩
    simp only [State.flushState, hrow, Option.toList_some]
    exact List.rel_append h.taken (.cons hmade .nil)

def Partitioned (g : State) : Prop := ∃ parts pending, Partition g parts pending

theorem partitioned_step {o : Oracle} {g : State} (ins : Instr) (h : Partitioned g) :
    Partitioned (atomic o g ins).global := by
  obtain ⟨parts, pending, h⟩ := h
  have hsame : Partitioned g := ⟨parts, pending, h⟩
  cases ins with
  | now v => exact hsame
  | liveState s =>
    simp only [atomic]
    split_ifs <;> exact hsame
  | record s => exact h.record s
  | flush force => exact hsame
  | flushState force minute => exact h.flushState force minute
  | writeBucket row =>
    simp only [atomic]
    split_ifs
    · exact ⟨parts, pending, h.samples, h.taken, h.holds⟩
    · exact hsame
  | currentBucket => exact ⟨parts, pending, h.samples, h.taken, h.holds⟩

theorem partitioned_run {acts : List (Action Oracle Request)} {c : Config State Instr}
    (he : Runs.exec machine.step init acts = some c) : Partitioned c.global := by
  refine machine.invariant (J := fun c => Partitioned c.global) ?_ ?_ ?_ ?_ he
  · exact fun _ _ h => h
  · intro c i ins rest o out h _ hout
    cases hout
    exact partitioned_step ins h
  · intro c g _ hg
    cases hg
  · exact ⟨[], [], rfl, .nil, rfl, rfl, by simp, by simp⟩

def pendingRow (pending : List Sample) : Option MetricRow :=
  pending.getLast?.map fun s => ⟨s.time, mean (pending.map Sample.values)⟩

theorem Holds.currentBucket {st : SysState} {pending : List Sample} (h : Holds st pending) :
    st.currentBucket = pendingRow pending := by
  rcases List.eq_nil_or_concat' pending with rfl | ⟨before, s, rfl⟩
  · have hn : st.n = 0 := h.n
    rw [SysState.currentBucket, if_pos hn]
    rfl
  · have hlast : (before ++ [s]).getLast? = some s := List.getLast?_concat
    rw [SysState.currentBucket, if_neg (by simp [h.n]), h.latest s hlast, h.values, pendingRow,
      hlast, Option.map_some]

/-- Every recorded sample is in exactly one row or still pending: the rows cut the samples in
order into parts, each of one minute and not empty, and are their means. `currentBucket` is the
mean of what is pending, and changes nothing. -/
theorem samples_averaged_once (acts : List (Action Oracle Request)) (c : Config State Instr)
    (he : Runs.exec machine.step init acts = some c) : ∃ parts pending,
      c.global.samples = parts.flatten ++ pending ∧
      List.Forall₂ MadeOf c.global.taken parts ∧
      c.global.st.n = pending.length ∧
      (∀ col, c.global.st.sum col = ((pending.map Sample.values).map (· col)).sum) ∧
      (∀ s ∈ pending, s.minute = c.global.st.bucketTS) ∧
      ∀ i o rest, c.tasks[i]? = some (.currentBucket :: rest) →
        machine.step c (.run i o) =
          some ⟨{ c.global with answers := c.global.answers ++ [pendingRow pending] },
            c.tasks.set i rest⟩ := by
  obtain ⟨parts, pending, h⟩ := partitioned_run he
  refine ⟨parts, pending, h.samples, h.taken, h.holds.n, fun col => congrFun h.holds.sum col,
    h.holds.minute, ?_⟩
  intro i o rest hi
  simp only [Machine.step, hi]
  rw [← h.holds.currentBucket]
  rfl

def backwardsRun : List (Action Oracle Request) :=
  [.start (.record (Bucket.sample 10)), .start (.record (Bucket.sample 20)),
    .start (.record (Bucket.sample 40)), .start .currentBucket, .start (.flush true),
    .run 0 ⟨60, true, true⟩, .run 0 ⟨60, true, true⟩, .run 0 ⟨60, true, true⟩,
    .run 1 ⟨61, true, true⟩, .run 1 ⟨61, true, true⟩, .run 1 ⟨61, true, true⟩,
    .run 2 ⟨59, true, true⟩, .run 2 ⟨59, true, true⟩, .run 2 ⟨59, true, true⟩,
    .run 4 ⟨59, true, true⟩, .run 2 ⟨59, true, true⟩]

def final (acts : List (Action Oracle Request)) : Config State Instr :=
  (Runs.exec machine.step init acts).getD init

theorem samples_averaged_once_backwards :
    (final backwardsRun).global.samples.map Sample.time = [60, 61, 59] ∧
      (final backwardsRun).global.taken.map MetricRow.ts = [60] ∧
      ∃ parts pending, (final backwardsRun).global.samples = parts.flatten ++ pending ∧
        List.Forall₂ MadeOf (final backwardsRun).global.taken parts ∧
        (final backwardsRun).global.st.n = pending.length := by
  have hrun : (Runs.exec machine.step init backwardsRun).isSome := by decide +kernel
  obtain ⟨parts, pending, hsamples, htaken, hn, -⟩ :=
    samples_averaged_once backwardsRun (final backwardsRun) (Runs.exec_getD hrun init)
  exact ⟨by decide +kernel, by decide +kernel, parts, pending, hsamples, htaken, hn⟩

end Lotse.BucketParts
