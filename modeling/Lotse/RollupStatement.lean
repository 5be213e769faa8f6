import Mathlib.Data.List.Dedup
import Lotse.MetricTable

set_option autoImplicit false

/-!
# The statement of `Rollup`

`Rollup` as the database executes it: the rows of the window are selected, grouped by system
and `(ts / bucket) * bucket`, and one row for each group is inserted or replaces the row with
its key. Timestamps and divisions are those of 64-bit integers, which round towards zero.
`Lotse.MetricTable` has the same call bucket by bucket.
-/
namespace Lotse.RollupStatement
open Samples MetricTable

structure Row where
  sys : ℕ+
  res : Res
  ts : ℤ
  values : Values

structure RowKey where
  sys : ℕ+
  res : Res
  ts : ℤ
  deriving DecidableEq

def Row.key (r : Row) : RowKey := ⟨r.sys, r.res, r.ts⟩

/-- The rows of the table: the key is primary, and times are not before 1970. -/
structure Metrics where
  rows : List Row
  keys : (rows.map Row.key).Nodup
  times : ∀ r ∈ rows, 0 ≤ r.ts

def metricCols : List MetricCol :=
  [.cpu, .memUsed, .memTotal, .swapUsed, .swapTotal, .diskUsed, .diskTotal, .diskRead, .diskWrite,
    .netRx, .netTx, .load1, .load5, .load15]

def colName : MetricCol → String
  | .cpu => "cpu"
  | .memUsed => "mem_used"
  | .memTotal => "mem_total"
  | .swapUsed => "swap_used"
  | .swapTotal => "swap_total"
  | .diskUsed => "disk_used"
  | .diskTotal => "disk_total"
  | .diskRead => "disk_read"
  | .diskWrite => "disk_write"
  | .netRx => "net_rx"
  | .netTx => "net_tx"
  | .load1 => "load1"
  | .load5 => "load5"
  | .load15 => "load15"

def maxNames : List String := ["mem_total", "swap_total", "disk_total"]

inductive Fn where
  | avg
  | max
  deriving DecidableEq

def aggs : List (Fn × MetricCol) :=
  metricCols.map fun c => (if colName c ∈ maxNames then .max else .avg, c)

def Fn.eval (fn : Fn) (xs : List ℚ) : ℚ :=
  match fn with
  | .avg => average xs
  | .max => xs.max?.getD 0

/-- The values of a group, column by column of the `INSERT`. -/
def groupValues (rows : List Values) : Values := fun c =>
  match (metricCols.zip aggs).find? (·.1 = c) with
  | some (_, fn, source) => fn.eval (rows.map (· source))
  | none => 0

/-- The arguments of `Rollup`: a resolution above one minute, the window in nanoseconds and the
time in seconds. -/
structure Call where
  res : Res
  window : ℤ
  now : ℤ
  coarse : res ≠ .res1

def int64 (n : ℤ) : ℤ := n.bmod (2 ^ 64)

def Call.bucket (q : Call) : ℤ := MetricTable.bucket q.res

def bucketOf (bucket ts : ℤ) : ℤ := ts.tdiv bucket * bucket

def Call.until (q : Call) : ℤ := bucketOf q.bucket q.now

def Call.since (q : Call) : ℤ := bucketOf q.bucket (int64 (q.until - q.window.tdiv (10 ^ 9)))

variable (systems : ℕ+ → Bool)

def selected (q : Call) (rows : List Row) : List Row :=
  rows.filter fun r => systems r.sys ∧ r.res = .res1 ∧ q.since ≤ r.ts ∧ r.ts < q.until

def groupKey (q : Call) (r : Row) : RowKey := ⟨r.sys, q.res, bucketOf q.bucket r.ts⟩

def groups (q : Call) (rows : List Row) : List Row :=
  let chosen := selected systems q rows
  (chosen.map (groupKey q)).dedup.map fun k =>
    ⟨k.sys, k.res, k.ts, groupValues ((chosen.filter fun r => groupKey q r = k).map Row.values)⟩

def replace (rows : List Row) (r : Row) : List Row := Rows.erase Row.key r.key rows ++ [r]

def rollupRows (q : Call) (rows : List Row) : List Row :=
  (groups systems q rows).foldl replace rows

theorem find_agg (c : MetricCol) : (metricCols.zip aggs).find? (·.1 = c) =
    some (c, if maxCols c then .max else .avg, c) := by
  cases c <;> decide

theorem groupValues_eq (rows : List Values) : groupValues rows = aggregate rows := by
  funext c
  rw [groupValues, find_agg, aggregate]
  cases maxCols c <;> rfl

section buckets
variable {q : Call} {ts a : ℤ}

theorem Call.bucket_pos (q : Call) : 0 < q.bucket := by
  unfold Call.bucket MetricTable.bucket
  cases q.res <;> decide

theorem dvd_bucketOf (bucket ts : ℤ) : bucket ∣ bucketOf bucket ts := Dvd.intro_left _ rfl

theorem bucketOf_le (hts : 0 ≤ ts) : bucketOf q.bucket ts ≤ ts := by
  rw [bucketOf, Int.tdiv_eq_ediv_of_nonneg hts]
  exact Int.ediv_mul_le ts q.bucket_pos.ne'

theorem lt_bucketOf_add (hts : 0 ≤ ts) : ts < bucketOf q.bucket ts + q.bucket := by
  rw [bucketOf, Int.tdiv_eq_ediv_of_nonneg hts]
  have hlt := Int.lt_ediv_add_one_mul_self ts q.bucket_pos
  linarith

theorem lt_iff_bucketOf_lt (hts : 0 ≤ ts) (ha : q.bucket ∣ a) : ts < a ↔ bucketOf q.bucket ts < a := by
  constructor
  · exact fun h => (bucketOf_le hts).trans_lt h
  · intro h
    obtain ⟨m, rfl⟩ := ha
    obtain ⟨n, hn⟩ := dvd_bucketOf q.bucket ts
    have hlt := lt_bucketOf_add (q := q) hts
    rw [hn] at h hlt
    have hnm : n + 1 ≤ m := lt_of_mul_lt_mul_left h q.bucket_pos.le
    nlinarith [q.bucket_pos]

theorem le_iff_le_bucketOf (hts : 0 ≤ ts) (ha : q.bucket ∣ a) : a ≤ ts ↔ a ≤ bucketOf q.bucket ts := by
  rw [← not_lt, ← not_lt, lt_iff_bucketOf_lt hts ha]

theorem bucketOf_eq_iff (hts : 0 ≤ ts) (ha : q.bucket ∣ a) :
    bucketOf q.bucket ts = a ↔ a ≤ ts ∧ ts < a + q.bucket := by
  rw [le_iff_le_bucketOf hts ha, lt_iff_bucketOf_lt hts (dvd_add ha dvd_rfl)]
  constructor
  · intro h
    have hpos := q.bucket_pos
    omega
  · rintro ⟨hle, hlt⟩
    obtain ⟨m, rfl⟩ := ha
    obtain ⟨n, hn⟩ := dvd_bucketOf q.bucket ts
    rw [hn] at hle hlt ⊢
    have hmn : m ≤ n := le_of_mul_le_mul_left hle q.bucket_pos
    have hnm : n < m + 1 := by
      apply lt_of_mul_lt_mul_left _ q.bucket_pos.le
      linarith
    rw [show n = m by omega]

theorem Call.dvd_since (q : Call) : q.bucket ∣ q.since := dvd_bucketOf _ _

theorem Call.dvd_until (q : Call) : q.bucket ∣ q.until := dvd_bucketOf _ _

end buckets

def inBucket (sys : ℕ+) (b len : ℤ) (r : Row) : Bool :=
  r.sys = sys ∧ r.res = .res1 ∧ b ≤ r.ts ∧ r.ts < b + len

def minuteRows (rows : List Row) (sys : ℕ+) (b len : ℤ) : List Values :=
  (rows.filter (inBucket sys b len)).map Row.values

structure Covers (q : Call) (rows : List Row) (k : RowKey) : Prop where
  res : k.res = q.res
  sys : systems k.sys
  start : q.bucket ∣ k.ts
  window : q.since ≤ k.ts ∧ k.ts < q.until
  rows : minuteRows rows k.sys k.ts q.bucket ≠ []

variable {systems}

/-- Window and bucket agree: the rows of the group are all rows of its bucket. -/
theorem selected_group {q : Call} {rows : List Row} (htimes : ∀ r ∈ rows, 0 ≤ r.ts) {k : RowKey}
    (hres : k.res = q.res) (hsys : systems k.sys) (hstart : q.bucket ∣ k.ts)
    (hwindow : q.since ≤ k.ts ∧ k.ts < q.until) :
    ((selected systems q rows).filter fun r => groupKey q r = k) =
      rows.filter (inBucket k.sys k.ts q.bucket) := by
  rw [selected, List.filter_filter]
  apply List.filter_congr
  intro r hr
  have hts := htimes r hr
  have hbucket := bucketOf_eq_iff (q := q) hts hstart
  rw [Bool.and_eq_decide, inBucket]
  apply decide_eq_decide.2
  simp only [decide_eq_true_eq]
  constructor
  · rintro ⟨hkey, -, hr1, -, -⟩
    subst hkey
    exact ⟨rfl, hr1, hbucket.1 rfl⟩
  · rintro ⟨hrs, hr1, hin⟩
    have hb := hbucket.2 hin
    refine ⟨?_, by rwa [hrs], hr1, ?_, ?_⟩
    · rw [groupKey, hb, hrs, ← hres]
    · rw [le_iff_le_bucketOf hts q.dvd_since, hb]
      exact hwindow.1
    · rw [lt_iff_bucketOf_lt hts q.dvd_until, hb]
      exact hwindow.2

theorem mem_groupKeys_iff {q : Call} {rows : List Row} (htimes : ∀ r ∈ rows, 0 ≤ r.ts) {k : RowKey} :
    k ∈ (selected systems q rows).map (groupKey q) ↔ Covers systems q rows k := by
  constructor
  · intro h
    obtain ⟨r, hr, rfl⟩ := List.mem_map.1 h
    have hsel := (List.mem_filter.1 hr).2
    have hmem := (List.mem_filter.1 hr).1
    simp only [decide_eq_true_eq] at hsel
    obtain ⟨hsys, hr1, hsince, huntil⟩ := hsel
    have hts := htimes r hmem
    refine ⟨rfl, hsys, dvd_bucketOf _ _, ⟨?_, ?_⟩, ?_⟩
    · exact (le_iff_le_bucketOf hts q.dvd_since).1 hsince
    · exact (lt_iff_bucketOf_lt hts q.dvd_until).1 huntil
    · have hin := (bucketOf_eq_iff (q := q) hts (dvd_bucketOf _ _)).1 rfl
      refine List.ne_nil_of_mem (List.mem_map_of_mem (List.mem_filter.2 ⟨hmem, ?_⟩))
      simpa [inBucket, groupKey] using ⟨hr1, hin⟩
  · intro h
    obtain ⟨v, hv⟩ := List.exists_mem_of_ne_nil _ h.rows
    obtain ⟨r, hr, rfl⟩ := List.mem_map.1 hv
    rw [← selected_group htimes h.res h.sys h.start h.window] at hr
    obtain ⟨hsel, hkey⟩ := List.mem_filter.1 hr
    simp only [decide_eq_true_eq] at hkey
    exact List.mem_map.2 ⟨r, hsel, hkey⟩

theorem groups_eq {q : Call} {rows : List Row} (htimes : ∀ r ∈ rows, 0 ≤ r.ts) :
    groups systems q rows = ((selected systems q rows).map (groupKey q)).dedup.map fun k =>
      ⟨k.sys, k.res, k.ts, aggregate (minuteRows rows k.sys k.ts q.bucket)⟩ := by
  apply List.map_congr_left
  intro k hk
  have hcovers := (mem_groupKeys_iff htimes).1 (List.mem_dedup.1 hk)
  rw [selected_group htimes hcovers.res hcovers.sys hcovers.start hcovers.window,
    groupValues_eq, minuteRows]

theorem groups_keys (q : Call) (rows : List Row) :
    (groups systems q rows).map Row.key = ((selected systems q rows).map (groupKey q)).dedup := by
  rw [groups, List.map_map]
  exact List.map_id _

theorem lookup_replace (k : RowKey) (rows : List Row) (r : Row) :
    Rows.lookup Row.key k (replace rows r) = if k = r.key then some r
      else Rows.lookup Row.key k rows := by
  unfold replace
  split_ifs with hk
  · subst hk
    exact Rows.lookup_append_self (Rows.lookup_erase_self r.key rows)
  · rw [Rows.lookup_append_ne (Ne.symm hk), Rows.lookup_erase_ne hk]

theorem lookup_replaceAll (k : RowKey) {new : List Row} (hnew : (new.map Row.key).Nodup)
    (rows : List Row) : Rows.lookup Row.key k (new.foldl replace rows) =
      (Rows.lookup Row.key k new).or (Rows.lookup Row.key k rows) := by
  induction new generalizing rows with
  | nil => rfl
  | cons r new ih =>
    rw [List.map_cons, List.nodup_cons] at hnew
    rw [List.foldl_cons, ih hnew.2, lookup_replace]
    by_cases hk : k = r.key
    · have hnone : Rows.lookup Row.key k new = none := by
        rw [Rows.lookup_eq_none]
        intro n hn he
        exact hnew.1 (List.mem_map.2 ⟨n, hn, he.trans hk⟩)
      rw [hnone, if_pos hk, Option.none_or]
      simp [Rows.lookup, hk]
    · rw [if_neg hk]
      simp [Rows.lookup, Ne.symm hk]

theorem nodup_replace {rows : List Row} (h : (rows.map Row.key).Nodup) (r : Row) :
    ((replace rows r).map Row.key).Nodup :=
  Rows.nodup_append (h.sublist (List.filter_sublist.map _)) (Rows.lookup_erase_self r.key rows)

theorem filter_replaceAll {p : Row → Bool} {new : List Row}
    (hnew : ∀ n ∈ new, ∀ r : Row, r.key = n.key → p r = false) (rows : List Row) :
    (new.foldl replace rows).filter p = rows.filter p := by
  induction new generalizing rows with
  | nil => rfl
  | cons n new ih =>
    have hn := hnew n List.mem_cons_self
    have hone : [n].filter p = [] := by simp [hn n rfl]
    rw [List.foldl_cons, ih (fun m hm => hnew m (List.mem_cons_of_mem n hm)), replace,
      List.filter_append, hone, List.append_nil, Rows.erase, List.filter_filter]
    apply List.filter_congr
    intro r _
    by_cases hr : r.key = n.key
    · simp [hn r hr]
    · simp [hr]

theorem forall_replaceAll {P : Row → Prop} {new rows : List Row} (hnew : ∀ n ∈ new, P n)
    (hrows : ∀ r ∈ rows, P r) : ∀ r ∈ new.foldl replace rows, P r := by
  induction new generalizing rows with
  | nil => exact hrows
  | cons n new ih =>
    refine ih (fun m hm => hnew m (List.mem_cons_of_mem n hm)) ?_
    intro r hr
    rcases List.mem_append.1 hr with hr | hr
    · exact hrows r (List.mem_filter.1 hr).1
    · rw [List.mem_singleton.1 hr]
      exact hnew n List.mem_cons_self

theorem nodup_replaceAll {new rows : List Row} (h : (rows.map Row.key).Nodup) :
    ((new.foldl replace rows).map Row.key).Nodup := by
  induction new generalizing rows with
  | nil => exact h
  | cons n new ih => exact ih (nodup_replace h n)

theorem groups_times {q : Call} {rows : List Row} (htimes : ∀ r ∈ rows, 0 ≤ r.ts) :
    ∀ n ∈ groups systems q rows, 0 ≤ n.ts := by
  intro n hn
  have hkey : n.key ∈ ((selected systems q rows).map (groupKey q)).dedup := by
    rw [← groups_keys]
    exact List.mem_map_of_mem hn
  obtain ⟨r, hr, hrn⟩ := List.mem_map.1 (List.mem_dedup.1 hkey)
  have hts : bucketOf q.bucket r.ts = n.ts := congrArg RowKey.ts hrn
  rw [← hts]
  exact mul_nonneg (Int.tdiv_nonneg (htimes r (List.mem_filter.1 hr).1) q.bucket_pos.le)
    q.bucket_pos.le

variable (systems) in
def Metrics.rollup (t : Metrics) (q : Call) : Metrics where
  rows := rollupRows systems q t.rows
  keys := nodup_replaceAll t.keys
  times := forall_replaceAll (groups_times t.times) t.times

def Metrics.value (t : Metrics) (k : RowKey) : Option Values :=
  (Rows.lookup Row.key k t.rows).map Row.values

variable (systems) in
def Metrics.rollups (t : Metrics) (calls : List Call) : Metrics := calls.foldl (Metrics.rollup systems) t

theorem groups_key_nodup (systems : ℕ+ → Bool) (q : Call) (rows : List Row) :
    ((groups systems q rows).map Row.key).Nodup := by
  rw [groups_keys]
  exact List.nodup_dedup _

theorem mem_groups_iff (t : Metrics) (q : Call) (n : Row) :
    n ∈ groups systems q t.rows ↔ Covers systems q t.rows n.key ∧
      n.values = aggregate (minuteRows t.rows n.sys n.ts q.bucket) := by
  rw [groups_eq t.times, List.mem_map]
  constructor
  · rintro ⟨k, hk, rfl⟩
    exact ⟨(mem_groupKeys_iff t.times).1 (List.mem_dedup.1 hk), rfl⟩
  · rintro ⟨hcovers, hvalues⟩
    refine ⟨n.key, List.mem_dedup.2 ((mem_groupKeys_iff t.times).2 hcovers), ?_⟩
    cases n
    simp only at hvalues
    rw [hvalues]
    rfl

theorem value_rollup_of_covers {t : Metrics} {q : Call} {k : RowKey}
    (h : Covers systems q t.rows k) :
    (t.rollup systems q).value k = some (aggregate (minuteRows t.rows k.sys k.ts q.bucket)) := by
  have hmem : (⟨k.sys, k.res, k.ts, aggregate (minuteRows t.rows k.sys k.ts q.bucket)⟩ : Row) ∈
      groups systems q t.rows := (mem_groups_iff t q _).2 ⟨h, rfl⟩
  obtain ⟨n, hn⟩ : ∃ n, Rows.lookup Row.key k (groups systems q t.rows) = some n :=
    Rows.exists_lookup hmem
  have hvalues := ((mem_groups_iff t q n).1 (Rows.lookup_mem hn)).2
  have hkey : n.key = k := Rows.lookup_key hn
  change (Rows.lookup Row.key k ((groups systems q t.rows).foldl replace t.rows)).map Row.values = _
  rw [lookup_replaceAll k (groups_key_nodup systems q t.rows), hn, Option.some_or, Option.map_some,
    hvalues]
  subst hkey
  rfl

theorem value_rollup_of_not {t : Metrics} {q : Call} {k : RowKey}
    (h : ¬ Covers systems q t.rows k) : (t.rollup systems q).value k = t.value k := by
  have hnone : Rows.lookup Row.key k (groups systems q t.rows) = none := by
    rw [Rows.lookup_eq_none]
    rintro n hn rfl
    exact h ((mem_groups_iff t q n).1 hn).1
  change (Rows.lookup Row.key k ((groups systems q t.rows).foldl replace t.rows)).map Row.values = _
  rw [lookup_replaceAll k (groups_key_nodup systems q t.rows), hnone, Option.none_or]
  rfl

theorem Covers.complete {t : Metrics} {q : Call} {k : RowKey} (h : Covers systems q t.rows k) :
    k.ts + q.bucket ≤ q.now := by
  obtain ⟨v, hv⟩ := List.exists_mem_of_ne_nil _ h.rows
  obtain ⟨r, hr, -⟩ := List.mem_map.1 hv
  obtain ⟨hmem, hin⟩ := List.mem_filter.1 hr
  simp only [inBucket, decide_eq_true_eq] at hin
  have hts := t.times r hmem
  have huntil : r.ts < q.until := by
    rw [lt_iff_bucketOf_lt hts q.dvd_until, (bucketOf_eq_iff hts h.start).2 hin.2.2]
    exact h.window.2
  have hnow : 0 ≤ q.now := by
    by_contra hneg
    have hdiv := Int.tdiv_nonneg (show 0 ≤ -q.now by omega) q.bucket_pos.le
    rw [Int.neg_tdiv] at hdiv
    have hle : q.until ≤ 0 := mul_nonpos_of_nonpos_of_nonneg (by omega) q.bucket_pos.le
    omega
  have hstart : k.ts + q.bucket ≤ q.until := by
    obtain ⟨m, hm⟩ := h.start
    obtain ⟨n, hn⟩ := q.dvd_until
    have hlt := h.window.2
    rw [hm, hn] at hlt ⊢
    have hmn : m + 1 ≤ n := lt_of_mul_lt_mul_left hlt q.bucket_pos.le
    nlinarith [q.bucket_pos]
  exact hstart.trans (bucketOf_le hnow)

theorem minuteRows_rollup (t : Metrics) (q : Call) (sys : ℕ+) (b len : ℤ) :
    minuteRows (t.rollup systems q).rows sys b len = minuteRows t.rows sys b len := by
  refine congrArg (List.map Row.values) (filter_replaceAll ?_ t.rows)
  intro n hn r hr
  have hres : n.res = q.res := ((mem_groups_iff t q n).1 hn).1.res
  have hne : r.res ≠ .res1 := by
    rw [show r.res = n.res from congrArg RowKey.res hr, hres]
    exact q.coarse
  simp [inBucket, hne]

theorem covers_rollup (t : Metrics) (q q' : Call) (k : RowKey) :
    Covers systems q' (t.rollup systems q).rows k ↔ Covers systems q' t.rows k := by
  constructor
  · rintro ⟨hres, hsys, hstart, hwindow, hrows⟩
    exact ⟨hres, hsys, hstart, hwindow, by rwa [minuteRows_rollup] at hrows⟩
  · rintro ⟨hres, hsys, hstart, hwindow, hrows⟩
    exact ⟨hres, hsys, hstart, hwindow, by rwa [minuteRows_rollup]⟩

/-- After any calls: a bucket that one of them covers has its aggregate, every other row is as it
was. The resolution of the key says which bucket length that is. -/
theorem value_rollups (t : Metrics) (calls : List Call) (k : RowKey) :
    ((∃ q ∈ calls, Covers systems q t.rows k) → (t.rollups systems calls).value k =
      some (aggregate (minuteRows t.rows k.sys k.ts (MetricTable.bucket k.res)))) ∧
    ((∀ q ∈ calls, ¬ Covers systems q t.rows k) →
      (t.rollups systems calls).value k = t.value k) := by
  induction calls generalizing t with
  | nil => simp [Metrics.rollups]
  | cons q calls ih =>
    have htail := ih (t.rollup systems q)
    simp only [covers_rollup, minuteRows_rollup] at htail
    rw [Metrics.rollups, List.foldl_cons, ← Metrics.rollups]
    constructor
    · intro hcovered
      by_cases hlater : ∃ q' ∈ calls, Covers systems q' t.rows k
      · exact htail.1 hlater
      · have hfirst : Covers systems q t.rows k := by
          obtain ⟨q', hq', hc⟩ := hcovered
          rcases List.mem_cons.1 hq' with rfl | hq'
          · exact hc
          · exact absurd ⟨q', hq', hc⟩ hlater
        rw [htail.2 (fun q' hq' hc => hlater ⟨q', hq', hc⟩), value_rollup_of_covers hfirst,
          Call.bucket, ← hfirst.res]
    · intro hnone
      rw [htail.2 (fun q' hq' => hnone q' (List.mem_cons_of_mem q hq')),
        value_rollup_of_not (hnone q List.mem_cons_self)]

/-- `Rollup` aggregates whole and complete buckets, changes nothing else, and calls with any
windows and times can be repeated and swapped. -/
theorem rollup_whole_buckets (systems : ℕ+ → Bool) (t : Metrics) (q : Call) :
    (∀ sys b, systems sys → q.bucket ∣ b → q.since ≤ b → b < q.until →
      minuteRows t.rows sys b q.bucket ≠ [] → (t.rollup systems q).value ⟨sys, q.res, b⟩ =
        some (aggregate (minuteRows t.rows sys b q.bucket))) ∧
    (∀ n ∈ groups systems q t.rows, n.res = q.res ∧ q.bucket ∣ n.ts ∧ n.ts + q.bucket ≤ q.now ∧
      n.values = aggregate (minuteRows t.rows n.sys n.ts q.bucket)) ∧
    (∀ k, k ∉ (groups systems q t.rows).map Row.key →
      (t.rollup systems q).value k = t.value k) ∧
    ∀ calls calls' : List Call, (∀ c, c ∈ calls ↔ c ∈ calls') →
      (t.rollups systems calls).value = (t.rollups systems calls').value := by
  refine ⟨?_, ?_, ?_, ?_⟩
  · intro sys b hsys hstart hsince huntil hrows
    exact value_rollup_of_covers (k := ⟨sys, q.res, b⟩)
      ⟨rfl, hsys, hstart, ⟨hsince, huntil⟩, hrows⟩
  · intro n hn
    obtain ⟨hcovers, hvalues⟩ := (mem_groups_iff t q n).1 hn
    exact ⟨hcovers.res, hcovers.start, hcovers.complete, hvalues⟩
  · intro k hk
    refine value_rollup_of_not fun hcovers => hk ?_
    rw [groups_keys]
    exact List.mem_dedup.2 ((mem_groupKeys_iff t.times).2 hcovers)
  · intro calls calls' hsame
    funext k
    by_cases hcovered : ∃ q ∈ calls, Covers systems q t.rows k
    · have hcovered' : ∃ q ∈ calls', Covers systems q t.rows k := by
        obtain ⟨q, hq, hc⟩ := hcovered
        exact ⟨q, (hsame q).1 hq, hc⟩
      rw [(value_rollups t calls k).1 hcovered, (value_rollups t calls' k).1 hcovered']
    · rw [(value_rollups t calls k).2 (fun q hq hc => hcovered ⟨q, hq, hc⟩),
        (value_rollups t calls' k).2 (fun q hq hc => hcovered ⟨q, (hsame q).2 hq, hc⟩)]

def twoMinutes : Metrics where
  rows := [⟨1, .res1, 600, fun _ => 1⟩, ⟨1, .res1, 660, fun _ => 3⟩]
  keys := by decide
  times := by simp

def atItsEnd : Call := ⟨.res10, 7200 * 10 ^ 9, 1200, by decide⟩

theorem rollup_whole_buckets_two_minutes :
    (twoMinutes.rollup (fun _ => true) atItsEnd).value ⟨1, .res10, 600⟩ =
      some (aggregate [fun _ => 1, fun _ => 3]) :=
  (rollup_whole_buckets (fun _ => true) twoMinutes atItsEnd).1 1 600 rfl (by decide) (by decide)
    (by decide) (by decide +kernel)

def Metrics.toTable (t : Metrics) : Table := fun sys r ts => t.value ⟨sys, r, ts⟩

theorem average_perm {xs ys : List ℚ} (h : xs.Perm ys) : average xs = average ys := by
  rw [average, average, h.sum_eq, h.length_eq]

theorem max?_perm {xs ys : List ℚ} (h : xs.Perm ys) : xs.max? = ys.max? := by
  ext a
  rw [List.max?_eq_some_iff, List.max?_eq_some_iff]
  simp [h.mem_iff]

theorem aggregate_perm {rows rows' : List Values} (h : rows.Perm rows') :
    aggregate rows = aggregate rows' := by
  funext c
  rw [aggregate, aggregate, max?_perm (h.map _), average_perm (h.map _)]

theorem Metrics.lookup_key (t : Metrics) {r : Row} (hr : r ∈ t.rows) :
    Rows.lookup Row.key r.key t.rows = some r := by
  obtain ⟨q, hq⟩ := Rows.exists_lookup (k := Row.key) hr
  rw [hq, List.inj_on_of_nodup_map t.keys (Rows.lookup_mem hq) hr (Rows.lookup_key hq)]

theorem minuteRows_perm (t : Metrics) (sys : ℕ+) (b len : ℕ) :
    (minuteRows t.rows sys b len).Perm (rowsIn (t.toTable sys .res1) b len) := by
  let row (i : ℕ) : Option Row := Rows.lookup Row.key ⟨sys, .res1, (b + i : ℕ)⟩ t.rows
  have hrow : rowsIn (t.toTable sys .res1) b len = ((List.range len).filterMap row).map Row.values := by
    rw [List.map_filterMap]
    rfl
  rw [hrow, minuteRows]
  apply List.Perm.map
  rw [List.perm_ext_iff_of_nodup (t.keys.of_map.filter _)]
  · intro r
    rw [List.mem_filter, List.mem_filterMap]
    constructor
    · rintro ⟨hr, hin⟩
      simp only [inBucket, decide_eq_true_eq] at hin
      obtain ⟨rfl, hres, hle, hlt⟩ := hin
      refine ⟨(r.ts - b).toNat, List.mem_range.2 (by omega), ?_⟩
      have hkey : (⟨r.sys, .res1, (b + (r.ts - b).toNat : ℕ)⟩ : RowKey) = r.key := by
        rw [Row.key, hres, RowKey.mk.injEq]
        exact ⟨rfl, rfl, by omega⟩
      rw [← t.lookup_key hr, ← hkey]
    · rintro ⟨i, hi, hr⟩
      have hkey := Rows.lookup_key hr
      rw [Row.key, RowKey.mk.injEq] at hkey
      have hlt := List.mem_range.1 hi
      refine ⟨Rows.lookup_mem hr, ?_⟩
      simp only [inBucket, decide_eq_true_eq]
      exact ⟨hkey.1, hkey.2.1, by omega, by omega⟩
  · refine List.nodup_range.filterMap ?_
    intro i j r hi hj
    have hkey := (Rows.lookup_key hi).symm.trans (Rows.lookup_key hj)
    rw [RowKey.mk.injEq] at hkey
    omega

section refinement
variable {res : Res} {window now : ℕ}

theorem int64_of_small {n : ℤ} (h : -2 ^ 63 ≤ n) (h' : n < 2 ^ 63) : int64 n = n := by
  rw [int64]
  exact Int.bmod_eq_of_le (by omega) (by omega)

def secondsCall (res : Res) (hres : res ≠ .res1) (window now : ℕ) : Call :=
  ⟨res, (window : ℤ) * 10 ^ 9, now, hres⟩

theorem secondsCall_until (hres : res ≠ .res1) :
    (secondsCall res hres window now).until = rollupUntil res now := by
  change (now : ℤ).tdiv (MetricTable.bucket res) * MetricTable.bucket res = _
  rw [Int.tdiv_eq_ediv_of_nonneg (Int.natCast_nonneg now), rollupUntil]
  push_cast
  rfl

theorem secondsCall_since_le (hres : res ≠ .res1) (hnow : now < 2 ^ 62) (hwindow : window < 2 ^ 62)
    (b : ℕ) : (secondsCall res hres window now).since ≤ b ↔ rollupSince res window now ≤ b := by
  have hbucket : (0 : ℤ) < MetricTable.bucket res := (secondsCall res hres window now).bucket_pos
  have hsmall : rollupUntil res now ≤ now := Nat.div_mul_le_self _ _
  have hseconds : (secondsCall res hres window now).window.tdiv (10 ^ 9) = window :=
    Int.mul_tdiv_cancel _ (by decide)
  rw [Call.since, secondsCall_until, hseconds, int64_of_small (by omega) (by omega), rollupSince]
  change bucketOf (MetricTable.bucket res) _ ≤ _ ↔ _
  by_cases hlong : window ≤ rollupUntil res now
  · rw [bucketOf, Int.tdiv_eq_ediv_of_nonneg (by omega), ← Nat.cast_sub hlong]
    norm_cast
  · have hdiv := Int.tdiv_nonneg (show 0 ≤ -((rollupUntil res now : ℤ) - window) by omega) hbucket.le
    rw [Int.neg_tdiv] at hdiv
    have hle : bucketOf (MetricTable.bucket res) ((rollupUntil res now : ℤ) - window) ≤ 0 :=
      mul_nonpos_of_nonpos_of_nonneg (by omega) hbucket.le
    have hzero : rollupUntil res now - window = 0 := by omega
    rw [hzero, Nat.zero_div, Nat.zero_mul]
    exact iff_of_true (by omega) (Nat.zero_le b)

/-- The statement does what `MetricTable.rollup` says of every bucket. -/
theorem toTable_rollup (t : Metrics) (hres : res ≠ .res1) (hnow : now < 2 ^ 62)
    (hwindow : window < 2 ^ 62) :
    (t.rollup systems (secondsCall res hres window now)).toTable =
      MetricTable.rollup systems t.toTable res window now := by
  funext sys r b
  have hperm := minuteRows_perm t sys b (MetricTable.bucket res)
  by_cases hr : r = res
  · subst hr
    have hcovers : Covers systems (secondsCall r hres window now) t.rows ⟨sys, r, b⟩ ↔
        systems sys ∧ b % MetricTable.bucket r = 0 ∧ inWindow r window now b ∧
          ¬ (rowsIn (t.toTable sys .res1) b (MetricTable.bucket r)).isEmpty := by
      have hstart : (secondsCall r hres window now).bucket ∣ (b : ℤ) ↔
          b % MetricTable.bucket r = 0 := by
        rw [← Nat.dvd_iff_mod_eq_zero]
        exact Int.natCast_dvd_natCast
      have hend : (b : ℤ) < (secondsCall r hres window now).until ↔ b < rollupUntil r now := by
        rw [secondsCall_until, Nat.cast_lt]
      have hrows : minuteRows t.rows sys b (MetricTable.bucket r) ≠ [] ↔
          ¬ (rowsIn (t.toTable sys .res1) b (MetricTable.bucket r)).isEmpty := by
        rw [List.isEmpty_iff, ← List.length_eq_zero_iff, ← hperm.length_eq, List.length_eq_zero_iff]
      rw [inWindow, ← hstart, ← hend, ← secondsCall_since_le hres hnow hwindow, ← hrows]
      constructor
      · rintro ⟨-, hsys, hdvd, hin, hne⟩
        exact ⟨hsys, hdvd, hin, hne⟩
      · rintro ⟨hsys, hdvd, hin, hne⟩
        exact ⟨rfl, hsys, hdvd, hin, hne⟩
    rw [rollup_res]
    by_cases hcov : Covers systems (secondsCall r hres window now) t.rows ⟨sys, r, b⟩
    · rw [if_pos (hcovers.1 hcov), Metrics.toTable, value_rollup_of_covers hcov]
      exact congrArg some (aggregate_perm hperm)
    · rw [if_neg (fun h => hcov (hcovers.2 h)), Metrics.toTable, value_rollup_of_not hcov]
      rfl
  · rw [rollup_other hr, Metrics.toTable, value_rollup_of_not fun h => hr h.res]
    rfl

end refinement

end Lotse.RollupStatement
