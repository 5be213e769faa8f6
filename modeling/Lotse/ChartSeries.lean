import Mathlib.Data.List.Sort
import Lotse.BucketParts
import Lotse.RollupStatement

set_option autoImplicit false

/-!
# The series of a chart

`getMetrics` for one system and `buildSeries`, which lays rows out as columns and marks what the
agent missed with null points. Times are exact integers.
-/
namespace Lotse.Charts
open Samples
open BucketParts (MetricRow SysState)
open MetricTable (Res)
open RollupStatement (Row RowKey colName metricCols)

/-- A value of `jsonFloat`; `none` is NaN, which is encoded as null. -/
abbrev JsonFloat : Type := Option ℚ

structure SeriesDTO where
  step : ℤ
  fromTime : ℤ
  toTime : ℤ
  t : List ℤ
  values : String → Option (List JsonFloat)

structure Columns where
  t : List ℤ
  cols : MetricCol → List JsonFloat

def Columns.append (s : Columns) (t : ℤ) (v : MetricCol → JsonFloat) : Columns :=
  ⟨s.t ++ [t], fun c => s.cols c ++ [v c]⟩

def markGap (step : ℤ) (prev : Option MetricRow) (row : MetricRow) (s : Columns) : Columns :=
  match prev with
  | some p =>
    if 0 < step ∧ row.ts - p.ts > 2 * step then s.append (p.ts + step) fun _ => none else s
  | none => s

def addRows (step : ℤ) : Option MetricRow → List MetricRow → Columns → Columns
  | _, [], s => s
  | prev, row :: rows, s =>
    addRows step (some row) rows ((markGap step prev row s).append row.ts fun c => row.values c)

def buildSeries (rows : List MetricRow) (step fromTime toTime : ℤ) : SeriesDTO :=
  let s := addRows step none rows ⟨[], fun _ => []⟩
  ⟨step, fromTime, toTime, s.t, fun name => (metricCols.find? (colName · = name)).map s.cols⟩

structure Table where
  rows : List Row
  keys : (rows.map Row.key).Nodup

def Row.toMetricRow (r : Row) : MetricRow := ⟨r.ts, r.values⟩

/-- `WHERE system_id = ? AND res = ? AND ts >= ? AND ts <= ? ORDER BY ts` -/
def queryMetrics (table : Table) (sys : ℕ+) (res : Res) (fromTime toTime : ℤ) : List MetricRow :=
  ((table.rows.filter fun r => r.sys = sys ∧ r.res = res ∧ fromTime ≤ r.ts ∧ r.ts ≤ toTime).mergeSort
    fun a b => decide (a.ts ≤ b.ts)).map Row.toMetricRow

structure Range where
  res : Res
  span : ℤ

def ranges : String → Option Range
  | "1h" => some ⟨.res1, 3600⟩
  | "24h" => some ⟨.res1, 24 * 3600⟩
  | "7d" => some ⟨.res10, 7 * 24 * 3600⟩
  | "30d" => some ⟨.res60, 30 * 24 * 3600⟩
  | "1y" => some ⟨.res60, 365 * 24 * 3600⟩
  | _ => none

def Range.step (rg : Range) : ℤ := rg.res.minutes * 60

def liveSpan : ℤ := 5 * 60

inductive Lookup where
  | found (sys : ℕ+)
  | notFound
  | failed

/-- What a request finds: the system of its path, the clock, the table or an error of the query,
and, read after the query, the state of the system. -/
structure Found where
  sys : Lookup
  now : ℤ
  table : Option Table
  state : Option SysState
  ring : List MetricRow

inductive Answer where
  | series (s : SeriesDTO)
  | error (status : ℕ) (text : String)

def internalError : Answer := .error 500 "internal error"

/-- The minute in progress goes after the stored rows of one minute. -/
def withCurrent (rows : List MetricRow) (res : Res) (current : Option MetricRow) :
    List MetricRow :=
  match current with
  | some row => if res = .res1 ∧ ∀ last ∈ rows.getLast?, last.ts < row.ts then rows ++ [row] else rows
  | none => rows

def currentBucket (state : Option SysState) : Option MetricRow :=
  state.bind SysState.currentBucket

def historyRows (table : Table) (sys : ℕ+) (rg : Range) (state : Option SysState) (now : ℤ) :
    List MetricRow :=
  withCurrent (queryMetrics table sys rg.res (now - rg.span) now) rg.res (currentBucket state)

def getMetrics (e : Found) (name : String) : Answer :=
  match e.sys with
  | .notFound => .error 404 "system not found"
  | .failed => internalError
  | .found sys =>
    if name = "live" then
      .series (buildSeries (e.ring.filter fun row => e.now - liveSpan ≤ row.ts) 0
        (e.now - liveSpan) e.now)
    else
      match ranges name with
      | none => .error 400 "range must be one of live, 1h, 24h, 7d, 30d, 1y"
      | some rg =>
        match e.table with
        | none => internalError
        | some table =>
          .series (buildSeries (historyRows table sys rg e.state e.now) rg.step
            (e.now - rg.span) e.now)

@[ext]
structure Point where
  time : ℤ
  values : MetricCol → JsonFloat

namespace Point

def ofRow (row : MetricRow) : Point := ⟨row.ts, fun c => row.values c⟩

def gap (step : ℤ) (row : MetricRow) : Point := ⟨row.ts + step, fun _ => none⟩

def IsNull (p : Point) : Prop := ∀ c ∈ metricCols, p.values c = none

instance (p : Point) : Decidable p.IsNull :=
  inferInstanceAs (Decidable (∀ c ∈ metricCols, p.values c = none))

theorem not_isNull_ofRow (row : MetricRow) : ¬ (ofRow row).IsNull := fun h =>
  Option.some_ne_none _ (h .cpu (by decide))

theorem isNull_gap (step : ℤ) (row : MetricRow) : (gap step row).IsNull := fun _ _ => rfl

end Point

/-- The series read by index: the time and the value of every column. -/
def SeriesDTO.points (s : SeriesDTO) : List Point :=
  s.t.zipIdx.map fun p => ⟨p.1, fun c => ((s.values (colName c)).bind (·[p.2]?)).join⟩

def Columns.ofPoints (ps : List Point) : Columns := ⟨ps.map Point.time, fun c => ps.map (·.values c)⟩

def marked (step : ℤ) : Option MetricRow → List MetricRow → List Point
  | _, [] => []
  | none, row :: rows => Point.ofRow row :: marked step (some row) rows
  | some p, row :: rows =>
    (if 2 * step < row.ts - p.ts then [Point.gap step p] else []) ++
      Point.ofRow row :: marked step (some row) rows

theorem Columns.append_ofPoints (ps : List Point) (p : Point) :
    (Columns.ofPoints ps).append p.time p.values = Columns.ofPoints (ps ++ [p]) := by
  simp [Columns.append, Columns.ofPoints]

section

variable {step : ℤ} (hstep : 0 < step)
include hstep

theorem addRows_ofPoints (prev : Option MetricRow) (rows : List MetricRow) (ps : List Point) :
    addRows step prev rows (.ofPoints ps) = .ofPoints (ps ++ marked step prev rows) := by
  induction rows generalizing prev ps with
  | nil => simp [addRows, marked]
  | cons row rows ih =>
    have hrow (ps : List Point) :
        addRows step (some row) rows ((Columns.ofPoints ps).append row.ts fun c => row.values c) =
          .ofPoints (ps ++ Point.ofRow row :: marked step (some row) rows) := by
      have happend := Columns.append_ofPoints ps (.ofRow row)
      rw [Point.ofRow] at happend
      rw [happend, ih, List.append_assoc, List.singleton_append, Point.ofRow]
    cases prev with
    | none => exact hrow ps
    | some p =>
      have happend := Columns.append_ofPoints ps (.gap step p)
      rw [Point.gap] at happend
      simp only [addRows, markGap, marked, hstep, true_and, gt_iff_lt]
      split_ifs with hgap
      · rw [happend, hrow, List.append_assoc, Point.gap]
      · exact hrow ps

theorem buildSeries_t (rows : List MetricRow) (fromTime toTime : ℤ) :
    (buildSeries rows step fromTime toTime).t = (marked step none rows).map Point.time :=
  congrArg Columns.t (addRows_ofPoints hstep none rows [])

theorem buildSeries_values (rows : List MetricRow) (fromTime toTime : ℤ) (c : MetricCol) :
    (buildSeries rows step fromTime toTime).values (colName c) =
      some ((marked step none rows).map (·.values c)) := by
  have hcol : metricCols.find? (colName · = colName c) = some c := by cases c <;> decide
  have hcols := congrArg Columns.cols (addRows_ofPoints hstep none rows [])
  simp only [buildSeries, hcol, Option.map_some, Option.some.injEq]
  exact congrFun hcols c

theorem points_buildSeries (rows : List MetricRow) (fromTime toTime : ℤ) :
    (buildSeries rows step fromTime toTime).points = marked step none rows := by
  refine List.ext_getElem (by simp [SeriesDTO.points, buildSeries_t hstep]) fun i hi hi' => ?_
  simp [SeriesDTO.points, buildSeries_t hstep, buildSeries_values hstep, hi']

end

def gaps (step : ℤ) (rows : List MetricRow) : List (MetricRow × MetricRow) :=
  (rows.zip rows.tail).filter fun ab => 2 * step < ab.2.ts - ab.1.ts

theorem filter_marked_rows (step : ℤ) (prev : Option MetricRow) (rows : List MetricRow) :
    (marked step prev rows).filter (fun p => !decide p.IsNull) = rows.map Point.ofRow := by
  induction rows generalizing prev with
  | nil => rfl
  | cons row rows ih =>
    have hrow := Point.not_isNull_ofRow row
    cases prev with
    | none => simp [marked, hrow, ih]
    | some p =>
      simp only [marked, List.filter_append]
      split_ifs <;> simp [Point.isNull_gap, hrow, ih]

theorem filter_marked_gaps (step : ℤ) (prev : MetricRow) (rows : List MetricRow) :
    (marked step (some prev) rows).filter (fun p => p.IsNull) =
      (gaps step (prev :: rows)).map fun ab => Point.gap step ab.1 := by
  induction rows generalizing prev with
  | nil => rfl
  | cons row rows ih =>
    have hrow := Point.not_isNull_ofRow row
    have htail : (gaps step (prev :: row :: rows)) =
        (if 2 * step < row.ts - prev.ts then [(prev, row)] else []) ++ gaps step (row :: rows) := by
      simp only [gaps, List.tail_cons, List.zip_cons_cons, List.filter_cons, decide_eq_true_eq]
      split_ifs <;> rfl
    rw [htail]
    simp only [marked, List.filter_append, List.map_append, List.filter_cons, hrow, decide_false,
      Bool.false_eq_true, if_false, ih]
    split_ifs <;> simp [Point.isNull_gap]

def Increasing (rows : List MetricRow) : Prop := rows.Pairwise fun a b => a.ts < b.ts

theorem chain_marked {step : ℤ} (hstep : 0 < step) {prev : MetricRow} {rows : List MetricRow}
    (h : (prev :: rows).IsChain fun a b => a.ts < b.ts) :
    (prev.ts :: (marked step (some prev) rows).map Point.time).IsChain (· < ·) := by
  induction rows generalizing prev with
  | nil => exact .singleton _
  | cons row rows ih =>
    rw [List.isChain_cons_cons] at h
    have hrest := ih h.2
    simp only [marked]
    split_ifs with hgap
    · refine .cons_cons ?_ (.cons_cons ?_ hrest)
      · simp only [Point.gap]
        omega
      · simp only [Point.gap, Point.ofRow]
        omega
    · exact .cons_cons h.1 hrest

theorem increasing_marked {step : ℤ} (hstep : 0 < step) {rows : List MetricRow}
    (h : Increasing rows) : ((marked step none rows).map Point.time).Pairwise (· < ·) := by
  rw [← List.isChain_iff_pairwise]
  cases rows with
  | nil => exact .nil
  | cons row rows => exact chain_marked hstep h.isChain

theorem filter_marked_none (step : ℤ) (rows : List MetricRow) :
    (marked step none rows).filter (fun p => p.IsNull) =
      (gaps step rows).map fun ab => Point.gap step ab.1 := by
  cases rows with
  | nil => rfl
  | cons row rows =>
    have hrow := Point.not_isNull_ofRow row
    rw [← filter_marked_gaps, marked, List.filter_cons_of_neg (by simpa using hrow)]

theorem mem_gaps {step : ℤ} {rows : List MetricRow} {a b : MetricRow} :
    (a, b) ∈ gaps step rows ↔
      ∃ i, rows[i]? = some a ∧ rows[i + 1]? = some b ∧ 2 * step < b.ts - a.ts := by
  rw [gaps, List.mem_filter, List.mem_iff_getElem?, decide_eq_true_eq]
  simp only [List.getElem?_zip_eq_some, List.getElem?_tail, ← and_assoc, exists_and_right]

theorem Increasing.lt {rows : List MetricRow} (h : Increasing rows) {i j : ℕ} {a b : MetricRow}
    (hij : i < j) (ha : rows[i]? = some a) (hb : rows[j]? = some b) : a.ts < b.ts := by
  obtain ⟨hi, rfl⟩ := List.getElem?_eq_some_iff.1 ha
  obtain ⟨hj, rfl⟩ := List.getElem?_eq_some_iff.1 hb
  exact List.pairwise_iff_getElem.1 h i j hi hj hij

theorem Increasing.le {rows : List MetricRow} (h : Increasing rows) {i j : ℕ} {a b : MetricRow}
    (hij : i ≤ j) (ha : rows[i]? = some a) (hb : rows[j]? = some b) : a.ts ≤ b.ts := by
  rcases hij.eq_or_lt with rfl | hlt
  · rw [Option.some.inj (ha.symm.trans hb)]
  · exact (h.lt hlt ha hb).le

theorem Increasing.between {rows : List MetricRow} (h : Increasing rows) {i j : ℕ}
    {a b a' b' : MetricRow} (ha : rows[i]? = some a) (hb : rows[i + 1]? = some b)
    (ha' : rows[j]? = some a') (hb' : rows[j + 1]? = some b') {t : ℤ} (hat : a.ts < t)
    (htb : t < b.ts) (hat' : a'.ts < t) (htb' : t < b'.ts) : i = j := by
  by_contra hne
  rcases Nat.lt_or_gt_of_ne hne with hlt | hlt
  · have := h.le hlt hb ha'
    omega
  · have := h.le hlt hb' ha
    omega

theorem mem_nulls {step : ℤ} (hstep : 0 < step) (rows : List MetricRow) (fromTime toTime : ℤ)
    {p : Point} :
    p ∈ (buildSeries rows step fromTime toTime).points ∧ p.IsNull ↔
      ∃ ab ∈ gaps step rows, Point.gap step ab.1 = p := by
  rw [points_buildSeries hstep, ← List.mem_map, ← filter_marked_none, List.mem_filter,
    decide_eq_true_eq]

theorem null_between {step : ℤ} (hstep : 0 < step) {rows : List MetricRow} (h : Increasing rows)
    (fromTime toTime : ℤ) {i : ℕ} {a b : MetricRow} (ha : rows[i]? = some a)
    (hb : rows[i + 1]? = some b) :
    (∃ p ∈ (buildSeries rows step fromTime toTime).points,
      p.IsNull ∧ a.ts < p.time ∧ p.time < b.ts) ↔ b.ts - a.ts > 2 * step := by
  constructor
  · rintro ⟨p, hp, hnull, hap, hpb⟩
    obtain ⟨⟨a', b'⟩, hab, rfl⟩ := (mem_nulls hstep rows fromTime toTime).1 ⟨hp, hnull⟩
    obtain ⟨j, ha', hb', hgap⟩ := mem_gaps.1 hab
    have hij : i = j := by
      refine h.between ha hb ha' hb' hap hpb ?_ ?_
      · simp only [Point.gap]
        omega
      · simp only [Point.gap]
        omega
    subst hij
    rw [Option.some.inj (ha.symm.trans ha'), Option.some.inj (hb.symm.trans hb')]
    exact hgap
  · intro hgap
    obtain ⟨hp, hnull⟩ := (mem_nulls hstep rows fromTime toTime).2
      ⟨(a, b), mem_gaps.2 ⟨i, ha, hb, hgap⟩, rfl⟩
    refine ⟨_, hp, hnull, ?_, ?_⟩
    · simp only [Point.gap]
      omega
    · simp only [Point.gap]
      omega

theorem mergeSort_by_ts (rows : List Row) :
    (rows.mergeSort fun a b => decide (a.ts ≤ b.ts)).Pairwise fun a b => a.ts ≤ b.ts := by
  have htrans (a b c : Row) (hab : decide (a.ts ≤ b.ts)) (hbc : decide (b.ts ≤ c.ts)) :
      decide (a.ts ≤ c.ts) :=
    decide_eq_true ((of_decide_eq_true hab).trans (of_decide_eq_true hbc))
  have htotal (a b : Row) : decide (a.ts ≤ b.ts) || decide (b.ts ≤ a.ts) := by
    simpa using le_total a.ts b.ts
  exact (List.pairwise_mergeSort htrans htotal rows).imp of_decide_eq_true

theorem ts_ne_of_key_ne {sys : ℕ+} {res : Res} {a b : Row} (ha : a.sys = sys ∧ a.res = res)
    (hb : b.sys = sys ∧ b.res = res) (hne : a.key ≠ b.key) : a.ts ≠ b.ts := by
  intro hts
  apply hne
  rw [Row.key, Row.key, ha.1, ha.2, hb.1, hb.2, hts]

theorem increasing_queryMetrics (table : Table) (sys : ℕ+) (res : Res) (fromTime toTime : ℤ) :
    Increasing (queryMetrics table sys res fromTime toTime) := by
  rw [Increasing, queryMetrics, List.pairwise_map]
  set picked := table.rows.filter fun r =>
    r.sys = sys ∧ r.res = res ∧ fromTime ≤ r.ts ∧ r.ts ≤ toTime
  have hperm := List.mergeSort_perm picked fun a b => decide (a.ts ≤ b.ts)
  have hdistinct : (picked.mergeSort fun a b => decide (a.ts ≤ b.ts)).Pairwise
      fun a b => a.key ≠ b.key :=
    (hperm.pairwise_iff fun h => h.symm).2 ((List.pairwise_map.1 table.keys).filter _)
  have hpicked : ∀ r ∈ picked.mergeSort fun a b => decide (a.ts ≤ b.ts),
      r.sys = sys ∧ r.res = res := by
    intro r hr
    have hr' := of_decide_eq_true (List.mem_filter.1 (hperm.mem_iff.1 hr)).2
    exact ⟨hr'.1, hr'.2.1⟩
  refine ((mergeSort_by_ts picked).and hdistinct).imp_of_mem ?_
  rintro a b ha hb ⟨hle, hne⟩
  exact lt_of_le_of_ne hle (ts_ne_of_key_ne (hpicked a ha) (hpicked b hb) hne)

theorem increasing_withCurrent {rows : List MetricRow} (h : Increasing rows) (res : Res)
    (current : Option MetricRow) : Increasing (withCurrent rows res current) := by
  cases current with
  | none => exact h
  | some row =>
    simp only [withCurrent]
    split_ifs with hnew
    · refine List.pairwise_append.2 ⟨h, List.pairwise_singleton _ _, fun a ha b hb => ?_⟩
      rw [List.mem_singleton.1 hb]
      obtain ⟨i, hi⟩ := List.mem_iff_getElem?.1 ha
      obtain ⟨hlen, -⟩ := List.getElem?_eq_some_iff.1 hi
      have hlast : rows[rows.length - 1]? = rows.getLast? := List.getLast?_eq_getElem?.symm
      obtain ⟨last, hl⟩ : ∃ last, rows.getLast? = some last := by
        rw [← hlast]
        exact ⟨_, List.getElem?_eq_getElem (by omega)⟩
      exact (h.le (by omega) hi (hlast.trans hl)).trans_lt (hnew.2 last hl)
    · exact h

theorem increasing_historyRows (table : Table) (sys : ℕ+) (rg : Range) (state : Option SysState)
    (now : ℤ) : Increasing (historyRows table sys rg state now) :=
  increasing_withCurrent (increasing_queryMetrics _ _ _ _ _) _ _

theorem Range.step_pos (rg : Range) : 0 < rg.step := by
  rw [Range.step]
  cases rg.res <;> decide

/-- What a chart relies on: times and columns go together, the rows come back without the null
points, and the null points are where consecutive rows are more than two steps apart. -/
structure Aligned (rows : List MetricRow) (step : ℤ) (s : SeriesDTO) : Prop where
  times : s.t.Pairwise (· < ·)
  columns : ∀ c, ∃ vs, s.values (colName c) = some vs ∧ vs.length = s.t.length
  rows_back : s.points.filter (fun p => !decide p.IsNull) = rows.map Point.ofRow
  nulls : s.points.filter (fun p => p.IsNull) = (gaps step rows).map fun ab => Point.gap step ab.1
  between : ∀ i a b, rows[i]? = some a → rows[i + 1]? = some b →
    ((∃ p ∈ s.points, p.IsNull ∧ a.ts < p.time ∧ p.time < b.ts) ↔ b.ts - a.ts > 2 * step)

theorem buildSeries_aligned {rows : List MetricRow} {step : ℤ} (hrows : Increasing rows)
    (hstep : 0 < step) (fromTime toTime : ℤ) :
    Aligned rows step (buildSeries rows step fromTime toTime) where
  times := by
    rw [buildSeries_t hstep]
    exact increasing_marked hstep hrows
  columns c := ⟨_, buildSeries_values hstep rows fromTime toTime c, by simp [buildSeries_t hstep]⟩
  rows_back := by
    rw [points_buildSeries hstep]
    exact filter_marked_rows step none rows
  nulls := by
    rw [points_buildSeries hstep]
    exact filter_marked_none step rows
  between _ _ _ ha hb := null_between hstep hrows fromTime toTime ha hb

/-- `buildSeries` aligns every list of rows in order, and those of a history range are. -/
theorem series_aligned (rows : List MetricRow) (step fromTime toTime : ℤ)
    (hrows : Increasing rows) (hstep : 0 < step) :
    Aligned rows step (buildSeries rows step fromTime toTime) ∧
      ∀ e name rg sys table, ranges name = some rg → e.sys = .found sys → e.table = some table →
        ∃ passed, getMetrics e name = .series (buildSeries passed rg.step (e.now - rg.span) e.now) ∧
          passed = withCurrent (queryMetrics table sys rg.res (e.now - rg.span) e.now) rg.res
            (currentBucket e.state) ∧
          Increasing passed ∧ 0 < rg.step := by
  refine ⟨buildSeries_aligned hrows hstep fromTime toTime, ?_⟩
  intro e name rg sys table hrange hsys htable
  have hlive : name ≠ "live" := by
    rintro rfl
    cases hrange
  refine ⟨historyRows table sys rg e.state e.now, ?_, rfl, increasing_historyRows .., rg.step_pos⟩
  simp only [getMetrics, hsys, if_neg hlive, hrange, htable]

def threeRows : List MetricRow := [⟨0, fun _ => 0⟩, ⟨60, fun _ => 0⟩, ⟨600, fun _ => 0⟩]

theorem series_aligned_three_rows :
    Increasing threeRows ∧ (buildSeries threeRows 60 0 600).t = [0, 60, 120, 600] ∧
      (buildSeries threeRows 60 0 600).values "cpu" = some [some 0, some 0, none, some 0] ∧
      (buildSeries threeRows 60 0 600).points.filter (fun p => !decide p.IsNull) =
        threeRows.map Point.ofRow := by
  have hrows : Increasing threeRows := by simp [Increasing, threeRows]
  have h := (series_aligned threeRows 60 0 600 hrows (by decide)).1
  exact ⟨hrows, by decide +kernel, by decide +kernel, h.rows_back⟩

end Lotse.Charts
