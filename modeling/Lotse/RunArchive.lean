import Lotse.ScriptRuns
import Lotse.JsonStrings
import Lotse.Rows

set_option autoImplicit false

/-!
# Script runs in memory and in the database

A run is a row of `script_runs` and, while it is going and for a minute after, an
`activeRun` in the hub's memory. `execute` writes the results to the row when all targets
have ended; a hub that starts closes the rows that a stopped hub left unfinished. Here any
number of runs are made, carried on and forgotten, in any order, while old rows are pruned,
writes fail and the hub stops at any point.
-/
namespace Lotse.Archive
open RunOutput Utf8 Rows
open Scripts (isFinal)

def maxRunTargets : ℕ := 500

def runRetention : ℤ := 90 * 24 * 60 * 60

structure ScriptRun where
  id : ℕ
  scriptID : Option ℤ
  name : String
  shell : String
  content : String
  timeout : ℤ
  username : String
  startedAt : ℤ
  finishedAt : Option ℤ
  deriving DecidableEq

structure RunRow where
  run : ScriptRun
  targets : List RunTarget
  summary : List RunTarget
  deriving DecidableEq

def RunRow.id (r : RunRow) : ℕ := r.run.id

/-- A target written as JSON and read again: its output is a string of the document. -/
def reread (t : RunTarget) : RunTarget :=
  { t with output := ((Json.unquote (Json.quote t.output).tail).map Prod.fst).getD [] }

def marshal (ts : List RunTarget) : List RunTarget := ts.map reread

def withoutOutput (t : RunTarget) : RunTarget := { t with output := [] }

def targetsSummary (ts : List RunTarget) : List RunTarget := ts.map withoutOutput

def finishRun (id : ℕ) (finishedAt : ℤ) (targets : List RunTarget) (rows : List RunRow) :
    List RunRow :=
  update RunRow.id id (fun r =>
    ⟨{ r.run with finishedAt := some finishedAt }, targets, targetsSummary targets⟩) rows

def unfinishedRuns (rows : List RunRow) : List RunRow :=
  rows.filter fun r => r.run.finishedAt = none

def restarted : String := "the hub restarted during the run"

def interrupted (t : RunTarget) : RunTarget :=
  if t.status = .pending ∨ t.status = .running then { t with status := .failed, error := restarted }
  else t

def finishInterruptedRuns (recs : List RunRow) (rows : List RunRow) : List RunRow :=
  recs.foldl (fun rows r =>
    finishRun r.id r.run.startedAt (marshal (r.targets.map interrupted)) rows) rows

/-- An `activeRun` with its goroutines. `started` says that `execute` runs, `listed` that it
is in `h.runs`, and `finished` is the variable of `execute`. -/
structure ActiveRun where
  record : ScriptRun
  state : Scripts.State
  finished : ℤ
  started : Bool
  listed : Bool

/-- `lost` are the runs whose results this hub could not write, which no code reads. -/
structure Hub where
  up : Bool
  rows : List RunRow
  runs : List ActiveRun
  lost : List ℕ

structure RunRequest where
  scriptID : Option ℤ
  name : String
  shell : String
  content : String
  timeout : ℤ
  username : String
  systems : List ℤ

def create (g : Hub) (req : RunRequest) (now : ℤ) : Hub :=
  let record : ScriptRun := ⟨nextId RunRow.id g.rows, req.scriptID, req.name, req.shell,
    req.content, req.timeout, req.username, now, none⟩
  let state := Scripts.init req.shell req.systems
  let raw := marshal (state.run.slots.map (·.target))
  { g with
    rows := g.rows ++ [⟨record, raw, targetsSummary raw⟩]
    runs := g.runs ++ [⟨record, state, 0, false, false⟩]
    lost := g.lost.filter (· ≠ record.id) }

def unlist (id : ℕ) (e : ActiveRun) : ActiveRun :=
  if e.record.id = id then { e with listed := false } else e

/-- A step of a run: `execute` writes the results before it closes the run. -/
def advance (g : Hub) (k : ℕ) (e : ActiveRun) (a : Scripts.Action) (now : ℤ) (ok : Bool)
    (state : Scripts.State) : Hub :=
  match a, e.state.main with
  | .main, .finishRun =>
    let runs := g.runs.set k { e with state := state, finished := now }
    if ok then
      { g with runs := runs, rows := finishRun e.record.id now (marshal (snapshot e.state.run)) g.rows }
    else { g with runs := runs, lost := e.record.id :: g.lost }
  | .main, .close =>
    let record := { e.record with finishedAt := some e.finished }
    { g with runs := g.runs.set k { e with state := state, record := record } }
  | _, _ => { g with runs := g.runs.set k { e with state := state } }

inductive Action where
  | postRun (req : RunRequest) (now : ℤ)
  | list (k : ℕ)
  | run (k : ℕ) (a : Scripts.Action) (now : ℤ) (ok : Bool)
  | forget (k : ℕ)
  | prune (now : ℤ)
  | stop
  | start (written : ℕ)

/-- `start` ends with an error when only `written` of the interrupted runs can be closed. -/
def step (g : Hub) : Action → Option Hub
  | .postRun req now =>
    let systems := (req.systems.insertionSort (· ≤ ·)).dedup
    if g.up ∧ systems ≠ [] ∧ systems.length ≤ maxRunTargets then some (create g req now) else none
  | .list k =>
    match g.runs[k]? with
    | some e =>
      if e.started then none
      else
        some { g with
          runs := (g.runs.map (unlist e.record.id)).set k { e with started := true, listed := true } }
    | none => none
  | .run k a now ok =>
    match g.runs[k]? with
    | some e => if e.started then (Scripts.step e.state a).map (advance g k e a now ok) else none
    | none => none
  | .forget k =>
    match g.runs[k]? with
    | some e =>
      if e.state.main = .ended then
        some { g with runs := (g.runs.eraseIdx k).map (unlist e.record.id) }
      else none
    | none => none
  | .prune now =>
    if g.up then
      some { g with rows := g.rows.filter fun r => now - runRetention ≤ r.run.startedAt }
    else none
  | .stop => if g.up then some { g with up := false, runs := [], lost := [] } else none
  | .start written =>
    if g.up then none
    else
      let recs := unfinishedRuns g.rows
      some { g with
        up := recs.length ≤ written
        rows := finishInterruptedRuns (recs.take written) g.rows }

def empty : Hub := ⟨false, [], [], []⟩

structure RunDTO where
  run : ScriptRun
  targets : List RunTarget
  deriving DecidableEq

/-- The state of a run in memory comes before the stored one. -/
def runDTO (g : Hub) (run : ScriptRun) (stored : List RunTarget) : RunDTO :=
  match g.runs.find? (fun e => e.listed && e.record.id = run.id) with
  | some e => ⟨e.record, snapshot e.state.run⟩
  | none => ⟨run, stored⟩

/-- `writeJSON`, as the browser reads it. -/
def RunDTO.sent (d : RunDTO) : RunDTO := { d with targets := marshal d.targets }

def getRun (g : Hub) (id : ℕ) : Option RunDTO :=
  (lookup RunRow.id id g.rows).map fun r => (runDTO g r.run r.targets).sent

def RunDTO.brief (d : RunDTO) : RunDTO :=
  ⟨{ d.run with content := "" }, d.targets.map withoutOutput⟩

/-- `Runs`: the newest rows, without the script and with the results only. -/
def newestRuns (g : Hub) (limit : ℕ) : List RunRow :=
  (g.rows.mergeSort fun a b => b.id ≤ a.id).take limit

def getRuns (g : Hub) : List RunDTO :=
  (newestRuns g 50).map fun r => (runDTO g { r.run with content := "" } r.summary).brief.sent

@[simp] theorem reread_output (t : RunTarget) : reread t = { t with output := Json.coerce t.output } := by
  obtain ⟨s, hs, hunquote⟩ := Json.unquote_quote t.output []
  rw [List.append_nil] at hs
  rw [reread, hs, List.tail_cons, hunquote]
  rfl

theorem reread_reread (t : RunTarget) : reread (reread t) = reread t := by
  simp [Json.coerce_of_valid (Json.valid_coerce t.output)]

theorem marshal_marshal (ts : List RunTarget) : marshal (marshal ts) = marshal ts := by
  rw [marshal, marshal, List.map_map]
  exact List.map_congr_left fun t _ => reread_reread t

theorem withoutOutput_reread (t : RunTarget) : withoutOutput (reread t) = withoutOutput t := by
  simp [withoutOutput]

theorem reread_withoutOutput (t : RunTarget) : reread (withoutOutput t) = withoutOutput t := by
  simp [withoutOutput, Json.coerce_of_valid Valid.nil]

theorem marshal_summary (ts : List RunTarget) : marshal (targetsSummary ts) = targetsSummary ts := by
  rw [marshal, targetsSummary, List.map_map]
  exact List.map_congr_left fun t _ => reread_withoutOutput t

theorem summary_marshal (ts : List RunTarget) : targetsSummary (marshal ts) = targetsSummary ts := by
  rw [marshal, targetsSummary, List.map_map]
  exact List.map_congr_left fun t _ => withoutOutput_reread t

theorem summary_summary (ts : List RunTarget) :
    targetsSummary (targetsSummary ts) = targetsSummary ts := by
  rw [targetsSummary, targetsSummary, List.map_map]
  rfl

theorem isFinal_interrupted (t : RunTarget) : isFinal (interrupted t).status = true := by
  unfold interrupted
  split_ifs with h
  · rfl
  · cases hs : t.status <;> simp [hs, isFinal] at h ⊢

structure RowOk (r : RunRow) : Prop where
  summary : r.summary = targetsSummary r.targets
  reread : marshal r.targets = r.targets
  settled : r.run.finishedAt.isSome → ∀ t ∈ r.targets, isFinal t.status = true

structure TableOk (rows : List RunRow) : Prop where
  ids : (rows.map RunRow.id).Nodup
  rows : ∀ r ∈ rows, RowOk r

theorem rowOk_finished {run : ScriptRun} {ts : List RunTarget}
    (hts : ∀ t ∈ ts, isFinal t.status = true) :
    RowOk ⟨run, marshal ts, targetsSummary (marshal ts)⟩ := by
  refine ⟨rfl, marshal_marshal ts, fun _ t ht => ?_⟩
  obtain ⟨u, hu, rfl⟩ := List.mem_map.1 ht
  rw [reread_output]
  exact hts u hu

section table
variable {rows : List RunRow} {r : RunRow} {id : ℕ} {finishedAt : ℤ} {targets : List RunTarget}

theorem mem_finishRun (h : r ∈ finishRun id finishedAt targets rows) :
    r ∈ rows ∧ r.id ≠ id ∨ ∃ q ∈ rows, q.id = id ∧
      r = ⟨{ q.run with finishedAt := some finishedAt }, targets, targetsSummary targets⟩ := by
  obtain ⟨q, hq, rfl⟩ := List.mem_map.1 h
  split_ifs with hid
  · exact .inr ⟨q, hq, hid, rfl⟩
  · exact .inl ⟨hq, hid⟩

theorem mem_finishRun_of_ne (hr : r ∈ rows) (hid : r.id ≠ id) :
    r ∈ finishRun id finishedAt targets rows :=
  List.mem_map.2 ⟨r, hr, if_neg hid⟩

theorem mem_finishRun_of_eq (hr : r ∈ rows) (hid : r.id = id) :
    ⟨{ r.run with finishedAt := some finishedAt }, targets, targetsSummary targets⟩ ∈
      finishRun id finishedAt targets rows :=
  List.mem_map.2 ⟨r, hr, if_pos hid⟩

theorem finishRun_ids (rows : List RunRow) :
    (finishRun id finishedAt targets rows).map RunRow.id = rows.map RunRow.id := by
  rw [finishRun, Rows.update, List.map_map]
  refine List.map_congr_left fun r _ => ?_
  change RunRow.id (if _ then _ else _) = _
  split_ifs <;> rfl

theorem TableOk.finishRun (h : TableOk rows) {ts : List RunTarget}
    (hts : ∀ t ∈ ts, isFinal t.status = true) :
    TableOk (finishRun id finishedAt (marshal ts) rows) := by
  refine ⟨by rw [finishRun_ids]; exact h.ids, fun r hr => ?_⟩
  rcases mem_finishRun hr with ⟨hr, -⟩ | ⟨q, -, -, rfl⟩
  · exact h.rows r hr
  · exact rowOk_finished hts

theorem TableOk.eq_of_id (h : TableOk rows) {q : RunRow} (hr : r ∈ rows) (hq : q ∈ rows)
    (hid : r.id = q.id) : r = q := List.inj_on_of_nodup_map h.ids hr hq hid

theorem finishInterruptedRuns_spec (recs : List RunRow) (h : TableOk rows) :
    TableOk (finishInterruptedRuns recs rows) ∧
    (∀ r ∈ rows, r.id ∉ recs.map RunRow.id → r ∈ finishInterruptedRuns recs rows) ∧
    ∀ r ∈ finishInterruptedRuns recs rows, r.run.finishedAt = none →
      r ∈ rows ∧ r.id ∉ recs.map RunRow.id := by
  induction recs generalizing rows with
  | nil => exact ⟨h, fun r hr _ => hr, fun r hr _ => ⟨hr, List.not_mem_nil⟩⟩
  | cons q recs ih =>
    have hstep : TableOk (finishRun q.id q.run.startedAt (marshal (q.targets.map interrupted)) rows) := by
      refine h.finishRun fun t ht => ?_
      obtain ⟨u, -, rfl⟩ := List.mem_map.1 ht
      exact isFinal_interrupted u
    obtain ⟨htable, hkept, hopen⟩ := ih hstep
    refine ⟨htable, fun r hr hid => ?_, fun r hr hnone => ?_⟩
    · rw [List.map_cons, List.mem_cons, not_or] at hid
      exact hkept r (mem_finishRun_of_ne hr hid.1) hid.2
    · obtain ⟨hmem, hid⟩ := hopen r hr hnone
      rcases mem_finishRun hmem with ⟨hold, hne⟩ | ⟨p, -, -, rfl⟩
      · exact ⟨hold, by simp [hne, hid]⟩
      · cases hnone

theorem finished_kept_start (h : TableOk rows) (written : ℕ) (hr : r ∈ rows)
    (hfin : r.run.finishedAt.isSome) :
    r ∈ finishInterruptedRuns ((unfinishedRuns rows).take written) rows := by
  refine (finishInterruptedRuns_spec _ h).2.1 r hr fun hid => ?_
  obtain ⟨q, hq, hqid⟩ := List.mem_map.1 hid
  obtain ⟨hqrows, hopen⟩ := List.mem_filter.1 (List.mem_of_mem_take hq)
  cases h.eq_of_id hqrows hr hqid
  rw [Option.isSome_iff_ne_none] at hfin
  exact hfin (of_decide_eq_true hopen)

end table

end Lotse.Archive
