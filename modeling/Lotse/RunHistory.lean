import Lotse.RunArchive

set_option autoImplicit false

namespace Lotse.Archive
open RunOutput Utf8 Rows
open Scripts (isFinal)

section state
variable {ids : List ℤ} {s s' : Scripts.State} {a : Scripts.Action}

theorem run_kept (h : Scripts.step s a = some s') (hgo : ∀ i o, a ≠ .go i o) (hmain : a ≠ .main) :
    s'.run = s.run := by
  cases a with
  | go i o => exact absurd rfl (hgo i o)
  | exitStatus i code =>
    simp only [Scripts.step] at h
    split at h
    · split_ifs at h
      cases h
      rfl
    · cases h
  | deadline i =>
    simp only [Scripts.step] at h
    split at h
    · split_ifs at h
      cases h
      rfl
    · cases h
  | cancel =>
    cases h
    rfl
  | main => exact absurd rfl hmain

theorem snapshot_kept (inv : Scripts.Inv ids s) (hmain : s.main ≠ .wait)
    (h : Scripts.step s a = some s') : snapshot s'.run = snapshot s.run := by
  cases a with
  | go i o =>
    rw [Scripts.step] at h
    split at h
    · rename_i t c ht hc
      simp [Scripts.goStep, inv.waited hmain t (List.mem_of_getElem? ht)] at h
    · cases h
  | main =>
    simp only [Scripts.step] at h
    cases hm : s.main <;> simp only [hm] at h
    case wait => exact absurd hm hmain
    all_goals cases h
    all_goals rfl
  | exitStatus | deadline | cancel =>
    rw [run_kept h (by simp) (by simp)]

theorem stored_kept (inv : Scripts.Inv ids s) (hfin : ¬ (a = .main ∧ s.main = .finishRun))
    (h : Scripts.step s a = some s') : s'.run.stored = s.run.stored := by
  cases a with
  | go i o =>
    obtain ⟨t, t', c, c', hc⟩ := Scripts.changes_of_go inv h
    exact hc.effect.stored
  | main =>
    simp only [Scripts.step] at h
    cases hm : s.main <;> simp only [hm] at h
    case wait =>
      split_ifs at h
      cases h
      rfl
    case finishRun => exact absurd ⟨rfl, hm⟩ hfin
    all_goals cases h
    all_goals rfl
  | exitStatus | deadline | cancel =>
    rw [run_kept h (by simp) (by simp)]

theorem main_kept (h : Scripts.step s a = some s') (hmain : a ≠ .main) : s'.main = s.main := by
  cases a with
  | main => exact absurd rfl hmain
  | cancel =>
    cases h
    rfl
  | go | exitStatus | deadline =>
    simp only [Scripts.step] at h
    split at h
    · first
        | split_ifs at h; cases h; rfl
        | obtain ⟨out, -, rfl⟩ := Option.map_eq_some_iff.1 h; rfl
    · cases h

end state

structure Matches (lost : List ℕ) (r : RunRow) (e : ActiveRun) : Prop where
  record : r.run = { e.record with finishedAt := r.run.finishedAt }
  script : ∃ ids, Scripts.Inv ids e.state
  listed : e.listed = e.started
  opened : e.state.run.stored = none → r.run.finishedAt = none
  stored : ∀ out ∈ e.state.run.stored, out = snapshot e.state.run ∧
    (r.run.finishedAt = some e.finished ∧ r.targets = marshal out ∨
      r.run.finishedAt = none ∧ r.id ∈ lost)
  main : e.state.run.stored.isSome → e.state.main = .close ∨ e.state.main = .ended
  finished : e.record.finishedAt = if e.state.main = .ended then some e.finished else none

structure Inv (g : Hub) : Prop where
  table : TableOk g.rows
  runs : ∀ e ∈ g.runs, ∃ r ∈ g.rows, Matches g.lost r e
  distinct : (g.runs.map (·.record.id)).Nodup
  unfinished : g.up = true → ∀ r ∈ g.rows, r.run.finishedAt = none →
    r.id ∈ g.lost ∨ ∃ e ∈ g.runs, e.record.id = r.id ∧ e.state.run.stored = none
  down : g.up = false → g.runs = [] ∧ g.lost = []

section runs
variable {g g' : Hub} {k : ℕ} {e e' : ActiveRun} {r : RunRow}

theorem Matches.mono {lost lost' : List ℕ} (h : Matches lost r e) (hlost : r.id ∈ lost → r.id ∈ lost') :
    Matches lost' r e := by
  refine { h with stored := fun out hout => ⟨(h.stored out hout).1, ?_⟩ }
  exact (h.stored out hout).2.imp_right fun hl => ⟨hl.1, hlost hl.2⟩

theorem Matches.id_eq {lost : List ℕ} (h : Matches lost r e) : r.id = e.record.id := by
  rw [RunRow.id, h.record]

theorem unlist_of_ne {id : ℕ} (h : e.record.id ≠ id) : unlist id e = e := if_neg h

theorem index_of_id (hd : (g.runs.map (·.record.id)).Nodup) {i j : ℕ} (hi : g.runs[i]? = some e)
    (hj : g.runs[j]? = some e') (hid : e.record.id = e'.record.id) : i = j := by
  obtain ⟨hlt, -⟩ := List.getElem?_eq_some_iff.1 hi
  refine (List.getElem?_inj (by simpa using hlt) hd).1 ?_
  rw [List.getElem?_map, List.getElem?_map, hi, hj, Option.map_some, Option.map_some, hid]

theorem mem_set_iff (hd : (g.runs.map (·.record.id)).Nodup) (hk : g.runs[k]? = some e) {f : ActiveRun} :
    f ∈ g.runs.set k e' ↔ f = e' ∨ f ∈ g.runs ∧ f.record.id ≠ e.record.id := by
  obtain ⟨hlt, rfl⟩ := List.getElem?_eq_some_iff.1 hk
  constructor
  · intro hf
    obtain ⟨j, hj, rfl⟩ := List.mem_iff_getElem.1 hf
    rw [List.length_set] at hj
    rw [List.getElem_set]
    split_ifs with hjk
    · exact .inl rfl
    · refine .inr ⟨List.getElem_mem hj, fun hid => hjk ?_⟩
      exact (index_of_id hd (List.getElem?_eq_getElem hj) hk hid).symm
  · rintro (rfl | ⟨hf, hid⟩)
    · exact List.mem_set hlt _
    · obtain ⟨j, hj, rfl⟩ := List.mem_iff_getElem.1 hf
      have hjk : k ≠ j := fun h => hid (by subst h; rfl)
      exact List.mem_iff_getElem.2 ⟨j, by simpa using hj, by rw [List.getElem_set_ne hjk]⟩

theorem set_ids (hk : g.runs[k]? = some e) (hid : e'.record.id = e.record.id) :
    (g.runs.set k e').map (·.record.id) = g.runs.map (·.record.id) := by
  obtain ⟨hlt, rfl⟩ := List.getElem?_eq_some_iff.1 hk
  rw [List.map_set, hid]
  refine List.ext_getElem (by simp) fun j hj hj' => ?_
  rw [List.getElem_set]
  split_ifs with hkj
  · subst hkj
    rw [List.getElem_map]
  · rfl

theorem Inv.replace (inv : Inv g) (hk : g.runs[k]? = some e) (hid : e'.record.id = e.record.id)
    {rows : List RunRow} {lost : List ℕ} (htable : TableOk rows) (hlost : ∀ id ∈ g.lost, id ∈ lost)
    (hown : ∀ q ∈ g.rows, Matches g.lost q e → ∃ q' ∈ rows, Matches lost q' e')
    (hother : ∀ q ∈ g.rows, q.id ≠ e.record.id → q ∈ rows)
    (hback : ∀ q ∈ rows, q.run.finishedAt = none → q ∈ g.rows ∧ (q.id = e.record.id →
      e.state.run.stored = none → q.id ∈ lost ∨ e'.state.run.stored = none)) :
    Inv { g with rows := rows, lost := lost, runs := g.runs.set k e' } := by
  have hmem := List.mem_of_getElem? hk
  refine ⟨htable, fun f hf => ?_, ?_, fun hup q hq hnone => ?_, fun hdown => ?_⟩
  · rcases (mem_set_iff inv.distinct hk).1 hf with rfl | ⟨hf, hne⟩
    · obtain ⟨q, hq, hm⟩ := inv.runs e hmem
      exact hown q hq hm
    · obtain ⟨q, hq, hm⟩ := inv.runs f hf
      exact ⟨q, hother q hq (hm.id_eq ▸ hne), hm.mono (hlost q.id)⟩
  · rw [set_ids hk hid]
    exact inv.distinct
  · obtain ⟨hold, hown⟩ := hback q hq hnone
    rcases inv.unfinished hup q hold hnone with hl | ⟨f, hf, hfid, hstored⟩
    · exact .inl (hlost _ hl)
    · by_cases hsame : f.record.id = e.record.id
      · obtain rfl := List.inj_on_of_nodup_map inv.distinct hf hmem hsame
        refine (hown hfid.symm hstored).imp_right fun hs => ⟨e', ?_, hid.trans hfid, hs⟩
        exact (mem_set_iff inv.distinct hk).2 (.inl rfl)
      · exact .inr ⟨f, (mem_set_iff inv.distinct hk).2 (.inr ⟨hf, hsame⟩), hfid, hstored⟩
  · rw [(inv.down hdown).1] at hmem
    cases hmem

theorem Inv.set (inv : Inv g) (hk : g.runs[k]? = some e) (hid : e'.record.id = e.record.id)
    (hown : ∀ q ∈ g.rows, Matches g.lost q e → Matches g.lost q e')
    (hstored : e'.state.run.stored = e.state.run.stored) :
    Inv { g with runs := g.runs.set k e' } :=
  inv.replace hk hid inv.table (fun _ h => h) (fun q hq hm => ⟨q, hq, hown q hq hm⟩)
    (fun _ hq _ => hq) (fun _ hq _ => ⟨hq, fun _ hs => .inr (hstored.trans hs)⟩)

theorem Matches.step {lost : List ℕ} (h : Matches lost r e) {a : Scripts.Action}
    {state : Scripts.State} (hs : Scripts.step e.state a = some state)
    (hfin : ¬ (a = .main ∧ e.state.main = .finishRun))
    (hend : ¬ (a = .main ∧ e.state.main = .close)) :
    Matches lost r { e with state := state } ∧ state.run.stored = e.state.run.stored := by
  obtain ⟨ids, inv⟩ := h.script
  have hstored := stored_kept inv hfin hs
  have hended : state.main = .ended ↔ e.state.main = .ended := by
    by_cases ha : a = .main
    · subst ha
      simp only [Scripts.step] at hs
      cases hm : e.state.main <;> simp only [hm] at hs
      case wait =>
        split_ifs at hs
        cases hs
        simp
      case finishRun => exact absurd ⟨rfl, hm⟩ hfin
      case close => exact absurd ⟨rfl, hm⟩ hend
      case ended => cases hs
    · rw [main_kept hs ha]
  have hmain : state.run.stored.isSome → state.main = .close ∨ state.main = .ended := by
    rw [hstored]
    intro hsome
    rcases h.main hsome with hclose | hdone
    · have ha : a ≠ .main := fun ha => hend ⟨ha, hclose⟩
      exact .inl ((main_kept hs ha).trans hclose)
    · exact .inr (hended.2 hdone)
  refine ⟨⟨h.record, ⟨ids, inv.step hs⟩, h.listed, fun hnone => h.opened (hstored ▸ hnone),
    fun out hout => ?_, hmain, ?_⟩, hstored⟩
  · rw [hstored] at hout
    obtain ⟨rfl, hrow⟩ := h.stored out hout
    have hwait : e.state.main ≠ .wait := by
      have hsome : e.state.run.stored.isSome := Option.isSome_iff_exists.2 ⟨_, hout⟩
      rcases h.main hsome with hm | hm <;> rw [hm] <;> decide
    rw [snapshot_kept inv hwait hs]
    exact ⟨rfl, hrow⟩
  · simp only [hended]
    exact h.finished

theorem Inv.advance (inv : Inv g) (hk : g.runs[k]? = some e) {a : Scripts.Action} {now : ℤ}
    {ok : Bool} {state : Scripts.State} (hs : Scripts.step e.state a = some state) :
    Inv (advance g k e a now ok state) := by
  obtain ⟨row, hrow, hmatch⟩ := inv.runs e (List.mem_of_getElem? hk)
  obtain ⟨ids, hinv⟩ := hmatch.script
  by_cases hfin : a = .main ∧ e.state.main = .finishRun
  · obtain ⟨rfl, hmain⟩ := hfin
    have hopen : e.state.run.stored = none := by
      by_contra hne
      rcases hmatch.main (Option.isSome_iff_ne_none.2 hne) with h | h <;> rw [h] at hmain <;>
        cases hmain
    have hnew := hinv.step hs
    simp only [Scripts.step, hmain] at hs
    cases hs
    have hfinal : ∀ t ∈ snapshot e.state.run, isFinal t.status = true := (hnew.stored _ rfl).2
    simp only [Archive.advance, hmain]
    split_ifs with hok
    · refine inv.replace hk (by rfl) (inv.table.finishRun hfinal) (fun _ h => h) (fun q hq hm => ?_)
        (fun q hq hne => mem_finishRun_of_ne hq hne) (fun q hq hnone => ?_)
      · refine ⟨_, mem_finishRun_of_eq hq hm.id_eq, ?_, ⟨ids, hnew⟩, hm.listed, (fun hs => by cases hs), ?_, ?_, ?_⟩
        · rw [hm.record]
        · rintro out ⟨⟩
          exact ⟨rfl, .inl ⟨rfl, rfl⟩⟩
        · exact fun _ => .inl rfl
        · simpa [hmain] using hm.finished
      · rcases mem_finishRun hq with ⟨hold, hne⟩ | ⟨p, -, -, rfl⟩
        · exact ⟨hold, fun heq => absurd heq hne⟩
        · cases hnone
    · refine inv.replace hk (by rfl) inv.table (fun _ h => List.mem_cons_of_mem _ h)
        (fun q hq hm => ?_) (fun _ hq _ => hq)
        (fun q hq _ => ⟨hq, fun heq _ => .inl (List.mem_cons.2 (.inl heq))⟩)
      refine ⟨q, hq, hm.record, ⟨ids, hnew⟩, hm.listed, (fun hs => by cases hs), ?_,
        fun _ => .inl rfl, ?_⟩
      · rintro out ⟨⟩
        exact ⟨rfl, .inr ⟨hm.opened hopen, List.mem_cons.2 (.inl hm.id_eq)⟩⟩
      · simpa [hmain] using hm.finished
  by_cases hend : a = .main ∧ e.state.main = .close
  · obtain ⟨rfl, hmain⟩ := hend
    have hnew := hinv.step hs
    have hkept := stored_kept hinv hfin hs
    have hsnap := snapshot_kept hinv (by rw [hmain]; decide) hs
    have hended : state.main = .ended := by
      simp only [Scripts.step, hmain] at hs
      cases hs
      rfl
    simp only [Archive.advance, hmain]
    refine inv.set hk (by rfl) (fun q hq hm => ?_) hkept
    refine ⟨?_, ⟨ids, hnew⟩, hm.listed, fun hnone => hm.opened (hkept ▸ hnone), ?_, ?_, ?_⟩
    · rw [hm.record]
    · rw [hkept, hsnap]
      exact hm.stored
    · exact fun _ => .inr hended
    · simp [hended]
  · have hrest : Archive.advance g k e a now ok state =
        { g with runs := g.runs.set k { e with state := state } } := by
      unfold Archive.advance
      split
      · rename_i hm
        exact absurd ⟨rfl, hm⟩ hfin
      · rename_i hm
        exact absurd ⟨rfl, hm⟩ hend
      · rfl
    rw [hrest]
    exact inv.set hk (by rfl) (fun q _ hm => (hm.step hs hfin hend).1) (hmatch.step hs hfin hend).2

theorem Inv.create (inv : Inv g) (hup : g.up = true) (req : RunRequest) (now : ℤ) :
    Inv (create g req now) := by
  have hfresh : lookup RunRow.id (nextId RunRow.id g.rows) g.rows = none := lookup_nextId _
  have hnone := lookup_eq_none.1 hfresh
  have hold : ∀ r ∈ g.rows, r.id ∈ g.lost →
      r.id ∈ g.lost.filter (· ≠ nextId RunRow.id g.rows) := fun r hr hl =>
    List.mem_filter.2 ⟨hl, by simpa using hnone r hr⟩
  refine ⟨⟨nodup_append inv.table.ids hfresh, fun r hr => ?_⟩, fun e he => ?_, ?_, fun _ r hr hopen => ?_,
    fun hdown => ?_⟩
  · rcases List.mem_append.1 hr with hr | hr
    · exact inv.table.rows r hr
    · cases List.mem_singleton.1 hr
      exact ⟨rfl, marshal_marshal _, fun hs => by cases hs⟩
  · rcases List.mem_append.1 he with he | he
    · obtain ⟨r, hr, hm⟩ := inv.runs e he
      exact ⟨r, List.mem_append_left _ hr, hm.mono (hold r hr)⟩
    · cases List.mem_singleton.1 he
      refine ⟨_, List.mem_append_right _ (List.mem_singleton.2 rfl), rfl, ⟨_, Scripts.Inv.init _ _⟩,
        rfl, fun _ => rfl, (fun _ hs => by cases hs), (fun hs => by cases hs), rfl⟩
  · change ((g.runs ++ [_]).map _).Nodup
    rw [List.map_append, List.nodup_append]
    refine ⟨inv.distinct, by simp, ?_⟩
    intro x hx y hy
    obtain ⟨e, he, rfl⟩ := List.mem_map.1 hx
    obtain rfl := List.mem_singleton.1 hy
    obtain ⟨r, hr, hm⟩ := inv.runs e he
    rw [← hm.id_eq]
    exact hnone r hr
  · rcases List.mem_append.1 hr with hr | hr
    · rcases inv.unfinished hup r hr hopen with hl | ⟨e, he, hid, hstored⟩
      · exact .inl (hold r hr hl)
      · exact .inr ⟨e, List.mem_append_left _ he, hid, hstored⟩
    · cases List.mem_singleton.1 hr
      exact .inr ⟨_, List.mem_append_right _ (List.mem_singleton.2 rfl), rfl, rfl⟩
  · rw [Archive.create, hup] at hdown
    cases hdown

theorem Inv.list (inv : Inv g) (hk : g.runs[k]? = some e) :
    Inv { g with
      runs := (g.runs.map (unlist e.record.id)).set k { e with started := true, listed := true } } := by
  have hset : Inv { g with runs := g.runs.set k { e with started := true, listed := true } } :=
    inv.set hk (by rfl) (fun q _ hm => { hm with listed := rfl }) rfl
  -- no other run has this number, so that only the entry itself is taken out and put back
  have hsame : (g.runs.map (unlist e.record.id)).set k { e with started := true, listed := true } =
      g.runs.set k { e with started := true, listed := true } := by
    obtain ⟨hlt, rfl⟩ := List.getElem?_eq_some_iff.1 hk
    refine List.ext_getElem (by simp) fun j hj hj' => ?_
    simp only [List.getElem_set, List.getElem_map]
    split_ifs with hkj
    · rfl
    · refine unlist_of_ne fun hid => hkj ?_
      have hj : j < g.runs.length := by simpa using hj
      exact (index_of_id inv.distinct (List.getElem?_eq_getElem hj) hk hid).symm
  rw [hsame]
  exact hset

theorem Inv.forget (inv : Inv g) (hk : g.runs[k]? = some e) (hend : e.state.main = .ended) :
    Inv { g with runs := (g.runs.eraseIdx k).map (unlist e.record.id) } := by
  have hmem := List.mem_of_getElem? hk
  have hsame : (g.runs.eraseIdx k).map (unlist e.record.id) = g.runs.eraseIdx k := by
    refine (List.map_congr_left fun f hf => unlist_of_ne ?_).trans (List.map_id _)
    obtain ⟨j, hjk, hj⟩ := List.mem_eraseIdx_iff_getElem?.1 hf
    exact fun hid => hjk (index_of_id inv.distinct hj hk hid)
  rw [hsame]
  obtain ⟨row, hrow, hm⟩ := inv.runs e hmem
  obtain ⟨ids, hinv⟩ := hm.script
  have hstored : e.state.run.stored ≠ none :=
    Option.isSome_iff_ne_none.1 (hinv.saved (.inr hend))
  have hsub : (g.runs.eraseIdx k).Sublist g.runs := List.eraseIdx_sublist _ k
  refine ⟨inv.table, fun f hf => inv.runs f (hsub.subset hf), inv.distinct.sublist (hsub.map _),
    fun hup r hr hopen => ?_, fun hdown => ?_⟩
  · refine (inv.unfinished hup r hr hopen).imp_right ?_
    rintro ⟨f, hf, hid, hnone⟩
    obtain ⟨j, hj⟩ := List.mem_iff_getElem?.1 hf
    refine ⟨f, List.mem_eraseIdx_iff_getElem?.2 ⟨j, fun hjk => hstored ?_, hj⟩, hid, hnone⟩
    subst hjk
    cases hk.symm.trans hj
    exact hnone
  · rw [(inv.down hdown).1] at hmem
    cases hmem

/-- Rows are only pruned when no run that old is in memory. -/
def Aged (g : Hub) : Action → Prop
  | .prune now => ∀ e ∈ g.runs, now - runRetention ≤ e.record.startedAt
  | _ => True

instance decidableAged (g : Hub) : (a : Action) → Decidable (Aged g a)
  | .prune now =>
    inferInstanceAs (Decidable (∀ e ∈ g.runs, now - runRetention ≤ e.record.startedAt))
  | .postRun _ _ | .list _ | .run _ _ _ _ | .forget _ | .stop | .start _ => .isTrue trivial

theorem Inv.prune (inv : Inv g) {now : ℤ} (hup : g.up = true) (hage : Aged g (.prune now)) :
    Inv { g with rows := g.rows.filter fun r => now - runRetention ≤ r.run.startedAt } := by
  refine ⟨⟨?_, fun r hr => inv.table.rows r (List.mem_filter.1 hr).1⟩, fun e he => ?_, inv.distinct,
    fun _ r hr hopen => inv.unfinished hup r (List.mem_filter.1 hr).1 hopen, inv.down⟩
  · exact inv.table.ids.sublist (List.filter_sublist.map _)
  · obtain ⟨r, hr, hm⟩ := inv.runs e he
    refine ⟨r, List.mem_filter.2 ⟨hr, ?_⟩, hm⟩
    rw [hm.record]
    exact decide_eq_true (hage e he)

theorem Inv.start (inv : Inv g) (hdown : g.up = false) (written : ℕ) :
    Inv { g with
      up := (unfinishedRuns g.rows).length ≤ written
      rows := finishInterruptedRuns ((unfinishedRuns g.rows).take written) g.rows } := by
  obtain ⟨htable, -, hopen⟩ := finishInterruptedRuns_spec ((unfinishedRuns g.rows).take written)
    inv.table
  refine ⟨htable, ?_, inv.distinct, fun hup r hr hnone => ?_, fun _ => inv.down hdown⟩
  · rw [(inv.down hdown).1]
    exact fun e he => absurd he List.not_mem_nil
  · obtain ⟨hold, hid⟩ := hopen r hr hnone
    rw [List.take_of_length_le (of_decide_eq_true hup)] at hid
    exact absurd (List.mem_map_of_mem (List.mem_filter.2 ⟨hold, decide_eq_true hnone⟩)) hid

theorem Inv.step {a : Action} (inv : Inv g) (hage : Aged g a) (h : step g a = some g') : Inv g' := by
  cases a with
  | postRun req now =>
    simp only [Archive.step] at h
    split_ifs at h with hok
    cases h
    exact inv.create hok.1 req now
  | list k =>
    simp only [Archive.step] at h
    split at h
    · rename_i e hk
      split_ifs at h
      cases h
      exact inv.list hk
    · cases h
  | run k a now ok =>
    simp only [Archive.step] at h
    split at h
    · rename_i e hk
      split_ifs at h
      obtain ⟨state, hs, rfl⟩ := Option.map_eq_some_iff.1 h
      exact inv.advance hk hs
    · cases h
  | forget k =>
    simp only [Archive.step] at h
    split at h
    · rename_i e hk
      split_ifs at h with hend
      cases h
      exact inv.forget hk hend
    · cases h
  | prune now =>
    simp only [Archive.step] at h
    split_ifs at h with hup
    cases h
    exact inv.prune hup hage
  | stop =>
    simp only [Archive.step] at h
    split_ifs at h
    cases h
    exact ⟨inv.table, by simp, List.nodup_nil, (fun hup => by cases hup), fun _ => ⟨rfl, rfl⟩⟩
  | start written =>
    simp only [Archive.step] at h
    split_ifs at h with hup
    cases h
    exact inv.start (Bool.not_eq_true _ ▸ hup) written

theorem finished_kept {a : Action} (inv : Inv g) (h : Archive.step g a = some g') (hr : r ∈ g.rows)
    (hfin : r.run.finishedAt.isSome)
    (hage : ∀ now, a = .prune now → now - runRetention ≤ r.run.startedAt) : r ∈ g'.rows := by
  cases a with
  | postRun req now =>
    simp only [Archive.step] at h
    split_ifs at h
    cases h
    exact List.mem_append_left _ hr
  | list k =>
    simp only [Archive.step] at h
    split at h
    · split_ifs at h
      cases h
      exact hr
    · cases h
  | run k a now ok =>
    simp only [Archive.step] at h
    split at h
    · rename_i e hk
      split_ifs at h
      obtain ⟨state, hs, rfl⟩ := Option.map_eq_some_iff.1 h
      obtain ⟨row, hrow, hm⟩ := inv.runs e (List.mem_of_getElem? hk)
      unfold Archive.advance
      split
      · rename_i hmain
        have hne : r.id ≠ e.record.id := by
          intro hid
          cases inv.table.eq_of_id hr hrow (hid.trans hm.id_eq.symm)
          have hstored : e.state.run.stored ≠ none := fun hnone => by
            rw [hm.opened hnone] at hfin
            cases hfin
          rcases hm.main (Option.isSome_iff_ne_none.2 hstored) with hx | hx <;> rw [hmain] at hx <;>
            cases hx
        dsimp only
        split_ifs
        · exact mem_finishRun_of_ne hr hne
        · exact hr
      · exact hr
      · exact hr
    · cases h
  | forget k =>
    simp only [Archive.step] at h
    split at h
    · split_ifs at h
      cases h
      exact hr
    · cases h
  | prune now =>
    simp only [Archive.step] at h
    split_ifs at h
    cases h
    exact List.mem_filter.2 ⟨hr, decide_eq_true (hage now rfl)⟩
  | stop =>
    simp only [Archive.step] at h
    split_ifs at h
    cases h
    exact hr
  | start written =>
    simp only [Archive.step] at h
    split_ifs at h
    cases h
    exact finished_kept_start inv.table written hr hfin

theorem finished_kept_run {acts : List Action} (inv : Inv g) (haged : Runs.Meets step Aged g acts)
    (h : Runs.exec step g acts = some g') (hr : r ∈ g.rows) (hfin : r.run.finishedAt.isSome)
    (hage : ∀ now, .prune now ∈ acts → now - runRetention ≤ r.run.startedAt) : r ∈ g'.rows := by
  induction acts generalizing g with
  | nil =>
    cases h
    exact hr
  | cons a acts ih =>
    obtain ⟨g₁, hstep, hrest⟩ := Runs.exec_cons_some h
    have hr₁ := finished_kept inv hstep hr hfin fun now ha => hage now (ha ▸ List.mem_cons_self)
    exact ih (inv.step haged.1 hstep) (haged.2 g₁ hstep) hrest hr₁
      fun now hnow => hage now (List.mem_cons_of_mem _ hnow)

theorem Inv.exec {acts : List Action} (haged : Runs.Meets Archive.step Aged empty acts)
    (h : Runs.exec Archive.step empty acts = some g) : Inv g := by
  have hempty : Inv empty := ⟨⟨List.nodup_nil, by simp [empty]⟩, by simp [empty], List.nodup_nil,
    (fun hup => by cases hup), fun _ => ⟨rfl, rfl⟩⟩
  exact Runs.exec_guarded (fun _ _ _ inv hok hs => inv.step hok hs) hempty haged h

end runs

/-- In every run of the hub: the summary of a row is its results without their output; a row
that has ended has final results only and is never changed again, until it is pruned; while
the hub is up, a row that has not ended belongs to a run in memory, unless its results could
not be written; and a hub that has started has no such row at all. -/
theorem runs_archived {acts later : List Action} {g g' : Hub}
    (run : Runs.exec step empty acts = some g) (haged : Runs.Meets step Aged empty acts)
    (goes : Runs.exec step g later = some g') (hlater : Runs.Meets step Aged g later) :
    (∀ r ∈ g.rows, r.summary = targetsSummary r.targets ∧
      (r.run.finishedAt.isSome → ∀ t ∈ r.targets, isFinal t.status = true)) ∧
    (g.up = true → ∀ r ∈ g.rows, r.run.finishedAt = none → r.id ∈ g.lost ∨
      ∃ e ∈ g.runs, e.record.id = r.id ∧ e.state.run.stored = none) ∧
    (∀ written up, step g (.start written) = some up → up.up = true →
      ∀ r ∈ up.rows, r.run.finishedAt.isSome ∧ ∀ t ∈ r.targets, isFinal t.status = true) ∧
    ∀ r ∈ g.rows, r.run.finishedAt.isSome →
      (∀ now, .prune now ∈ later → now - runRetention ≤ r.run.startedAt) → r ∈ g'.rows := by
  have inv := Inv.exec haged run
  refine ⟨fun r hr => ⟨(inv.table.rows r hr).summary, (inv.table.rows r hr).settled⟩, inv.unfinished,
    fun written up hstart hup r hr => ?_, fun r => finished_kept_run inv hlater goes⟩
  have haged : Aged g (.start written) := trivial
  have hnew := inv.step haged hstart
  have hnone : up.runs = [] ∧ up.lost = [] := by
    simp only [step] at hstart
    split_ifs at hstart with hdown
    cases hstart
    exact inv.down (Bool.not_eq_true _ ▸ hdown)
  have hfin : r.run.finishedAt.isSome := by
    rw [Option.isSome_iff_ne_none]
    intro hopen
    rcases hnew.unfinished hup r hr hopen with hl | ⟨e, he, -⟩
    · simp [hnone.2] at hl
    · simp [hnone.1] at he
  exact ⟨hfin, (hnew.table.rows r hr).settled hfin⟩

/-- A hub starts, begins a run on two systems that are offline, and is killed. The next one
closes the run, and makes and completes another. -/
def killedHub : List Action :=
  let req : RunRequest := ⟨none, "Command", "sh", "uptime", 60, "admin", [4, 2]⟩
  let go (i : ℕ) : Action := .run 0 (.go i Scripts.gone) 110 true
  [.start 0, .postRun req 100, .list 0, go 0, .stop, .start 1, .postRun req 110, .list 0] ++
    List.replicate 5 (go 0) ++ List.replicate 5 (go 1) ++
    [.prune 115, .run 0 .main 120 true, .run 0 .main 120 true]

def RunRow.view (r : RunRow) : Option ℤ × List (ℤ × Status) :=
  (r.run.finishedAt, r.targets.map fun t => (t.systemID, t.status))

theorem killedHub_view : (Runs.exec step empty killedHub).map (fun g => g.rows.map RunRow.view) =
    some [(some 100, [(2, .failed), (4, .failed)]), (some 120, [(2, .skipped), (4, .skipped)])] := by
  decide +kernel

theorem runs_archived_killed : ∃ g, Runs.exec step empty killedHub = some g ∧
    g.rows.map RunRow.view =
      [(some 100, [(2, .failed), (4, .failed)]), (some 120, [(2, .skipped), (4, .skipped)])] ∧
    ∀ g', Runs.exec step g [.run 0 .main 121 true, .forget 0, .stop, .start 0] = some g' →
      ∀ r ∈ g.rows, r ∈ g'.rows := by
  obtain ⟨g, hg, hview⟩ := Option.map_eq_some_iff.1 killedHub_view
  refine ⟨g, hg, hview, fun g' hg' r hr => ?_⟩
  have hfin : r.run.finishedAt.isSome := by
    have hmem := List.mem_map_of_mem (f := RunRow.view) hr
    rw [hview] at hmem
    have : r.view.1.isSome := by
      rcases List.mem_cons.1 hmem with h | h
      · rw [h]
        rfl
      · rw [List.mem_singleton.1 h]
        rfl
    exact this
  have hlater : Runs.Meets step Aged g [.run 0 .main 121 true, .forget 0, .stop, .start 0] :=
    ⟨trivial, fun _ _ => ⟨trivial, fun _ _ => ⟨trivial, fun _ _ => ⟨trivial, fun _ _ => trivial⟩⟩⟩⟩
  exact (runs_archived hg (by decide +kernel) hg' hlater).2.2.2 r hr hfin (by simp)

section shown
variable {g : Hub} {r : RunRow}

theorem runDTO_cases (inv : Inv g) (hr : r ∈ g.rows) :
    (∃ e ∈ g.runs, Matches g.lost r e ∧ ∀ run stored, run.id = r.id →
      runDTO g run stored = ⟨e.record, snapshot e.state.run⟩) ∨
    ∀ run stored, run.id = r.id → runDTO g run stored = ⟨run, stored⟩ := by
  cases hfind : g.runs.find? (fun e => e.listed && e.record.id = r.id) with
  | none =>
    refine .inr fun run stored hid => ?_
    rw [runDTO, hid, hfind]
  | some e =>
    have he := List.mem_of_find?_eq_some hfind
    have hid : e.record.id = r.id := by
      have := List.find?_some hfind
      simp only [Bool.and_eq_true, decide_eq_true_eq] at this
      exact this.2
    obtain ⟨q, hq, hm⟩ := inv.runs e he
    cases inv.table.eq_of_id hq hr (hm.id_eq.trans hid)
    refine .inl ⟨e, he, hm, fun run stored hrun => ?_⟩
    rw [runDTO, hrun, hfind]

theorem getRun_row (inv : Inv g) (hr : r ∈ g.rows) :
    getRun g r.id = some (runDTO g r.run r.targets).sent := by
  obtain ⟨q, hq⟩ := exists_lookup (k := RunRow.id) hr
  cases inv.table.eq_of_id (lookup_mem hq) hr (lookup_key hq)
  rw [getRun, hq, Option.map_some]

theorem brief_sent (inv : Inv g) (hr : r ∈ g.rows) :
    (runDTO g { r.run with content := "" } r.summary).brief.sent =
      (runDTO g r.run r.targets).sent.brief := by
  have hrow := inv.table.rows r hr
  have hlive : ∀ d : RunDTO, d.brief.sent = d.sent.brief := fun d => by
    simp only [RunDTO.brief, RunDTO.sent, RunDTO.mk.injEq, true_and]
    exact (marshal_summary d.targets).trans (summary_marshal d.targets).symm
  rcases runDTO_cases inv hr with ⟨e, -, -, h⟩ | h
  · rw [h r.run r.targets rfl, h { r.run with content := "" } r.summary rfl, hlive]
  · rw [h r.run r.targets rfl, h { r.run with content := "" } r.summary rfl, hlive]
    simp only [RunDTO.brief, RunDTO.sent, RunDTO.mk.injEq, true_and, hrow.summary]
    change targetsSummary (marshal (targetsSummary _)) = targetsSummary (marshal _)
    rw [marshal_summary, summary_summary, summary_marshal]

theorem getRun_ended (inv : Inv g) (hr : r ∈ g.rows) (hfin : r.run.finishedAt.isSome)
    (hend : ∀ e ∈ g.runs, e.record.id = r.id → e.state.main = .ended) :
    getRun g r.id = some ⟨r.run, r.targets⟩ := by
  have hrow := inv.table.rows r hr
  rw [getRun_row inv hr]
  rcases runDTO_cases inv hr with ⟨e, he, hm, h⟩ | h
  · obtain ⟨ids, hinv⟩ := hm.script
    have hended := hend e he hm.id_eq.symm
    obtain ⟨out, hout⟩ := Option.isSome_iff_exists.1 (hinv.saved (.inr hended))
    obtain ⟨rfl, ⟨hfinished, htargets⟩ | ⟨hopen, -⟩⟩ := hm.stored out hout
    · have hrecord : r.run = e.record := by
        have hown := hm.finished
        rw [if_pos hended, ← hfinished] at hown
        rw [hm.record, ← hown]
      rw [h _ _ rfl, RunDTO.sent, htargets, hrecord]
    · rw [hopen] at hfin
      cases hfin
  · rw [h _ _ rfl, RunDTO.sent, hrow.reread]

theorem sorted_newest (inv : Inv g) :
    ((g.rows.mergeSort fun a b => b.id ≤ a.id).map RunRow.id).Pairwise (· > ·) := by
  have hperm : (g.rows.mergeSort fun a b => b.id ≤ a.id).Perm g.rows := List.mergeSort_perm _ _
  have hle : (g.rows.mergeSort fun a b => b.id ≤ a.id).Pairwise fun a b => b.id ≤ a.id := by
    refine (List.pairwise_mergeSort (fun a b c hab hbc => ?_) (fun a b => ?_) g.rows).imp fun h => ?_
    · simp only [decide_eq_true_eq] at hab hbc ⊢
      omega
    · simp only [Bool.or_eq_true, decide_eq_true_eq]
      omega
    · simpa using h
  have hne := (hperm.map RunRow.id).nodup_iff.2 inv.table.ids
  rw [List.Nodup, List.pairwise_map] at hne
  rw [List.pairwise_map]
  refine (hle.and hne).imp fun h => ?_
  omega

end shown

/-- In every run of the hub: the list of runs shows each of the newest 50 as its own page
does, but for the script and the output; and a run whose results were written is shown as
they were, whether it is still in memory, was forgotten or ended before the hub restarted. -/
theorem runs_shown {acts : List Action} {g : Hub} (run : Runs.exec step empty acts = some g)
    (haged : Runs.Meets step Aged empty acts) :
    (getRuns g).map some = (newestRuns g 50).map (fun r => (getRun g r.id).map RunDTO.brief) ∧
    ((newestRuns g 50).map RunRow.id).Pairwise (· > ·) ∧
    (∀ r ∈ g.rows, r ∈ newestRuns g 50 ∨ ∀ q ∈ newestRuns g 50, r.id < q.id) ∧
    ∀ r ∈ g.rows, r.run.finishedAt.isSome →
      (∀ e ∈ g.runs, e.record.id = r.id → e.state.main = .ended) →
      getRun g r.id = some ⟨r.run, r.targets⟩ := by
  have inv := Inv.exec haged run
  have hperm : (g.rows.mergeSort fun a b => b.id ≤ a.id).Perm g.rows := List.mergeSort_perm _ _
  have hsorted := sorted_newest inv
  refine ⟨?_, ?_, fun r hr => ?_, fun r hr hfin hend => getRun_ended inv hr hfin hend⟩
  · rw [getRuns, List.map_map]
    refine List.map_congr_left fun r hr => ?_
    have hmem : r ∈ g.rows := hperm.subset (List.mem_of_mem_take hr)
    rw [getRun_row inv hmem, Option.map_some]
    exact congrArg some (brief_sent inv hmem)
  · rw [newestRuns, List.map_take]
    exact hsorted.take
  · have hmem := hperm.symm.subset hr
    rw [List.pairwise_map, ← List.take_append_drop 50 (g.rows.mergeSort _), List.pairwise_append]
      at hsorted
    rw [← List.take_append_drop 50 (g.rows.mergeSort _), List.mem_append] at hmem
    exact hmem.imp_right fun hdrop q hq => hsorted.2.2 q hq r hdrop

theorem runs_shown_killed : ∃ g, Runs.exec step empty killedHub = some g ∧
    (newestRuns g 50).length = 2 ∧
    (getRuns g).map some = (newestRuns g 50).map fun r => (getRun g r.id).map RunDTO.brief := by
  obtain ⟨g, hg, hview⟩ := Option.map_eq_some_iff.1 killedHub_view
  have hlen : g.rows.length = 2 := by
    rw [← List.length_map RunRow.view, hview]
    rfl
  refine ⟨g, hg, ?_, (runs_shown hg (by decide +kernel)).1⟩
  rw [newestRuns, List.length_take, List.length_mergeSort, hlen]
  rfl

end Lotse.Archive
