import Lotse.BucketMachine

set_option autoImplicit false

namespace Lotse.Bucket
open Samples MetricTable Tasks

def mean (vs : List Values) : Values := fun c => average (vs.map (· c))

def Pending (tasks : List (List Instr)) (row : MetricRow) : Prop :=
  ∃ t ∈ tasks, .writeBucket row ∈ t

def Instr.writtenMinute : Instr → Option ℕ
  | .writeBucket row => some row.ts
  | _ => none

/-- The minute has ended, its bucket is not open and none of its rows is still to be
written. -/
structure Flushed (c : Config State Instr) (minute : ℕ) : Prop where
  ended : minute + 60 ≤ c.global.clock
  taken : ¬ (0 < c.global.st.n ∧ c.global.st.bucketTS = minute)
  written : ∀ t ∈ c.tasks, ∀ ins ∈ t, ins.writtenMinute ≠ some minute

/-- A sample is not added to a minute whose bucket was taken before. -/
def MinuteOpen (c : Config State Instr) : Instr → Prop
  | .record minute _ => minute ∉ c.global.closed
  | _ => True

instance (c : Config State Instr) (ins : Instr) : Decidable (MinuteOpen c ins) := by
  cases ins <;> unfold MinuteOpen <;> infer_instance

structure Inv (g : State) (W : MetricRow → Prop) : Prop where
  zero : g.st.n = 0 → g.st.sum = fun _ => 0
  fresh : 0 < g.st.n → g.st.bucketTS ∉ g.closed
  count : 0 < g.st.n → g.st.n = (g.samplesOf g.st.bucketTS).length
  total : 0 < g.st.n → g.st.sum = fun c => ((g.samplesOf g.st.bucketTS).map (· c)).sum
  placed : ∀ m, g.samplesOf m ≠ [] → m ∈ g.closed ∨ 0 < g.st.n ∧ g.st.bucketTS = m
  stored : ∀ m ∈ g.closed, g.table m = some (mean (g.samplesOf m)) ∨ ∃ row, W row ∧ row.ts = m
  right : ∀ row, W row → row.ts ∈ g.closed ∧ row.values = mean (g.samplesOf row.ts)

section samples
variable {g : State} {m minute : ℕ} {v : Values}

theorem samplesOf_add_self : (g.add minute v).samplesOf minute = v :: g.samplesOf minute := by
  simp [State.samplesOf, State.add]

theorem samplesOf_add_other (h : m ≠ minute) : (g.add minute v).samplesOf m = g.samplesOf m := by
  simp [State.samplesOf, State.add, h.symm]

end samples

section steps
variable {g : State} {W : MetricRow → Prop}

theorem inv_frame (h : Inv g W) {g' : State} (hst : g'.st = g.st) (htable : g'.table = g.table)
    (hsamples : g'.samples = g.samples) (hclosed : g'.closed = g.closed) : Inv g' W := by
  have hof : g'.samplesOf = g.samplesOf := by
    funext m
    rw [State.samplesOf, hsamples, State.samplesOf]
  constructor
  · rw [hst]
    exact h.zero
  · rw [hst, hclosed]
    exact h.fresh
  · rw [hst, hof]
    exact h.count
  · rw [hst, hof]
    exact h.total
  · rw [hst, hof, hclosed]
    exact h.placed
  · rw [htable, hof, hclosed]
    exact h.stored
  · rw [hof, hclosed]
    exact h.right

theorem row_values (h : Inv g W) (hn : 0 < g.st.n) :
    g.st.row.values = mean (g.samplesOf g.st.bucketTS) := by
  funext c
  change g.st.sum c / g.st.n = average _
  rw [average, List.length_map, ← h.count hn, h.total hn]

theorem inv_close (h : Inv g W) (hn : 0 < g.st.n) :
    Inv g.close fun row => row = g.st.row ∨ W row where
  zero _ := rfl
  fresh h0 := absurd h0 (lt_irrefl 0)
  count h0 := absurd h0 (lt_irrefl 0)
  total h0 := absurd h0 (lt_irrefl 0)
  placed m hm := by
    rcases h.placed m hm with hc | ⟨-, rfl⟩
    · exact .inl (List.mem_cons_of_mem _ hc)
    · exact .inl List.mem_cons_self
  stored m hm := by
    rcases List.mem_cons.1 hm with rfl | hm
    · exact .inr ⟨g.st.row, .inl rfl, rfl⟩
    · exact (h.stored m hm).imp_right fun ⟨row, hw, hts⟩ => ⟨row, .inr hw, hts⟩
  right row hrow := by
    rcases hrow with rfl | hrow
    · exact ⟨List.mem_cons_self, row_values h hn⟩
    · obtain ⟨hc, hv⟩ := h.right row hrow
      exact ⟨List.mem_cons_of_mem _ hc, hv⟩

theorem inv_add (h : Inv g W) {minute : ℕ} (v : Values) (hopen : minute ∉ g.closed)
    (hb : g.st.n = 0 ∨ g.st.bucketTS = minute) : Inv (g.add minute v) W := by
  have hother : ∀ m ∈ g.closed, (g.add minute v).samplesOf m = g.samplesOf m := fun m hm =>
    samplesOf_add_other fun heq => hopen (heq ▸ hm)
  have hprev : g.st.n = (g.samplesOf minute).length ∧
      g.st.sum = fun c => ((g.samplesOf minute).map (· c)).sum := by
    by_cases hn : g.st.n = 0
    · have hnone : g.samplesOf minute = [] := by
        by_contra hne
        rcases h.placed minute hne with hc | ⟨hpos, -⟩
        · exact hopen hc
        · omega
      exact ⟨by rw [hn, hnone, List.length_nil], by rw [h.zero hn, hnone]; rfl⟩
    · obtain rfl := hb.resolve_left hn
      exact ⟨h.count (by omega), h.total (by omega)⟩
  refine ⟨fun h0 => absurd h0 (Nat.succ_ne_zero _), fun _ => hopen, fun _ => ?_, fun _ => ?_, ?_,
    ?_, ?_⟩
  · change g.st.n + 1 = ((g.add minute v).samplesOf minute).length
    rw [samplesOf_add_self, List.length_cons, ← hprev.1]
  · change (fun c => g.st.sum c + v c) = fun c => (((g.add minute v).samplesOf minute).map (· c)).sum
    funext c
    rw [samplesOf_add_self, List.map_cons, List.sum_cons, hprev.2, add_comm]
  · intro m hm
    by_cases heq : m = minute
    · exact .inr ⟨Nat.succ_pos _, heq.symm⟩
    · rw [samplesOf_add_other heq] at hm
      rcases h.placed m hm with hc | ⟨hpos, rfl⟩
      · exact .inl hc
      · exact absurd (hb.resolve_left hpos.ne') heq
  · intro m hm
    rw [hother m hm]
    exact h.stored m hm
  · intro row hrow
    rw [hother row.ts (h.right row hrow).1]
    exact h.right row hrow

theorem record_of_other {minute : ℕ} (v : Values) (hb : 0 < g.st.n ∧ g.st.bucketTS ≠ minute) :
    g.record minute v = g.close.add minute v ∧ (g.st.record minute v).1 = some g.st.row := by
  have hrec : g.st.record minute v = (some g.st.row, g.st.takeBucket.2.add minute v) := if_pos hb
  refine ⟨?_, by rw [hrec]⟩
  rw [State.record, hrec]
  rfl

theorem record_of_same {minute : ℕ} (v : Values) (hb : ¬ (0 < g.st.n ∧ g.st.bucketTS ≠ minute)) :
    g.record minute v = g.add minute v ∧ (g.st.record minute v).1 = none := by
  have hrec : g.st.record minute v = (none, g.st.add minute v) := if_neg hb
  refine ⟨?_, by rw [hrec]⟩
  rw [State.record, hrec]
  rfl

theorem inv_record (h : Inv g W) {minute : ℕ} (v : Values) (hopen : minute ∉ g.closed) :
    Inv (g.record minute v) fun row => (g.st.record minute v).1 = some row ∨ W row := by
  by_cases hb : 0 < g.st.n ∧ g.st.bucketTS ≠ minute
  · obtain ⟨hg, hdone⟩ := record_of_other v hb
    have hclosed : minute ∉ g.close.closed := by
      rintro (_ | ⟨_, hm⟩)
      · exact hb.2 rfl
      · exact hopen hm
    rw [hg, hdone]
    simpa only [Option.some_inj, eq_comm] using inv_add (inv_close h hb.1) v hclosed (.inl rfl)
  · obtain ⟨hg, hdone⟩ := record_of_same v hb
    rw [hg, hdone]
    simpa using inv_add h v hopen (by omega)

theorem inv_flushState (h : Inv g W) (force : Bool) (minute : ℕ) :
    Inv (g.flushState force minute) fun row => (g.st.flush force minute).1 = some row ∨ W row := by
  by_cases hb : g.st.n = 0 ∨ ¬ force ∧ minute ≤ g.st.bucketTS
  · have hflush : g.st.flush force minute = (none, g.st) := if_pos hb
    rw [State.flushState, hflush]
    simpa using h
  · have hflush : g.st.flush force minute = (some g.st.row, g.st.takeBucket.2) := if_neg hb
    have hclose : g.flushState force minute = g.close := by
      rw [State.flushState, hflush]
      rfl
    rw [hclose, hflush]
    simpa only [Option.some_inj, eq_comm] using inv_close h (by omega)

theorem inv_writeBucket (h : Inv g W) {row : MetricRow} (hrow : W row) {W' : MetricRow → Prop}
    (hless : ∀ r, W' r → W r) (hrest : ∀ r, W r → r = row ∨ W' r) :
    Inv (g.writeBucket row) W' where
  zero := h.zero
  fresh := h.fresh
  count := h.count
  total := h.total
  placed := h.placed
  stored m hm := by
    change Function.update g.table row.ts (some row.values) m = some (mean (g.samplesOf m)) ∨ _
    by_cases heq : m = row.ts
    · subst heq
      rw [Function.update_self, (h.right row hrow).2]
      exact .inl rfl
    · rw [Function.update_of_ne heq]
      refine (h.stored m hm).imp_right fun ⟨r, hr, hts⟩ => ?_
      rcases hrest r hr with rfl | hr
      · exact absurd hts.symm heq
      · exact ⟨r, hr, hts⟩
  right r hr := h.right r (hless r hr)

theorem inv_congr (h : Inv g W) {W' : MetricRow → Prop} (hless : ∀ r, W' r → W r)
    (hmore : ∀ r, W r → W' r) : Inv g W' where
  zero := h.zero
  fresh := h.fresh
  count := h.count
  total := h.total
  placed := h.placed
  stored m hm := (h.stored m hm).imp_right fun ⟨r, hr, hts⟩ => ⟨r, hmore r hr, hts⟩
  right r hr := h.right r (hless r hr)

end steps

section pending
variable {tasks : List (List Instr)} {i : ℕ} {ins : Instr} {rest code : List Instr} {row : MetricRow}

theorem mem_writes {done : Option MetricRow} : .writeBucket row ∈ writes done ↔ done = some row := by
  simp [writes]

theorem pending_set (ht : tasks[i]? = some (ins :: rest))
    (h : Pending (tasks.set i (code ++ rest)) row) : .writeBucket row ∈ code ∨ Pending tasks row := by
  obtain ⟨t, hmem, hrow⟩ := h
  rcases mem_set_task hmem with rfl | hmem
  · refine (List.mem_append.1 hrow).imp_right fun hrow => ?_
    exact ⟨_, task_mem ht, List.mem_cons_of_mem _ hrow⟩
  · exact .inr ⟨t, hmem, hrow⟩

theorem pending_new (ht : tasks[i]? = some (ins :: rest)) (h : .writeBucket row ∈ code) :
    Pending (tasks.set i (code ++ rest)) row :=
  ⟨_, new_mem_set ht, List.mem_append_left _ h⟩

theorem pending_kept (ht : tasks[i]? = some (ins :: rest)) (h : Pending tasks row) :
    ins = .writeBucket row ∨ Pending (tasks.set i (code ++ rest)) row := by
  obtain ⟨t, hmem, hrow⟩ := h
  have hkept : t = ins :: rest ∨ t ∈ tasks.set i (code ++ rest) := mem_task_set ht hmem
  rcases hkept with rfl | hmem
  · rcases List.mem_cons.1 hrow with hrow | hrow
    · exact .inl hrow.symm
    · exact .inr ⟨_, new_mem_set ht, List.mem_append_right _ hrow⟩
  · exact .inr ⟨t, hmem, hrow⟩

end pending

theorem inv_writes {g : State} {tasks : List (List Instr)} {i : ℕ} {ins : Instr}
    {rest : List Instr} {done : Option MetricRow}
    (h : Inv g fun row => done = some row ∨ Pending tasks row)
    (ht : tasks[i]? = some (ins :: rest)) (hins : ∀ row, ins ≠ .writeBucket row) :
    Inv g (Pending (tasks.set i (writes done ++ rest))) := by
  refine inv_congr h (fun row hrow => ?_) (fun row hrow => ?_)
  · exact (pending_set ht hrow).imp_left mem_writes.1
  · rcases hrow with hrow | hrow
    · exact pending_new ht (mem_writes.2 hrow)
    · exact (pending_kept ht hrow).resolve_left (hins row)

theorem inv_effect {g g' : State} {tasks : List (List Instr)} {i : ℕ} {ins : Instr}
    {rest code : List Instr} (h : Inv g (Pending tasks)) (hok : MinuteOpen ⟨g, tasks⟩ ins)
    (ht : tasks[i]? = some (ins :: rest)) (he : Effect g ins g' code) :
    Inv g' (Pending (tasks.set i (code ++ rest))) := by
  cases he with
  | record minute v => exact inv_writes (inv_record h v hok) ht fun _ => Instr.noConfusion
  | flushState force minute =>
    exact inv_writes (inv_flushState h force minute) ht fun _ => Instr.noConfusion
  | writeBucket row =>
    have hrow : Pending tasks row := ⟨_, task_mem ht, List.mem_cons_self⟩
    refine inv_writeBucket h hrow (fun r hr => ?_) (fun r hr => ?_)
    · exact (pending_set ht hr).resolve_left List.not_mem_nil
    · exact (pending_kept ht hr).imp_left fun heq => (Instr.writeBucket.inj heq).symm
  | other hst htable hsamples hclosed hins hcode =>
    refine inv_congr (inv_frame h hst htable hsamples hclosed) (fun r hr => ?_) (fun r hr => ?_)
    · exact (pending_set ht hr).resolve_left (hcode r)
    · exact (pending_kept ht hr).resolve_left (hins r)

theorem pending_start {tasks : List (List Instr)} {r : Request} {row : MetricRow} :
    Pending (tasks ++ [code r]) row ↔ Pending tasks row := by
  have hcode : .writeBucket row ∉ code r := by cases r <;> simp [code]
  simp [Pending, or_and_right, exists_or, hcode]

theorem inv_run {c : Config State Instr} {acts : List (Action Unit Request)}
    (hm : Runs.Meets machine.step (Machine.Guard MinuteOpen) init acts)
    (he : Runs.exec machine.step init acts = some c) : Inv c.global (Pending c.tasks) := by
  refine Machine.guarded_invariant machine (J := fun c => Inv c.global (Pending c.tasks))
    ?_ ?_ ?_ ?_ hm he
  · intro c r h
    exact inv_congr h (fun _ => pending_start.1) (fun _ => pending_start.2)
  · intro c i ins rest o out h hok ht hout
    obtain ⟨g', code, rfl, he⟩ := atomic_effect (o := o) hout
    exact inv_effect h hok ht he
  · rintro c g h ⟨⟩
  · have hnone : ∀ row, ¬ Pending [] row := fun row ⟨_, ht, _⟩ => List.not_mem_nil ht
    exact ⟨fun _ => rfl, fun h0 => absurd h0 (lt_irrefl 0), fun h0 => absurd h0 (lt_irrefl 0),
      fun h0 => absurd h0 (lt_irrefl 0), fun _ h => absurd rfl h,
      fun _ h => absurd h List.not_mem_nil, fun row h => absurd h (hnone row)⟩

/-- Where no sample comes after the bucket of its minute was taken, the row of a flushed
minute is the mean of all its samples. -/
theorem minute_is_mean (acts : List (Action Unit Request)) (c : Config State Instr)
    (hm : Runs.Meets machine.step (Machine.Guard MinuteOpen) init acts)
    (he : Runs.exec machine.step init acts = some c) (minute : ℕ) (hf : Flushed c minute)
    (hs : c.global.samplesOf minute ≠ []) :
    c.global.table minute = some (mean (c.global.samplesOf minute)) := by
  have h := inv_run hm he
  have hclosed := (h.placed minute hs).resolve_right hf.taken
  refine (h.stored minute hclosed).resolve_right ?_
  rintro ⟨row, ⟨t, ht, hrow⟩, hts⟩
  exact hf.written t ht _ hrow (congrArg some hts)

def steps (i n : ℕ) : List (Action Unit Request) := List.replicate n (.run i ())

def sample (cpu : ℚ) : Metrics := ⟨cpu, 0, 0, 0, 0, 0, 0, 0, 0, 0, 0, 0, 0, 0⟩

def quietRun : List (Action Unit Request) :=
  [[.start .connect], steps 0 1, [.start (.record (sample 10))], steps 1 3,
    [.start (.record (sample 20))], steps 2 3, [.start (.tick 60)], steps 3 1,
    [.start .flush], steps 4 3].flatten

def final (acts : List (Action Unit Request)) : Config State Instr :=
  (Runs.exec machine.step init acts).getD init

theorem exec_final {acts : List (Action Unit Request)}
    (h : (Runs.exec machine.step init acts).isSome) :
    Runs.exec machine.step init acts = some (final acts) := Runs.exec_getD h init

theorem minute_is_mean_quiet :
    Runs.Meets machine.step (Machine.Guard MinuteOpen) init quietRun ∧ Flushed (final quietRun) 0 ∧
      (final quietRun).global.table 0 = some (mean ((final quietRun).global.samplesOf 0)) := by
  have hm : Runs.Meets machine.step (Machine.Guard MinuteOpen) init quietRun := by decide +kernel
  have hf : Flushed (final quietRun) 0 :=
    ⟨by decide +kernel, by decide +kernel, by decide +kernel⟩
  have hs : ((final quietRun).global.samplesOf 0).length = 2 := by decide +kernel
  exact ⟨hm, hf, minute_is_mean quietRun _ hm (exec_final (by decide +kernel)) 0 hf
    (List.ne_nil_of_length_pos (by omega))⟩

def reconnectRun : List (Action Unit Request) :=
  [[.start .connect], steps 0 1, [.start (.record (sample 10))], steps 1 3, steps 0 5,
    [.start .connect], steps 2 1, [.start (.record (sample 20))], steps 3 3,
    [.start (.tick 60)], steps 4 1, [.start .flush], steps 5 3].flatten

/-- The row of the minute holds only the samples after the reconnect. -/
theorem minute_cut_by_reconnect : ∃ acts c, Runs.exec machine.step init acts = some c ∧
    Flushed c 0 ∧ c.global.table 0 ≠ some (mean (c.global.samplesOf 0)) := by
  have hf : Flushed (final reconnectRun) 0 :=
    ⟨by decide +kernel, by decide +kernel, by decide +kernel⟩
  refine ⟨reconnectRun, final reconnectRun, exec_final (by decide +kernel), hf, fun heq => ?_⟩
  have hcpu := congrArg (Option.map (· .cpu)) heq
  exact absurd hcpu (by decide +kernel)

end Lotse.Bucket
