import Mathlib.Tactic

set_option autoImplicit false

/-!
# The order of live tables

`rowOrder`: between two sorts a table holds the order in which its rows were returned last. A
comparison gives the sign of the number the source returns, and a key is what a `Map` tells apart.
-/
namespace Lotse.RowOrder
open Std

variable {T K E : Type} [DecidableEq K]

structure Call (T E : Type) where
  items : List T
  compare : T → T → Ordering
  hold : Bool
  epoch : E

structure Ordered (T : Type) where
  rows : List T
  stale : Bool

/-- What the closure keeps; no epoch is the `NaN` it starts with. -/
structure Memory (K E : Type) where
  prev : List K
  prevEpoch : Option E
  stale : Bool

def start : Memory K E := ⟨[], none, false⟩

def sort (compare : T → T → Ordering) (xs : List T) : List T :=
  xs.mergeSort fun a b => (compare a b).isLE

/-- `Map.set`: an entry keeps its place, a new one comes last. -/
def mapSet (m : List (K × T)) (k : K) (x : T) : List (K × T) :=
  if m.any fun e => e.1 = k then m.map fun e => if e.1 = k then (k, x) else e else m ++ [(k, x)]

def mapDelete (m : List (K × T)) (k : K) : List (K × T) := m.filter fun e => e.1 ≠ k

def byKey (key : T → K) (items : List T) : List (K × T) :=
  items.foldl (fun m item => mapSet m (key item) item) []

def place (s : List T × List (K × T)) (k : K) : List T × List (K × T) :=
  match s.2.lookup k with
  | some item => (s.1 ++ [item], mapDelete s.2 k)
  | none => s

def held (key : T → K) (prev : List K) (c : Call T E) : List T :=
  let s := prev.foldl place ([], byKey key c.items)
  s.1 ++ sort c.compare (s.2.map Prod.snd)

def outOfOrder (compare : T → T → Ordering) : List T → Bool
  | a :: b :: rows => compare a b == .gt || outOfOrder compare (b :: rows)
  | _ => false

def rowOrder [DecidableEq E] (key : T → K) (s : Memory K E) (c : Call T E) :
    Memory K E × Ordered T :=
  if c.hold = true ∧ s.prevEpoch = some c.epoch then
    let rows := held key s.prev c
    let stale := s.stale || outOfOrder c.compare rows
    (⟨rows.map key, some c.epoch, stale⟩, ⟨rows, stale⟩)
  else
    let rows := sort c.compare c.items
    (⟨rows.map key, some c.epoch, false⟩, ⟨rows, false⟩)

def after [DecidableEq E] (key : T → K) (calls : List (Call T E)) : Memory K E :=
  calls.foldl (fun s c => (rowOrder key s c).1) start

def result [DecidableEq E] (key : T → K) (calls : List (Call T E)) (c : Call T E) : Ordered T :=
  (rowOrder key (after key calls) c).2

structure Call.Valid (key : T → K) (c : Call T E) : Prop where
  distinct : (c.items.map key).Nodup
  preorder : TransCmp c.compare

def Sorted (compare : T → T → Ordering) (rows : List T) : Prop :=
  rows.Pairwise fun a b => (compare a b).isLE

section sorting

variable (compare : T → T → Ordering)

theorem sort_perm (xs : List T) : (sort compare xs).Perm xs := List.mergeSort_perm xs _

theorem sort_sorted [TransCmp compare] (xs : List T) : Sorted compare (sort compare xs) := by
  refine List.pairwise_mergeSort ?_ ?_ xs
  · intro a b c
    exact TransCmp.isLE_trans
  · intro a b
    have hswap : compare b a = (compare a b).swap := OrientedCmp.eq_swap
    rw [hswap]
    cases compare a b <;> rfl

theorem sort_of_sorted {rows : List T} (h : Sorted compare rows) : sort compare rows = rows :=
  List.mergeSort_of_pairwise h

theorem sorted_of_outOfOrder [TransCmp compare] {rows : List T}
    (h : outOfOrder compare rows = false) : Sorted compare rows := by
  have htrans : IsTrans T fun a b => ((compare a b).isLE : Prop) :=
    ⟨fun _ _ _ => TransCmp.isLE_trans⟩
  refine List.isChain_iff_pairwise.1 ?_
  induction rows with
  | nil => exact .nil
  | cons a rows ih =>
    cases rows with
    | nil => exact .singleton a
    | cons b rows =>
      rw [outOfOrder, Bool.or_eq_false_iff] at h
      refine .cons_cons ?_ (ih h.2)
      revert h
      cases compare a b <;> simp

theorem sort_unique [TransCmp compare] {xs rows : List T} (hperm : rows.Perm xs)
    (hsorted : Sorted compare rows) (hties : ∀ a ∈ xs, ∀ b ∈ xs, compare a b = .eq → a = b) :
    sort compare xs = rows := by
  have hall := (sort_perm compare xs).trans hperm.symm
  refine hall.eq_of_pairwise ?_ (sort_sorted compare xs) hsorted
  intro a b ha hb hab hba
  have hb' : b ∈ xs := hperm.mem_iff.1 hb
  refine hties a ((sort_perm compare xs).mem_iff.1 ha) b hb' ?_
  have hswap : compare b a = (compare a b).swap := OrientedCmp.eq_swap
  rw [hswap] at hba
  revert hab hba
  cases compare a b <;> simp

end sorting

section holding

variable {key : T → K}

def entries (key : T → K) (items : List T) : List (K × T) := items.map fun x => (key x, x)

theorem mapSet_entries {items : List T} {x : T} (h : key x ∉ items.map key) :
    mapSet (entries key items) (key x) x = entries key (items ++ [x]) := by
  have hany : ((entries key items).any fun e => decide (e.1 = key x)) = false := by
    simpa [entries] using h
  rw [mapSet, hany]
  simp [entries]

theorem byKey_eq {items : List T} (h : (items.map key).Nodup) :
    byKey key items = entries key items := by
  induction items using List.reverseRecOn with
  | nil => rfl
  | append_singleton items x ih =>
    rw [List.map_append, List.map_singleton, List.nodup_append] at h
    have hnew : key x ∉ items.map key := fun hmem => h.2.2 _ hmem _ List.mem_cons_self rfl
    rw [byKey, List.foldl_append, List.foldl_cons, List.foldl_nil]
    change mapSet (byKey key items) (key x) x = _
    rw [ih h.1, mapSet_entries hnew]

theorem lookup_entries (items : List T) (k : K) :
    (entries key items).lookup k = items.find? fun x => key x = k := by
  induction items with
  | nil => rfl
  | cons x items ih =>
    by_cases hk : key x = k
    · subst hk
      simp [entries]
    · have hne : (k == key x) = false := by simpa using Ne.symm hk
      rw [List.find?_cons_of_neg (by simpa using hk), ← ih]
      simp [entries, List.lookup_cons, hne]

theorem mapDelete_entries (items : List T) (k : K) :
    mapDelete (entries key items) k = entries key (items.filter fun x => key x ≠ k) := by
  rw [mapDelete, entries, List.filter_map]
  rfl

theorem foldl_place {prev : List K} (hprev : prev.Nodup) (rows items : List T) :
    prev.foldl place (rows, entries key items) =
      (rows ++ prev.filterMap fun k => items.find? fun x => key x = k,
        entries key (items.filter fun x => key x ∉ prev)) := by
  -- the map always has the entries of the items whose keys have not come up yet
  induction prev generalizing rows items with
  | nil => simp
  | cons k prev ih =>
    obtain ⟨hk, hprev⟩ := List.nodup_cons.1 hprev
    rw [List.foldl_cons, place, lookup_entries]
    cases hfind : items.find? fun x => key x = k with
    | none =>
      have hne : ∀ x ∈ items, key x ≠ k := by simpa using hfind
      rw [ih hprev, List.filterMap_cons, hfind]
      congr 2
      refine List.filter_congr fun x hx => ?_
      simp [hne x hx]
    | some item =>
      -- the other keys are found as before
      have hfound : ∀ k' ∈ prev, ((items.filter fun x => key x ≠ k).find? fun x => key x = k') =
          items.find? fun x => key x = k' := by
        intro k' hk'
        have hne : k' ≠ k := fun heq => hk (heq ▸ hk')
        rw [List.find?_filter]
        congr 1
        funext x
        by_cases hx : key x = k'
        · simp [hx, hne]
        · simp [hx]
      simp only [mapDelete_entries]
      rw [ih hprev, List.filterMap_cons, hfind, List.filterMap_congr hfound, List.filter_filter]
      simp only [List.append_assoc, List.singleton_append, List.mem_cons, not_or]
      congr 2
      refine List.filter_congr fun x _ => ?_
      simp [Bool.and_comm]

theorem find_key {items : List T} (h : (items.map key).Nodup) (k : K) (x : T) :
    (items.find? fun x => key x = k) = some x ↔ x ∈ items ∧ key x = k := by
  constructor
  · intro hfind
    exact ⟨List.mem_of_find?_eq_some hfind, by simpa using List.find?_some hfind⟩
  · rintro ⟨hx, rfl⟩
    have hsome : (items.find? fun y => key y = key x).isSome := by
      rw [List.find?_isSome]
      exact ⟨x, hx, decide_eq_true rfl⟩
    obtain ⟨y, hy⟩ := Option.isSome_iff_exists.1 hsome
    have hkey : key y = key x := by simpa using List.find?_some hy
    rw [hy, List.inj_on_of_nodup_map h (List.mem_of_find?_eq_some hy) hx hkey]

def kept (key : T → K) (prev : List K) (items : List T) : List T :=
  prev.filterMap fun k => items.find? fun x => key x = k

def added (key : T → K) (prev : List K) (items : List T) : List T :=
  items.filter fun x => key x ∉ prev

variable {prev : List K} {items : List T}

theorem kept_perm (h : (items.map key).Nodup) (hprev : prev.Nodup) :
    (kept key prev items).Perm (items.filter fun x => key x ∈ prev) := by
  have hnodup : (kept key prev items).Nodup := by
    refine hprev.filterMap ?_
    intro k k' x hx hx'
    rw [← ((find_key h k x).1 hx).2, ← ((find_key h k' x).1 hx').2]
  rw [List.perm_ext_iff_of_nodup hnodup (h.of_map.filter _)]
  intro x
  simp only [kept, List.mem_filterMap, find_key h, List.mem_filter, decide_eq_true_eq]
  constructor
  · rintro ⟨k, hk, hx, rfl⟩
    exact ⟨hx, hk⟩
  · rintro ⟨hx, hk⟩
    exact ⟨key x, hk, hx, rfl⟩

theorem kept_append_added_perm (h : (items.map key).Nodup) (hprev : prev.Nodup) :
    (kept key prev items ++ added key prev items).Perm items := by
  refine ((kept_perm h hprev).append_right _).trans ?_
  have hsplit := List.filter_append_perm (fun x => decide (key x ∈ prev)) items
  simpa only [added, decide_not] using hsplit

theorem map_kept (h : (items.map key).Nodup) (prev : List K) :
    (kept key prev items).map key = prev.filter fun k => k ∈ items.map key := by
  induction prev with
  | nil => rfl
  | cons k prev ih =>
    cases hfind : items.find? fun x => key x = k with
    | none =>
      have hk : k ∉ items.map key := by simpa using hfind
      rw [kept, List.filterMap_cons, hfind, List.filter_cons_of_neg (by simpa using hk), ← ih, kept]
    | some x =>
      obtain ⟨hx, rfl⟩ := (find_key h k x).1 hfind
      have hk : key x ∈ items.map key := List.mem_map_of_mem hx
      rw [kept, List.filterMap_cons, hfind, List.filter_cons_of_pos (by simpa using hk), ← ih, kept]
      rfl

theorem held_eq {c : Call T E} (h : (c.items.map key).Nodup) (hprev : prev.Nodup) :
    held key prev c =
      kept key prev c.items ++ sort c.compare (added key prev c.items) := by
  have hvalues (xs : List T) : (entries key xs).map Prod.snd = xs := by
    simp [entries, Function.comp_def]
  rw [held, byKey_eq h, foldl_place hprev]
  simp only [List.nil_append, hvalues]
  rfl

theorem held_perm {c : Call T E} (h : (c.items.map key).Nodup) (hprev : prev.Nodup) :
    (held key prev c).Perm c.items := by
  rw [held_eq h hprev]
  exact ((sort_perm c.compare _).append_left _).trans (kept_append_added_perm h hprev)

end holding

section calls

variable [DecidableEq E] {key : T → K}

abbrev Holds (s : Memory K E) (c : Call T E) : Prop := c.hold = true ∧ s.prevEpoch = some c.epoch

theorem rowOrder_held {s : Memory K E} {c : Call T E} (h : Holds s c) :
    (rowOrder key s c).2 =
      ⟨held key s.prev c, s.stale || outOfOrder c.compare (held key s.prev c)⟩ := by
  rw [rowOrder, if_pos h]

theorem rowOrder_sorts {s : Memory K E} {c : Call T E} (h : ¬ Holds s c) :
    (rowOrder key s c).2 = ⟨sort c.compare c.items, false⟩ := by
  rw [rowOrder, if_neg h]

theorem rowOrder_memory (s : Memory K E) (c : Call T E) :
    (rowOrder key s c).1 = ⟨(rowOrder key s c).2.rows.map key, some c.epoch,
      (rowOrder key s c).2.stale⟩ := by
  by_cases h : Holds s c
  · rw [rowOrder_held h, rowOrder, if_pos h]
  · rw [rowOrder_sorts h, rowOrder, if_neg h]

theorem after_append (calls : List (Call T E)) (c : Call T E) :
    after key (calls ++ [c]) =
      ⟨(result key calls c).rows.map key, some c.epoch, (result key calls c).stale⟩ := by
  rw [after, List.foldl_append, List.foldl_cons, List.foldl_nil, rowOrder_memory]
  rfl

theorem rowOrder_perm {s : Memory K E} {c : Call T E} (hs : s.prev.Nodup) (hc : c.Valid key) :
    (rowOrder key s c).2.rows.Perm c.items := by
  by_cases h : Holds s c
  · rw [rowOrder_held h]
    exact held_perm hc.distinct hs
  · rw [rowOrder_sorts h]
    exact sort_perm c.compare c.items

theorem after_nodup {calls : List (Call T E)} (h : ∀ c ∈ calls, c.Valid key) :
    (after key calls).prev.Nodup := by
  induction calls using List.reverseRecOn with
  | nil => exact List.nodup_nil
  | append_singleton calls c ih =>
    have hcalls : ∀ d ∈ calls, d.Valid key := fun d hd => h d (List.mem_append_left _ hd)
    have hc : c.Valid key := h c (List.mem_append_right _ List.mem_cons_self)
    rw [after_append]
    exact ((rowOrder_perm (ih hcalls) hc).map key).nodup_iff.2 hc.distinct

theorem rowOrder_fresh {s : Memory K E} {c : Call T E} (hc : c.Valid key)
    (hstale : (rowOrder key s c).2.stale = false) :
    Sorted c.compare (rowOrder key s c).2.rows := by
  have := hc.preorder
  by_cases h : Holds s c
  · rw [rowOrder_held h] at hstale ⊢
    exact sorted_of_outOfOrder c.compare (Bool.or_eq_false_iff.1 hstale).2
  · rw [rowOrder_sorts h]
    exact sort_sorted c.compare c.items

/-- For every call after every sequence of calls: the rows that were in the previous result have
a key of it. -/
theorem held_order_keeps_rows {calls : List (Call T E)} {c : Call T E}
    (hcalls : ∀ d ∈ calls, d.Valid key) (hc : c.Valid key) :
    (result key calls c).rows.Perm c.items ∧
    (∀ before last, calls = before ++ [last] → c.hold = true → c.epoch = last.epoch →
      ∃ old new, (result key calls c).rows = old ++ new ∧
        old.map key =
          ((result key before last).rows.map key).filter (fun k => k ∈ c.items.map key) ∧
        (∀ x ∈ new, key x ∉ (result key before last).rows.map key) ∧ Sorted c.compare new) ∧
    ((¬ ∃ before last, calls = before ++ [last] ∧ c.hold = true ∧ c.epoch = last.epoch) →
      Sorted c.compare (result key calls c).rows) ∧
    ((result key calls c).stale = false →
      Sorted c.compare (result key calls c).rows ∧
      sort c.compare (result key calls c).rows = (result key calls c).rows ∧
      ((∀ a ∈ c.items, ∀ b ∈ c.items, c.compare a b = .eq → a = b) →
        sort c.compare c.items = (result key calls c).rows)) := by
  have := hc.preorder
  have hprev : (after key calls).prev.Nodup := after_nodup hcalls
  have hperm : (result key calls c).rows.Perm c.items := rowOrder_perm hprev hc
  refine ⟨hperm, ?_, ?_, ?_⟩
  · rintro before last rfl hhold hepoch
    rw [result, rowOrder_held ⟨hhold, by rw [after_append, hepoch]⟩, held_eq hc.distinct hprev,
      after_append]
    refine ⟨_, _, rfl, map_kept hc.distinct _, ?_, sort_sorted c.compare _⟩
    intro x hx
    have hadded := (sort_perm c.compare _).mem_iff.1 hx
    simpa [added] using (List.mem_filter.1 hadded).2
  · intro hsorts
    have hnot : ¬ Holds (after key calls) c := by
      rintro ⟨hhold, hepoch⟩
      rcases List.eq_nil_or_concat' calls with rfl | ⟨before, last, rfl⟩
      · cases hepoch
      · rw [after_append] at hepoch
        exact hsorts ⟨before, last, rfl, hhold, (Option.some.inj hepoch).symm⟩
    rw [result, rowOrder_sorts hnot]
    exact sort_sorted c.compare c.items
  · intro hstale
    have hsorted : Sorted c.compare (result key calls c).rows := rowOrder_fresh hc hstale
    exact ⟨hsorted, sort_of_sorted c.compare hsorted, sort_unique c.compare hperm hsorted⟩

end calls

def shown : Call (ℕ × ℕ) ℕ := ⟨[(1, 5), (2, 6), (3, 7)], compareOn Prod.snd, true, 0⟩

def refreshed : Call (ℕ × ℕ) ℕ := ⟨[(3, 2), (4, 1), (1, 5)], compareOn Prod.snd, true, 0⟩

theorem held_order_keeps_rows_refreshed :
    (result Prod.fst [shown] refreshed).rows.Perm refreshed.items ∧
    ∃ old new, (result Prod.fst [shown] refreshed).rows = old ++ new ∧ old.map Prod.fst = [1, 3] ∧
      ∀ x ∈ new, x.1 ∉ [1, 2, 3] := by
  have hshown : ∀ c ∈ [shown], c.Valid Prod.fst :=
    List.forall_mem_singleton.2 ⟨by decide, inferInstanceAs (TransCmp (compareOn Prod.snd))⟩
  have hrefreshed : refreshed.Valid Prod.fst :=
    ⟨by decide, inferInstanceAs (TransCmp (compareOn Prod.snd))⟩
  have hbefore : (result Prod.fst [] shown).rows = shown.items :=
    sort_of_sorted shown.compare (by unfold Sorted; decide)
  obtain ⟨hperm, hheld, -, -⟩ := held_order_keeps_rows hshown hrefreshed
  obtain ⟨old, new, hrows, hold, hnew, -⟩ := hheld [] shown rfl rfl rfl
  rw [hbefore] at hold hnew
  exact ⟨hperm, old, new, hrows, hold, hnew⟩

structure Process where
  pid : ℕ
  name : String
  cpu : ℚ
  mem : ℚ

inductive SortKey where
  | cpu
  | mem
  | name
  | pid

def comparison (localeCompare : String → String → Ordering) : SortKey → Process → Process → Ordering
  | .cpu => compareLex (fun a b => compareOn Process.cpu b a)
      (compareLex (fun a b => compareOn Process.mem b a) (compareOn Process.pid))
  | .mem => compareLex (fun a b => compareOn Process.mem b a) (compareOn Process.pid)
  | .name => compareLex (fun a b => localeCompare a.name b.name) (compareOn Process.pid)
  | .pid => compareOn Process.pid

structure Table where
  processes : List Process
  sortKey : SortKey
  epoch : ℕ

def Table.call (localeCompare : String → String → Ordering) (t : Table) : Call Process ℕ where
  items := t.processes
  compare := comparison localeCompare t.sortKey
  hold := match t.sortKey with
    | .cpu | .mem => true
    | .name | .pid => false
  epoch := t.epoch

def Table.sortBy (t : Table) (key : SortKey) : Table := { t with sortKey := key, epoch := t.epoch + 1 }

section table

variable (localeCompare : String → String → Ordering)

theorem comparison_trans [TransCmp localeCompare] (key : SortKey) :
    TransCmp (comparison localeCompare key) := by
  have hname : TransCmp fun a b : Process => localeCompare a.name b.name :=
    { eq_swap := OrientedCmp.eq_swap, isLE_trans := TransCmp.isLE_trans }
  cases key <;> unfold comparison <;> infer_instance

theorem pid_eq_of_comparison {key : SortKey} {a b : Process}
    (h : comparison localeCompare key a b = .eq) : a.pid = b.pid := by
  have hpid : compareOn Process.pid a b = .eq := by
    cases key <;> simp only [comparison, compareLex_eq_eq] at h
    · exact h.2.2
    · exact h.2
    · exact h.2
    · exact h
  exact Nat.compare_eq_eq.1 hpid

theorem Table.call_valid [TransCmp localeCompare] {t : Table}
    (h : (t.processes.map Process.pid).Nodup) : (t.call localeCompare).Valid Process.pid :=
  ⟨h, comparison_trans localeCompare t.sortKey⟩

/-- The button that sorts a held table again would change nothing while it is not shown. -/
theorem process_table_fresh [TransCmp localeCompare] {tables : List Table} {t : Table}
    (htables : ∀ t' ∈ tables, (t'.processes.map Process.pid).Nodup)
    (ht : (t.processes.map Process.pid).Nodup)
    (hfresh : (result Process.pid (tables.map (Table.call localeCompare))
      (t.call localeCompare)).stale = false) :
    (result Process.pid ((tables ++ [t]).map (Table.call localeCompare))
        ((t.sortBy t.sortKey).call localeCompare)).rows =
      (result Process.pid (tables.map (Table.call localeCompare)) (t.call localeCompare)).rows := by
  have hvalid := Table.call_valid localeCompare ht
  have hcalls : ∀ c ∈ tables.map (Table.call localeCompare), c.Valid Process.pid := by
    intro c hc
    obtain ⟨t', ht', rfl⟩ := List.mem_map.1 hc
    exact Table.call_valid localeCompare (htables t' ht')
  have hprev := after_nodup hcalls
  have hnew : ¬ Holds (after Process.pid ((tables ++ [t]).map (Table.call localeCompare)))
      ((t.sortBy t.sortKey).call localeCompare) := by
    rw [List.map_append, List.map_singleton, after_append]
    rintro ⟨-, hepoch⟩
    exact absurd (Option.some.inj hepoch) (Nat.succ_ne_self t.epoch).symm
  have hpreorder := comparison_trans localeCompare t.sortKey
  conv_lhs => rw [result, rowOrder_sorts hnew]
  refine sort_unique (comparison localeCompare t.sortKey) (rowOrder_perm hprev hvalid) (rowOrder_fresh hvalid hfresh) ?_
  intro a ha b hb heq
  exact List.inj_on_of_nodup_map ht ha hb (pid_eq_of_comparison localeCompare heq)

end table

end Lotse.RowOrder
