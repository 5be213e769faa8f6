import Lotse.AuditLog

set_option autoImplicit false

/-!
# Paging through a log that grows

A browser asks `getAudit` for page after page, with the id of the last entry it has, while other
requests append entries. `logs i` is the table that page `i` is read from. Of an id only that
it is positive and above the ids before it is used.
-/
namespace Lotse.AuditPages
open Audit Utf8 Runs

def userOf (s : Account) : Bytes := if Users.roleIncludes s.role "admin" then [] else s.username

def getPage (g : State) (user : Bytes) (before limit : ℤ) : List AuditEntry × Bool :=
  let entries := auditOf g user before (pageSize limit + 1)
  (entries.take (pageSize limit), pageSize limit < entries.length)

theorem getAudit_userOf (g : State) (s : Account) (before limit : ℤ) :
    getAudit g s before limit = getPage g (userOf s) before limit := rfl

/-- The browser from page `i` on; `none` if `fuel` pages were not enough. -/
def follow (logs : ℕ → State) (user : Bytes) (limit : ℤ) : ℕ → ℕ → ℤ → Option (List AuditEntry)
  | 0, _, _ => none
  | fuel + 1, i, before =>
    let page := getPage (logs i) user before limit
    if page.2 then
      (follow logs user limit fuel (i + 1) ((page.1.getLast?.map (·.id)).getD 0)).map (page.1 ++ ·)
    else some page.1

def visibleTo (g : State) (user : Bytes) : List AuditEntry :=
  ((g.log.map Row.entry).filter fun e => user = [] ∨ nocase e.username = nocase user).reverse

structure Ordered (g : State) : Prop where
  sorted : g.log.Pairwise fun a b => a.id < b.id
  positive : ∀ r ∈ g.log, 0 < r.id

/-- Between two pages entries are only appended. -/
structure Growing (logs : ℕ → State) : Prop where
  ordered : ∀ i, Ordered (logs i)
  appended : ∀ i, ∃ new, (logs (i + 1)).log = (logs i).log ++ new

theorem ordered_addAudit {g : State} (h : Ordered g) (e : AuditEntry) (actor : Bytes) :
    Ordered (addAudit g e actor) where
  sorted := sorted_addAudit h.sorted e actor
  positive r hr := by
    rcases List.mem_append.1 hr with hr | hr
    · exact h.positive r hr
    · rw [List.mem_singleton.1 hr]
      exact Rows.nextId_pos _

theorem step_appends {g g' : State} {op : Op} (h : Ordered g) (hop : op ≠ .prune)
    (he : Audit.step g op = some g') : Ordered g' ∧ ∃ new, g'.log = g.log ++ new := by
  cases op with
  | audit remote username action sys detail =>
    cases he
    exact ⟨ordered_addAudit h _ _, _, rfl⟩
  | scriptRun username sys remote detail =>
    cases he
    exact ⟨ordered_addAudit h _ _, _, rfl⟩
  | prune => exact absurd rfl hop
  | tick d =>
    cases he
    exact ⟨⟨h.sorted, h.positive⟩, [], (List.append_nil _).symm⟩

theorem exec_appends {g g' : State} {ops : List Op} (h : Ordered g) (hops : ∀ op ∈ ops, op ≠ .prune)
    (he : exec Audit.step g ops = some g') : Ordered g' ∧ ∃ new, g'.log = g.log ++ new := by
  induction ops generalizing g with
  | nil =>
    cases he
    exact ⟨h, [], (List.append_nil _).symm⟩
  | cons op ops ih =>
    obtain ⟨t, ht, hrest⟩ := exec_cons_some he
    obtain ⟨hordered, new, hnew⟩ := step_appends h (hops op List.mem_cons_self) ht
    obtain ⟨hlast, later, hlater⟩ :=
      ih hordered (fun op hop => hops op (List.mem_cons_of_mem _ hop)) hrest
    exact ⟨hlast, new ++ later, by rw [hlater, hnew, List.append_assoc]⟩

theorem growing_of_ops {logs : ℕ → State} (ops : ℕ → List Op) (hstart : Ordered (logs 0))
    (hops : ∀ i, ∀ op ∈ ops i, op ≠ .prune)
    (he : ∀ i, exec Audit.step (logs i) (ops i) = some (logs (i + 1))) : Growing logs := by
  have hordered (i : ℕ) : Ordered (logs i) := by
    induction i with
    | zero => exact hstart
    | succ i ih => exact (exec_appends ih (hops i) (he i)).1
  exact ⟨hordered, fun i => (exec_appends (hordered i) (hops i) (he i)).2⟩

theorem Growing.appended_to_first {logs : ℕ → State} (h : Growing logs) (i : ℕ) :
    ∃ new, (logs i).log = (logs 0).log ++ new := by
  induction i with
  | zero => exact ⟨[], (List.append_nil _).symm⟩
  | succ i ih =>
    obtain ⟨new, hnew⟩ := ih
    obtain ⟨later, hlater⟩ := h.appended i
    exact ⟨new ++ later, by rw [hlater, hnew, List.append_assoc]⟩

def cursor (before : ℤ) : ℤ := if before ≤ 0 then 2 ^ 62 else before

theorem mem_visibleTo {g : State} {user : Bytes} {e : AuditEntry} (h : e ∈ visibleTo g user) :
    ∃ r ∈ g.log, r.entry = e :=
  List.mem_map.1 (List.mem_filter.1 (List.mem_reverse.1 h)).1

theorem visibleTo_sorted {g : State} (h : Ordered g) (user : Bytes) :
    (visibleTo g user).Pairwise fun a b => key b < key a := entries_sorted h.sorted _

theorem auditOf_visibleTo (g : State) (user : Bytes) (before : ℤ) (limit : ℕ) :
    auditOf g user before limit =
      (Paging.below key (some (cursor before)) (visibleTo g user)).take limit := by
  unfold auditOf Paging.below visibleTo cursor
  rw [List.filter_reverse, List.filter_filter]
  dsimp only
  congr 2
  refine List.filter_congr fun e _ => ?_
  simp [key]

theorem getPage_eq (g : State) (user : Bytes) (before limit : ℤ) :
    getPage g user before limit =
      Paging.page key (pageSize limit) (some (cursor before)) (visibleTo g user) := by
  simp only [getPage, auditOf_visibleTo]
  exact Paging.lookahead _ _

theorem Growing.below_eq {logs : ℕ → State} (h : Growing logs) {user : Bytes} {e : AuditEntry}
    (he : e ∈ visibleTo (logs 0) user) (i : ℕ) :
    Paging.below key (some (key e)) (visibleTo (logs i) user) =
      Paging.below key (some (key e)) (visibleTo (logs 0) user) := by
  obtain ⟨new, hnew⟩ := h.appended_to_first i
  obtain ⟨r, hr, rfl⟩ := mem_visibleTo he
  have hsorted := (h.ordered i).sorted
  rw [hnew] at hsorted
  have habove : ∀ q ∈ new, ¬ key q.entry < key r.entry := by
    intro q hq hlt
    have hid : r.id < q.id := (List.pairwise_append.1 hsorted).2.2 r hr q hq
    unfold key at hlt
    unfold Row.id at hid
    omega
  have hnone : Paging.below key (some (key r.entry))
      (((new.map Row.entry).filter fun e => user = [] ∨ nocase e.username = nocase user).reverse) =
        [] := by
    refine List.filter_eq_nil_iff.2 fun e he' => ?_
    obtain ⟨q, hq, rfl⟩ := List.mem_map.1 (List.mem_filter.1 (List.mem_reverse.1 he')).1
    simpa using habove q hq
  unfold visibleTo Paging.below at *
  rw [hnew, List.map_append, List.filter_append, List.reverse_append, List.filter_append, hnone,
    List.nil_append]

section

variable {logs : ℕ → State} (hlogs : Growing logs) {user : Bytes} {limit : ℤ}
include hlogs

theorem cursor_id {e : AuditEntry} (he : e ∈ visibleTo (logs 0) user) : cursor e.id = key e := by
  obtain ⟨r, hr, rfl⟩ := mem_visibleTo he
  have hpos : 0 < r.entry.id := (hlogs.ordered 0).positive r hr
  rw [cursor, if_neg (by omega), key]

theorem follow_eq {fuel i : ℕ} {before : ℤ}
    (hview : Paging.below key (some (cursor before)) (visibleTo (logs i) user) =
      Paging.below key (some (cursor before)) (visibleTo (logs 0) user))
    (hf : (Paging.below key (some (cursor before)) (visibleTo (logs 0) user)).length < fuel) :
    follow logs user limit fuel i before =
      some (Paging.below key (some (cursor before)) (visibleTo (logs 0) user)) := by
  induction fuel generalizing i before with
  | zero => omega
  | succ fuel ih =>
    have hpage : getPage (logs i) user before limit =
        Paging.page key (pageSize limit) (some (cursor before)) (visibleTo (logs 0) user) := by
      rw [getPage_eq, Paging.page, Paging.page, hview]
    have hpos := pageSize_pos limit
    simp only [follow, hpage, Paging.page, decide_eq_true_eq]
    set rest := Paging.below key (some (cursor before)) (visibleTo (logs 0) user) with hrest
    split_ifs with hmore
    · have hne : rest.take (pageSize limit) ≠ [] := by
        apply List.ne_nil_of_length_pos
        rw [List.length_take]
        omega
      obtain ⟨e, he⟩ : ∃ e, (rest.take (pageSize limit)).getLast? = some e :=
        ⟨_, List.getLast?_eq_some_getLast hne⟩
      have hmem : e ∈ visibleTo (logs 0) user :=
        (List.mem_filter.1 (List.mem_of_mem_take (List.mem_of_getLast? he))).1
      have hcursor := cursor_id hlogs hmem
      have hdrop : Paging.below key (some (key e)) (visibleTo (logs 0) user) =
          rest.drop (pageSize limit) :=
        Paging.below_last (visibleTo_sorted (hlogs.ordered 0) user) he
      rw [he, Option.map_some, Option.getD_some, ih, hcursor, hdrop, Option.map_some,
        List.take_append_drop]
      · rw [hcursor]
        exact hlogs.below_eq hmem (i + 1)
      · rw [hcursor, hdrop, List.length_drop]
        omega
    · rw [List.take_of_length_le (by omega)]

theorem more_iff (i : ℕ) (before : ℤ) :
    (getPage (logs i) user before limit).2 = true ↔
      ∃ e ∈ visibleTo (logs i) user, key e < cursor before ∧
        ∀ p ∈ (getPage (logs i) user before limit).1, e.id < p.id := by
  rw [getPage_eq, Paging.page_more_iff (visibleTo_sorted (hlogs.ordered i) user)]
  simp only [Paging.below, List.mem_filter, key, Option.mem_def, Option.some.injEq, forall_eq',
    decide_eq_true_eq, and_assoc, Nat.cast_lt]

end

theorem growing_paged (logs : ℕ → State) (hlogs : Growing logs) (user : Bytes) (limit : ℤ)
    (hids : ∀ e ∈ visibleTo (logs 0) user, e.id < 2 ^ 62) :
    (∃ fuel entries, follow logs user limit fuel 0 0 = some entries ∧
      entries.Pairwise (fun a b => b.id < a.id) ∧
      ∀ e, entries.count e = if e ∈ visibleTo (logs 0) user then 1 else 0) ∧
    ∀ i before, i = 0 ∨ 0 < before →
      ((getPage (logs i) user before limit).2 = true ↔
        ∃ e ∈ visibleTo (logs i) user, (0 < before → e.id < before) ∧
          ∀ p ∈ (getPage (logs i) user before limit).1, e.id < p.id) := by
  have hsorted : (visibleTo (logs 0) user).Pairwise fun a b => b.id < a.id :=
    (visibleTo_sorted (hlogs.ordered 0) user).imp Int.ofNat_lt.1
  constructor
  · have hall : Paging.below key (some (cursor 0)) (visibleTo (logs 0) user) =
        visibleTo (logs 0) user := by
      refine List.filter_eq_self.2 fun e he => ?_
      have hid := hids e he
      simp only [cursor, key, Option.mem_def, Option.some.injEq, forall_eq', decide_eq_true_eq]
      exact_mod_cast hid
    refine ⟨(visibleTo (logs 0) user).length + 1, visibleTo (logs 0) user, ?_, hsorted, ?_⟩
    · rw [follow_eq hlogs rfl (by rw [hall]; omega), hall]
    · have hnodup : (visibleTo (logs 0) user).Nodup := hsorted.imp fun hlt heq => by
        rw [heq] at hlt
        exact lt_irrefl _ hlt
      intro e
      exact hnodup.count
  · intro i before hfirst
    rw [more_iff hlogs]
    refine exists_congr fun e => and_congr_right fun he => and_congr_left fun _ => ?_
    by_cases hb : 0 < before
    · simp [cursor, key, hb, not_le.2 hb]
    · have hid : e.id < 2 ^ 62 := by
        rcases hfirst with rfl | hpos
        · exact hids e he
        · exact absurd hpos hb
      simp only [cursor, key, hb, not_lt.1 hb, if_true, false_implies, iff_true]
      exact_mod_cast hid

/-- Whatever was logged and pruned before the first page, in fewer than 2^62 steps, and is logged
between the pages: paging ends with every entry of the first page's log that the user may see,
each once and the newest first, and `more` is true exactly if there is an older one. -/
theorem paging_complete (past : List Op) (hpast : past.length < 2 ^ 62) (logs : ℕ → State)
    (hfirst : exec Audit.step initial past = some (logs 0)) (ops : ℕ → List Op)
    (hops : ∀ i, ∀ op ∈ ops i, op ≠ .prune)
    (he : ∀ i, exec Audit.step (logs i) (ops i) = some (logs (i + 1))) (user : Bytes) (limit : ℤ) :
    (∃ fuel entries, follow logs user limit fuel 0 0 = some entries ∧
      entries.Pairwise (fun a b => b.id < a.id) ∧
      ∀ e, entries.count e = if e ∈ visibleTo (logs 0) user then 1 else 0) ∧
    ∀ i before, i = 0 ∨ 0 < before →
      ((getPage (logs i) user before limit).2 = true ↔
        ∃ e ∈ visibleTo (logs i) user, (0 < before → e.id < before) ∧
          ∀ p ∈ (getPage (logs i) user before limit).1, e.id < p.id) := by
  have hnumbered := numbered_exec numbered_initial hfirst
  rw [Nat.zero_add] at hnumbered
  have hordered : Ordered (logs 0) := ⟨hnumbered.sorted, fun r hr => (hnumbered.ids r hr).1⟩
  refine growing_paged logs (growing_of_ops ops hordered hops he) user limit fun e hmem => ?_
  obtain ⟨r, hr, rfl⟩ := mem_visibleTo hmem
  exact lt_of_le_of_lt (hnumbered.ids r hr).2 hpast

def busyPast : List Op := List.replicate 3 (.audit none halfName.username "login" none "")

def busyLogs : ℕ → State
  | 0 => (exec Audit.step initial busyPast).getD initial
  | i + 1 => audit (busyLogs i) none longName.username "login" none ""

theorem paging_complete_busy : (visibleTo (busyLogs 0) halfName.username).length = 3 ∧
    ∃ fuel entries, follow busyLogs halfName.username 2 fuel 0 0 = some entries ∧
      ∀ e, entries.count e = if e ∈ visibleTo (busyLogs 0) halfName.username then 1 else 0 := by
  have hfirst : exec Audit.step initial busyPast = some (busyLogs 0) :=
    exec_getD (by decide +kernel) initial
  obtain ⟨fuel, entries, hfollow, -, hcount⟩ :=
    (paging_complete busyPast (by decide) busyLogs hfirst
      (fun _ => [.audit none longName.username "login" none ""])
      (fun i op hop => by rw [List.mem_singleton.1 hop]; exact fun h => Op.noConfusion h)
      (fun i => rfl) halfName.username 2).1
  exact ⟨by decide +kernel, fuel, entries, hfollow, hcount⟩

end Lotse.AuditPages
