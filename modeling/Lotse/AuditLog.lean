import Lotse.Paging
import Lotse.Rows
import Lotse.Runs
import Lotse.UserTable
import Lotse.Utf8

set_option autoImplicit false

/-!
# The activity log

`audit` shortens a username to 64 bytes and `execute` writes the one of its run as it is,
while accounts have names of up to 64 characters. `getAudit` compares the stored name with
that of the session.
-/
namespace Lotse.Audit
open Utf8 Rows Runs
open Users (roleIncludes)

structure AuditEntry where
  id : ℕ
  time : ℕ
  username : Bytes
  action : String
  systemID : Option ℤ
  systemName : String
  remote : String
  detail : String
  deriving DecidableEq

/-- `actor` is the name that the entry was written for, which is not stored. -/
structure Row where
  entry : AuditEntry
  actor : Bytes
  deriving DecidableEq

structure State where
  clock : ℕ
  log : List Row

def maxNameLen : ℕ := 64

def auditRetention : ℕ := 366 * 24 * 3600

/-- The loop of `truncate` for a text of more than `n` bytes. -/
def cut (s : Bytes) : ℕ → ℕ
  | 0 => 0
  | n + 1 => if runeStart (s.getD (n + 1) 0) then n + 1 else cut s n

def truncate (s : Bytes) (n : ℕ) : Bytes := if s.length ≤ n then s else s.take (cut s n)

def lower (b : UInt8) : UInt8 := if 0x41 ≤ b.toNat ∧ b.toNat ≤ 0x5A then b + 0x20 else b

def nocase (s : Bytes) : Bytes := s.map lower

def Row.id (r : Row) : ℕ := r.entry.id

def addAudit (g : State) (e : AuditEntry) (actor : Bytes) : State :=
  { g with log := g.log ++ [⟨{ e with id := nextId Row.id g.log, time := g.clock }, actor⟩] }

def audit (g : State) (remote : Option String) (username : Bytes) (action : String)
    (sys : Option (ℤ × String)) (detail : String) : State :=
  addAudit g ⟨0, 0, truncate username maxNameLen, action, sys.map Prod.fst,
    (sys.map Prod.snd).getD "", remote.getD "", detail⟩ username

/-- The entry that `execute` writes for a target of its run. -/
def scriptRun (g : State) (username : Bytes) (sys : ℤ × String) (remote detail : String) : State :=
  addAudit g ⟨0, 0, username, "script_run", some sys.1, sys.2, remote, detail⟩ username

def pruneAudit (g : State) : State :=
  { g with log := g.log.filter fun r => ¬ r.entry.time + auditRetention < g.clock }

inductive Op where
  | audit (remote : Option String) (username : Bytes) (action : String) (sys : Option (ℤ × String))
    (detail : String)
  | scriptRun (username : Bytes) (sys : ℤ × String) (remote detail : String)
  | prune
  | tick (d : ℕ)

def step (g : State) : Op → Option State
  | .audit remote username action sys detail => some (audit g remote username action sys detail)
  | .scriptRun username sys remote detail => some (scriptRun g username sys remote detail)
  | .prune => some (pruneAudit g)
  | .tick d => some { g with clock := g.clock + d }

def initial : State := ⟨0, []⟩

def runeCount (s : Bytes) : ℕ := (s.filter runeStart).length

/-- A name that `credentials.validate` lets an account have. -/
structure Admitted (name : Bytes) : Prop where
  valid : Valid name
  nonempty : name ≠ []
  short : runeCount name ≤ maxNameLen

structure Account where
  username : Bytes
  role : String
  admitted : Admitted username

def auditOf (g : State) (username : Bytes) (before : ℤ) (limit : ℕ) : List AuditEntry :=
  let before := if before ≤ 0 then 2 ^ 62 else before
  (((g.log.map Row.entry).filter fun e =>
    e.id < before ∧ (username = [] ∨ nocase e.username = nocase username)).reverse).take limit

def pageSize (limit : ℤ) : ℕ := if limit ≤ 0 ∨ 200 < limit then 50 else limit.toNat

def getAudit (g : State) (s : Account) (before limit : ℤ) : List AuditEntry × Bool :=
  let user := if roleIncludes s.role "admin" then [] else s.username
  let entries := auditOf g user before (pageSize limit + 1)
  (entries.take (pageSize limit), pageSize limit < entries.length)

/-- A browser asks for the next page with the id of the last entry it has. -/
def pageOut (g : State) (s : Account) (limit : ℤ) : ℕ → ℤ → List AuditEntry
  | 0, _ => []
  | fuel + 1, before =>
    let page := getAudit g s before limit
    if page.2 then page.1 ++ pageOut g s limit fuel ((page.1.getLast?.map (·.id)).getD 0)
    else page.1

/-- There are no more pages than entries. -/
def shownTo (g : State) (s : Account) (limit : ℤ) : List AuditEntry :=
  pageOut g s limit (g.log.length + 1) 0

def writtenFor (g : State) (s : Account) : List AuditEntry :=
  ((g.log.filter fun r => nocase r.actor = nocase s.username).map Row.entry).reverse

def ShortName (_ : State) : Op → Prop
  | .audit _ username _ _ _ => username.length ≤ maxNameLen
  | _ => True

instance (g : State) : (op : Op) → Decidable (ShortName g op) := by
  intro op
  cases op <;> unfold ShortName <;> infer_instance

/-- Ids count up, and there are no more of them than steps. -/
structure Numbered (g : State) (n : ℕ) : Prop where
  sorted : g.log.Pairwise fun a b => a.id < b.id
  ids : ∀ r ∈ g.log, 0 < r.id ∧ r.id ≤ n

def Named (g : State) : Prop := ∀ r ∈ g.log, r.entry.username = r.actor

structure Inv (g : State) (n : ℕ) : Prop extends Numbered g n where
  names : Named g

theorem truncate_of_le {s : Bytes} {n : ℕ} (h : s.length ≤ n) : truncate s n = s := if_pos h

theorem nextId_le {g : State} {n : ℕ} (h : ∀ r ∈ g.log, r.id ≤ n) : nextId Row.id g.log ≤ n + 1 := by
  obtain ⟨clock, log⟩ := g
  induction log with
  | nil => simp [nextId]
  | cons r log ih =>
    have hr := h r List.mem_cons_self
    have hlog := ih fun q hq => h q (List.mem_cons_of_mem r hq)
    simp only [nextId, List.map_cons, List.foldr_cons] at hlog ⊢
    omega

theorem sorted_addAudit {g : State} (h : g.log.Pairwise fun a b => a.id < b.id) (e : AuditEntry)
    (actor : Bytes) : (addAudit g e actor).log.Pairwise fun a b => a.id < b.id := by
  refine List.pairwise_append.2 ⟨h, List.pairwise_singleton _ _, fun r hr q hq => ?_⟩
  rw [List.mem_singleton.1 hq]
  exact id_lt_nextId hr

theorem numbered_add {g : State} {n : ℕ} (h : Numbered g n) (e : AuditEntry) (actor : Bytes) :
    Numbered (addAudit g e actor) (n + 1) where
  sorted := sorted_addAudit h.sorted e actor
  ids r hr := by
    rcases List.mem_append.1 hr with hr | hr
    · obtain ⟨hpos, hle⟩ := h.ids r hr
      exact ⟨hpos, by omega⟩
    · rw [List.mem_singleton.1 hr]
      exact ⟨nextId_pos _, nextId_le fun q hq => (h.ids q hq).2⟩

theorem numbered_mono {g : State} {n : ℕ} (h : Numbered g n) : Numbered g (n + 1) :=
  ⟨h.sorted, fun r hr => ⟨(h.ids r hr).1, by have := (h.ids r hr).2; omega⟩⟩

theorem numbered_step {g g' : State} {n : ℕ} {op : Op} (h : Numbered g n)
    (he : step g op = some g') : Numbered g' (n + 1) := by
  cases op with
  | audit remote username action sys detail =>
    cases he
    exact numbered_add h _ _
  | scriptRun username sys remote detail =>
    cases he
    exact numbered_add h _ _
  | prune =>
    cases he
    exact numbered_mono ⟨h.sorted.filter _, fun r hr => h.ids r (List.mem_filter.1 hr).1⟩
  | tick d =>
    cases he
    exact numbered_mono ⟨h.sorted, h.ids⟩

theorem numbered_exec {g g' : State} {n : ℕ} {ops : List Op} (h : Numbered g n)
    (he : exec step g ops = some g') : Numbered g' (n + ops.length) := by
  induction ops generalizing g n with
  | nil =>
    cases he
    exact h
  | cons op ops ih =>
    obtain ⟨t, ht, hrest⟩ := exec_cons_some he
    have hnext := ih (numbered_step h ht) hrest
    rw [List.length_cons, Nat.add_comm ops.length 1, ← Nat.add_assoc]
    exact hnext

theorem numbered_initial : Numbered initial 0 :=
  ⟨List.Pairwise.nil, fun _ hr => absurd hr List.not_mem_nil⟩

theorem named_add {g : State} (h : Named g) (e : AuditEntry) {actor : Bytes}
    (hname : e.username = actor) : Named (addAudit g e actor) := by
  intro r hr
  rcases List.mem_append.1 hr with hr | hr
  · exact h r hr
  · rw [List.mem_singleton.1 hr]
    exact hname

theorem named_step (g : State) (op : Op) (g' : State) (h : Named g) (hshort : ShortName g op)
    (he : step g op = some g') : Named g' := by
  cases op with
  | audit remote username action sys detail =>
    cases he
    exact named_add h _ (truncate_of_le hshort)
  | scriptRun username sys remote detail =>
    cases he
    exact named_add h _ rfl
  | prune =>
    cases he
    exact fun r hr => h r (List.mem_filter.1 hr).1
  | tick d =>
    cases he
    exact h

theorem inv_run {g : State} {ops : List Op} (hm : Meets step ShortName initial ops)
    (he : exec step initial ops = some g) : Inv g ops.length := by
  have hnumbered := numbered_exec numbered_initial he
  rw [Nat.zero_add] at hnumbered
  have hinitial : Named initial := fun r hr => absurd hr List.not_mem_nil
  exact ⟨hnumbered, exec_guarded named_step hinitial hm he⟩

section pages
variable {g : State} {n : ℕ} {s : Account}

def matching (g : State) (s : Account) : List AuditEntry :=
  ((g.log.map Row.entry).filter fun e => nocase e.username = nocase s.username).reverse

def key (e : AuditEntry) : ℤ := e.id

def bound (before : ℤ) : Option ℤ := if before ≤ 0 then none else some before

theorem entries_sorted (h : g.log.Pairwise fun a b => a.id < b.id) (p : AuditEntry → Bool) :
    (((g.log.map Row.entry).filter p).reverse).Pairwise fun a b => key b < key a := by
  unfold key
  rw [List.pairwise_reverse]
  refine List.Pairwise.filter _ (List.pairwise_map.2 (h.imp fun hlt => ?_))
  exact_mod_cast hlt

theorem matching_sorted (h : Inv g n) (s : Account) :
    (matching g s).Pairwise fun a b => key b < key a := entries_sorted h.sorted _

theorem auditOf_eq (h : Inv g n) (hn : n < 2 ^ 62) (s : Account) (before : ℤ) (limit : ℕ) :
    auditOf g s.username before limit =
      (Paging.below key (bound before) (matching g s)).take limit := by
  unfold auditOf Paging.below matching bound
  rw [List.filter_reverse, List.filter_filter]
  simp only
  congr 2
  refine List.filter_congr fun e he => ?_
  obtain ⟨r, hr, rfl⟩ := List.mem_map.1 he
  have hid : r.entry.id < 2 ^ 62 := lt_of_le_of_lt (h.ids r hr).2 hn
  have hne : s.username ≠ [] := s.admitted.nonempty
  split_ifs with hb
  · simp only [key, hne, false_or, Option.not_mem_none, false_implies, implies_true, decide_true,
      Bool.true_and, decide_eq_decide, and_iff_right_iff_imp]
    exact fun _ => by exact_mod_cast hid
  · simp [key, hne]

theorem getAudit_eq (h : Inv g n) (hn : n < 2 ^ 62) (hrole : roleIncludes s.role "admin" = false)
    (before limit : ℤ) : getAudit g s before limit =
      Paging.page key (pageSize limit) (bound before) (matching g s) := by
  simp only [getAudit, hrole, Bool.false_eq_true, if_false, auditOf_eq h hn]
  exact Paging.lookahead _ _

theorem pageSize_pos (limit : ℤ) : 0 < pageSize limit := by
  unfold pageSize
  split_ifs <;> omega

theorem bound_last (h : Inv g n) {page : List AuditEntry} (hsub : ∀ e ∈ page, e ∈ matching g s)
    (hne : page ≠ []) :
    bound ((page.getLast?.map (·.id)).getD 0) = page.getLast?.map key := by
  rw [List.getLast?_eq_some_getLast hne]
  have hmem := hsub _ (List.getLast_mem hne)
  obtain ⟨r, hr, heq⟩ := List.mem_map.1 (List.mem_filter.1 (List.mem_reverse.1 hmem)).1
  have hpos : 0 < r.entry.id := (h.ids r hr).1
  have hid : ¬ ((page.getLast hne).id : ℤ) ≤ 0 := by
    rw [← heq]
    omega
  simp only [Option.map_some, Option.getD_some, bound, if_neg hid, key]

theorem pageOut_eq (h : Inv g n) (hn : n < 2 ^ 62) (hrole : roleIncludes s.role "admin" = false)
    (limit : ℤ) (fuel : ℕ) (before : ℤ) : pageOut g s limit fuel before =
      Paging.pages key (pageSize limit) (matching g s) fuel (bound before) := by
  induction fuel generalizing before with
  | zero => rfl
  | succ fuel ih =>
    simp only [pageOut, Paging.pages, getAudit_eq h hn hrole]
    by_cases hmore : (Paging.page key (pageSize limit) (bound before) (matching g s)).2 = true
    · have hlen : pageSize limit < (Paging.below key (bound before) (matching g s)).length := by
        simpa [Paging.page] using hmore
      have hne : (Paging.page key (pageSize limit) (bound before) (matching g s)).1 ≠ [] := by
        apply List.ne_nil_of_length_pos
        have hpos := pageSize_pos limit
        simp only [Paging.page, List.length_take]
        omega
      have hsub : ∀ e ∈ (Paging.page key (pageSize limit) (bound before) (matching g s)).1,
          e ∈ matching g s :=
        fun e he => (List.mem_filter.1 (List.mem_of_mem_take he)).1
      rw [if_pos hmore, if_pos hmore, ih, bound_last h hsub hne]
    · rw [if_neg hmore, if_neg hmore]

theorem shownTo_eq (h : Inv g n) (hn : n < 2 ^ 62) (hrole : roleIncludes s.role "admin" = false)
    (limit : ℤ) : shownTo g s limit = matching g s := by
  have hlen : (Paging.below key (bound 0) (matching g s)).length < g.log.length + 1 := by
    have hfilter : (matching g s).length ≤ g.log.length := by
      rw [matching, List.length_reverse, ← List.length_map Row.entry]
      exact List.length_filter_le _ _
    have hbelow : (Paging.below key (bound 0) (matching g s)).length ≤ (matching g s).length :=
      List.length_filter_le _ _
    omega
  rw [shownTo, pageOut_eq h hn hrole,
    Paging.pages_eq (pageSize_pos limit) (matching_sorted h s) _ _ hlen]
  exact Paging.below_none

theorem matching_eq (h : Inv g n) (s : Account) : matching g s = writtenFor g s := by
  unfold matching writtenFor
  rw [List.filter_map]
  congr 2
  refine List.filter_congr fun r hr => ?_
  simp only [Function.comp_apply, h.names r hr]

end pages

/-- If every audit call has a name of at most 64 bytes, and fewer than 2^62 steps were taken,
an account that is no administrator gets the entries written for its name up to case, all of
them, the newest first. -/
theorem own_activity_shown (ops : List Op) (g : State) (hm : Meets step ShortName initial ops)
    (he : exec step initial ops = some g) (hlen : ops.length < 2 ^ 62) (s : Account)
    (hrole : roleIncludes s.role "admin" = false) (limit : ℤ) :
    shownTo g s limit = writtenFor g s := by
  have h := inv_run hm he
  rw [shownTo_eq h hlen hrole, matching_eq h]

def accented (n : ℕ) : Bytes := (List.replicate n [0xC3, 0xA9]).flatten

theorem accented_valid (n : ℕ) : Valid (accented n) := by
  induction n with
  | zero => exact .nil
  | succ n ih => exact .cons (c := [0xC3, 0xA9]) ⟨rfl, by decide⟩ ih

def longName : Account := ⟨accented 64, "viewer", accented_valid 64, by decide, by decide⟩

def halfName : Account := ⟨accented 32, "viewer", accented_valid 32, by decide, by decide⟩

def shortName : Account := ⟨accented 2, "viewer", accented_valid 2, by decide, by decide⟩

def halfNameLogin : List Op :=
  [.audit none halfName.username "login" none "", .audit none shortName.username "login" none "", .prune]

theorem half_name_sees_own : ∃ g,
    exec step initial halfNameLogin = some g ∧ g.log.length = 2 ∧
    shownTo g halfName 50 = writtenFor g halfName ∧ (writtenFor g halfName).length = 1 := by
  refine ⟨_, rfl, by decide +kernel, ?_, by decide +kernel⟩
  exact own_activity_shown halfNameLogin _ (by decide +kernel) rfl (by decide) halfName (by decide) 50

/-- The login of the account with the long name is shown to the other account, which has the
first half of the name, and not to its own. -/
theorem activity_shown_to_another : ∃ g,
    exec step initial [.audit none longName.username "login" none ""] = some g ∧
    nocase longName.username ≠ nocase halfName.username ∧
    writtenFor g halfName = [] ∧ (shownTo g halfName 50).map (·.action) = ["login"] ∧
    (writtenFor g longName).map (·.action) = ["login"] ∧ shownTo g longName 50 = [] := by
  refine ⟨_, rfl, ?_, ?_, ?_, ?_, ?_⟩ <;> decide +kernel

end Lotse.Audit
