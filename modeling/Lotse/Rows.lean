import Mathlib.Tactic

set_option autoImplicit false

/-!
# Tables with an integer key

A table is the list of its rows. `lookup` selects by key, `update` and `erase` are
`UPDATE` and `DELETE` of the rows with a key, and `nextId` is the key an
`INTEGER PRIMARY KEY` without `AUTOINCREMENT` gives to a new row: one more than the
largest key in the table, so the key of the last row is given out again once that
row is gone.
-/
namespace Lotse.Rows

variable {ρ κ : Type*} [DecidableEq κ] (k : ρ → κ)

def lookup (a : κ) (rows : List ρ) : Option ρ := rows.find? fun r => k r = a

def update (a : κ) (f : ρ → ρ) (rows : List ρ) : List ρ :=
  rows.map fun r => if k r = a then f r else r

def erase (a : κ) (rows : List ρ) : List ρ := rows.filter fun r => k r ≠ a

/-- What a query for one row answers; `failed` is any error but that there is none. -/
inductive Answer (ρ : Type*) where
  | found (r : ρ)
  | notFound
  | failed

def query (ok : Bool) (row : Option ρ) : Answer ρ :=
  if ok then row.elim .notFound .found else .failed

/-- The check of a caller that stops at a missing row only and takes an error for a row. -/
def Answer.passes : Answer ρ → Bool
  | .found _ | .failed => true
  | .notFound => false

variable {k} {rows : List ρ} {a b : κ} {r : ρ} {f : ρ → ρ}

theorem lookup_mem (h : lookup k a rows = some r) : r ∈ rows := List.mem_of_find?_eq_some h

theorem lookup_key (h : lookup k a rows = some r) : k r = a := by
  simpa using List.find?_some h

theorem lookup_eq_none : lookup k a rows = none ↔ ∀ r ∈ rows, k r ≠ a := by
  simp [lookup]

theorem lookup_isSome : (lookup k a rows).isSome ↔ ∃ r ∈ rows, k r = a := by
  simp [lookup]

theorem exists_lookup (hr : r ∈ rows) : ∃ q, lookup k (k r) rows = some q :=
  Option.isSome_iff_exists.1 (lookup_isSome.2 ⟨r, hr, rfl⟩)

theorem lookup_update (hf : ∀ r, k (f r) = k r) (a b : κ) (rows : List ρ) :
    lookup k b (update k a f rows) =
      (lookup k b rows).map fun r => if k r = a then f r else r := by
  induction rows with
  | nil => rfl
  | cons r rows ih =>
    have hk : k (if k r = a then f r else r) = k r := by
      split_ifs
      · exact hf r
      · rfl
    simp only [lookup, update, List.map_cons, List.find?_cons] at ih ⊢
    rw [hk]
    by_cases hl : k r = b
    · simp [hl]
    · simpa [hl] using ih

theorem lookup_update_self (hf : ∀ r, k (f r) = k r) (a : κ) (rows : List ρ) :
    lookup k a (update k a f rows) = (lookup k a rows).map f := by
  rw [lookup_update hf]
  cases h : lookup k a rows with
  | none => rfl
  | some r => simp [lookup_key h]

theorem lookup_update_ne (hf : ∀ r, k (f r) = k r) (hab : b ≠ a) (rows : List ρ) :
    lookup k b (update k a f rows) = lookup k b rows := by
  rw [lookup_update hf]
  cases h : lookup k b rows with
  | none => rfl
  | some r => simp [lookup_key h, hab]

theorem lookup_erase_self (a : κ) (rows : List ρ) : lookup k a (erase k a rows) = none := by
  rw [lookup_eq_none]
  intro r hr
  simpa using (List.mem_filter.1 hr).2

theorem lookup_erase_ne (hab : b ≠ a) (rows : List ρ) :
    lookup k b (erase k a rows) = lookup k b rows := by
  unfold lookup erase
  rw [List.find?_filter]
  congr 1
  funext r
  by_cases h : k r = b
  · simp [h, hab]
  · simp [h]

theorem lookup_append_ne (h : k r ≠ b) (rows : List ρ) :
    lookup k b (rows ++ [r]) = lookup k b rows := by
  simp [lookup, List.find?_append, h]

theorem lookup_append_self (h : lookup k (k r) rows = none) :
    lookup k (k r) (rows ++ [r]) = some r := by
  unfold lookup at h ⊢
  rw [List.find?_append, h]
  simp

theorem nodup_append (hd : (rows.map k).Nodup) (h : lookup k (k r) rows = none) :
    ((rows ++ [r]).map k).Nodup := by
  rw [lookup_eq_none] at h
  rw [List.map_append, List.nodup_append]
  refine ⟨hd, by simp, ?_⟩
  intro x hx y hy
  obtain ⟨q, hq, rfl⟩ := List.mem_map.1 hx
  obtain rfl := List.mem_singleton.1 hy
  exact h q hq

theorem update_of_ne (h : ∀ r ∈ rows, k r ≠ a) : update k a f rows = rows := by
  refine (List.map_congr_left ?_).trans (List.map_id rows)
  intro r hr
  exact if_neg (h r hr)

theorem update_append_cons {before after : List ρ} (hd : ((before ++ r :: after).map k).Nodup) :
    update k (k r) f (before ++ r :: after) = before ++ f r :: after := by
  rw [List.map_append, List.map_cons, List.nodup_append, List.nodup_cons] at hd
  have hbefore : ∀ q ∈ before, k q ≠ k r := fun q hq =>
    hd.2.2 _ (List.mem_map_of_mem hq) _ List.mem_cons_self
  have hafter : ∀ q ∈ after, k q ≠ k r := fun q hq he =>
    hd.2.1.1 (List.mem_map.2 ⟨q, hq, he⟩)
  have hself : update k (k r) f [r] = [f r] := by simp [update]
  calc update k (k r) f (before ++ r :: after)
      = update k (k r) f before ++ (update k (k r) f [r] ++ update k (k r) f after) := by
        simp [update]
    _ = before ++ f r :: after := by
        rw [update_of_ne hbefore, update_of_ne hafter, hself]
        rfl

theorem filter_eq_singleton [DecidableEq ρ] {p : ρ → Prop} [DecidablePred p] (hd : rows.Nodup)
    (hr : r ∈ rows) (hp : ∀ q ∈ rows, p q ↔ q = r) : (rows.filter fun q => p q) = [r] := by
  have hsame : ∀ q ∈ rows, decide (p q) = decide (q = r) :=
    fun q hq => decide_eq_decide.2 (hp q hq)
  rw [List.filter_congr hsame, List.filter_eq, List.count_eq_one_of_mem hd hr]
  rfl

section nextId
variable (id : ρ → ℕ)

def nextId (rows : List ρ) : ℕ := (rows.map id).foldr max 0 + 1

variable {id}

theorem id_lt_nextId (hr : r ∈ rows) : id r < nextId id rows := by
  induction rows with
  | nil => cases hr
  | cons q rows ih =>
    unfold nextId at ih ⊢
    simp only [List.map_cons, List.foldr_cons]
    rcases List.mem_cons.1 hr with rfl | hr
    · omega
    · have := ih hr
      omega

theorem nextId_pos (rows : List ρ) : 0 < nextId id rows := Nat.succ_pos _

theorem lookup_nextId (rows : List ρ) : lookup id (nextId id rows) rows = none := by
  rw [lookup_eq_none]
  intro r hr
  exact (id_lt_nextId hr).ne

instance one_neZero : NeZero (1 : ℕ) := ⟨Nat.one_ne_zero⟩

def nextPos (id : ρ → ℕ+) (rows : List ρ) : ℕ+ := ⟨nextId (fun r => id r) rows, nextId_pos rows⟩

theorem lookup_nextPos (id : ρ → ℕ+) (rows : List ρ) : lookup id (nextPos id rows) rows = none := by
  rw [lookup_eq_none]
  intro r hr he
  have hlt := @id_lt_nextId ρ rows r (fun r => id r) hr
  exact hlt.ne (congrArg PNat.val he)

end nextId

end Lotse.Rows
