import Mathlib.Tactic

set_option autoImplicit false

namespace Lotse.Paging

variable {ρ κ : Type*} [LinearOrder κ] (k : ρ → κ)

def below (bound : Option κ) (rows : List ρ) : List ρ := rows.filter fun r => ∀ c ∈ bound, k r < c

def page (n : ℕ) (bound : Option κ) (rows : List ρ) : List ρ × Bool :=
  ((below k bound rows).take n, n < (below k bound rows).length)

def pages (n : ℕ) (rows : List ρ) : ℕ → Option κ → List ρ
  | 0, _ => []
  | fuel + 1, bound =>
    let p := page k n bound rows
    if p.2 then p.1 ++ pages n rows fuel (p.1.getLast?.map k) else p.1

variable {k} {rows : List ρ}

theorem lookahead (rows : List ρ) (n : ℕ) :
    ((rows.take (n + 1)).take n, decide (n < (rows.take (n + 1)).length)) =
      (rows.take n, decide (n < rows.length)) := by
  rw [List.take_take, List.length_take, Nat.min_eq_left n.le_succ, Prod.mk.injEq, decide_eq_decide]
  exact ⟨rfl, by omega⟩

theorem below_none : below k none rows = rows := by
  simp [below]

theorem below_sorted (h : rows.Pairwise fun a b => k b < k a) (bound : Option κ) :
    (below k bound rows).Pairwise fun a b => k b < k a := h.filter _

theorem below_append_cons {xs ys : List ρ} {r : ρ}
    (h : (xs ++ r :: ys).Pairwise fun a b => k b < k a) :
    below k (some (k r)) (xs ++ r :: ys) = ys := by
  obtain ⟨-, hys, hcross⟩ := List.pairwise_append.1 h
  obtain ⟨hr, -⟩ := List.pairwise_cons.1 hys
  have hxs : below k (some (k r)) xs = [] :=
    List.filter_eq_nil_iff.2 fun x hx => by simpa using (hcross x hx r List.mem_cons_self).le
  have hafter : below k (some (k r)) ys = ys :=
    List.filter_eq_self.2 fun y hy => by simpa using hr y hy
  unfold below at hxs hafter ⊢
  rw [List.filter_append, List.filter_cons, hxs, hafter]
  simp

theorem below_below {bound : Option κ} {r : ρ} (hr : r ∈ below k bound rows) :
    below k (some (k r)) (below k bound rows) = below k (some (k r)) rows := by
  obtain ⟨-, hbound⟩ := List.mem_filter.1 hr
  unfold below
  rw [List.filter_filter]
  refine List.filter_congr fun x _ => ?_
  rw [Bool.and_eq_left_iff_imp]
  intro hx
  simp only [decide_eq_true_eq, Option.mem_def, Option.some.injEq, forall_eq'] at hbound hx ⊢
  exact fun c hc => hx.trans (hbound c hc)

theorem below_last {n : ℕ} {bound : Option κ} {r : ρ}
    (hs : rows.Pairwise fun a b => k b < k a)
    (hr : ((below k bound rows).take n).getLast? = some r) :
    below k (some (k r)) rows = (below k bound rows).drop n := by
  obtain ⟨xs, hxs⟩ := List.getLast?_eq_some_iff.1 hr
  have hsplit : below k bound rows = xs ++ r :: (below k bound rows).drop n := by
    conv_lhs => rw [← List.take_append_drop n (below k bound rows), hxs]
    simp
  have hmem : r ∈ below k bound rows := List.mem_of_mem_take (List.mem_of_getLast? hr)
  have hsorted := below_sorted hs bound
  rw [hsplit] at hsorted
  rw [← below_below hmem]
  conv_lhs => rw [hsplit]
  exact below_append_cons hsorted

theorem page_more_iff {n : ℕ} {bound : Option κ} (hs : rows.Pairwise fun a b => k b < k a) :
    (page k n bound rows).2 = true ↔
      ∃ r ∈ below k bound rows, ∀ q ∈ (page k n bound rows).1, k r < k q := by
  have hsorted := below_sorted hs bound
  have hcut := List.take_append_drop n (below k bound rows)
  simp only [page, decide_eq_true_eq]
  constructor
  · intro hmore
    obtain ⟨r, hr⟩ : ∃ r, r ∈ (below k bound rows).drop n :=
      List.exists_mem_of_length_pos (by rw [List.length_drop]; omega)
    rw [← hcut] at hsorted
    exact ⟨r, List.mem_of_mem_drop hr,
      fun q hq => (List.pairwise_append.1 hsorted).2.2 q hq r hr⟩
  · rintro ⟨r, hr, holder⟩
    rw [← hcut, List.mem_append] at hr
    rcases hr with hr | hr
    · exact absurd (holder r hr) (lt_irrefl _)
    · have hpos := List.length_pos_of_mem hr
      rw [List.length_drop] at hpos
      omega

/-- All pages together are all rows, in order, each once. -/
theorem pages_eq {n : ℕ} (hn : 0 < n) (hs : rows.Pairwise fun a b => k b < k a) (fuel : ℕ)
    (bound : Option κ) (hf : (below k bound rows).length < fuel) :
    pages k n rows fuel bound = below k bound rows := by
  induction fuel generalizing bound with
  | zero => omega
  | succ fuel ih =>
    simp only [pages, page, decide_eq_true_eq]
    split_ifs with hmore
    · have hne : (below k bound rows).take n ≠ [] := by
        apply List.ne_nil_of_length_pos
        rw [List.length_take]
        omega
      obtain ⟨r, hr⟩ : ∃ r, ((below k bound rows).take n).getLast? = some r :=
        ⟨_, List.getLast?_eq_some_getLast hne⟩
      have hrest := below_last hs hr
      have hshort : (below k (some (k r)) rows).length < fuel := by
        rw [hrest, List.length_drop]
        omega
      rw [hr, Option.map_some, ih _ hshort, hrest, List.take_append_drop]
    · exact List.take_of_length_le (by omega)

end Lotse.Paging
