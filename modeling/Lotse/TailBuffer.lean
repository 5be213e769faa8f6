import Mathlib.Data.List.DropRight
import Mathlib.Tactic

set_option autoImplicit false

namespace Lotse

section rtake
variable {α : Type*}

theorem rtake_of_length_le {l : List α} {m : ℕ} (h : l.length ≤ m) : l.rtake m = l := by
  rw [List.rtake, Nat.sub_eq_zero_of_le h, List.drop_zero]

theorem length_rtake (l : List α) (m : ℕ) : (l.rtake m).length = min m l.length := by
  rw [List.rtake, List.length_drop]
  omega

theorem rtake_drop {l : List α} {n m : ℕ} (h : n + m ≤ l.length) :
    (l.drop n).rtake m = l.rtake m := by
  rw [List.rtake, List.rtake, List.drop_drop, List.length_drop]
  congr 1
  omega

theorem rtake_append_right {l p : List α} {m : ℕ} (h : m ≤ p.length) :
    (l ++ p).rtake m = p.rtake m := by
  rw [List.rtake, List.rtake, List.drop_append, List.length_append, List.drop_eq_nil_of_le (by omega),
    List.nil_append]
  congr 1
  omega

theorem rtake_rtake_append (l p : List α) (m : ℕ) :
    (l.rtake m ++ p).rtake m = (l ++ p).rtake m := by
  rcases Nat.le_total l.length m with h | h
  · rw [rtake_of_length_le h]
  · have hd : l.rtake m ++ p = (l ++ p).drop (l.length - m) := by
      rw [List.drop_append_of_le_length (by omega), List.rtake]
    rw [hd, rtake_drop]
    rw [List.length_append]
    omega

theorem rtake_suffix (l : List α) (m : ℕ) : l.rtake m <:+ l := List.drop_suffix _ _

end rtake

structure TailBuffer (α : Type*) where
  max : ℕ
  buf : List α
  start : ℕ
  dropped : Bool

namespace TailBuffer
variable {α : Type*}

/-- Copies as much of `p` as fits between the oldest entry and the end of the buffer, and
goes on at its beginning. -/
def overwrite : ℕ → TailBuffer α → List α → TailBuffer α
  | 0, t, _ => t
  | _ + 1, t, [] => t
  | fuel + 1, t, a :: p =>
    let n := min (t.buf.length - t.start) (a :: p).length
    overwrite fuel
      { t with
        dropped := true
        buf := t.buf.take t.start ++ (a :: p).take n ++ t.buf.drop (t.start + n)
        start := (t.start + n) % t.max }
      ((a :: p).drop n)

/-- Every copy takes at least one entry, so that `p.length` copies are enough. -/
def write (t : TailBuffer α) (p : List α) : TailBuffer α :=
  if t.max ≤ p.length then
    { t with
      dropped := t.dropped || !t.buf.isEmpty || t.max < p.length
      buf := p.drop (p.length - t.max)
      start := 0 }
  else
    let n := min (t.max - t.buf.length) p.length
    overwrite p.length { t with buf := t.buf ++ p.take n } (p.drop n)

def toList (t : TailBuffer α) : List α := t.buf.drop t.start ++ t.buf.take t.start

def empty (max : ℕ) : TailBuffer α := ⟨max, [], 0, false⟩

structure WellFormed (t : TailBuffer α) : Prop where
  start_lt : t.start < t.max
  length_le : t.buf.length ≤ t.max
  unwrapped : t.buf.length < t.max → t.start = 0

structure Holds (t : TailBuffer α) (w : List α) : Prop where
  wellFormed : t.WellFormed
  toList_eq : t.toList = w.rtake t.max
  dropped_iff : t.dropped = true ↔ t.max < w.length

variable {t : TailBuffer α} {w p : List α}

theorem length_toList (t : TailBuffer α) : t.toList.length = t.buf.length := by
  simp only [toList, List.length_append, List.length_drop, List.length_take]
  omega

theorem holds_empty {max : ℕ} (h : 0 < max) : (empty max : TailBuffer α).Holds [] where
  wellFormed := ⟨h, Nat.zero_le _, fun _ => rfl⟩
  toList_eq := by simp [empty, toList, List.rtake]
  dropped_iff := by simp [empty]

theorem copy_toList {n : ℕ} (hwf : t.WellFormed) (hfull : t.buf.length = t.max)
    (hn : n ≤ t.max - t.start) {q : List α} (hq : q.length = n) (d : Bool) :
    let r : TailBuffer α := ⟨t.max, t.buf.take t.start ++ q ++ t.buf.drop (t.start + n),
      (t.start + n) % t.max, d⟩
    r.WellFormed ∧ r.buf.length = t.max ∧ r.toList = t.toList.drop n ++ q := by
  intro r
  have hstart := hwf.start_lt
  have hlen : r.buf.length = t.max := by
    simp only [r, List.length_append, List.length_take, List.length_drop, hq]
    omega
  refine ⟨⟨Nat.mod_lt _ (by omega), hlen.le, fun h => absurd hlen h.ne⟩, hlen, ?_⟩
  have hold : t.toList.drop n = t.buf.drop (t.start + n) ++ t.buf.take t.start := by
    rw [toList, List.drop_append_of_le_length (by rw [List.length_drop]; omega), List.drop_drop]
  have htake : (t.buf.take t.start ++ q).length = t.start + n := by
    rw [List.length_append, List.length_take, hq]
    omega
  rw [hold]
  rcases Nat.lt_or_ge (t.start + n) t.max with hlt | hge
  · have hr : r.start = t.start + n := Nat.mod_eq_of_lt hlt
    rw [toList, hr]
    simp only [r]
    rw [List.drop_left' htake, List.take_left' htake, List.append_assoc]
  · have heq : t.start + n = t.max := by omega
    have hr : r.start = 0 := by
      simp only [r, heq, Nat.mod_self]
    have hnone : t.buf.drop (t.start + n) = [] := List.drop_eq_nil_of_le (by omega)
    rw [toList, hr]
    simp only [r, hnone, List.drop_zero, List.take_zero, List.append_nil, List.nil_append]

theorem overwrite_spec (fuel : ℕ) (hwf : t.WellFormed) (hfull : t.buf.length = t.max)
    (hp : p.length ≤ fuel) :
    (overwrite fuel t p).WellFormed ∧ (overwrite fuel t p).max = t.max ∧
    (overwrite fuel t p).toList = (t.toList ++ p).rtake t.max ∧
    (overwrite fuel t p).dropped = (t.dropped || !p.isEmpty) := by
  induction fuel generalizing t p with
  | zero =>
    obtain rfl : p = [] := List.length_eq_zero_iff.1 (by omega)
    refine ⟨hwf, rfl, ?_, by simp [overwrite]⟩
    rw [List.append_nil, rtake_of_length_le (by rw [length_toList, hfull]), overwrite]
  | succ fuel ih =>
    cases p with
    | nil =>
      refine ⟨hwf, rfl, ?_, by simp [overwrite]⟩
      rw [List.append_nil, rtake_of_length_le (by rw [length_toList, hfull]), overwrite]
    | cons a p =>
      have hstart := hwf.start_lt
      set n := min (t.buf.length - t.start) (a :: p).length with hn
      have hpos : 1 ≤ n := by
        rw [hn, List.length_cons]
        omega
      have hle : n ≤ (a :: p).length := by omega
      have hq : ((a :: p).take n).length = n := by rw [List.length_take]; omega
      obtain ⟨hwf', hfull', hlist⟩ := copy_toList (d := true) hwf hfull
        (by omega : n ≤ t.max - t.start) hq
      have hrest : ((a :: p).drop n).length ≤ fuel := by
        rw [List.length_drop]
        omega
      obtain ⟨h₁, h₂, h₃, h₄⟩ := ih hwf' hfull' hrest
      rw [overwrite]
      refine ⟨h₁, h₂, ?_, ?_⟩
      · rw [h₃, hlist, List.append_assoc, List.take_append_drop]
        have hlen : n ≤ t.toList.length := by
          rw [length_toList]
          omega
        rw [← List.drop_append_of_le_length hlen, rtake_drop]
        rw [List.length_append, length_toList, hfull, Nat.add_comm]
        exact Nat.add_le_add_left hle _
      · rw [h₄]
        simp

theorem fill (h : t.Holds w) {n : ℕ} (hn : n = min (t.max - t.buf.length) p.length) :
    let r : TailBuffer α := { t with buf := t.buf ++ p.take n }
    r.WellFormed ∧ r.toList = t.toList ++ p.take n ∧ (p.drop n ≠ [] → r.buf.length = t.max) := by
  intro r
  obtain ⟨hstart, hlen, hunwrapped⟩ := h.wellFormed
  rcases Nat.lt_or_ge t.buf.length t.max with hlt | hge
  · have hzero := hunwrapped hlt
    refine ⟨⟨hstart, ?_, fun _ => hzero⟩, ?_, fun hne => ?_⟩
    · simp only [r, List.length_append, List.length_take]
      omega
    · simp [r, toList, hzero]
    · have : n < p.length := by
        by_contra hcon
        exact hne (List.drop_eq_nil_of_le (by omega))
      simp only [r, List.length_append, List.length_take]
      omega
  · have hn0 : n = 0 := by omega
    subst hn0
    have hr : r = t := by simp [r]
    rw [hr]
    exact ⟨h.wellFormed, by simp, fun _ => by omega⟩

theorem Holds.length_buf (h : t.Holds w) : t.buf.length = min t.max w.length := by
  rw [← length_toList, h.toList_eq, length_rtake]

theorem Holds.write_short (h : t.Holds w) (hp : p.length < t.max) : (t.write p).Holds (w ++ p) := by
  rw [write, if_neg (by omega)]
  simp only
  set n := min (t.max - t.buf.length) p.length with hn
  obtain ⟨hwf, hlist, hfull⟩ := fill h hn
  have hbuf := h.length_buf
  have hdropped := h.dropped_iff
  by_cases hrest : p.drop n = []
  · have hnp : p.length ≤ n := List.drop_eq_nil_iff.1 hrest
    have hdone : overwrite p.length { t with buf := t.buf ++ p.take n } (p.drop n) =
        { t with buf := t.buf ++ p.take n } := by
      rw [hrest]
      cases p.length <;> rfl
    rw [hdone]
    rw [List.take_of_length_le hnp] at hwf hlist ⊢
    refine ⟨hwf, ?_, ?_⟩
    · have hfits : (w.rtake t.max ++ p).length ≤ t.max := by
        rw [List.length_append, length_rtake]
        omega
      rw [hlist, h.toList_eq, ← rtake_of_length_le hfits]
      exact rtake_rtake_append w p t.max
    · rw [List.length_append]
      change t.dropped = true ↔ t.max < w.length + p.length
      rw [hdropped]
      constructor
      · intro hlt
        omega
      · intro hlt
        have : p.length ≤ t.max - t.buf.length := by omega
        by_contra hcon
        omega
  · obtain ⟨h₁, h₂, h₃, h₄⟩ := overwrite_spec p.length hwf (hfull hrest)
      (by rw [List.length_drop]; omega : (p.drop n).length ≤ p.length)
    refine ⟨h₁, ?_, ?_⟩
    · rw [h₃, hlist, List.append_assoc, List.take_append_drop, h.toList_eq, h₂]
      exact rtake_rtake_append w p t.max
    · rw [h₄, h₂]
      have hlong : t.max < w.length + p.length := by
        have : n < p.length := by
          by_contra hcon
          exact hrest (List.drop_eq_nil_of_le (by omega))
        omega
      simp [hrest, hlong]

theorem Holds.write_long (h : t.Holds w) (hp : t.max ≤ p.length) : (t.write p).Holds (w ++ p) := by
  rw [write, if_pos hp]
  have hlen : (p.drop (p.length - t.max)).length = t.max := by
    rw [List.length_drop]
    omega
  refine ⟨⟨Nat.lt_of_le_of_lt (Nat.zero_le _) h.wellFormed.start_lt, hlen.le, fun _ => rfl⟩, ?_, ?_⟩
  · simp only [toList, List.drop_zero, List.take_zero, List.append_nil]
    exact (rtake_append_right hp).symm
  · have hbuf := h.length_buf
    have hstart := h.wellFormed.start_lt
    have hempty : t.buf.isEmpty = true ↔ w.length = 0 := by
      rw [List.isEmpty_iff, ← List.length_eq_zero_iff, hbuf]
      omega
    simp only [Bool.or_eq_true, Bool.not_eq_true', decide_eq_true_eq, List.length_append,
      h.dropped_iff, ← Bool.not_eq_true, hempty]
    omega

theorem Holds.write (h : t.Holds w) (p : List α) : (t.write p).Holds (w ++ p) := by
  rcases Nat.lt_or_ge p.length t.max with hp | hp
  · exact h.write_short hp
  · exact h.write_long hp

theorem overwrite_max (fuel : ℕ) (t : TailBuffer α) (p : List α) :
    (overwrite fuel t p).max = t.max := by
  induction fuel generalizing t p with
  | zero => rfl
  | succ fuel ih =>
    cases p with
    | nil => rfl
    | cons a p => exact ih _ _

@[simp] theorem write_max (t : TailBuffer α) (p : List α) : (t.write p).max = t.max := by
  rw [TailBuffer.write]
  split_ifs
  · rfl
  · exact overwrite_max _ _ _

end TailBuffer

end Lotse
