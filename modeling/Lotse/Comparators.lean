import Mathlib.Tactic

set_option autoImplicit false

namespace Lotse.Comparators
open Std

variable {α β : Type*}

/-- Values with a key come first and are compared by it; the others by `d`. -/
def keyedFirst (key : α → Option β) (c : β → β → Ordering) (d : α → α → Ordering) (x y : α) :
    Ordering :=
  match key x, key y with
  | some a, some b => c a b
  | some _, none => .lt
  | none, some _ => .gt
  | none, none => d x y

def nilLast (c : List α → List α → Ordering) : List α → List α → Ordering
  | [], [] => .eq
  | [], _ :: _ => .gt
  | _ :: _, [] => .lt
  | x :: xs, y :: ys => c (x :: xs) (y :: ys)

def compareBy (f : α → β) (c : β → β → Ordering) (x y : α) : Ordering := c (f x) (f y)

section keyedFirst
variable (key : α → Option β) (c : β → β → Ordering) (d : α → α → Ordering)

instance [OrientedCmp c] [OrientedCmp d] : OrientedCmp (keyedFirst key c d) where
  eq_swap {x y} := by
    unfold keyedFirst
    cases key x <;> cases key y
    · exact OrientedCmp.eq_swap
    · rfl
    · rfl
    · exact OrientedCmp.eq_swap

instance [TransCmp c] [TransCmp d] : TransCmp (keyedFirst key c d) where
  isLE_trans {x y z} := by
    unfold keyedFirst
    cases key x <;> cases key y <;> cases key z
    case none.none.none => exact TransCmp.isLE_trans
    case some.some.some => exact TransCmp.isLE_trans
    all_goals simp

end keyedFirst

section nilLast
variable (c : List α → List α → Ordering)

instance [OrientedCmp c] : OrientedCmp (nilLast c) where
  eq_swap {xs ys} := by
    cases xs <;> cases ys
    · rfl
    · rfl
    · rfl
    · change c _ _ = (c _ _).swap
      exact OrientedCmp.eq_swap

instance [TransCmp c] : TransCmp (nilLast c) where
  isLE_trans {xs ys zs} := by
    cases xs <;> cases ys <;> cases zs
    case cons.cons.cons =>
      change (c _ _).isLE → (c _ _).isLE → (c _ _).isLE
      exact TransCmp.isLE_trans
    all_goals simp [nilLast]

end nilLast

section compareBy
variable (f : α → β) (c : β → β → Ordering)

instance [OrientedCmp c] : OrientedCmp (compareBy f c) where
  eq_swap {x y} := by
    change c (f x) (f y) = (c (f y) (f x)).swap
    exact OrientedCmp.eq_swap

instance [TransCmp c] : TransCmp (compareBy f c) where
  isLE_trans {x y z} := by
    change (c (f x) (f y)).isLE → (c (f y) (f z)).isLE → (c (f x) (f z)).isLE
    exact TransCmp.isLE_trans

end compareBy

end Lotse.Comparators
