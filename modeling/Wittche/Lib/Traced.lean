import Mathlib.Algebra.Order.Ring.Int
import Mathlib.Tactic.Common
import Mathlib.Logic.Function.Basic

/-! Counted loops, and arrays that record where they are accessed.
An index is any integer: whether the accesses stay in bounds is a statement about the
record. The loops here are those that fill a stretch of an array and those that slide
one by some places, each cell from its old place straight to its new one. -/

namespace Wittche.Traced

section Loops

variable {S : Type} {body : Nat → S → S}

/-- `for (k = 0; k < n; k++)` over a state. -/
def times (body : Nat → S → S) : (n : Nat) → S → S
  | 0, s => s
  | n + 1, s => body n (times body n s)

theorem times_induction {P : Nat → S → Prop} {n : Nat} {s : S} (start : P 0 s)
    (keep : ∀ k t, k < n → P k t → P (k + 1) (body k t)) : P n (times body n s) := by
  induction n with
  | zero => exact start
  | succ n ih =>
    apply keep n _ (Nat.lt_succ_self n)
    exact ih fun k t below => keep k t (by omega)

end Loops

structure Cells (α : Type) where
  cell : Int → α
  /-- The indices accessed so far, the last one first. -/
  log : List Int

namespace Cells

variable {α : Type} {m : Cells α} {start d top size : Int} {n : Nat}

def put (m : Cells α) (i : Int) (x : α) : Cells α := ⟨Function.update m.cell i x, i :: m.log⟩

def move (m : Cells α) (dst src : Int) : Cells α := ⟨Function.update m.cell dst (m.cell src), dst :: src :: m.log⟩

def fill (m : Cells α) (start : Int) (x : α) (n : Nat) : Cells α := times (fun k m => m.put (start + k) x) n m

/-- The `n` cells from `start + d` on moved down by `d`, the lowest first. -/
def slideDown (m : Cells α) (start d : Int) (n : Nat) : Cells α :=
  times (fun k m => m.move (start + k) (start + k + d)) n m

/-- The `n` cells below `top` moved up by one, the highest first. -/
def slideUp (m : Cells α) (top : Int) (n : Nat) : Cells α := times (fun k m => m.move (top - k) (top - k - 1)) n m

theorem put_cell (m : Cells α) (i : Int) (v : α) (x : Int) :
    (m.put i v).cell x = if x = i then v else m.cell x := Function.update_apply ..

theorem move_cell (m : Cells α) (dst src x : Int) :
    (m.move dst src).cell x = if x = dst then m.cell src else m.cell x := Function.update_apply ..

def Within (m : Cells α) (size : Int) : Prop := ∀ i ∈ m.log, 0 ≤ i ∧ i < size

theorem Within.put {i : Int} {x : α} (old : m.Within size) (lo : 0 ≤ i) (hi : i < size) :
    (m.put i x).Within size := by
  intro j hj
  rcases List.mem_cons.mp hj with rfl | hj
  · exact ⟨lo, hi⟩
  · exact old j hj

theorem Within.move {dst src : Int} (old : m.Within size) (dstIn : 0 ≤ dst ∧ dst < size)
    (srcIn : 0 ≤ src ∧ src < size) : (m.move dst src).Within size := by
  intro j hj
  rcases List.mem_cons.mp hj with rfl | hj
  · exact dstIn
  · rcases List.mem_cons.mp hj with rfl | hj
    · exact srcIn
    · exact old j hj

theorem Within.fill {x : α} (old : m.Within size) (lo : 0 ≤ start) (hi : start + n ≤ size) :
    (m.fill start x n).Within size :=
  times_induction (P := fun _ (m : Cells α) => m.Within size) old
    fun _ _ below inside => inside.put (by omega) (by omega)

theorem Within.slideDown (old : m.Within size) (lo : 0 ≤ start) (forward : 0 ≤ d)
    (hi : start + n + d ≤ size) : (m.slideDown start d n).Within size :=
  times_induction (P := fun _ (m : Cells α) => m.Within size) old
    fun _ _ below inside => inside.move (by omega) (by omega)

theorem Within.slideUp (old : m.Within size) (lo : n ≤ top) (hi : top < size) : (m.slideUp top n).Within size :=
  times_induction (P := fun _ (m : Cells α) => m.Within size) old
    fun _ _ below inside => inside.move (by omega) (by omega)

theorem fill_cell (m : Cells α) (start : Int) (v : α) (n : Nat) (x : Int) :
    (m.fill start v n).cell x = if start ≤ x ∧ x < start + n then v else m.cell x := by
  refine times_induction
    (P := fun k (t : Cells α) => t.cell x = if start ≤ x ∧ x < start + k then v else m.cell x)
    (by rw [if_neg (by omega)]) ?_
  intro k t _ ih
  rw [put_cell, ih]
  grind

theorem slideDown_cell (m : Cells α) (start : Int) (forward : 0 < d) (n : Nat) (x : Int) :
    (m.slideDown start d n).cell x = if start ≤ x ∧ x < start + n then m.cell (x + d) else m.cell x := by
  refine times_induction
    (P := fun k (t : Cells α) => ∀ x, t.cell x = if start ≤ x ∧ x < start + k then m.cell (x + d) else m.cell x)
    (fun x => by rw [if_neg (by omega)]) ?_ x
  intro k t _ ih x
  rw [move_cell, ih, ih, if_neg (show ¬(start ≤ start + k + d ∧ start + k + d < start + k) by omega)]
  by_cases last : x = start + k
  · rw [if_pos last, if_pos (by omega), last]
  · rw [if_neg last]
    grind

theorem slideUp_cell (m : Cells α) (top : Int) (n : Nat) (x : Int) :
    (m.slideUp top n).cell x = if top - n < x ∧ x ≤ top then m.cell (x - 1) else m.cell x := by
  refine times_induction
    (P := fun k (t : Cells α) => ∀ x, t.cell x = if top - k < x ∧ x ≤ top then m.cell (x - 1) else m.cell x)
    (fun x => by rw [if_neg (by omega)]) ?_ x
  intro k t _ ih x
  rw [move_cell, ih, ih, if_neg (show ¬(top - k < top - k - 1 ∧ top - k - 1 ≤ top) by omega)]
  by_cases last : x = top - k
  · rw [if_pos last, if_pos (by omega), last]
  · rw [if_neg last]
    grind

end Cells

end Wittche.Traced
