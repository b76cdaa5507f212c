import Mathlib.Algebra.Ring.Nat
import Mathlib.Tactic.Common

/-! Bounded scans: the first index from `i` on, among `n` of them, with a property. -/

namespace Wittche.Scan

def firstFrom (p : Nat → Bool) : (n i : Nat) → Option Nat
  | 0, _ => none
  | n + 1, i => if p i then some i else firstFrom p n (i + 1)

variable {p : Nat → Bool} {n i k : Nat}

theorem firstFrom_some (h : firstFrom p n i = some k) :
    i ≤ k ∧ k < i + n ∧ p k = true ∧ ∀ j, i ≤ j → j < k → p j = false := by
  induction n generalizing i with
  | zero => simp [firstFrom] at h
  | succ n ih =>
    rw [firstFrom] at h
    split at h
    next hit =>
      obtain rfl : i = k := by simpa using h
      exact ⟨Nat.le_refl _, by omega, hit, fun j lo hi => by omega⟩
    next miss =>
      obtain ⟨lo, hi, hit, before⟩ := ih h
      refine ⟨by omega, by omega, hit, ?_⟩
      intro j lo' hi'
      by_cases first : j = i
      · rw [first]
        simpa using miss
      · exact before j (by omega) hi'

theorem firstFrom_none : firstFrom p n i = none ↔ ∀ j, i ≤ j → j < i + n → p j = false := by
  induction n generalizing i with
  | zero => exact ⟨fun _ j lo hi => by omega, fun _ => rfl⟩
  | succ n ih =>
    rw [firstFrom]
    split
    next hit =>
      simp only [reduceCtorEq, false_iff]
      intro none
      rw [none i (Nat.le_refl _) (by omega)] at hit
      exact Bool.noConfusion hit
    next miss =>
      rw [ih]
      constructor
      · intro none j lo hi
        by_cases first : j = i
        · rw [first]
          simpa using miss
        · exact none j (by omega) (by omega)
      · exact fun none j lo hi => none j (by omega) (by omega)

theorem firstFrom_congr {q : Nat → Bool} (h : ∀ j, i ≤ j → j < i + n → p j = q j) :
    firstFrom p n i = firstFrom q n i := by
  induction n generalizing i with
  | zero => rfl
  | succ n ih =>
    rw [firstFrom, firstFrom, h i (Nat.le_refl _) (by omega),
      ih fun j lo hi => h j (by omega) (by omega)]

theorem firstFrom_add (p : Nat → Bool) (m n i : Nat) :
    firstFrom p (m + n) i = (firstFrom p m i).or (firstFrom p n (i + m)) := by
  induction m generalizing i with
  | zero => simp [firstFrom]
  | succ m ih =>
    rw [show m + 1 + n = (m + n) + 1 by omega, firstFrom, firstFrom, ih,
      show i + 1 + m = i + (m + 1) by omega]
    split <;> simp

theorem firstFrom_shift (p : Nat → Bool) (n c i : Nat) :
    firstFrom p n (c + i) = (firstFrom (fun j => p (c + j)) n i).map (c + ·) := by
  induction n generalizing i with
  | zero => rfl
  | succ n ih =>
    rw [firstFrom, firstFrom, show c + i + 1 = c + (i + 1) by omega, ih]
    split <;> rfl

end Wittche.Scan
