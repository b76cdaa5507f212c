import Mathlib.Data.List.Destutter
import Mathlib.Data.List.DropRight

/-! The most recent elements of a sequence in which an element that repeats the one kept
before it is left out. -/

namespace Wittche.Recent

variable {α : Type}

theorem rtake_of_length_le {l : List α} {n : Nat} (short : l.length ≤ n) : l.rtake n = l := by
  rw [List.rtake, Nat.sub_eq_zero_of_le short, List.drop_zero]

theorem rtake_rtake {n m : Nat} (le : n ≤ m) (l : List α) : (l.rtake m).rtake n = l.rtake n := by
  rw [List.rtake, List.rtake, List.rtake, List.drop_drop, List.length_drop]
  congr 1
  omega

theorem getLast?_rtake (n : Nat) (l : List α) : (l.rtake (n + 1)).getLast? = l.getLast? := by
  rw [List.rtake, List.getLast?_drop]
  split
  next none =>
    have empty : l.length = 0 := by omega
    rw [List.length_eq_zero_iff.mp empty]
    rfl
  next => rfl

variable [DecidableEq α]

/-- The last `n` elements of a list without repetitions in a row. -/
def recent (n : Nat) (l : List α) : List α := (l.destutter (· ≠ ·)).rtake n

theorem destutter'_snoc (l : List α) (b a : α) : (l ++ [a]).destutter' (· ≠ ·) b =
    if (l.destutter' (· ≠ ·) b).getLast? = some a then l.destutter' (· ≠ ·) b
    else l.destutter' (· ≠ ·) b ++ [a] := by
  induction l generalizing b with
  | nil =>
    by_cases same : b = a
    · simp [same]
    · simp [same]
  | cons c l ih =>
    rw [List.cons_append, List.destutter'_cons, List.destutter'_cons]
    split
    · obtain ⟨x, rest, front⟩ := List.exists_cons_of_ne_nil (List.destutter'_ne_nil l (· ≠ ·) (a := c))
      have last : (b :: l.destutter' (· ≠ ·) c).getLast? = (l.destutter' (· ≠ ·) c).getLast? := by
        rw [front, List.getLast?_cons_cons]
      rw [ih, last]
      split <;> rfl
    · exact ih b

theorem destutter_snoc (l : List α) (a : α) : (l ++ [a]).destutter (· ≠ ·) =
    if (l.destutter (· ≠ ·)).getLast? = some a then l.destutter (· ≠ ·) else l.destutter (· ≠ ·) ++ [a] := by
  cases l with
  | nil => rfl
  | cons b l => exact destutter'_snoc l b a

theorem recent_snoc (n : Nat) (l : List α) (a : α) : recent (n + 1) (l ++ [a]) =
    if (recent (n + 1) l).getLast? = some a then recent (n + 1) l else (recent (n + 1) l).rtake n ++ [a] := by
  rw [recent, recent, destutter_snoc, getLast?_rtake]
  split
  · rfl
  · rw [List.rtake_concat_succ, rtake_rtake (Nat.le_succ n)]

end Wittche.Recent
