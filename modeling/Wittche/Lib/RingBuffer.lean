import Mathlib.Data.Nat.ModEq
import Mathlib.Tactic.Common
import Mathlib.Logic.Function.Basic

/-! Ring buffers: a list kept in `n` slots from `head` on, modulo `n`. -/

namespace Wittche.RingBuffer

variable {α : Type} {n head tail count : Nat} {slots : Nat → α} {l : List α}

/-- The slots hold the list `l`, from `head` on, and the next element goes to `tail`. -/
structure Holds (n : Nat) (slots : Nat → α) (head tail count : Nat) (l : List α) : Prop where
  first : head < n
  next : tail = (head + count) % n
  length : l.length = count
  room : count ≤ n
  slot : ∀ i < l.length, l[i]? = some (slots ((head + i) % n))

theorem holds_nil (pos : 0 < n) : Holds n slots 0 0 0 [] :=
  ⟨pos, (Nat.zero_mod n).symm, rfl, Nat.zero_le n, fun i lt => absurd lt (Nat.not_lt_zero i)⟩

theorem slot_injective {i j : Nat} (hi : i < n) (hj : j < n) (same : (head + i) % n = (head + j) % n) :
    i = j := by
  have equal : i ≡ j [MOD n] := Nat.ModEq.add_left_cancel' head same
  rwa [Nat.ModEq, Nat.mod_eq_of_lt hi, Nat.mod_eq_of_lt hj] at equal

theorem Holds.push (h : Holds n slots head tail count l) (free : count < n) (x : α) :
    Holds n (Function.update slots tail x) head ((tail + 1) % n) (count + 1) (l ++ [x]) := by
  refine ⟨h.first, ?_, by simp [h.length], free, fun i lt => ?_⟩
  · rw [h.next, Nat.mod_add_mod, Nat.add_assoc]
  · rw [List.length_append, List.length_singleton] at lt
    by_cases old : i < l.length
    · have away : (head + i) % n ≠ tail := by
        rw [h.next, ← h.length]
        intro same
        have equal := slot_injective (by have := h.length; omega) (by have := h.length; omega) same
        omega
      rw [Function.update_of_ne away, List.getElem?_append_left old, h.slot i old]
    · obtain rfl : i = l.length := by omega
      have place : (head + l.length) % n = tail := by rw [h.length, ← h.next]
      rw [place, Function.update_self, List.getElem?_append_right (Nat.le_refl _), Nat.sub_self]
      rfl

theorem Holds.pop {x : α} (h : Holds n slots head tail count (x :: l)) :
    slots head = x ∧ Holds n slots ((head + 1) % n) tail (count - 1) l := by
  have length : l.length + 1 = count := h.length
  have front := h.slot 0 (Nat.succ_pos _)
  rw [Nat.add_zero, Nat.mod_eq_of_lt h.first] at front
  refine ⟨(Option.some.inj front).symm, Nat.mod_lt _ (Nat.zero_lt_of_lt h.first), ?_, by omega,
    by have := h.room; omega, fun i lt => ?_⟩
  · rw [h.next, Nat.mod_add_mod]
    congr 1
    omega
  · have next := h.slot (i + 1) (Nat.succ_lt_succ lt)
    rw [List.getElem?_cons_succ] at next
    rw [Nat.mod_add_mod, Nat.add_assoc, Nat.add_comm 1 i, next]

/-- The elements from `head` up to `tail`; a ring whose two ends meet is empty. -/
def contents (n : Nat) (slots : Nat → α) (head tail : Nat) : List α :=
  (List.range ((tail + n - head) % n)).map fun i => slots ((head + i) % n)

theorem contents_length (n : Nat) (slots : Nat → α) (head tail : Nat) :
    (contents n slots head tail).length = (tail + n - head) % n := by
  rw [contents, List.length_map, List.length_range]

theorem holds_contents (first : head < n) (last : tail < n) :
    Holds n slots head tail (contents n slots head tail).length (contents n slots head tail) := by
  have length := contents_length n slots head tail
  have pos : 0 < n := Nat.zero_lt_of_lt first
  refine ⟨first, ?_, rfl, ?_, fun i lt => ?_⟩
  · have turn : head + (tail + n - head) = tail + n := by omega
    rw [length, Nat.add_mod_mod, turn, Nat.add_mod_right, Nat.mod_eq_of_lt last]
  · rw [length]
    exact (Nat.mod_lt _ pos).le
  · rw [length] at lt
    rw [contents, List.getElem?_map, List.getElem?_range lt]
    rfl

theorem Holds.eq_contents (h : Holds n slots head tail count l) (spare : count < n) :
    l = contents n slots head tail := by
  have between : (tail + n - head) % n = count := by
    have first := h.first
    rw [h.next]
    rcases Nat.lt_or_ge (head + count) n with below | wrapped
    · rw [Nat.mod_eq_of_lt below, show head + count + n - head = count + n by omega, Nat.add_mod_right,
        Nat.mod_eq_of_lt spare]
    · rw [Nat.mod_eq_sub_mod wrapped, Nat.mod_eq_of_lt (show head + count - n < n by omega),
        show head + count - n + n - head = count by omega, Nat.mod_eq_of_lt spare]
  apply List.ext_getElem?
  intro i
  by_cases lt : i < l.length
  · have lt' : i < (tail + n - head) % n := by rw [between, ← h.length]; exact lt
    rw [h.slot i lt, contents, List.getElem?_map, List.getElem?_range lt']
    rfl
  · rw [List.getElem?_eq_none (by omega), List.getElem?_eq_none]
    rw [contents_length, between, ← h.length]
    omega

end Wittche.RingBuffer
