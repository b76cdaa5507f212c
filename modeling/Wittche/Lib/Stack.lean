import Wittche.Lib.AddressSpace

/-! A stack of words in a 32-bit address space. It grows downwards, and its words are listed
from the top on. -/

namespace Wittche.Stack
open Bytes AddressSpace

def Stacked (m : Memory) (a : Word) (ws : List Word) : Prop :=
  ∀ i w, ws[i]? = some w → readWord m (offset a (4 * i)) = w

def pushed : (m : Memory) → (a : Word) → List Word → Memory × Word
  | m, a, [] => (m, a)
  | m, a, w :: ws => pushed (writeWord m (a - 4) w) (a - 4) ws

variable {m m' : Memory} {a w x : Word} {ws vs : List Word}

theorem offset_four (a : Word) (i : Nat) : offset (a + 4) (4 * i) = offset a (4 * (i + 1)) := by
  rw [offset, offset, BitVec.add_assoc, show (4 : Word) = BitVec.ofNat 32 4 from rfl, ← BitVec.ofNat_add]
  congr 2
  omega

theorem Stacked.top (h : Stacked m a (w :: ws)) : readWord m a = w := by
  have first := h 0 w rfl
  rwa [Nat.mul_zero, offset_zero] at first

theorem Stacked.pop (h : Stacked m a (w :: ws)) : Stacked m (a + 4) ws := by
  intro i v at_i
  rw [offset_four]
  exact h (i + 1) v at_i

theorem Stacked.left (h : Stacked m a (ws ++ vs)) : Stacked m a ws := by
  intro i w at_i
  obtain ⟨lt, -⟩ := List.getElem?_eq_some_iff.mp at_i
  exact h i w ((List.getElem?_append_left lt).trans at_i)

theorem Stacked.drop (h : Stacked m a ws) (n : Nat) : Stacked m (a + BitVec.ofNat 32 (4 * n)) (ws.drop n) := by
  induction n generalizing a ws with
  | zero => rwa [Nat.mul_zero, BitVec.add_zero]
  | succ n ih =>
    cases ws with
    | nil => exact nofun
    | cons w ws =>
      have rest := ih h.pop
      rwa [show (4 : Word) = BitVec.ofNat 32 4 from rfl, BitVec.add_assoc, ← BitVec.ofNat_add,
        show 4 + 4 * n = 4 * (n + 1) by omega] at rest

theorem Stacked.congr (h : Stacked m a ws) (small : 4 * ws.length ≤ 2 ^ 32)
    (same : ∀ x, Inside a (4 * ws.length) x → m' x = m x) : Stacked m' a ws := by
  intro i v at_i
  obtain ⟨lt, -⟩ := List.getElem?_eq_some_iff.mp at_i
  rw [← h i v at_i]
  refine readWord_congr fun x inside => same x ?_
  rw [inside_offset_iff (by omega)] at inside
  rw [Inside]
  omega

theorem Stacked.push (h : Stacked m a ws) (small : 4 * (ws.length + 1) ≤ 2 ^ 32) (w : Word) :
    Stacked (writeWord m (a - 4) w) (a - 4) (w :: ws) := by
  intro i v at_i
  cases i with
  | zero =>
    obtain rfl : w = v := Option.some.inj at_i
    rw [Nat.mul_zero, offset_zero, readWord_writeWord]
  | succ i =>
    have at_i : ws[i]? = some v := at_i
    obtain ⟨lt, -⟩ := List.getElem?_eq_some_iff.mp at_i
    have past := readWord_pastWord m (a - 4) w (i := 0) (j := 4 * (i + 1)) (by omega) (by decide) (by omega)
    rw [offset_zero] at past
    rw [past, ← offset_four, BitVec.sub_add_cancel]
    exact h i v at_i

theorem inside_below {b : Word} {n : Nat} (room : n ≤ (a - b).toNat) :
    Inside (a - BitVec.ofNat 32 n) n x ↔ (a - b).toNat - n ≤ (x - b).toNat ∧ (x - b).toNat < (a - b).toNat := by
  have bound := (a - b).isLt
  have start : a - BitVec.ofNat 32 n = offset b ((a - b).toNat - n) := by
    rw [offset]
    apply BitVec.eq_of_toNat_eq
    rw [BitVec.toNat_sub, BitVec.toNat_add, BitVec.toNat_ofNat, BitVec.toNat_ofNat]
    rw [BitVec.toNat_sub] at room bound ⊢
    have := a.isLt
    have := b.isLt
    omega
  rw [start, inside_offset_iff (by omega)]
  omega

theorem offset_distance_self (a b : Word) : offset b (a - b).toNat = a := by
  rw [offset, BitVec.ofNat_toNat, BitVec.setWidth_eq, BitVec.add_comm, BitVec.sub_add_cancel]

theorem inside_above {b : Word} {i n : Nat} (room : (a - b).toNat + i + n ≤ 2 ^ 32) :
    Inside (a + BitVec.ofNat 32 i) n x ↔ (a - b).toNat + i ≤ (x - b).toNat ∧ (x - b).toNat < (a - b).toNat + i + n := by
  have start : a + BitVec.ofNat 32 i = offset b ((a - b).toNat + i) := by
    conv_lhs => rw [← offset_distance_self a b]
    rw [offset, offset, BitVec.add_assoc, ← BitVec.ofNat_add]
  rw [start, inside_offset_iff room]

theorem below_distance {b : Word} {n : Nat} (room : n ≤ (a - b).toNat) :
    (a - BitVec.ofNat 32 n - b).toNat = (a - b).toNat - n := by
  rw [BitVec.toNat_sub] at room
  rw [BitVec.toNat_sub, BitVec.toNat_sub, BitVec.toNat_sub, BitVec.toNat_ofNat]
  have := a.isLt
  have := b.isLt
  omega

section Pushing

theorem pushed_append (m : Memory) (a : Word) (ws vs : List Word) :
    pushed m a (ws ++ vs) = pushed (pushed m a ws).1 (pushed m a ws).2 vs := by
  induction ws generalizing m a with
  | nil => rfl
  | cons w ws ih => exact ih _ _

theorem pushed_snd (m : Memory) (a : Word) (ws : List Word) :
    (pushed m a ws).2 = a - BitVec.ofNat 32 (4 * ws.length) := by
  induction ws generalizing m a with
  | nil => simp [pushed]
  | cons w ws ih =>
    rw [pushed, ih, List.length_cons, BitVec.sub_sub, show (4 : Word) = BitVec.ofNat 32 4 from rfl, ← BitVec.ofNat_add]
    congr 2
    omega

theorem pushed_stacked (h : Stacked m a vs) (small : 4 * (ws.length + vs.length) ≤ 2 ^ 32) :
    Stacked (pushed m a ws).1 (pushed m a ws).2 (ws.reverse ++ vs) := by
  induction ws generalizing m a vs with
  | nil => exact h
  | cons w ws ih =>
    rw [List.length_cons] at small
    have more := ih (h.push (by omega) w) (by rw [List.length_cons]; omega)
    rw [pushed, List.reverse_cons, List.append_assoc]
    exact more

theorem pushed_frame (small : 4 * ws.length ≤ 2 ^ 32)
    (out : ¬Inside (a - BitVec.ofNat 32 (4 * ws.length)) (4 * ws.length) x) : (pushed m a ws).1 x = m x := by
  induction ws generalizing m a with
  | nil => rfl
  | cons w ws ih =>
    rw [List.length_cons] at small out
    have start : a - BitVec.ofNat 32 (4 * (ws.length + 1)) = a - 4 - BitVec.ofNat 32 (4 * ws.length) := by
      rw [BitVec.sub_sub, show (4 : Word) = BitVec.ofNat 32 4 from rfl, ← BitVec.ofNat_add]
      congr 2
      omega
    have top : offset (a - BitVec.ofNat 32 (4 * (ws.length + 1))) (4 * ws.length) = a - 4 := by
      rw [start, offset, BitVec.sub_add_cancel]
    have last := inside_offset_iff (a := a - BitVec.ofNat 32 (4 * (ws.length + 1))) (i := 4 * ws.length) (n := 4)
      (x := x) (by omega)
    rw [top] at last
    rw [Inside] at out
    rw [pushed, ih (by omega), writeWord_outside]
    · rw [last]
      omega
    · rw [← start, Inside]
      omega

end Pushing

end Wittche.Stack
