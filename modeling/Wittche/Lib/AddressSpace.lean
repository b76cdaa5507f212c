import Wittche.Lib.Bytes

/-! A 32-bit address space with little-endian words and half-words.
Address arithmetic wraps around, so a range is described by the distance of an address
from its start: offsets from one base then compare like numbers, wherever the base is. -/

namespace Wittche.AddressSpace
open Bytes

abbrev Half := BitVec 16
abbrev Memory := Word → Byte

def Inside (a : Word) (n : Nat) (x : Word) : Prop := (x - a).toNat < n

instance (a : Word) (n : Nat) (x : Word) : Decidable (Inside a n x) := inferInstanceAs (Decidable (_ < _))

def offset (a : Word) (i : Nat) : Word := a + BitVec.ofNat 32 i

def readWord (m : Memory) (a : Word) : Word :=
  BitVec.ofNat 32 ((m a).toNat + 256 * (m (offset a 1)).toNat + 65536 * (m (offset a 2)).toNat +
    16777216 * (m (offset a 3)).toNat)

def writeWord (m : Memory) (a : Word) (w : Word) : Memory := fun x =>
  if Inside a 4 x then byteOf w (x - a).toNat else m x

def readHalf (m : Memory) (a : Word) : Half := BitVec.ofNat 16 ((m a).toNat + 256 * (m (offset a 1)).toNat)

def writeHalf (m : Memory) (a : Word) (h : Half) : Memory := fun x =>
  if Inside a 2 x then BitVec.ofNat 8 (h.toNat / 256 ^ (x - a).toNat) else m x

variable {m m' : Memory} {a b x : Word} {i j n k : Nat}

theorem offset_distance (a : Word) (below : i < 2 ^ 32) : (offset a i - a).toNat = i := by
  rw [offset, BitVec.add_comm, BitVec.add_sub_cancel, BitVec.toNat_ofNat]
  exact Nat.mod_eq_of_lt below

@[simp] theorem offset_zero (a : Word) : offset a 0 = a := BitVec.add_zero a

theorem inside_start (pos : 0 < n) : Inside a n a := by
  rw [Inside, BitVec.sub_self]
  exact pos

theorem inside_offset (below : i < n) (small : n ≤ 2 ^ 32) : Inside a n (offset a i) := by
  rw [Inside, offset_distance a (by omega)]
  exact below

theorem inside_offset_iff (small : i + n ≤ 2 ^ 32) :
    Inside (offset a i) n x ↔ i ≤ (x - a).toNat ∧ (x - a).toNat < i + n := by
  have far : (x - offset a i).toNat = ((x - a).toNat + 2 ^ 32 - i % 2 ^ 32) % 2 ^ 32 := by
    have same : x - offset a i = (x - a) - BitVec.ofNat 32 i := by
      rw [offset]
      bv_omega
    rw [same, BitVec.toNat_sub, BitVec.toNat_ofNat]
    congr 1
    omega
  have bound := (x - a).isLt
  rw [Inside, far]
  omega

theorem readWord_congr (same : ∀ x, Inside a 4 x → m x = m' x) : readWord m a = readWord m' a := by
  have h0 := same a (inside_start (by decide))
  have h1 := same _ (inside_offset (show 1 < 4 by decide) (by decide))
  have h2 := same _ (inside_offset (show 2 < 4 by decide) (by decide))
  have h3 := same _ (inside_offset (show 3 < 4 by decide) (by decide))
  simp only [readWord, h0, h1, h2, h3]

theorem readHalf_congr (same : ∀ x, Inside a 2 x → m x = m' x) : readHalf m a = readHalf m' a := by
  have h0 := same a (inside_start (by decide))
  have h1 := same _ (inside_offset (show 1 < 2 by decide) (by decide))
  simp only [readHalf, h0, h1]

theorem writeWord_outside {w : Word} (out : ¬Inside a 4 x) : writeWord m a w x = m x := if_neg out

theorem writeHalf_outside {h : Half} (out : ¬Inside a 2 x) : writeHalf m a h x = m x := if_neg out

theorem apart_offsets (apart : i + n ≤ j ∨ j + k ≤ i) (small : i + n ≤ 2 ^ 32) (small' : j + k ≤ 2 ^ 32)
    (inside : Inside (offset a j) k x) : ¬Inside (offset a i) n x := by
  rw [inside_offset_iff small'] at inside
  rw [inside_offset_iff small]
  omega

section Apart

variable (m) (a) (w : Word) (h : Half)

theorem readWord_pastWord (apart : i + 4 ≤ j ∨ j + 4 ≤ i) (small : i + 4 ≤ 2 ^ 32) (small' : j + 4 ≤ 2 ^ 32) :
    readWord (writeWord m (offset a i) w) (offset a j) = readWord m (offset a j) :=
  readWord_congr fun _ inside => writeWord_outside (apart_offsets apart small small' inside)

theorem readWord_pastHalf (apart : i + 2 ≤ j ∨ j + 4 ≤ i) (small : i + 2 ≤ 2 ^ 32) (small' : j + 4 ≤ 2 ^ 32) :
    readWord (writeHalf m (offset a i) h) (offset a j) = readWord m (offset a j) :=
  readWord_congr fun _ inside => writeHalf_outside (apart_offsets apart small small' inside)

theorem readHalf_pastHalf (apart : i + 2 ≤ j ∨ j + 2 ≤ i) (small : i + 2 ≤ 2 ^ 32) (small' : j + 2 ≤ 2 ^ 32) :
    readHalf (writeHalf m (offset a i) h) (offset a j) = readHalf m (offset a j) :=
  readHalf_congr fun _ inside => writeHalf_outside (apart_offsets apart small small' inside)

end Apart

theorem readWord_writeWord (m : Memory) (a w : Word) : readWord (writeWord m a w) a = w := by
  have bytes : ∀ i < 4, writeWord m a w (offset a i) = byteOf w i := by
    intro i below
    rw [writeWord, if_pos (inside_offset below (by decide)), offset_distance a (by omega)]
  have first := bytes 0 (by decide)
  rw [offset_zero] at first
  rw [readWord, first, bytes 1 (by decide), bytes 2 (by decide), bytes 3 (by decide)]
  exact word_of_bytes w

theorem readHalf_writeHalf (m : Memory) (a : Word) (h : Half) : readHalf (writeHalf m a h) a = h := by
  have bytes : ∀ i < 2, writeHalf m a h (offset a i) = BitVec.ofNat 8 (h.toNat / 256 ^ i) := by
    intro i below
    rw [writeHalf, if_pos (inside_offset below (by decide)), offset_distance a (by omega)]
  have first := bytes 0 (by decide)
  rw [offset_zero] at first
  rw [readHalf, first, bytes 1 (by decide)]
  apply BitVec.eq_of_toNat_eq
  have bound := h.isLt
  simp only [BitVec.toNat_ofNat, Nat.reducePow]
  omega

end Wittche.AddressSpace
