import Mathlib.Algebra.Ring.Nat
import Mathlib.Tactic.Common
import Mathlib.Logic.Function.Basic

/-! Byte memories and little-endian 32-bit words.
A memory is a total function on addresses; which addresses belong to an object
is a matter for its user. Words are read and written byte by byte, so that a
later access may overlap an earlier one and the overlap is visible. -/

namespace Wittche.Bytes

abbrev Byte := BitVec 8
abbrev Word := BitVec 32
abbrev Buffer := Nat → Byte

def byteOf (w : Word) (i : Nat) : Byte := BitVec.ofNat 8 (w.toNat / 256 ^ i)

def load (m : Buffer) (a : Nat) : Word :=
  BitVec.ofNat 32 ((m a).toNat + 256 * (m (a + 1)).toNat + 65536 * (m (a + 2)).toNat +
    16777216 * (m (a + 3)).toNat)

def store (m : Buffer) (a : Nat) (w : Word) : Buffer := fun x =>
  if a ≤ x ∧ x < a + 4 then byteOf w (x - a) else m x

/-- `len` bytes of `src` placed at offset `d` of `dst`. -/
def copy (dst : Buffer) (d : Nat) (src : Buffer) (len : Nat) : Buffer := fun x =>
  if d ≤ x ∧ x < d + len then src (x - d) else dst x

def ofWords (f : Nat → Word) : Buffer := fun x => byteOf (f (x / 4)) (x % 4)

theorem load_congr {m m' : Buffer} {a b : Nat} (h : ∀ i < 4, m (a + i) = m' (b + i)) :
    load m a = load m' b := by
  have h0 := h 0 (by omega)
  have h1 := h 1 (by omega)
  have h2 := h 2 (by omega)
  have h3 := h 3 (by omega)
  simp only [Nat.add_zero] at h0
  simp only [load, h0, h1, h2, h3]

theorem load_toNat (m : Buffer) (a : Nat) : (load m a).toNat =
    (m a).toNat + 256 * (m (a + 1)).toNat + 65536 * (m (a + 2)).toNat + 16777216 * (m (a + 3)).toNat := by
  have b0 := (m a).isLt
  have b1 := (m (a + 1)).isLt
  have b2 := (m (a + 2)).isLt
  have b3 := (m (a + 3)).isLt
  rw [load, BitVec.toNat_ofNat]
  omega

theorem load_inj {m m' : Buffer} {a b : Nat} (h : load m a = load m' b) : ∀ i < 4, m (a + i) = m' (b + i) := by
  have sum := congrArg BitVec.toNat h
  rw [load_toNat, load_toNat] at sum
  have byte : ∀ i, (m (a + i)).toNat < 256 ∧ (m' (b + i)).toNat < 256 := fun i => ⟨(m (a + i)).isLt, (m' (b + i)).isLt⟩
  have b0 := byte 0
  have b1 := byte 1
  have b2 := byte 2
  have b3 := byte 3
  simp only [Nat.add_zero] at b0
  intro i hi
  apply BitVec.eq_of_toNat_eq
  obtain rfl | rfl | rfl | rfl : i = 0 ∨ i = 1 ∨ i = 2 ∨ i = 3 := by omega
  · simp only [Nat.add_zero]
    omega
  all_goals omega

theorem word_of_bytes (w : Word) :
    BitVec.ofNat 32 ((byteOf w 0).toNat + 256 * (byteOf w 1).toNat +
      65536 * (byteOf w 2).toNat + 16777216 * (byteOf w 3).toNat) = w := by
  apply BitVec.eq_of_toNat_eq
  have bound := w.isLt
  simp only [byteOf, BitVec.toNat_ofNat, Nat.reducePow]
  omega

@[simp] theorem load_store_same (m : Buffer) (a : Nat) (w : Word) :
    load (store m a w) a = w := by
  simp [load, store, word_of_bytes]

theorem load_store_apart {m : Buffer} {a b : Nat} {w : Word} (h : a + 4 ≤ b ∨ b + 4 ≤ a) :
    load (store m a w) b = load m b := by
  apply load_congr
  intro i hi
  simp only [store]
  rw [if_neg]
  omega

theorem store_apart {m : Buffer} {a x : Nat} {w : Word} (h : x < a ∨ a + 4 ≤ x) :
    store m a w x = m x := by
  simp only [store]
  rw [if_neg]
  omega

@[simp] theorem load_ofWords (f : Nat → Word) (k : Nat) : load (ofWords f) (4 * k) = f k := by
  have e1 : (4 * k + 1) / 4 = k := by omega
  have e2 : (4 * k + 2) / 4 = k := by omega
  have e3 : (4 * k + 3) / 4 = k := by omega
  have r1 : (4 * k + 1) % 4 = 1 := by omega
  have r2 : (4 * k + 2) % 4 = 2 := by omega
  have r3 : (4 * k + 3) % 4 = 3 := by omega
  simp [load, ofWords, e1, e2, e3, r1, r2, r3, word_of_bytes]

theorem copy_inside {dst src : Buffer} {d len x : Nat} (h : d ≤ x ∧ x < d + len) :
    copy dst d src len x = src (x - d) := if_pos h

theorem copy_outside {dst src : Buffer} {d len x : Nat} (h : x < d ∨ d + len ≤ x) :
    copy dst d src len x = dst x := by
  simp only [copy]
  rw [if_neg]
  omega

end Wittche.Bytes
