import Wittche.Lib.AddressSpace
import Wittche.Lib.Traced

/-! A memory that records the addresses at which it is read and written, and the copies of
byte ranges out of it and into it. Ranges wrap around at the end of the address space. -/

namespace Wittche.AddressSpace
open Bytes Traced

structure Recorded where
  bytes : Memory
  reads : List Word
  writes : List Word

namespace Recorded

def read (m : Recorded) (a : Word) : Recorded := { m with reads := a :: m.reads }

def write (m : Recorded) (a : Word) (b : Byte) : Recorded :=
  { m with bytes := Function.update m.bytes a b, writes := a :: m.writes }

def readRange (m : Recorded) (a : Word) (n : Nat) : Recorded := times (fun i m => m.read (offset a i)) n m

def writeRange (a : Word) : (i : Nat) → List Byte → Recorded → Recorded
  | _, [], m => m
  | i, b :: l, m => writeRange a (i + 1) l (m.write (offset a i) b)

/-- From `m` to `m'` memory has changed at recorded addresses only. -/
structure Grows (m m' : Recorded) : Prop where
  writes : ∀ x ∈ m.writes, x ∈ m'.writes
  bytes : ∀ x, x ∉ m'.writes → m'.bytes x = m.bytes x

theorem Grows.refl (m : Recorded) : Grows m m := ⟨fun _ => id, fun _ _ => rfl⟩

theorem Grows.trans {m m' m'' : Recorded} (h : Grows m m') (h' : Grows m' m'') : Grows m m'' := by
  refine ⟨fun x hx => h'.writes x (h.writes x hx), fun x out => ?_⟩
  rw [h'.bytes x out, h.bytes x fun there => out (h'.writes x there)]

variable {m : Recorded} {a x : Word}

theorem write_grows (b : Byte) : Grows m (m.write a b) := by
  refine ⟨fun x hx => List.mem_cons_of_mem _ hx, fun x out => ?_⟩
  have other : x ≠ a := fun same => out (same ▸ List.mem_cons_self)
  exact Function.update_of_ne other ..

theorem readRange_spec (m : Recorded) (a : Word) (n : Nat) : (m.readRange a n).bytes = m.bytes ∧
    (m.readRange a n).writes = m.writes ∧
    ∀ x, x ∈ (m.readRange a n).reads ↔ (∃ i < n, x = offset a i) ∨ x ∈ m.reads := by
  induction n with
  | zero => exact ⟨rfl, rfl, fun x => by simp [readRange, times]⟩
  | succ n ih =>
    obtain ⟨bytes, writes, reads⟩ := ih
    refine ⟨bytes, writes, fun x => ?_⟩
    change x ∈ offset a n :: (m.readRange a n).reads ↔ _
    rw [List.mem_cons, reads]
    constructor
    · rintro (here | ⟨i, lt, here⟩ | old)
      · exact Or.inl ⟨n, Nat.lt_succ_self n, here⟩
      · exact Or.inl ⟨i, Nat.lt_succ_of_lt lt, here⟩
      · exact Or.inr old
    · rintro (⟨i, lt, here⟩ | old)
      · rcases Nat.lt_succ_iff_lt_or_eq.mp lt with below | rfl
        · exact Or.inr (Or.inl ⟨i, below, here⟩)
        · exact Or.inl here
      · exact Or.inr (Or.inr old)

theorem writeRange_reads (l : List Byte) (i : Nat) (m : Recorded) : (writeRange a i l m).reads = m.reads := by
  induction l generalizing i m with
  | nil => rfl
  | cons b l ih => exact ih (i + 1) (m.write (offset a i) b)

theorem mem_writeRange (l : List Byte) (i : Nat) (m : Recorded) :
    x ∈ (writeRange a i l m).writes ↔ (∃ k < l.length, x = offset a (i + k)) ∨ x ∈ m.writes := by
  induction l generalizing i m with
  | nil => simp [writeRange]
  | cons b l ih =>
    have old : x ∈ (m.write (offset a i) b).writes ↔ x = offset a i ∨ x ∈ m.writes := List.mem_cons
    rw [writeRange, ih, old]
    constructor
    · rintro (⟨k, lt, here⟩ | here | old)
      · exact Or.inl ⟨k + 1, Nat.succ_lt_succ lt, by rw [here, Nat.add_assoc, Nat.add_comm 1 k]⟩
      · exact Or.inl ⟨0, Nat.succ_pos _, here⟩
      · exact Or.inr old
    · rintro (⟨k, lt, here⟩ | old)
      · cases k with
        | zero => exact Or.inr (Or.inl here)
        | succ k => exact Or.inl ⟨k, Nat.lt_of_succ_lt_succ lt, by rw [here, Nat.add_assoc, Nat.add_comm 1 k]⟩
      · exact Or.inr (Or.inr old)

theorem forall_writeRange (p : Word → Prop) (l : List Byte) (m : Recorded) :
    (∀ x ∈ (writeRange a 0 l m).writes, p x) ↔ (∀ i < l.length, p (offset a i)) ∧ ∀ x ∈ m.writes, p x := by
  simp only [mem_writeRange, Nat.zero_add]
  constructor
  · exact fun h => ⟨fun i lt => h _ (Or.inl ⟨i, lt, rfl⟩), fun x old => h x (Or.inr old)⟩
  · rintro ⟨new, old⟩ x (⟨i, lt, rfl⟩ | there)
    · exact new i lt
    · exact old x there

theorem writeRange_grows (l : List Byte) (i : Nat) (m : Recorded) : Grows m (writeRange a i l m) := by
  induction l generalizing i m with
  | nil => exact .refl m
  | cons b l ih => exact (write_grows b).trans (ih (i + 1) (m.write (offset a i) b))

end Recorded

end Wittche.AddressSpace
