import Wittche.Fs.Runs

/-! The end of the file in `fs_read`. The limit is checked on `position + size` in 32 bits; the
loop behind it stops where the block pointers end. -/

namespace Wittche.Fs
open Bytes CString Execution

/-- A read that stays within a file of `length` bytes: what it returns, what it copies to the
buffer, and where it leaves the position. -/
structure ReadsWithin (s : WitFs) (fd : Int) (size length : Nat) : Prop where
  left : (fsRead s fd size).2.1 ≤ ((length - (s.openFiles fd.toNat).position : Nat) : Int)
  asked : (fsRead s fd size).2.1 ≤ size
  copied : ((fsRead s fd size).2.2.length : Int) ≤ max 0 (fsRead s fd size).2.1
  position : ((fsRead s fd size).1.openFiles fd.toNat).position ≤ max (s.openFiles fd.toNat).position length

def Backed (x : Inode) (p : Nat) : Prop := ∀ k, p / 512 ≤ k → k ≤ x.size.toNat / 512 → x.block k ≠ 0

/-- The sum of position and size wraps to a number within the file, and the file goes on in
blocks behind its end. -/
def Overreads (s : WitFs) (fd : Int) (size : Nat) (x : Inode) : Prop :=
  let p := (s.openFiles fd.toNat).position
  p < x.size.toNat ∧ 2 ^ 32 ≤ p + size ∧ p + size - 2 ^ 32 ≤ x.size.toNat ∧ Backed x p ∧
    (kmalloc (readInode s (s.openFiles fd.toNat).inode).1).2 ≠ none

section Loop

variable {s : WitFs} {fd size : Nat} {x : Inode}

/-- The loop of `fs_read` with any inode: it delivers as many bytes as it moves the position,
and stops at the end of the request or at a block that is missing. -/
theorem readFrom_length (fd : Nat) (x : Inode) (size : Nat) (s : WitFs) (data : Buffer) :
    let p := (s.openFiles fd).position
    let r := readFrom fd x size (FS_DIRECT_BLOCKS + 1) s data []
    (r.1.openFiles fd).position = p + r.2.length ∧ r.2.length ≤ size ∧
      (∀ i < r.2.length, x.block ((p + i) / 512) ≠ 0) ∧
      (r.2.length < size → x.block ((p + r.2.length) / 512) = 0) := by
  intro p r
  let I : WitFs → List Byte → Prop := fun t done =>
    (t.openFiles fd).position = p + done.length ∧ done.length ≤ size ∧
      ∀ i < done.length, x.block ((p + i) / 512) ≠ 0
  have turn : ∀ t data done, I t done → done.length < size → blockAt t fd < 10 → x.block (blockAt t fd) ≠ 0 →
      I (advance t fd (lengthAt t fd (size - done.length)))
        (done ++ (List.range (lengthAt t fd (size - done.length))).map fun i =>
          readBlock t (dataBlockNum (x.block (blockAt t fd))) data ((t.openFiles fd).position % 512 + i)) := by
    rintro t data done ⟨here, le, filled⟩ left index used
    have fits := position_fits (size - done.length) index
    have inside := chunk_le (t.openFiles fd).position (size - done.length)
    rw [blockAt] at used
    rw [lengthAt] at fits ⊢
    have length : ∀ f : Nat → Byte, (done ++ (List.range (chunk (t.openFiles fd).position
        (size - done.length))).map f).length = done.length + chunk (t.openFiles fd).position (size - done.length) := by
      intro f
      rw [List.length_append, List.length_map, List.length_range]
    refine ⟨?_, ?_, ?_⟩
    · rw [length, ← Nat.add_assoc, ← here]
      simp only [advance, Function.update_self]
      exact Nat.mod_eq_of_lt fits
    · rw [length]
      omega
    · intro i hi
      rw [length] at hi
      by_cases before : i < done.length
      · exact filled i before
      · rw [show (p + i) / 512 = (t.openFiles fd).position / 512 by omega]
        exact used
  have start : I s [] := ⟨rfl, Nat.zero_le _, fun i hi => absurd hi (Nat.not_lt_zero i)⟩
  obtain ⟨t, done, eq, ⟨state, le, filled⟩, stop⟩ :=
    readFrom_rule turn data start (Or.inl (Nat.lt_add_right (blockAt s fd) turns_suffice))
  have result : r = (t, done) := eq
  rw [result]
  refine ⟨state, le, filled, fun short => ?_⟩
  have out := stop short
  rw [blockAt, state] at out
  rcases out with past | zero
  · exact dif_neg (Nat.not_lt.mpr past)
  · exact zero

end Loop

theorem kmalloc_files (s : WitFs) : (kmalloc s).1.openFiles = s.openFiles := by
  rw [kmalloc]
  split <;> rfl

theorem readInode_files (s : WitFs) (n : Nat) : (readInode s n).1.openFiles = s.openFiles := by
  rw [readInode]
  split
  next => rfl
  next =>
    have files := kmalloc_files s
    revert files
    generalize kmalloc s = r
    obtain ⟨t, _ | p⟩ := r
    · exact id
    · exact id

section Read

variable {s : WitFs} {fd : Int} {x : Inode}

theorem fsRead_cases (usable : Usable s fd FS_OPEN_READ)
    (inode : (readInode s (s.openFiles fd.toNat).inode).2 = some x) (size : Nat) :
    let p := (s.openFiles fd.toNat).position
    (x.size.toNat ≤ p ∨ (kmalloc (readInode s (s.openFiles fd.toNat).inode).1).2 = none) ∧
      (fsRead s fd size).2.1 ≤ 0 ∧ (fsRead s fd size).2.2 = [] ∧ (fsRead s fd size).1.openFiles = s.openFiles ∨
    p < x.size.toNat ∧ (kmalloc (readInode s (s.openFiles fd.toNat).inode).1).2 ≠ none ∧
      ∃ len : Nat, (fsRead s fd size).2.1 = len ∧ (fsRead s fd size).2.2.length = len ∧
        ((fsRead s fd size).1.openFiles fd.toNat).position = p + len ∧ len ≤ readSize x.size.toNat p size ∧
        (∀ i < len, x.block ((p + i) / 512) ≠ 0) ∧
        (len < readSize x.size.toNat p size → x.block ((p + len) / 512) = 0) := by
  intro p
  have files := readInode_files s (s.openFiles fd.toNat).inode
  rw [fsRead, usable.1, Bool.not_true, if_neg Bool.false_ne_true, if_neg usable.2]
  revert inode files
  generalize readInode s (s.openFiles fd.toNat).inode = r
  obtain ⟨s1, found⟩ := r
  rintro rfl files
  have files1 : s1.openFiles = s.openFiles := files
  have same : (s1.openFiles fd.toNat).position = p := by rw [files1]
  dsimp only
  rw [same]
  by_cases eof : x.size.toNat ≤ p
  · rw [if_pos eof]
    exact Or.inl ⟨Or.inl eof, Int.le_refl 0, rfl, files1⟩
  rw [if_neg eof]
  have files2 := kmalloc_files s1
  revert files2
  generalize kmalloc s1 = r
  obtain ⟨s2, _ | block⟩ := r
  · exact fun files2 => Or.inl ⟨Or.inr rfl, (by decide : (-1 : Int) ≤ 0), rfl, files2.trans files1⟩
  intro files2
  refine Or.inr ⟨Nat.not_le.mp eof, Option.some_ne_none _, _, rfl, rfl, ?_⟩
  have here : (s2.openFiles fd.toNat).position = p := by rw [files2, same]
  have loop := readFrom_length fd.toNat x (if x.size.toNat < (p + size) % 2 ^ 32 then x.size.toNat - p else size) s2
    s2.heap.junk
  rw [here] at loop
  rw [readSize, if_neg eof]
  exact loop

/-- Behind a wrapped sum the loop goes past the end of the file exactly if nothing is missing. -/
theorem overread_iff {p len size length : Nat} {b : Nat → Word} (before : p < length) (large : length - p < size)
    (filled : ∀ i < len, b ((p + i) / 512) ≠ 0) (stop : len < size → b ((p + len) / 512) = 0) :
    length - p < len ↔ ∀ k, p / 512 ≤ k → k ≤ length / 512 → b k ≠ 0 := by
  constructor
  · intro past k low high
    have here := filled (max p (512 * k) - p) (by omega)
    rwa [show (p + (max p (512 * k) - p)) / 512 = k by omega] at here
  · intro all
    by_contra within
    exact all ((p + len) / 512) (by omega) (by omega) (stop (by omega))

end Read

/-- In every state, reachable or not, `fs_read` stays within the file, unless the 32-bit sum of
position and size wraps to a number that is not behind the end of the file, while blocks are
there up to the end and past it. -/
theorem read_within_iff (s : WitFs) (fd : Int) (size : Word) (x : Inode) (usable : Usable s fd FS_OPEN_READ)
    (inode : (readInode s (s.openFiles fd.toNat).inode).2 = some x) :
    ReadsWithin s fd size.toNat x.size.toNat ↔ ¬Overreads s fd size.toNat x := by
  have small := size.isLt
  have short := x.size.isLt
  rcases fsRead_cases usable inode size.toNat with
    ⟨reason, count, none, files⟩ | ⟨before, granted, len, count, length, position, le, filled, stop⟩
  · refine iff_of_true ⟨by omega, by omega, ?_, ?_⟩ ?_
    · rw [none]
      exact le_max_left _ _
    · rw [files]
      exact le_max_left _ _
    · rintro ⟨before, -, -, -, granted⟩
      rcases reason with eof | refused
      · exact absurd before (Nat.not_lt.mpr eof)
      · exact granted refused
  · have within : len ≤ size.toNat → (ReadsWithin s fd size.toNat x.size.toNat ↔
        len ≤ x.size.toNat - (s.openFiles fd.toNat).position) := by
      intro asked
      constructor
      · intro h
        have left := h.left
        rw [count] at left
        exact Int.ofNat_le.mp left
      · intro left
        refine ⟨?_, ?_, ?_, ?_⟩
        · rw [count]
          exact Int.ofNat_le.mpr left
        · rw [count]
          exact Int.ofNat_le.mpr asked
        · rw [count, length]
          exact le_max_right _ _
        · rw [position]
          omega
    simp only [readSize, if_neg (Nat.not_le.mpr before)] at le stop
    by_cases wraps : 2 ^ 32 ≤ (s.openFiles fd.toNat).position + size.toNat ∧
        (s.openFiles fd.toNat).position + size.toNat - 2 ^ 32 ≤ x.size.toNat
    · -- the sum is taken for one within the file, and the request is not cut
      have uncut : ¬x.size.toNat < ((s.openFiles fd.toNat).position + size.toNat) % 2 ^ 32 := by omega
      rw [if_neg uncut] at le stop
      rw [within le, ← not_lt, overread_iff before (by omega) filled stop]
      exact not_congr ⟨fun all => ⟨before, wraps.1, wraps.2, all, granted⟩, fun past => past.2.2.2.1⟩
    · have cut : len ≤ x.size.toNat - (s.openFiles fd.toNat).position ∧ len ≤ size.toNat := by
        split at le <;> omega
      rw [within cut.2]
      exact iff_of_true cut.1 fun past => wraps ⟨past.2.1, past.2.2.1⟩

def secondByteOps : List FsOp :=
  [.fsOpen pathA 7, .fsWrite 0 (fun _ => 0x41) 2, .fsOpen pathA 7, .fsRead 1 1]

def secondByte : WitFs := secondByteOps.foldl WitFs.step (mounted powerOn)

example : (secondByte.openFiles 1).position = 1 := by decide +kernel

theorem secondByte_inode : ∃ x : Inode, (readInode secondByte (secondByte.openFiles (1 : Int).toNat).inode).2 = some x ∧
    x.size.toNat = 2 := by
  have size : (readInode secondByte (secondByte.openFiles (1 : Int).toNat).inode).2.map (fun x => x.size.toNat) = some 2 := by
    decide +kernel
  exact Option.map_eq_some_iff.mp size

theorem read_within_iff_one : ReadsWithin secondByte 1 1 2 := by
  obtain ⟨x, inode, size⟩ := secondByte_inode
  have within := read_within_iff secondByte 1 1 x (by decide +kernel) inode
  rw [size] at within
  have position : (secondByte.openFiles (1 : Int).toNat).position = 1 := by decide +kernel
  refine within.mpr fun past => absurd past.2.1 ?_
  rw [position]
  decide

/-- A read of `2 ^ 32 - 1` bytes from there delivers 511. -/
theorem overread_past_end :
    Exec Separate WitFs.step (mounted powerOn) secondByteOps secondByte ∧ Usable secondByte 1 FS_OPEN_READ ∧
      ((readInode secondByte (secondByte.openFiles (1 : Int).toNat).inode).2.map fun x => x.size.toNat) = some 2 ∧
      (fsRead secondByte 1 4294967295).2.1 = 511 ∧ ¬ReadsWithin secondByte 1 4294967295 2 := by
  have count : (fsRead secondByte 1 4294967295).2.1 = 511 := by decide +kernel
  have position : (secondByte.openFiles (1 : Int).toNat).position = 1 := by decide +kernel
  refine ⟨.cons (show NonRoot pathA by decide) (.cons trivial (.cons (show NonRoot pathA by decide)
    (.cons trivial (.nil _)))), by decide +kernel, by decide +kernel, count, fun within => ?_⟩
  have left := within.left
  rw [count, position] at left
  exact absurd left (by decide)

end Wittche.Fs
