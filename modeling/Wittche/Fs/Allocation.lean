import Wittche.Fs.Consistency

/-! The four functions that hand out and take back inodes and data blocks, against
the allocation invariant and the two counters of the superblock. The view the books
are kept for is a parameter: in the middle of an operation the inode being changed
is in memory and not yet on the disk. -/

namespace Wittche.Fs
open Bytes

def clearBits (bitmap : Buffer) (n : Nat) : Nat := Bitmap.clearCount (w := 8) bitmap n

structure Books (V : View) (s : WitFs) (heldInode heldBlock : Nat → Prop) : Prop where
  cons : Consistent V s.inodeBitmap.bytes s.dataBitmap.bytes heldInode heldBlock
  freeInodes : s.superblock.freeInodes.toNat = clearBits s.inodeBitmap.bytes FS_MAX_INODES
  freeBlocks : s.superblock.freeBlocks.toNat = clearBits s.dataBitmap.bytes FS_MAX_DATA_BLOCKS

/-- Only bitmaps and counters changed. -/
structure Quiet (s t : WitFs) : Prop extends Keeps s t where
  view : t.view = s.view

theorem Quiet.refl (s : WitFs) : Quiet s s := ⟨Keeps.refl s, rfl⟩

theorem Quiet.trans {s t u : WitFs} (h : Quiet s t) (h' : Quiet t u) : Quiet s u :=
  ⟨h.toKeeps.trans h'.toKeeps, h'.view.trans h.view⟩

theorem clearBits_set {bitmap : Buffer} {n i : Nat} {free : Word} (hi : i < n)
    (clear : bitmapTest bitmap i = false) (count : free.toNat = clearBits bitmap n) :
    (free - 1).toNat = clearBits (bitmapSet bitmap i) n := by
  have step : clearBits (bitmapSet bitmap i) n + 1 = clearBits bitmap n :=
    Bitmap.clearCount_set (by decide) hi clear
  have bound := free.isLt
  rw [BitVec.toNat_sub, count, ← step]
  rw [count, ← step] at bound
  have one : (1 : Word).toNat = 1 := rfl
  rw [one]
  omega

theorem clearBits_clear {bitmap : Buffer} {n i : Nat} {free : Word} (small : n < 2 ^ 32) (hi : i < n)
    (set : bitmapTest bitmap i = true) (count : free.toNat = clearBits bitmap n) :
    (free + 1).toNat = clearBits (bitmapClear bitmap i) n := by
  have step : clearBits (bitmapClear bitmap i) n = clearBits bitmap n + 1 :=
    Bitmap.clearCount_clear (by decide) hi set
  have bound : clearBits (bitmapClear bitmap i) n ≤ n := Bitmap.clearCount_le _ n
  have one : (1 : Word).toNat = 1 := rfl
  rw [BitVec.toNat_add, count, step, one]
  omega

section

variable {s : WitFs} {V W : View} {hi hb : Nat → Prop}

theorem Books.view (h : Books V s hi hb) {hi' hb' : Nat → Prop}
    (cons : Consistent W s.inodeBitmap.bytes s.dataBitmap.bytes hi' hb') : Books W s hi' hb' :=
  ⟨cons, h.freeInodes, h.freeBlocks⟩

theorem Books.withHeap (h : Books V s hi hb) (heap : FsHeap) : Books V { s with heap := heap } hi hb :=
  ⟨h.cons, h.freeInodes, h.freeBlocks⟩

theorem Books.withFiles (h : Books V s hi hb) (files : Nat → OpenFile) :
    Books V { s with openFiles := files } hi hb := ⟨h.cons, h.freeInodes, h.freeBlocks⟩

theorem Books.diskOnly (h : Books V s hi hb) {t : WitFs} (same : DiskOnly s t) : Books V t hi hb := by
  refine ⟨?_, ?_, ?_⟩
  · rw [same.inodeBitmap, same.dataBitmap]
    exact h.cons
  · rw [same.superblock, same.inodeBitmap]
    exact h.freeInodes
  · rw [same.superblock, same.dataBitmap]
    exact h.freeBlocks

theorem inode_bit {n : Nat} (lt : n < FS_MAX_INODES) : n < 8 * FS_BLOCK_SIZE := by
  simp only [FS_MAX_INODES, FS_BLOCK_SIZE] at *
  omega

theorem allocInode_spec (ready : Ready s) (h : Books V s hi hb) :
    (allocInode s = (s, none)) ∨
      ∃ n t, allocInode s = (t, some n) ∧ ¬V.Owner n ∧ ((∀ m, ¬hi m) → n < TABLE_INODES) ∧
        Quiet s t ∧ Books V t (fun m => m = n ∨ hi m) hb := by
  rw [allocInode]
  cases found : bitmapFindFree s.inodeBitmap.bytes FS_MAX_INODES with
  | none => exact Or.inl rfl
  | some n =>
    obtain ⟨lt, clear, below⟩ := Bitmap.findClear_some found
    have stored := storeInodeBitmap_of_ready ready (bitmapSet s.inodeBitmap.bytes n)
      (s.superblock.freeInodes - 1)
    refine Or.inr ⟨n, _, rfl, h.cons.inodes.clear_not_owned (inode_bit lt) clear,
      fun none => h.cons.lowest_lt none lt below, ⟨stored.1, stored.2⟩, ?_⟩
    refine ⟨?_, ?_, ?_⟩
    · exact h.cons.holdInode lt clear
    · exact clearBits_set lt clear h.freeInodes
    · exact h.freeBlocks

theorem freeInode_spec (ready : Ready s) (h : Books V s hi hb) {n : Nat} (held : hi n)
    (lt : n < FS_MAX_INODES) :
    Quiet s (freeInode s n) ∧ Books V (freeInode s n) (fun m => hi m ∧ m ≠ n) hb := by
  have set : bitmapTest s.inodeBitmap.bytes n = true :=
    (h.cons.inodes.iff n (inode_bit lt)).mpr (Or.inr held)
  have stored := storeInodeBitmap_of_ready ready (bitmapClear s.inodeBitmap.bytes n)
    (s.superblock.freeInodes + 1)
  refine ⟨⟨stored.1, stored.2⟩, ?_, ?_, ?_⟩
  · exact h.cons.releaseInode held
  · exact clearBits_clear (by decide) lt set h.freeInodes
  · exact h.freeBlocks

theorem allocDataBlock_spec (ready : Ready s) (h : Books V s hi hb) :
    (allocDataBlock s = (s, none) ∧
      ∀ b < FS_MAX_DATA_BLOCKS, bitmapTest s.dataBitmap.bytes b = true) ∨
      ∃ b t, allocDataBlock s = (t, some b) ∧ DataBlock b ∧ ¬V.Taken b ∧ ¬hb b ∧ Quiet s t ∧
        Books V t hi fun a => a = b ∨ hb a := by
  rw [allocDataBlock]
  cases found : bitmapFindFree s.dataBitmap.bytes FS_MAX_DATA_BLOCKS with
  | none => exact Or.inl ⟨rfl, Bitmap.findClear_none.mp found⟩
  | some b =>
    obtain ⟨lt, clear, -⟩ := Bitmap.findClear_some found
    have stored := storeDataBitmap_of_ready ready (bitmapSet s.dataBitmap.bytes b)
      (s.superblock.freeBlocks - 1)
    obtain ⟨nonzero, cons⟩ := h.cons.holdBlock lt clear
    have loose : ¬(V.Taken b ∨ hb b) := by
      rw [← h.cons.blocks.iff b ⟨nonzero, lt⟩]
      exact Bool.eq_false_iff.mp clear
    refine Or.inr ⟨b, _, rfl, ⟨nonzero, lt⟩, fun h => loose (Or.inl h), fun h => loose (Or.inr h),
      ⟨stored.1, stored.2⟩, ?_⟩
    refine ⟨cons, ?_, ?_⟩
    · exact h.freeInodes
    · exact clearBits_set lt clear h.freeBlocks

theorem allocDataBlock_some {t : WitFs} {b : Nat} (ready : Ready s) (h : Books V s hi hb)
    (alloc : allocDataBlock s = (t, some b)) :
    DataBlock b ∧ ¬V.Taken b ∧ ¬hb b ∧ Quiet s t ∧ Books V t hi fun a => a = b ∨ hb a := by
  rcases allocDataBlock_spec ready h with ⟨full, -⟩ | ⟨b', t', alloc', granted⟩
  · rw [full] at alloc
    exact absurd (Prod.mk.inj alloc).2.symm (Option.some_ne_none b)
  · rw [alloc'] at alloc
    obtain ⟨rfl, same⟩ := Prod.mk.inj alloc
    obtain rfl := Option.some.inj same
    exact granted

theorem freeDataBlock_spec (ready : Ready s) (h : Books V s hi hb) {b : Nat} (held : hb b) :
    Quiet s (freeDataBlock s b) ∧ Books V (freeDataBlock s b) hi fun a => hb a ∧ a ≠ b := by
  have dom := (h.cons.blocks.apart b held).1
  have set : bitmapTest s.dataBitmap.bytes b = true := (h.cons.blocks.iff b dom).mpr (Or.inr held)
  have stored := storeDataBitmap_of_ready ready (bitmapClear s.dataBitmap.bytes b)
    (s.superblock.freeBlocks + 1)
  refine ⟨⟨stored.1, stored.2⟩, ?_, ?_, ?_⟩
  · exact h.cons.releaseBlock held
  · exact h.freeInodes
  · exact clearBits_clear (by decide) dom.2 set h.freeBlocks

end

end Wittche.Fs
