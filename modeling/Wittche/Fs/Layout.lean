import Wittche.Fs.Model

/-! Where the structures of WitFS lie on the disk, and what reading and writing
them does there. With a mounted disk and a heap that grants every request, each
access is a plain update of the disk bytes and everything else stays as it is. -/

namespace Wittche.Fs
open Bytes

/-- The disk is there, and the coming requests to the heap all succeed. -/
structure Ready (s : WitFs) : Prop where
  disk : s.disk.initialized = true
  heap : s.heap.pending = []

def WitFs.setData (s : WitFs) (data : Buffer) : WitFs := { s with disk := s.disk.withData data }

def slotStart (n : Nat) : Nat := inodeBlock n * FS_BLOCK_SIZE + inodeOffset n

def inodeAt (data : Buffer) (n : Nat) : Inode := Inode.ofBytes fun i => data (slotStart n + i)

def dataStart (b : Nat) : Nat := (FS_DATA_BLOCKS_START + b) * FS_BLOCK_SIZE

section

variable {s : WitFs}

theorem Ready.setData (h : Ready s) (data : Buffer) : Ready (s.setData data) := ⟨h.disk, h.heap⟩

@[simp] theorem setData_data (s : WitFs) (data : Buffer) : (s.setData data).disk.data = data := rfl

@[simp] theorem setData_setData (s : WitFs) (data data' : Buffer) :
    (s.setData data).setData data' = s.setData data' := rfl

theorem kmalloc_of_ready (h : Ready s) : ∃ heap p, kmalloc s = ({ s with heap := heap }, some p) ∧
    heap.pending = [] ∧ heap.junk = s.heap.junk ∧
    ∀ t : WitFs, t.heap = heap → kfree t p = { t with heap := s.heap } := by
  refine ⟨(s.heap.grant []).1, s.heap.fresh, ?_, rfl, rfl, ?_⟩
  · simp [kmalloc, h.heap, FsHeap.grant]
  · intro t same
    have pending := h.heap
    simp only [kfree, same, FsHeap.grant, List.erase_cons_head]
    cases heap : s.heap
    simp_all

theorem readBlock_of_ready (h : Ready s) {b : Nat} (hb : b < 2048) (buffer : Buffer) (i : Nat)
    (hi : i < 512) : readBlock s b buffer i = s.disk.data (b * 512 + i) := by
  obtain ⟨size, count⟩ := s.disk.configured h.disk
  have inside : ¬s.disk.blockCount ≤ b := by
    rw [count]
    simp only [RAMDISK_BLOCK_COUNT, RAMDISK_SIZE, RAMDISK_BLOCK_SIZE]
    omega
  simp only [readBlock, ramdiskReadBlock, h.disk, inside, size, RAMDISK_BLOCK_SIZE,
    Bool.not_true, Bool.false_eq_true, if_false]
  rw [copy_inside ⟨Nat.zero_le _, by omega⟩, Nat.sub_zero]

theorem writeBlock_of_ready (h : Ready s) {b : Nat} (hb : b < 2048) (buffer : Buffer) :
    writeBlock s b buffer = s.setData (copy s.disk.data (b * 512) buffer 512) := by
  obtain ⟨size, count⟩ := s.disk.configured h.disk
  have inside : ¬s.disk.blockCount ≤ b := by
    rw [count]
    simp only [RAMDISK_BLOCK_COUNT, RAMDISK_SIZE, RAMDISK_BLOCK_SIZE]
    omega
  simp [writeBlock, ramdiskWriteBlock, h.disk, inside, size, RAMDISK_BLOCK_SIZE, WitFs.setData]

theorem inodeBlock_eq (n : Nat) : inodeBlock n = 3 + n / 6 := rfl

theorem inodeOffset_eq (n : Nat) : inodeOffset n = n % 6 * 80 := rfl

theorem slotStart_eq (n : Nat) : slotStart n = (3 + n / 6) * 512 + n % 6 * 80 := rfl

theorem readInode_of_ready (h : Ready s) {n : Nat} (hn : n < FS_MAX_INODES) :
    readInode s n = (s, some (inodeAt s.disk.data n)) := by
  obtain ⟨heap, p, grant, pending, -, back⟩ := kmalloc_of_ready h
  simp only [FS_MAX_INODES] at hn
  have ready : Ready { s with heap := heap } := ⟨h.disk, pending⟩
  rw [readInode, if_neg (by simp only [FS_MAX_INODES]; omega), grant]
  simp only [back { s with heap := heap } rfl, Prod.mk.injEq, true_and, Option.some.injEq, inodeAt]
  apply ofBytes_congr
  intro i hi
  simp only [SIZEOF_INODE, FS_DIRECT_BLOCKS] at hi
  rw [readBlock_of_ready ready (by rw [inodeBlock_eq]; omega) _ _ (by rw [inodeOffset_eq]; omega), slotStart,
    Nat.add_assoc]
  rfl

theorem copy_slot (data : Buffer) {buffer : Buffer} (n : Nat) (x : Inode)
    (same : ∀ i < 512, buffer i = data (inodeBlock n * 512 + i)) :
    copy data (inodeBlock n * 512) (copy buffer (inodeOffset n) x.bytes SIZEOF_INODE) 512 =
      copy data (slotStart n) x.bytes SIZEOF_INODE := by
  funext a
  have fits : inodeOffset n + 80 ≤ 512 := by
    rw [inodeOffset_eq]
    omega
  have start : slotStart n = inodeBlock n * 512 + inodeOffset n := rfl
  have size : SIZEOF_INODE = 80 := rfl
  rw [size, start]
  by_cases block : inodeBlock n * 512 ≤ a ∧ a < inodeBlock n * 512 + 512
  · rw [copy_inside block]
    by_cases slot : inodeBlock n * 512 + inodeOffset n ≤ a ∧ a < inodeBlock n * 512 + inodeOffset n + 80
    · rw [copy_inside slot, copy_inside (by omega)]
      congr 1
      omega
    · rw [copy_outside (by omega), copy_outside (by omega), same _ (by omega)]
      congr 1
      omega
  · rw [copy_outside (by omega), copy_outside (by omega)]

theorem writeInode_of_ready (h : Ready s) {n : Nat} (hn : n < FS_MAX_INODES) (x : Inode) :
    writeInode s n x = (s.setData (copy s.disk.data (slotStart n) x.bytes SIZEOF_INODE), 0) := by
  obtain ⟨heap, p, grant, pending, -, back⟩ := kmalloc_of_ready h
  simp only [FS_MAX_INODES] at hn
  have ready : Ready { s with heap := heap } := ⟨h.disk, pending⟩
  have inside : inodeBlock n < 2048 := by
    rw [inodeBlock_eq]
    omega
  rw [writeInode, if_neg (by simp only [FS_MAX_INODES]; omega), grant]
  simp only [writeBlock_of_ready ready inside, copy_slot s.disk.data n x fun i hi => readBlock_of_ready ready inside _ i hi]
  rw [back _ rfl]
  rfl

end

/-- The slots of two inodes do not share a byte. -/
theorem slots_apart {n m : Nat} (ne : n ≠ m) :
    slotStart n + SIZEOF_INODE ≤ slotStart m ∨ slotStart m + SIZEOF_INODE ≤ slotStart n := by
  have rn := Nat.mod_lt n (show 0 < 6 by decide)
  have rm := Nat.mod_lt m (show 0 < 6 by decide)
  simp only [slotStart_eq, SIZEOF_INODE, FS_DIRECT_BLOCKS]
  rcases Nat.lt_trichotomy (n / 6) (m / 6) with less | same | more
  · left
    omega
  · omega
  · right
    omega

theorem inodeAt_writeSlot (data : Buffer) (n m : Nat) (x : Inode) :
    inodeAt (copy data (slotStart n) x.bytes SIZEOF_INODE) m =
      if m = n then x else inodeAt data m := by
  split
  next same =>
    rw [same, inodeAt, ← ofBytes_bytes x]
    apply ofBytes_congr
    intro i hi
    rw [copy_inside (by omega), Nat.add_sub_cancel_left, ofBytes_bytes]
  next other =>
    have apart := slots_apart other
    apply ofBytes_congr
    intro i hi
    exact copy_outside (by omega)

/-- The inodes whose slots lie in the inode table region: six to a block, 64 blocks. -/
def TABLE_INODES : Nat := FS_INODE_TABLE_BLOCKS * INODES_PER_BLOCK

def InTable (a : Nat) : Prop :=
  FS_INODE_TABLE_BLOCK * FS_BLOCK_SIZE ≤ a ∧
    a < (FS_INODE_TABLE_BLOCK + FS_INODE_TABLE_BLOCKS) * FS_BLOCK_SIZE

theorem slot_inTable_iff (n : Nat) :
    (∀ i < SIZEOF_INODE, InTable (slotStart n + i)) ↔ n < TABLE_INODES := by
  have table : TABLE_INODES = 384 := by decide
  simp only [InTable, slotStart_eq, SIZEOF_INODE, FS_DIRECT_BLOCKS, FS_INODE_TABLE_BLOCK,
    FS_INODE_TABLE_BLOCKS, FS_BLOCK_SIZE, table]
  constructor
  · intro h
    have last := (h 0 (by omega)).2
    have block : n / 6 < 64 := by
      by_contra past
      have low : 67 * 512 ≤ (3 + n / 6) * 512 := Nat.mul_le_mul_right 512 (by omega)
      omega
    omega
  · intro hn i hi
    have block : n / 6 < 64 := by omega
    have rn := Nat.mod_lt n (show 0 < 6 by decide)
    omega

/-- What the layout of `fs.h` promises for inode number `n`. -/
structure SlotLaw (n : Nat) : Prop where
  inside : ∀ i < SIZEOF_INODE, InTable (slotStart n + i)
  apart : ∀ m < FS_MAX_INODES, m ≠ n →
    slotStart n + SIZEOF_INODE ≤ slotStart m ∨ slotStart m + SIZEOF_INODE ≤ slotStart n
  readBack : ∀ (s : WitFs) (x : Inode), Ready s → ∀ m < FS_MAX_INODES,
    (readInode (writeInode s n x).1 m).2 = if m = n then some x else (readInode s m).2
  frame : ∀ (s : WitFs) (x : Inode), Ready s → ∀ a, ¬InTable a →
    (writeInode s n x).1.disk.data a = s.disk.data a

/-- The law holds exactly for the inodes that fit the table region. -/
theorem slot_law_iff (n : Nat) (hn : n < FS_MAX_INODES) : SlotLaw n ↔ n < TABLE_INODES := by
  constructor
  · intro law
    exact (slot_inTable_iff n).mp law.inside
  · intro fits
    have inside := (slot_inTable_iff n).mpr fits
    refine ⟨inside, fun m _ ne => slots_apart (Ne.symm ne), ?_, ?_⟩
    · intro s x ready m hm
      rw [writeInode_of_ready ready hn, readInode_of_ready (ready.setData _) hm, readInode_of_ready ready hm]
      simp only [WitFs.setData, RamDisk.withData, inodeAt_writeSlot]
      split <;> rfl
    · intro s x ready a outside
      rw [writeInode_of_ready ready hn]
      refine copy_outside ?_
      by_contra slot
      have here := inside (a - slotStart n) (by omega)
      rw [show slotStart n + (a - slotStart n) = a by omega] at here
      exact outside here

theorem slot_law_root : SlotLaw 0 := (slot_law_iff 0 (by decide)).mpr (by decide)

/-- Inode 384 is the first whose slot is the first data block. -/
theorem slot_384_in_data : 384 < FS_MAX_INODES ∧ slotStart 384 = dataStart 0 ∧ ¬SlotLaw 384 := by
  refine ⟨by decide, by decide, fun law => ?_⟩
  have inside := law.inside 0 (by decide)
  exact absurd inside.2 (by decide)

end Wittche.Fs
