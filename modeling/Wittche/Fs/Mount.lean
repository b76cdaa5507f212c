import Wittche.Fs.Write

/-! `fs_format` followed by `fs_init`, from any state with a disk: an empty directory
and books that say so. -/

namespace Wittche.Fs
open Bytes

section Bitmaps

def OnlyBit0 (bitmap : Buffer) : Prop := ∀ n < 8 * FS_BLOCK_SIZE, bitmapTest bitmap n = decide (n = 0)

theorem OnlyBit0.congr {a b : Buffer} (h : OnlyBit0 a) (same : ∀ i < 512, b i = a i) : OnlyBit0 b := by
  intro n hn
  rw [← h n hn, bitmapTest, bitmapTest, Bitmap.test, Bitmap.test, same]
  simp only [FS_BLOCK_SIZE] at hn
  omega

theorem onlyBit0_fresh (b : BitmapBuffer) : OnlyBit0 (freshBitmap b).bytes := by
  intro n hn
  have zero : bitmapTest (copy b.bytes 0 (fun _ => 0) FS_BLOCK_SIZE) n = false := by
    have cleared : copy b.bytes 0 (fun _ => 0) FS_BLOCK_SIZE (n / 8) = 0 := by
      refine copy_inside ⟨Nat.zero_le _, ?_⟩
      simp only [FS_BLOCK_SIZE] at hn ⊢
      omega
    rw [bitmapTest, Bitmap.test, cleared]
    simp
  rw [freshBitmap, bitmapTest_set, zero, Bool.or_false]

theorem OnlyBit0.clearBits {bitmap : Buffer} (h : OnlyBit0 bitmap) {n : Nat} (pos : 0 < n)
    (hn : n ≤ 8 * FS_BLOCK_SIZE) : clearBits bitmap n = n - 1 := by
  refine (Bitmap.clearCount_eq_pred_iff pos (h 0 (by omega))).mpr fun m lt ne => ?_
  exact (h m (by omega)).trans (decide_eq_false ne)

end Bitmaps

theorem consistent_empty {V : View} {ib db : Buffer} (dir : (V.inode 0).mode &&& FS_TYPE_DIR ≠ 0)
    (none : ∀ k, (V.inode 0).block k = 0) (inodes : OnlyBit0 ib) (blocks : OnlyBit0 db) :
    Consistent V ib db (fun _ => False) fun _ => False := by
  have blk : ∀ k, V.blk 0 k = 0 := fun k => (blk_word V k).mp (none k)
  have ents : ∀ e, V.ent e = 0 := fun e => by simp [View.ent, blk]
  have owner : ∀ n, V.Owner n ↔ n = 0 := by
    intro n
    refine ⟨?_, Or.inl⟩
    rintro (rfl | ⟨e, rfl⟩)
    · rfl
    · exact ents e
  have blkn : ∀ n k, V.Owner n → V.blk n k = 0 := by
    intro n k own
    rw [(owner n).mp own, blk]
  refine ⟨dir, ?_, ?_, ?_, ?_, ?_, ?_, ⟨?_, ?_⟩, ⟨?_, ?_⟩, ?_⟩
  · intro e
    rw [ents]
    decide
  · exact fun e _ live => absurd (ents e) live
  · exact fun e live => absurd (ents e) live
  · intro n k own
    rw [blkn n k own]
    decide
  · exact fun n _ j _ own _ used => absurd (blkn n j own) used
  · exact fun n _ k own used => absurd (blkn n k own) used
  · intro n hn
    rw [inodes n hn, decide_eq_true_eq, owner, or_false]
  · exact fun _ h => h.elim
  · intro b db
    have inside : b < 8 * FS_BLOCK_SIZE := by
      have lt := db.2
      simp only [FS_MAX_DATA_BLOCKS, FS_BLOCK_SIZE] at lt ⊢
      omega
    rw [blocks b inside, decide_eq_true_eq, or_false]
    refine ⟨fun h => absurd h db.1, ?_⟩
    rintro ⟨n, k, own, eq⟩
    rw [← eq, blkn n k own]
  · exact fun _ h => h.elim
  · rw [blocks 0 (by decide)]
    rfl

section Format

variable {s : WitFs}

theorem allocBitmap_of_ready (ready : Ready s) :
    ∃ heap p, allocBitmap s = ({ s with heap := heap }, ⟨some p, heap.junk⟩) ∧ heap.pending = [] ∧
      heap.live = p :: s.heap.live := by
  refine ⟨(s.heap.grant []).1, s.heap.fresh, ?_, rfl, rfl⟩
  simp [allocBitmap, kmalloc, ready.heap, FsHeap.grant]

theorem keepBitmap_of_ready (ready : Ready s) (b : BitmapBuffer) :
    ∃ heap b', keepBitmap s b = ({ s with heap := heap }, b') ∧ b'.ptr.isNone = false ∧
      heap.pending = [] ∧ (b.ptr.isNone = false → heap = s.heap) := by
  rw [keepBitmap]
  split
  next null =>
    obtain ⟨heap, p, grant, pending, -⟩ := allocBitmap_of_ready ready
    exact ⟨heap, _, grant, rfl, pending, fun kept => absurd (null.symm.trans kept) Bool.noConfusion⟩
  next kept => exact ⟨s.heap, b, rfl, Bool.eq_false_iff.mpr kept, ready.heap, fun _ => rfl⟩

theorem writeThroughTemp_of_ready (ready : Ready s) {b : Nat} (hb : b < 2048) (data : Buffer) :
    writeThroughTemp s b data = s.setData (copy s.disk.data (b * 512) data 512) := by
  obtain ⟨heap, p, grant, pending, -, back⟩ := kmalloc_of_ready ready
  have ready' : Ready { s with heap := heap } := ⟨ready.disk, pending⟩
  rw [writeThroughTemp, grant]
  simp only [writeBlock_of_ready ready' hb]
  rw [back _ rfl]
  rfl

/-- A disk as `fs_format` leaves it. -/
structure Formatted (s : WitFs) : Prop where
  ready : Ready s
  superblock : ∀ i < 512, s.disk.data i = formatSuperblock.bytes i
  inodeBitmap : OnlyBit0 fun i => s.disk.data (512 + i)
  dataBitmap : OnlyBit0 fun i => s.disk.data (1024 + i)
  rootDir : (s.view.inode 0).mode &&& FS_TYPE_DIR ≠ 0
  rootEmpty : ∀ k, (s.view.inode 0).block k = 0
  rootSize : (s.view.inode 0).size = 0

def formatData (data : Buffer) (root : Inode) (sb ib db : Buffer) : Buffer :=
  copy (copy (copy (copy (copy data (slotStart 0) root.bytes SIZEOF_INODE)
    (FS_DATA_BLOCKS_START * 512) (fun _ => 0) 512) (FS_SUPERBLOCK_BLOCK * 512) sb 512)
    (FS_INODE_BITMAP_BLOCK * 512) ib 512) (FS_DATA_BITMAP_BLOCK * 512) db 512

theorem formatData_head (data : Buffer) (root : Inode) (sb ib db : Buffer) {i : Nat} (h : i < 512) :
    formatData data root sb ib db i = sb i ∧
      formatData data root sb ib db (512 + i) = ib i ∧ formatData data root sb ib db (1024 + i) = db i := by
  simp only [formatData, FS_SUPERBLOCK_BLOCK, FS_INODE_BITMAP_BLOCK, FS_DATA_BITMAP_BLOCK]
  refine ⟨?_, ?_, ?_⟩
  · rw [copy_outside (by omega), copy_outside (by omega), copy_inside (by omega), Nat.zero_mul, Nat.sub_zero]
  · rw [copy_outside (by omega), copy_inside (by omega), show 512 + i - 1 * 512 = i by omega]
  · rw [copy_inside (by omega), show 1024 + i - 2 * 512 = i by omega]

theorem formatData_inode (data : Buffer) (root : Inode) (sb ib db : Buffer) (n : Nat) :
    (view (formatData data root sb ib db)).inode n = if n = 0 then root else (view data).inode n := by
  have block0 := view_writeData (copy data (slotStart 0) root.bytes SIZEOF_INODE) 0 fun _ => 0
  rw [dataStart_eq, Nat.add_zero] at block0
  rw [formatData, view_writeHead _ (by decide), view_writeHead _ (by decide), view_writeHead _ (by decide)]
  erw [block0]
  rw [view_writeSlot data (by decide)]
  simp

def formatRoot (ticks : Word) : Inode :=
  { Inode.zero with mode := FS_TYPE_DIR ||| FS_PERM_DEFAULT, created := ticks, modified := ticks }

theorem writeFormat_eq (ready : Ready s) :
    writeFormat s = { s.setData (formatData s.disk.data (formatRoot s.ticks) s.superblock.bytes
      s.inodeBitmap.bytes s.dataBitmap.bytes) with initialized := true } := by
  simp only [writeFormat]
  rw [writeInode_of_ready ready (by decide), writeThroughTemp_of_ready (ready.setData _) (by decide)]
  simp only [setData_data, setData_setData]
  rw [writeThroughTemp_of_ready (ready.setData _) (by decide)]
  simp only [setData_data, setData_setData]
  rw [writeBlock_of_ready (ready.setData _) (by decide)]
  simp only [setData_data, setData_setData]
  rw [writeBlock_of_ready (ready.setData _) (by decide)]
  rfl

theorem writeFormat_formatted (ready : Ready s) (superblock : s.superblock = formatSuperblock)
    (inodes : OnlyBit0 s.inodeBitmap.bytes) (blocks : OnlyBit0 s.dataBitmap.bytes) :
    Formatted (writeFormat s) := by
  have head := fun i (h : i < 512) => formatData_head s.disk.data (formatRoot s.ticks) s.superblock.bytes
    s.inodeBitmap.bytes s.dataBitmap.bytes h
  have root := formatData_inode s.disk.data (formatRoot s.ticks) s.superblock.bytes s.inodeBitmap.bytes
    s.dataBitmap.bytes 0
  rw [if_pos rfl] at root
  rw [writeFormat_eq ready]
  refine ⟨⟨ready.disk, ready.heap⟩, ?_, ?_, ?_, ?_, ?_, ?_⟩
  · intro i h
    rw [← superblock]
    exact (head i h).1
  · exact inodes.congr fun i h => (head i h).2.1
  · exact blocks.congr fun i h => (head i h).2.2
  · change ((view (formatData _ _ _ _ _)).inode 0).mode &&& _ ≠ 0
    rw [root]
    exact (by decide : (FS_TYPE_DIR ||| FS_PERM_DEFAULT) &&& FS_TYPE_DIR ≠ 0)
  · intro k
    change ((view (formatData _ _ _ _ _)).inode 0).block k = 0
    rw [root]
    simp [formatRoot, Inode.zero, Inode.block]
  · change ((view (formatData _ _ _ _ _)).inode 0).size = 0
    rw [root]
    rfl

theorem fsFormat_eq (ready : Ready s) : ∃ heap ib db,
    fsFormat s = writeFormat { s with
      heap := heap
      superblock := formatSuperblock
      inodeBitmap := freshBitmap ib
      dataBitmap := freshBitmap db } ∧
      heap.pending = [] ∧ ib.ptr.isNone = false ∧ db.ptr.isNone = false ∧
      (s.inodeBitmap.ptr.isNone = false → s.dataBitmap.ptr.isNone = false → heap = s.heap) := by
  obtain ⟨heap, ib, kept, some, pending, old⟩ := keepBitmap_of_ready ready s.inodeBitmap
  have ready1 : Ready { s with heap := heap, inodeBitmap := ib } := ⟨ready.disk, pending⟩
  obtain ⟨heap', db, kept', some', pending', old'⟩ := keepBitmap_of_ready ready1 s.dataBitmap
  refine ⟨heap', ib, db, ?_, pending', some, some', fun inode data => (old' data).trans (old inode)⟩
  rw [fsFormat, ready.disk, Bool.not_true, if_neg Bool.false_ne_true]
  simp only [kept]
  erw [kept']
  simp only [some, some', Bool.false_eq_true, or_self, if_false]

theorem fsFormat_formatted (ready : Ready s) : Formatted (fsFormat s) := by
  obtain ⟨heap, ib, db, eq, pending, -⟩ := fsFormat_eq ready
  rw [eq]
  exact writeFormat_formatted ⟨ready.disk, pending⟩ rfl (onlyBit0_fresh ib) (onlyBit0_fresh db)

theorem fsFormat_written (ready : Ready s) : ∃ heap ib db,
    fsFormat s = { WitFs.setData { s with
        heap := heap
        superblock := formatSuperblock
        inodeBitmap := freshBitmap ib
        dataBitmap := freshBitmap db }
      (formatData s.disk.data (formatRoot s.ticks) formatSuperblock.bytes (freshBitmap ib).bytes
        (freshBitmap db).bytes) with initialized := true } := by
  obtain ⟨heap, ib, db, eq, pending, -⟩ := fsFormat_eq ready
  exact ⟨heap, ib, db, eq.trans (writeFormat_eq ⟨ready.disk, pending⟩)⟩

theorem fsFormat_memory (ready : Ready s) : (fsFormat s).initialized = true ∧
    (fsFormat s).superblock = formatSuperblock ∧ (fsFormat s).openFiles = s.openFiles ∧
    (∀ i < 512, (fsFormat s).inodeBitmap.bytes i = (fsFormat s).disk.data (512 + i)) ∧
    ∀ i < 512, (fsFormat s).dataBitmap.bytes i = (fsFormat s).disk.data (1024 + i) := by
  obtain ⟨heap, ib, db, eq⟩ := fsFormat_written ready
  have head := fun i (h : i < 512) => formatData_head s.disk.data (formatRoot s.ticks) formatSuperblock.bytes
    (freshBitmap ib).bytes (freshBitmap db).bytes h
  rw [eq]
  exact ⟨rfl, rfl, rfl, fun i h => (head i h).2.1.symm, fun i h => (head i h).2.2.symm⟩

theorem fsFormat_inode (ready : Ready s) {n : Nat} (other : n ≠ 0) :
    (fsFormat s).view.inode n = s.view.inode n := by
  obtain ⟨heap, ib, db, eq⟩ := fsFormat_written ready
  rw [eq]
  exact (formatData_inode ..).trans (if_neg other)

structure Blank (s : WitFs) : Prop where
  sound : Sound s fun _ => False
  noEntry : ∀ e, s.view.ent e = 0
  noSize : (s.view.inode 0).size = 0
  shut : ∀ fd < FS_MAX_OPEN_FILES, (s.openFiles fd).inUse = false

/-- A mounted state on a formatted disk, whatever the heap, the buffers and the descriptors
are. -/
theorem Formatted.sound {t : WitFs} (h : Formatted s) (disk : t.disk = s.disk) (pending : t.heap.pending = [])
    (on : t.initialized = true) (superblock : t.superblock = formatSuperblock)
    (inodes : ∀ i < 512, t.inodeBitmap.bytes i = s.disk.data (512 + i))
    (blocks : ∀ i < 512, t.dataBitmap.bytes i = s.disk.data (1024 + i)) :
    (Sound t fun _ => False) ∧ ∀ e, t.view.ent e = 0 := by
  have view : t.view = s.view := by
    rw [WitFs.view, disk]
    rfl
  have none : ∀ e, t.view.ent e = 0 := by
    intro e
    rw [view, View.ent, (blk_word s.view _).mp (h.rootEmpty _)]
    simp
  have ib := h.inodeBitmap.congr inodes
  have db := h.dataBitmap.congr blocks
  have cons := consistent_empty h.rootDir h.rootEmpty ib db
  rw [← view] at cons
  refine ⟨⟨⟨by rw [disk]; exact h.ready.disk, pending⟩, on, ⟨cons, ?_, ?_⟩, ?_⟩, none⟩
  · rw [superblock, ib.clearBits (by decide) (by decide)]
    rfl
  · rw [superblock, db.clearBits (by decide) (by decide)]
    rfl
  · intro n own root
    exfalso
    rcases own with zero | ⟨e, eq⟩
    · exact root zero
    · exact root (eq ▸ none e)

theorem Formatted.blank {t : WitFs} (h : Formatted s) (disk : t.disk = s.disk) (pending : t.heap.pending = [])
    (on : t.initialized = true) (superblock : t.superblock = formatSuperblock)
    (inodes : ∀ i < 512, t.inodeBitmap.bytes i = s.disk.data (512 + i))
    (blocks : ∀ i < 512, t.dataBitmap.bytes i = s.disk.data (1024 + i))
    (shut : ∀ fd < FS_MAX_OPEN_FILES, (t.openFiles fd).inUse = false) : Blank t := by
  obtain ⟨sound, none⟩ := h.sound disk pending on superblock inodes blocks
  refine ⟨sound, none, ?_, shut⟩
  rw [WitFs.view, disk]
  exact h.rootSize

/-- `t` is `s` mounted: superblock and bitmaps are read from the disk, into two new
buffers, and no file is open. -/
structure Mounts (s t : WitFs) : Prop where
  disk : t.disk = s.disk
  pending : t.heap.pending = []
  ticks : t.ticks = s.ticks
  on : t.initialized = true
  superblock : t.superblock = Superblock.ofBytes s.disk.data
  inodeBitmap : ∀ i < 512, t.inodeBitmap.bytes i = s.disk.data (512 + i)
  dataBitmap : ∀ i < 512, t.dataBitmap.bytes i = s.disk.data (1024 + i)
  shut : ∀ fd < FS_MAX_OPEN_FILES, (t.openFiles fd).inUse = false

theorem loadSuperblock_mounts (ready : Ready s)
    (magic : (Superblock.ofBytes s.disk.data).magic = FS_MAGIC) :
    Mounts s (loadSuperblock s) ∧ (loadSuperblock s).heap = s.heap ∧
      (loadSuperblock s).inodeBitmap.ptr = s.inodeBitmap.ptr ∧
      (loadSuperblock s).dataBitmap.ptr = s.dataBitmap.ptr := by
  obtain ⟨heap, p, grant, pending, -, back⟩ := kmalloc_of_ready ready
  have ready' : Ready { s with heap := heap } := ⟨ready.disk, pending⟩
  have superblock : Superblock.ofBytes (readBlock { s with heap := heap } FS_SUPERBLOCK_BLOCK heap.junk) =
      Superblock.ofBytes s.disk.data := by
    refine superblock_ofBytes_congr fun i hi => ?_
    rw [readBlock_of_ready ready' (by decide) heap.junk i (by omega), FS_SUPERBLOCK_BLOCK, Nat.zero_mul,
      Nat.zero_add]
  rw [loadSuperblock, grant]
  simp only [superblock]
  rw [back _ rfl, if_neg (not_not.mpr magic)]
  have loaded : Ready { s with superblock := Superblock.ofBytes s.disk.data } := ⟨ready.disk, ready.heap⟩
  refine ⟨⟨rfl, ready.heap, rfl, rfl, rfl, ?_, ?_, fun fd hfd => ?_⟩, rfl, rfl, rfl⟩
  · exact fun i hi => readBlock_of_ready loaded (by decide : FS_INODE_BITMAP_BLOCK < 2048) _ i hi
  · exact fun i hi => readBlock_of_ready loaded (by decide : FS_DATA_BITMAP_BLOCK < 2048) _ i hi
  · simp [loadBitmaps, hfd]

/-- Mounting a disk that carries the magic number takes two blocks of the heap. -/
theorem fsInit_mounts (ready : Ready s) (magic : (Superblock.ofBytes s.disk.data).magic = FS_MAGIC) :
    Mounts s (fsInit s) ∧ ∃ p q, (fsInit s).heap.live = q :: p :: s.heap.live ∧
      (fsInit s).inodeBitmap.ptr = some p ∧ (fsInit s).dataBitmap.ptr = some q := by
  obtain ⟨heap, p, grant, pending, live⟩ := allocBitmap_of_ready ready
  have ready1 : Ready { s with heap := heap, inodeBitmap := ⟨some p, heap.junk⟩ } := ⟨ready.disk, pending⟩
  obtain ⟨heap', q, grant', pending', live'⟩ := allocBitmap_of_ready ready1
  have eq : fsInit s = loadSuperblock { s with
      heap := heap'
      inodeBitmap := ⟨some p, heap.junk⟩
      dataBitmap := ⟨some q, heap'.junk⟩ } := by
    rw [fsInit, ready.disk, Bool.not_true, if_neg Bool.false_ne_true]
    simp only [grant]
    erw [grant']
    simp only [Option.isNone_some, Bool.false_eq_true, or_self, if_false]
  obtain ⟨mounts, same, inodePtr, dataPtr⟩ := loadSuperblock_mounts (s := { s with
    heap := heap'
    inodeBitmap := ⟨some p, heap.junk⟩
    dataBitmap := ⟨some q, heap'.junk⟩ }) ⟨ready.disk, pending'⟩ magic
  rw [eq]
  refine ⟨⟨mounts.disk, mounts.pending, mounts.ticks, mounts.on, mounts.superblock, mounts.inodeBitmap,
    mounts.dataBitmap, mounts.shut⟩, p, q, ?_, inodePtr, dataPtr⟩
  rw [same]
  exact live'.trans (congrArg _ live)

theorem Formatted.onDisk (h : Formatted s) : Superblock.ofBytes s.disk.data = formatSuperblock := by
  rw [← superblock_ofBytes_bytes formatSuperblock]
  exact superblock_ofBytes_congr fun i hi => h.superblock i (by omega)

theorem fsInit_blank (h : Formatted s) : Blank (fsInit s) := by
  have magic : (Superblock.ofBytes s.disk.data).magic = FS_MAGIC := by rw [h.onDisk]; rfl
  obtain ⟨mounts, -⟩ := fsInit_mounts h.ready magic
  exact h.blank mounts.disk mounts.pending mounts.on (mounts.superblock.trans h.onDisk) mounts.inodeBitmap
    mounts.dataBitmap mounts.shut

theorem mount_blank (ready : Ready s) : Blank (fsInit (fsFormat s)) := fsInit_blank (fsFormat_formatted ready)

end Format

end Wittche.Fs
