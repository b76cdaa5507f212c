import Wittche.Fs.Layout

/-! The files on a disk, without their place on it.
A view is the inode table and the contents of the data blocks. The superblock and
the bitmap blocks are outside it, and a write to a slot, to a data block or to a
bitmap block is one update of the view or none. Inodes are those whose slots lie in
the table region; further slots share bytes with the data blocks. -/

namespace Wittche.Fs
open Bytes

structure View where
  inode : Nat → Inode
  block : Nat → Buffer

def cut (b : Buffer) : Buffer := fun i => if i < 512 then b i else 0

def view (data : Buffer) : View where
  inode n := if n < TABLE_INODES then inodeAt data n else Inode.zero
  block b := cut fun i => data (dataStart b + i)

def WitFs.view (s : WitFs) : View := Fs.view s.disk.data

def View.setInode (V : View) (n : Nat) (x : Inode) : View :=
  { V with inode := Function.update V.inode n x }

def View.setBlock (V : View) (b : Nat) (data : Buffer) : View :=
  { V with block := Function.update V.block b (cut data) }

theorem cut_apply {b : Buffer} {i : Nat} (h : i < 512) : cut b i = b i := if_pos h

theorem cut_congr {b c : Buffer} (h : ∀ i < 512, b i = c i) : cut b = cut c := by
  funext i
  simp only [cut]
  split
  next inside => exact h i inside
  next => rfl

@[simp] theorem setInode_inode (V : View) (n m : Nat) (x : Inode) :
    (V.setInode n x).inode m = if m = n then x else V.inode m := Function.update_apply ..

@[simp] theorem setInode_block (V : View) (n : Nat) (x : Inode) : (V.setInode n x).block = V.block :=
  rfl

@[simp] theorem setBlock_inode (V : View) (b : Nat) (data : Buffer) :
    (V.setBlock b data).inode = V.inode := rfl

@[simp] theorem setBlock_block (V : View) (b c : Nat) (data : Buffer) :
    (V.setBlock b data).block c = if c = b then cut data else V.block c := Function.update_apply ..

theorem table_inodes : TABLE_INODES = 384 := by decide

theorem slot_below_data {n : Nat} (h : n < TABLE_INODES) : slotStart n + 80 ≤ 67 * 512 := by
  rw [table_inodes] at h
  have block : n / 6 < 64 := by omega
  have rn := Nat.mod_lt n (show 0 < 6 by decide)
  rw [slotStart_eq]
  omega

theorem slot_above_bitmaps (n : Nat) : 3 * 512 ≤ slotStart n := by
  have rn := Nat.mod_lt n (show 0 < 6 by decide)
  rw [slotStart_eq]
  omega

theorem dataStart_eq (b : Nat) : dataStart b = (67 + b) * 512 := rfl

theorem view_writeSlot (data : Buffer) {n : Nat} (h : n < TABLE_INODES) (x : Inode) :
    view (copy data (slotStart n) x.bytes SIZEOF_INODE) = (view data).setInode n x := by
  have low := slot_below_data h
  have size : SIZEOF_INODE = 80 := rfl
  simp only [view, View.setInode, View.mk.injEq]
  constructor
  · funext m
    rw [Function.update_apply, inodeAt_writeSlot]
    by_cases same : m = n
    · simp [same, h]
    · simp [same]
  · funext b
    refine cut_congr fun i _ => copy_outside ?_
    rw [dataStart_eq, size]
    omega

theorem view_writeData (data : Buffer) (b : Nat) (buffer : Buffer) :
    view (copy data (dataStart b) buffer 512) = (view data).setBlock b buffer := by
  simp only [view, View.setBlock, View.mk.injEq]
  constructor
  · funext n
    split
    next h =>
      have low := slot_below_data h
      apply ofBytes_congr
      intro i hi
      simp only [SIZEOF_INODE, FS_DIRECT_BLOCKS] at hi
      refine copy_outside ?_
      rw [dataStart_eq]
      omega
    next => rfl
  · funext c
    rw [Function.update_apply]
    split
    next same =>
      subst same
      refine cut_congr fun i hi => ?_
      rw [copy_inside (by omega), Nat.add_sub_cancel_left]
    next other =>
      refine cut_congr fun i hi => copy_outside ?_
      simp only [dataStart_eq]
      omega

theorem view_writeHead (data : Buffer) {b : Nat} (h : b < 3) (buffer : Buffer) :
    view (copy data (b * 512) buffer 512) = view data := by
  simp only [view, View.mk.injEq]
  constructor
  · funext n
    have high := slot_above_bitmaps n
    split
    · apply ofBytes_congr
      intro i _
      exact copy_outside (by omega)
    · rfl
  · funext c
    refine cut_congr fun i _ => copy_outside ?_
    rw [dataStart_eq]
    omega

/-- What no access to the disk or to the bitmaps changes. -/
structure Keeps (s t : WitFs) : Prop where
  mounted : t.disk.initialized = s.disk.initialized
  heap : t.heap = s.heap
  openFiles : t.openFiles = s.openFiles
  initialized : t.initialized = s.initialized
  ticks : t.ticks = s.ticks

theorem Keeps.refl (s : WitFs) : Keeps s s := ⟨rfl, rfl, rfl, rfl, rfl⟩

theorem Keeps.trans {s t u : WitFs} (h : Keeps s t) (h' : Keeps t u) : Keeps s u :=
  ⟨h'.mounted.trans h.mounted, h'.heap.trans h.heap, h'.openFiles.trans h.openFiles,
    h'.initialized.trans h.initialized, h'.ticks.trans h.ticks⟩

theorem Keeps.ready {s t : WitFs} (h : Keeps s t) (ready : Ready s) : Ready t :=
  ⟨h.mounted.trans ready.disk, by rw [h.heap]; exact ready.heap⟩

theorem Keeps.restore {s t : WitFs} {heap : FsHeap} (h : Keeps { s with heap := heap } t) :
    Keeps s { t with heap := s.heap } := ⟨h.mounted, rfl, h.openFiles, h.initialized, h.ticks⟩

/-- A write that the bitmaps and the counters in memory do not notice. -/
structure DiskOnly (s t : WitFs) : Prop extends Keeps s t where
  superblock : t.superblock = s.superblock
  inodeBitmap : t.inodeBitmap = s.inodeBitmap
  dataBitmap : t.dataBitmap = s.dataBitmap

theorem setData_diskOnly (s : WitFs) (data : Buffer) : DiskOnly s (s.setData data) :=
  ⟨⟨rfl, rfl, rfl, rfl, rfl⟩, rfl, rfl, rfl⟩

theorem DiskOnly.restore {s t : WitFs} {heap : FsHeap} (h : DiskOnly { s with heap := heap } t) :
    DiskOnly s { t with heap := s.heap } :=
  ⟨h.toKeeps.restore, h.superblock, h.inodeBitmap, h.dataBitmap⟩

theorem DiskOnly.trans {s t u : WitFs} (h : DiskOnly s t) (h' : DiskOnly t u) : DiskOnly s u :=
  ⟨h.toKeeps.trans h'.toKeeps, h'.superblock.trans h.superblock,
    h'.inodeBitmap.trans h.inodeBitmap, h'.dataBitmap.trans h.dataBitmap⟩

section

variable {s : WitFs}

theorem readInode_view (h : Ready s) {n : Nat} (hn : n < TABLE_INODES) :
    readInode s n = (s, some (s.view.inode n)) := by
  have inside : n < FS_MAX_INODES := by
    rw [table_inodes] at hn
    simp only [FS_MAX_INODES]
    omega
  rw [readInode_of_ready h inside, WitFs.view, view]
  simp only [hn, if_true]

theorem writeInode_view (h : Ready s) {n : Nat} (hn : n < TABLE_INODES) (x : Inode) :
    ∃ t, writeInode s n x = (t, 0) ∧ DiskOnly s t ∧ t.view = s.view.setInode n x := by
  have inside : n < FS_MAX_INODES := by
    rw [table_inodes] at hn
    simp only [FS_MAX_INODES]
    omega
  rw [writeInode_of_ready h inside]
  exact ⟨_, rfl, setData_diskOnly s _, view_writeSlot s.disk.data hn x⟩

theorem dataBlockNum_toNat {b : Word} (h : b.toNat < FS_MAX_DATA_BLOCKS) :
    dataBlockNum b = 67 + b.toNat ∧ dataBlockNum b < 2048 := by
  simp only [FS_MAX_DATA_BLOCKS] at h
  simp only [dataBlockNum, FS_DATA_BLOCKS_START]
  omega

theorem readBlock_view (h : Ready s) {b : Word} (hb : b.toNat < FS_MAX_DATA_BLOCKS)
    (buffer : Buffer) : cut (readBlock s (dataBlockNum b) buffer) = s.view.block b.toNat := by
  obtain ⟨num, lt⟩ := dataBlockNum_toNat hb
  refine cut_congr fun i hi => ?_
  rw [readBlock_of_ready h lt buffer i hi, num]
  rfl

theorem writeBlock_view (h : Ready s) {b : Word} (hb : b.toNat < FS_MAX_DATA_BLOCKS)
    (buffer : Buffer) :
    DiskOnly s (writeBlock s (dataBlockNum b) buffer) ∧
      (writeBlock s (dataBlockNum b) buffer).view = s.view.setBlock b.toNat buffer := by
  obtain ⟨num, lt⟩ := dataBlockNum_toNat hb
  rw [writeBlock_of_ready h lt, num]
  exact ⟨setData_diskOnly s _, view_writeData s.disk.data b.toNat buffer⟩

theorem storeInodeBitmap_of_ready (h : Ready s) (bytes : Buffer) (free : Word) :
    Keeps s (storeInodeBitmap s bytes free) ∧
      (storeInodeBitmap s bytes free).view = s.view := by
  have ready : Ready { s with
      inodeBitmap := { s.inodeBitmap with bytes := bytes }
      superblock := { s.superblock with freeInodes := free } } := ⟨h.disk, h.heap⟩
  rw [storeInodeBitmap, writeBlock_of_ready ready (by decide)]
  exact ⟨⟨rfl, rfl, rfl, rfl, rfl⟩, view_writeHead s.disk.data (by decide) bytes⟩

theorem storeDataBitmap_of_ready (h : Ready s) (bytes : Buffer) (free : Word) :
    Keeps s (storeDataBitmap s bytes free) ∧ (storeDataBitmap s bytes free).view = s.view := by
  have ready : Ready { s with
      dataBitmap := { s.dataBitmap with bytes := bytes }
      superblock := { s.superblock with freeBlocks := free } } := ⟨h.disk, h.heap⟩
  rw [storeDataBitmap, writeBlock_of_ready ready (by decide)]
  exact ⟨⟨rfl, rfl, rfl, rfl, rfl⟩, view_writeHead s.disk.data (by decide) bytes⟩

end

end Wittche.Fs
