import Wittche.Fs.Namespace
import Wittche.Fs.Remount

/-! `fs_create` that fails. The rollback gives back the inode number, and for a directory its
block, and a directory entry is never left half made: a new block of the root directory is
empty, so the entry goes into it. -/

namespace Wittche.Fs
open Bytes CString Execution

structure SameInodes (s t : WitFs) : Prop where
  bitmap : t.inodeBitmap = s.inodeBitmap
  free : t.superblock.freeInodes = s.superblock.freeInodes

structure SameBlocks (s t : WitFs) : Prop where
  bitmap : t.dataBitmap = s.dataBitmap
  free : t.superblock.freeBlocks = s.superblock.freeBlocks

structure SameBooks (s t : WitFs) : Prop where
  inodes : SameInodes s t
  blocks : SameBlocks s t

section Books

variable {s t u : WitFs}

theorem SameInodes.trans (h : SameInodes s t) (h' : SameInodes t u) : SameInodes s u :=
  ⟨h'.bitmap.trans h.bitmap, h'.free.trans h.free⟩

theorem SameBlocks.trans (h : SameBlocks s t) (h' : SameBlocks t u) : SameBlocks s u :=
  ⟨h'.bitmap.trans h.bitmap, h'.free.trans h.free⟩

theorem SameBooks.refl (s : WitFs) : SameBooks s s := ⟨⟨rfl, rfl⟩, ⟨rfl, rfl⟩⟩

theorem SameBooks.trans (h : SameBooks s t) (h' : SameBooks t u) : SameBooks s u :=
  ⟨h.inodes.trans h'.inodes, h.blocks.trans h'.blocks⟩

theorem writeBlock_books (s : WitFs) (b : Nat) (data : Buffer) : SameBooks s (writeBlock s b data) :=
  ⟨⟨rfl, rfl⟩, ⟨rfl, rfl⟩⟩

theorem kfree_books (s : WitFs) (p : Nat) : SameBooks s (kfree s p) := ⟨⟨rfl, rfl⟩, ⟨rfl, rfl⟩⟩

theorem kmalloc_books (s : WitFs) : SameBooks s (kmalloc s).1 := by
  rw [kmalloc]
  split <;> exact ⟨⟨rfl, rfl⟩, ⟨rfl, rfl⟩⟩

theorem readInode_books (s : WitFs) (n : Nat) : SameBooks s (readInode s n).1 := by
  rw [readInode]
  split
  next => exact .refl s
  next =>
    have books := kmalloc_books s
    revert books
    generalize kmalloc s = r
    obtain ⟨t, _ | p⟩ := r
    · exact id
    · exact fun books => books.trans (kfree_books t p)

theorem writeInode_books (s : WitFs) (n : Nat) (x : Inode) : SameBooks s (writeInode s n x).1 := by
  rw [writeInode]
  split
  next => exact .refl s
  next =>
    have books := kmalloc_books s
    revert books
    generalize kmalloc s = r
    obtain ⟨t, _ | p⟩ := r
    · exact id
    · exact fun books => books.trans ((writeBlock_books t _ _).trans (kfree_books _ p))

theorem findUnused_zero : findUnused (fun _ => 0) = some 0 := by decide

theorem dirAddFrom_failed (dirNum : Nat) (name : CStr) (inode n k : Nat) (s : WitFs) (dir : Inode) (data : Buffer)
    (failed : (dirAddFrom dirNum name inode n k s dir data).2 < 0) :
    SameBooks s (dirAddFrom dirNum name inode n k s dir data).1 := by
  induction n generalizing k s dir data with
  | zero => exact .refl s
  | succ n ih =>
    rw [dirAddFrom] at failed ⊢
    rw [ensureBlock] at failed ⊢
    by_cases missing : dir.block k = 0
    · rw [if_pos missing] at failed ⊢
      cases alloc : allocDataBlock s with
      | mk t found =>
        rw [alloc] at failed
        cases found with
        | none =>
          rw [allocDataBlock_none alloc]
          exact .refl s
        | some b =>
          -- The new block is empty and takes the entry.
          dsimp only at failed
          rw [findUnused_zero] at failed
          exact absurd failed (by simp)
    · rw [if_neg missing] at failed ⊢
      dsimp only at failed ⊢
      cases found : findUnused (readBlock s (dataBlockNum (dir.block k)) data) with
      | none =>
        rw [found] at failed
        exact ih _ _ _ _ failed
      | some i =>
        rw [found] at failed
        exact absurd failed (by simp)

theorem dirAddEntry_failed (s : WitFs) (dirNum : Nat) (name : CStr) (inode : Nat)
    (failed : (dirAddEntry s dirNum name inode).2 < 0) : SameBooks s (dirAddEntry s dirNum name inode).1 := by
  have read := readInode_books s dirNum
  rw [dirAddEntry] at failed ⊢
  revert read failed
  generalize readInode s dirNum = r
  obtain ⟨t, _ | dir⟩ := r
  · exact fun _ read => read
  · dsimp only
    split
    next => exact fun _ read => read
    next =>
      have books := kmalloc_books t
      revert books
      generalize kmalloc t = r
      obtain ⟨u, _ | p⟩ := r
      · exact fun books _ read => read.trans books
      · intro books failed read
        exact (read.trans books).trans ((dirAddFrom_failed dirNum name inode _ _ u dir _ failed).trans (kfree_books _ p))

theorem allocDataBlock_inodes (s : WitFs) : SameInodes s (allocDataBlock s).1 := by
  rw [allocDataBlock]
  split <;> exact ⟨rfl, rfl⟩

theorem freeDataBlock_inodes (s : WitFs) (b : Nat) : SameInodes s (freeDataBlock s b) := ⟨rfl, rfl⟩

theorem allocInode_blocks (s : WitFs) : SameBlocks s (allocInode s).1 := by
  rw [allocInode]
  split <;> exact ⟨rfl, rfl⟩

theorem freeInode_blocks (s : WitFs) (n : Nat) : SameBlocks s (freeInode s n) := ⟨rfl, rfl⟩

theorem one_back (a : Word) : a - 1 + 1 = a := by bv_omega

theorem freeInode_undo {n : Nat} (alloc : allocInode s = (t, some n)) (same : SameInodes t u) :
    SameInodes s (freeInode u n) := by
  rw [allocInode] at alloc
  cases found : bitmapFindFree s.inodeBitmap.bytes FS_MAX_INODES with
  | none =>
    rw [found] at alloc
    cases alloc
  | some m =>
    rw [found] at alloc
    obtain ⟨rfl, rfl⟩ : _ = t ∧ m = n := by simpa using alloc
    obtain ⟨-, clear, -⟩ := Bitmap.findClear_some found
    have bitmap := same.bitmap
    have free := same.free
    refine ⟨?_, ?_⟩
    · change { u.inodeBitmap with bytes := bitmapClear u.inodeBitmap.bytes m } = s.inodeBitmap
      rw [bitmap]
      change { s.inodeBitmap with bytes := Bitmap.clear (Bitmap.set s.inodeBitmap.bytes m) m } = s.inodeBitmap
      rw [Bitmap.clear_set (by decide) clear]
    · change u.superblock.freeInodes + 1 = _
      rw [free]
      exact one_back _

theorem freeDataBlock_undo {b : Nat} (alloc : allocDataBlock s = (t, some b)) (same : SameBlocks t u) :
    SameBlocks s (freeDataBlock u b) := by
  rw [allocDataBlock] at alloc
  cases found : bitmapFindFree s.dataBitmap.bytes FS_MAX_DATA_BLOCKS with
  | none =>
    rw [found] at alloc
    cases alloc
  | some m =>
    rw [found] at alloc
    obtain ⟨rfl, rfl⟩ : _ = t ∧ m = b := by simpa using alloc
    obtain ⟨-, clear, -⟩ := Bitmap.findClear_some found
    have bitmap := same.bitmap
    have free := same.free
    refine ⟨?_, ?_⟩
    · change { u.dataBitmap with bytes := bitmapClear u.dataBitmap.bytes m } = s.dataBitmap
      rw [bitmap]
      change { s.dataBitmap with bytes := Bitmap.clear (Bitmap.set s.dataBitmap.bytes m) m } = s.dataBitmap
      rw [Bitmap.clear_set (by decide) clear]
    · change u.superblock.freeBlocks + 1 = _
      rw [free]
      exact one_back _

theorem clearDataBlock_books (s : WitFs) (b : Nat) : SameBooks s (clearDataBlock s b) := by
  rw [clearDataBlock]
  have books := kmalloc_books s
  revert books
  generalize kmalloc s = r
  obtain ⟨t, _ | p⟩ := r
  · exact id
  · exact fun books => books.trans ((writeBlock_books t _ _).trans (kfree_books _ p))

theorem enterInode_failed {name : CStr} {type : Word} {n : Nat} {x : Inode}
    (failed : (enterInode s name type n x).2 = -1) :
    ∃ t, SameBooks s t ∧ (enterInode s name type n x).1 =
      if type = FS_TYPE_DIR ∧ x.block 0 ≠ 0 then freeDataBlock (freeInode t n) (x.block 0).toNat
      else freeInode t n := by
  simp only [enterInode] at failed ⊢
  split at failed
  next minus =>
    rw [if_pos minus]
    exact ⟨_, (writeInode_books s n x).trans (dirAddEntry_failed _ 0 name n minus), rfl⟩
  next => exact absurd failed (show (0 : Int) ≠ -1 by decide)

theorem makeInode_failed {name : CStr} {type : Word} {n : Nat}
    (alloc : allocInode s = (t, some n)) (ready : Ready t) {V : View} {hi hb : Nat → Prop} (books : Books V t hi hb)
    (failed : (makeInode t name type n).2 = -1) : SameBooks s (makeInode t name type n).1 := by
  have taken : SameBlocks s t := by
    have kept := allocInode_blocks s
    rwa [alloc] at kept
  rw [makeInode] at failed ⊢
  by_cases dir : type = FS_TYPE_DIR
  · simp only [if_pos dir] at failed ⊢
    rcases allocDataBlock_spec ready books with ⟨full, -⟩ | ⟨b, t', got, dom, -⟩
    · rw [full]
      exact ⟨freeInode_undo alloc ⟨rfl, rfl⟩, taken.trans (freeInode_blocks t n)⟩
    · rw [got] at failed ⊢
      dsimp only at failed ⊢
      obtain ⟨u, same, eq⟩ := enterInode_failed failed
      have num := setBlock_zero (newInode_block t type) dom.2 0
      rw [if_pos rfl] at num
      have used : ((newInode t type).setBlock 0 (BitVec.ofNat 32 b)).block 0 ≠ 0 := by
        intro zero
        rw [zero] at num
        exact dom.1 num.symm
      rw [if_pos ⟨dir, used⟩, num] at eq
      rw [eq]
      have cleared := (clearDataBlock_books t' b).trans same
      have inodes : SameInodes t t' := by
        have kept := allocDataBlock_inodes t
        rwa [got] at kept
      refine ⟨?_, ?_⟩
      · exact (freeInode_undo alloc (inodes.trans cleared.inodes)).trans (freeDataBlock_inodes _ b)
      · exact taken.trans (freeDataBlock_undo got (cleared.blocks.trans (freeInode_blocks u n)))
  · rw [if_neg dir] at failed ⊢
    obtain ⟨u, same, eq⟩ := enterInode_failed failed
    rw [if_neg fun both => dir both.1] at eq
    rw [eq]
    exact ⟨freeInode_undo alloc same.inodes, taken.trans (same.blocks.trans (freeInode_blocks u n))⟩

theorem fsCreate_failed_books {leaked : Nat → Prop} (sound : Sound s leaked) (path : CStr) (type : Word)
    (failed : (fsCreate s path type).2 = -1) : SameBooks s (fsCreate s path type).1 := by
  rcases fsCreate_cases sound path type with eq | ⟨n, s1, eq, alloc, -, -, quiet, books, -⟩
  · rw [eq]
    exact .refl s
  · rw [eq] at failed ⊢
    exact makeInode_failed alloc (quiet.toKeeps.ready sound.ready) books failed

end Books

/-- Nothing a client can see is different: the bitmaps in memory and on the disk, the counters,
the root directory, the files and the descriptors. -/
structure NoVisibleEffect (s t : WitFs) : Prop where
  inodeBitmap : t.inodeBitmap = s.inodeBitmap
  dataBitmap : t.dataBitmap = s.dataBitmap
  inodesOnDisk : ∀ i < FS_BLOCK_SIZE,
    t.disk.data (FS_INODE_BITMAP_BLOCK * FS_BLOCK_SIZE + i) = s.disk.data (FS_INODE_BITMAP_BLOCK * FS_BLOCK_SIZE + i)
  blocksOnDisk : ∀ i < FS_BLOCK_SIZE,
    t.disk.data (FS_DATA_BITMAP_BLOCK * FS_BLOCK_SIZE + i) = s.disk.data (FS_DATA_BITMAP_BLOCK * FS_BLOCK_SIZE + i)
  freeInodes : t.superblock.freeInodes = s.superblock.freeInodes
  freeBlocks : t.superblock.freeBlocks = s.superblock.freeBlocks
  root : t.view.inode 0 = s.view.inode 0 ∧ t.view.entries = s.view.entries
  files : ∀ n, s.view.Owner n → SameFile s.view t.view n
  descriptors : t.openFiles = s.openFiles

theorem NoVisibleEffect.refl (s : WitFs) : NoVisibleEffect s s :=
  ⟨rfl, rfl, fun _ _ => rfl, fun _ _ => rfl, rfl, rfl, ⟨rfl, rfl⟩, fun n _ => .refl _ n, rfl⟩

section Runs

variable {s : WitFs} {d : Word × Word}

/-- The counters need not be right for a failed `fs_create` to restore them. -/
theorem fsCreate_failed_effect (synced : Synced s) {leaked : Nat → Prop} (sound : Sound (recount d s) leaked)
    (path : CStr) (type : Word) (failed : (fsCreate s path type).2 = -1) :
    NoVisibleEffect s (fsCreate s path type).1 := by
  have synced' : Synced (fsCreate s path type).1 := by
    have kept := ((synced_recount d s).mpr synced).fsCreate sound path type
    rw [fsCreate_recount] at kept
    exact (synced_recount d _).mp kept
  have failed' : (fsCreate (recount d s) path type).2 = -1 := by
    rw [fsCreate_recount]
    exact failed
  have books := fsCreate_failed_books sound path type failed'
  have same : Unchanged (recount d s) (recount d (fsCreate s path type).1) := by
    rcases fsCreate_spec sound path type with ⟨t, eq, same, -⟩ | ⟨t, e, n, eq, -⟩
    · rw [fsCreate_recount] at eq
      rw [(Prod.mk.inj eq).1]
      exact same
    · rw [eq] at failed'
      exact absurd failed' (show (0 : Int) ≠ -1 by decide)
  rw [fsCreate_recount] at books
  have inodes : (fsCreate s path type).1.inodeBitmap = s.inodeBitmap := books.inodes.bitmap
  have blocks : (fsCreate s path type).1.dataBitmap = s.dataBitmap := books.blocks.bitmap
  refine ⟨inodes, blocks, fun i hi => ?_, fun i hi => ?_, ?_, ?_, ⟨?_, ?_⟩, same.same, same.openFiles⟩
  · refine (synced'.inodeBitmap i hi).trans ?_
    rw [inodes]
    exact (synced.inodeBitmap i hi).symm
  · refine (synced'.dataBitmap i hi).trans ?_
    rw [blocks]
    exact (synced.dataBitmap i hi).symm
  · exact (BitVec.add_left_inj d.1).mp books.inodes.free
  · exact (BitVec.add_left_inj d.2).mp books.blocks.free
  · exact (same.same 0 (owner_root _)).inode
  · exact (same.same 0 (owner_root _)).entries

end Runs

/-- In every state of a run, formatting and mounting included, an `fs_create` that fails has
no visible effect, whatever the path and the type. -/
theorem failed_create_invisible (s0 s : WitFs) (ops : List VolumeOp) (path : CStr) (type : Word) (ready : Ready s0)
    (run : Exec SeparateVolume WitFs.volumeStep (mounted s0) ops s) (failed : (fsCreate s path type).2 = -1) :
    NoVisibleEffect s (fsCreate s path type).1 := by
  obtain ⟨d, intact, -⟩ := (mounted_intact ready).run run
  exact fsCreate_failed_effect intact.synced intact.tidy.sound path type failed

/-- A name that exists. -/
theorem failed_create_invisible_again :
    NoVisibleEffect ((mounted powerOn).volumeStep (.call (.fsCreate pathA FS_TYPE_FILE)))
      (fsCreate ((mounted powerOn).volumeStep (.call (.fsCreate pathA FS_TYPE_FILE))) pathA FS_TYPE_DIR).1 :=
  failed_create_invisible powerOn _ [.call (.fsCreate pathA FS_TYPE_FILE)] pathA FS_TYPE_DIR ⟨rfl, rfl⟩
    (.cons (show NonRoot pathA by decide) (.nil _)) (by decide +kernel)

end Wittche.Fs
