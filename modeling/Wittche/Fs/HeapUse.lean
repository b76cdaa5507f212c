import Wittche.Fs.Runs

/-! The heap blocks `fs.c` holds between two calls, for any outcome of the requests it
makes. Every function gives back the buffers it asked for; the bitmap buffers belong to
`fs_format`, which takes them once, and to `fs_init`, which takes new ones each time. -/

namespace Wittche.Fs
open Bytes CString

/-- The blocks in use, the two bitmap pointers and the RAM disk are as before. -/
structure Balanced (s t : WitFs) : Prop where
  live : t.heap.live = s.heap.live
  inodePtr : t.inodeBitmap.ptr = s.inodeBitmap.ptr
  dataPtr : t.dataBitmap.ptr = s.dataBitmap.ptr
  disk : t.disk.initialized = s.disk.initialized

/-- `t` holds one block more than `s`. -/
structure Granted (s t : WitFs) (p : Nat) : Prop where
  live : t.heap.live = p :: s.heap.live
  fresh : p ∉ s.heap.live
  inodeBitmap : t.inodeBitmap = s.inodeBitmap
  dataBitmap : t.dataBitmap = s.dataBitmap
  disk : t.disk = s.disk

theorem Balanced.refl (s : WitFs) : Balanced s s := ⟨rfl, rfl, rfl, rfl⟩

theorem Balanced.trans {s t u : WitFs} (h : Balanced s t) (h' : Balanced t u) : Balanced s u :=
  ⟨h'.live.trans h.live, h'.inodePtr.trans h.inodePtr, h'.dataPtr.trans h.dataPtr, h'.disk.trans h.disk⟩

theorem fresh_above (live : List Nat) : ∀ p ∈ live, p < live.foldr max 0 + 1 := by
  induction live with
  | nil => simp
  | cons q live ih =>
    intro p mem
    rw [List.foldr_cons]
    rcases List.mem_cons.mp mem with rfl | old
    · omega
    · have below := ih p old
      omega

theorem fresh_not_live (h : FsHeap) : h.fresh ∉ h.live := fun mem =>
  Nat.lt_irrefl _ (fresh_above h.live _ mem)

section Requests

variable {s t u : WitFs}

theorem kmalloc_cases (s : WitFs) : (∃ t, kmalloc s = (t, none) ∧ Balanced s t) ∨
    ∃ t p, kmalloc s = (t, some p) ∧ Granted s t p := by
  rw [kmalloc]
  split
  next => exact Or.inr ⟨_, _, rfl, rfl, fresh_not_live _, rfl, rfl, rfl⟩
  next => exact Or.inr ⟨_, _, rfl, rfl, fresh_not_live _, rfl, rfl, rfl⟩
  next => exact Or.inl ⟨_, rfl, rfl, rfl, rfl, rfl⟩

theorem Granted.free {p : Nat} (grant : Granted s t p) (used : Balanced t u) : Balanced s (kfree u p) := by
  refine ⟨?_, ?_, ?_, ?_⟩
  · rw [kfree, used.live, grant.live, List.erase_cons_head]
  · exact used.inodePtr.trans (congrArg _ grant.inodeBitmap)
  · exact used.dataPtr.trans (congrArg _ grant.dataBitmap)
  · exact used.disk.trans (congrArg _ grant.disk)

theorem writeBlock_balanced (s : WitFs) (b : Nat) (data : Buffer) : Balanced s (writeBlock s b data) := by
  refine ⟨rfl, rfl, rfl, ?_⟩
  rw [writeBlock, ramdiskWriteBlock]
  split
  next => rfl
  next =>
    split
    next => rfl
    next => rfl

theorem readInode_balanced (s : WitFs) (n : Nat) : Balanced s (readInode s n).1 := by
  rw [readInode]
  split
  next => exact .refl s
  next =>
    rcases kmalloc_cases s with ⟨t, eq, same⟩ | ⟨t, p, eq, grant⟩
    · rw [eq]
      exact same
    · rw [eq]
      exact grant.free (.refl t)

theorem writeInode_balanced (s : WitFs) (n : Nat) (x : Inode) : Balanced s (writeInode s n x).1 := by
  rw [writeInode]
  split
  next => exact .refl s
  next =>
    rcases kmalloc_cases s with ⟨t, eq, same⟩ | ⟨t, p, eq, grant⟩
    · rw [eq]
      exact same
    · rw [eq]
      exact grant.free (writeBlock_balanced t _ _)

theorem storeInodeBitmap_balanced (s : WitFs) (bytes : Buffer) (free : Word) :
    Balanced s (storeInodeBitmap s bytes free) :=
  have stored := writeBlock_balanced { s with
    inodeBitmap := { s.inodeBitmap with bytes := bytes }
    superblock := { s.superblock with freeInodes := free } } FS_INODE_BITMAP_BLOCK bytes
  ⟨stored.live, stored.inodePtr, stored.dataPtr, stored.disk⟩

theorem storeDataBitmap_balanced (s : WitFs) (bytes : Buffer) (free : Word) :
    Balanced s (storeDataBitmap s bytes free) :=
  have stored := writeBlock_balanced { s with
    dataBitmap := { s.dataBitmap with bytes := bytes }
    superblock := { s.superblock with freeBlocks := free } } FS_DATA_BITMAP_BLOCK bytes
  ⟨stored.live, stored.inodePtr, stored.dataPtr, stored.disk⟩

theorem allocInode_balanced (s : WitFs) : Balanced s (allocInode s).1 := by
  rw [allocInode]
  split
  next => exact .refl s
  next => exact storeInodeBitmap_balanced s _ _

theorem allocDataBlock_balanced (s : WitFs) : Balanced s (allocDataBlock s).1 := by
  rw [allocDataBlock]
  split
  next => exact .refl s
  next => exact storeDataBitmap_balanced s _ _

theorem freeInode_balanced (s : WitFs) (n : Nat) : Balanced s (freeInode s n) :=
  storeInodeBitmap_balanced s _ _

theorem freeDataBlock_balanced (s : WitFs) (b : Nat) : Balanced s (freeDataBlock s b) :=
  storeDataBitmap_balanced s _ _

end Requests

section Directory

theorem pathLookup_balanced (s : WitFs) (path : CStr) : Balanced s (pathLookup s path).1 := by
  have read := readInode_balanced s 0
  rw [pathLookup]
  split
  next => exact .refl s
  next =>
    generalize readInode s 0 = r at read
    obtain ⟨s', _ | root⟩ := r
    · exact read
    · dsimp only at read ⊢
      split
      next => exact read
      next =>
        rcases kmalloc_cases s' with ⟨t, eq, same⟩ | ⟨t, p, eq, grant⟩
        · rw [eq]
          exact read.trans same
        · rw [eq]
          exact read.trans (grant.free (.refl t))

theorem ensureBlock_balanced (s : WitFs) (x : Inode) (k : Nat) (data : Buffer) :
    Balanced s (ensureBlock s x k data).1 := by
  have alloc := allocDataBlock_balanced s
  rw [ensureBlock]
  split
  next =>
    generalize allocDataBlock s = r at alloc
    obtain ⟨s', _ | b⟩ := r
    · exact alloc
    · exact alloc
  next => exact .refl s

theorem dirAddFrom_balanced (dirNum : Nat) (name : CStr) (inode : Nat) (n k : Nat) (s : WitFs) (dir : Inode)
    (data : Buffer) : Balanced s (dirAddFrom dirNum name inode n k s dir data).1 := by
  induction n generalizing k s dir data with
  | zero => exact .refl s
  | succ n ih =>
    have block := ensureBlock_balanced s dir k data
    rw [dirAddFrom]
    generalize ensureBlock s dir k data = r at block
    obtain ⟨s', _ | ⟨dir', data'⟩⟩ := r
    · exact block
    · dsimp only at block ⊢
      split
      next =>
        exact (block.trans (writeBlock_balanced s' _ _)).trans (writeInode_balanced _ _ _)
      next => exact block.trans (ih (k + 1) s' dir' data')

theorem dirRemoveFrom_balanced (dirNum : Nat) (name : CStr) (n k : Nat) (s : WitFs) (dir : Inode)
    (data : Buffer) : Balanced s (dirRemoveFrom dirNum name n k s dir data).1 := by
  induction n generalizing k s dir data with
  | zero => exact .refl s
  | succ n ih =>
    rw [dirRemoveFrom]
    split
    next => exact .refl s
    next =>
      dsimp only
      split
      next => exact (writeBlock_balanced s _ _).trans (writeInode_balanced _ _ _)
      next => exact ih (k + 1) s dir _

theorem dirAddEntry_balanced (s : WitFs) (dirNum : Nat) (name : CStr) (inode : Nat) :
    Balanced s (dirAddEntry s dirNum name inode).1 := by
  have read := readInode_balanced s dirNum
  rw [dirAddEntry]
  generalize readInode s dirNum = r at read
  obtain ⟨s', _ | dir⟩ := r
  · exact read
  · dsimp only at read ⊢
    split
    next => exact read
    next =>
      rcases kmalloc_cases s' with ⟨t, eq, same⟩ | ⟨t, p, eq, grant⟩
      · rw [eq]
        exact read.trans same
      · rw [eq]
        exact read.trans (grant.free (dirAddFrom_balanced ..))

theorem dirRemoveEntry_balanced (s : WitFs) (dirNum : Nat) (name : CStr) :
    Balanced s (dirRemoveEntry s dirNum name).1 := by
  have read := readInode_balanced s dirNum
  rw [dirRemoveEntry]
  generalize readInode s dirNum = r at read
  obtain ⟨s', _ | dir⟩ := r
  · exact read
  · dsimp only at read ⊢
    rcases kmalloc_cases s' with ⟨t, eq, same⟩ | ⟨t, p, eq, grant⟩
    · rw [eq]
      exact read.trans same
    · rw [eq]
      exact read.trans (grant.free (dirRemoveFrom_balanced ..))

end Directory

section Files

theorem clearDataBlock_balanced (s : WitFs) (b : Nat) : Balanced s (clearDataBlock s b) := by
  rw [clearDataBlock]
  rcases kmalloc_cases s with ⟨t, eq, same⟩ | ⟨t, p, eq, grant⟩
  · rw [eq]
    exact same
  · rw [eq]
    exact grant.free (writeBlock_balanced t _ _)

theorem enterInode_balanced (s : WitFs) (name : CStr) (type : Word) (n : Nat) (x : Inode) :
    Balanced s (enterInode s name type n x).1 := by
  have entered := (writeInode_balanced s n x).trans (dirAddEntry_balanced (writeInode s n x).1 0 name n)
  rw [enterInode]
  dsimp only
  split
  next =>
    have freed := entered.trans (freeInode_balanced _ n)
    split
    next => exact freed.trans (freeDataBlock_balanced ..)
    next => exact freed
  next => exact entered

theorem makeInode_balanced (s : WitFs) (name : CStr) (type : Word) (n : Nat) :
    Balanced s (makeInode s name type n).1 := by
  have alloc := allocDataBlock_balanced s
  rw [makeInode]
  split
  next =>
    generalize allocDataBlock s = r at alloc
    obtain ⟨s', _ | b⟩ := r
    · exact alloc.trans (freeInode_balanced s' n)
    · exact (alloc.trans (clearDataBlock_balanced s' b)).trans (enterInode_balanced ..)
  next => exact enterInode_balanced ..

theorem fsCreate_balanced (s : WitFs) (path : CStr) (type : Word) : Balanced s (fsCreate s path type).1 := by
  have looked := pathLookup_balanced s path
  rw [fsCreate]
  split
  next => exact .refl s
  next =>
    generalize pathLookup s path = r at looked
    obtain ⟨s', _ | m⟩ := r
    · have alloc := allocInode_balanced s'
      dsimp only at looked ⊢
      generalize allocInode s' = r at alloc
      obtain ⟨s'', _ | n⟩ := r
      · exact looked.trans alloc
      · exact (looked.trans alloc).trans (makeInode_balanced ..)
    · exact looked

theorem freeBlocksFrom_balanced (x : Inode) (n k : Nat) (s : WitFs) : Balanced s (freeBlocksFrom x n k s) := by
  induction n generalizing k s with
  | zero => exact .refl s
  | succ n ih =>
    rw [freeBlocksFrom]
    split
    next => exact .refl s
    next => exact (freeDataBlock_balanced ..).trans (ih (k + 1) _)

theorem fsUnlink_balanced (s : WitFs) (path : CStr) : Balanced s (fsUnlink s path).1 := by
  have looked := pathLookup_balanced s path
  rw [fsUnlink]
  split
  next => exact .refl s
  next =>
    generalize pathLookup s path = r at looked
    obtain ⟨s', _ | n⟩ := r
    · exact looked
    · have read := readInode_balanced s' n
      dsimp only at looked ⊢
      generalize readInode s' n = r at read
      obtain ⟨s'', _ | x⟩ := r
      · exact looked.trans read
      · have freed := (freeBlocksFrom_balanced x FS_DIRECT_BLOCKS 0 s'').trans
          (freeInode_balanced _ n)
        exact ((looked.trans read).trans freed).trans (dirRemoveEntry_balanced ..)

theorem takeDescriptor_balanced (s : WitFs) (n : Nat) (flags : Word) :
    Balanced s (takeDescriptor s n flags).1 := by
  rw [takeDescriptor]
  split
  next => exact .refl s
  next => exact ⟨rfl, rfl, rfl, rfl⟩

theorem fsOpen_balanced (s : WitFs) (path : CStr) (flags : Word) : Balanced s (fsOpen s path flags).1 := by
  have looked := pathLookup_balanced s path
  rw [fsOpen]
  split
  next => exact .refl s
  next =>
    generalize pathLookup s path = r at looked
    obtain ⟨s', _ | n⟩ := r
    · have made := looked.trans (fsCreate_balanced s' path FS_TYPE_FILE)
      dsimp only at looked ⊢
      split
      next =>
        split
        next => exact made
        next =>
          have again := made.trans (pathLookup_balanced _ path)
          generalize pathLookup (fsCreate s' path FS_TYPE_FILE).1 path = r at again
          obtain ⟨s'', _ | n⟩ := r
          · exact again
          · exact again.trans (takeDescriptor_balanced ..)
      next => exact looked
    · exact looked.trans (takeDescriptor_balanced ..)

theorem fsClose_balanced (s : WitFs) (fd : Int) : Balanced s (fsClose s fd).1 := by
  rw [fsClose]
  split
  next => exact .refl s
  next => exact ⟨rfl, rfl, rfl, rfl⟩

theorem readFrom_balanced (fd : Nat) (x : Inode) (size turns : Nat) (s : WitFs) (data : Buffer)
    (done : List Byte) : Balanced s (readFrom fd x size turns s data done).1 := by
  induction turns generalizing s data done with
  | zero => exact .refl s
  | succ turns ih =>
    rw [readFrom]
    split
    next =>
      dsimp only
      split
      next => exact .refl s
      next =>
        have moved : Balanced s (advance s fd (chunk (s.openFiles fd).position (size - done.length))) :=
          ⟨rfl, rfl, rfl, rfl⟩
        exact moved.trans (ih ..)
    next => exact .refl s

theorem fsRead_balanced (s : WitFs) (fd : Int) (size : Nat) : Balanced s (fsRead s fd size).1 := by
  have read := readInode_balanced s (s.openFiles fd.toNat).inode
  rw [fsRead]
  split
  next => exact .refl s
  next =>
    split
    next => exact .refl s
    next =>
      generalize readInode s (s.openFiles fd.toNat).inode = r at read
      obtain ⟨s', _ | x⟩ := r
      · exact read
      · dsimp only at read ⊢
        split
        next => exact read
        next =>
          rcases kmalloc_cases s' with ⟨t, eq, same⟩ | ⟨t, p, eq, grant⟩
          · rw [eq]
            exact read.trans same
          · rw [eq]
            exact read.trans (grant.free (readFrom_balanced ..))

theorem writeChunk_balanced (fd : Nat) (buf : Buffer) (s : WitFs) (x : Inode) (data : Buffer)
    (done toWrite : Nat) : Balanced s (writeChunk fd buf s x data done toWrite).1 :=
  have wrote := writeBlock_balanced s (dataBlockNum (x.block ((s.openFiles fd).position / FS_BLOCK_SIZE)))
    (copy data ((s.openFiles fd).position % FS_BLOCK_SIZE) (fun i => buf (done + i)) toWrite)
  ⟨wrote.live, wrote.inodePtr, wrote.dataPtr, wrote.disk⟩

theorem writeFrom_balanced (fd : Nat) (buf : Buffer) (size turns : Nat) (s : WitFs) (x : Inode)
    (data : Buffer) (done : Nat) : Balanced s (writeFrom fd buf size turns s x data done).1 := by
  induction turns generalizing s x data done with
  | zero => exact .refl s
  | succ turns ih =>
    rw [writeFrom]
    split
    next =>
      have block := ensureBlock_balanced s x ((s.openFiles fd).position / FS_BLOCK_SIZE) data
      dsimp only
      split
      next => exact .refl s
      next =>
        generalize ensureBlock s x ((s.openFiles fd).position / FS_BLOCK_SIZE) data = r at block
        obtain ⟨s', _ | ⟨x', data'⟩⟩ := r
        · exact block
        · exact (block.trans (writeChunk_balanced ..)).trans (ih ..)
    next => exact .refl s

theorem fsWrite_balanced (s : WitFs) (fd : Int) (buf : Buffer) (size : Nat) :
    Balanced s (fsWrite s fd buf size).1 := by
  have read := readInode_balanced s (s.openFiles fd.toNat).inode
  rw [fsWrite]
  split
  next => exact .refl s
  next =>
    split
    next => exact .refl s
    next =>
      generalize readInode s (s.openFiles fd.toNat).inode = r at read
      obtain ⟨s', _ | x⟩ := r
      · exact read
      · dsimp only at read ⊢
        rcases kmalloc_cases s' with ⟨t, eq, same⟩ | ⟨t, p, eq, grant⟩
        · rw [eq]
          exact read.trans same
        · rw [eq]
          have wrote := read.trans (grant.free (writeFrom_balanced fd.toNat buf size (FS_DIRECT_BLOCKS + 1) t x t.heap.junk 0))
          exact wrote.trans (writeInode_balanced ..)

theorem fsStat_balanced (s : WitFs) (path : CStr) : Balanced s (fsStat s path).1 := by
  have looked := pathLookup_balanced s path
  rw [fsStat]
  split
  next => exact .refl s
  next =>
    generalize pathLookup s path = r at looked
    obtain ⟨s', _ | n⟩ := r
    · exact looked
    · exact looked.trans (readInode_balanced s' n)

theorem fsExists_balanced (s : WitFs) (path : CStr) : Balanced s (fsExists s path).1 := by
  have looked := pathLookup_balanced s path
  rw [fsExists]
  generalize pathLookup s path = r at looked
  obtain ⟨s', _ | n⟩ := r
  · exact looked
  · exact looked

theorem fsReaddir_balanced (s : WitFs) (path : CStr) (max : Int) : Balanced s (fsReaddir s path max).1 := by
  have looked := pathLookup_balanced s path
  rw [fsReaddir]
  split
  next => exact .refl s
  next =>
    generalize pathLookup s path = r at looked
    obtain ⟨s', _ | n⟩ := r
    · exact looked
    · have read := readInode_balanced s' n
      dsimp only at looked ⊢
      generalize readInode s' n = r at read
      obtain ⟨s'', _ | x⟩ := r
      · exact looked.trans read
      · dsimp only at read ⊢
        split
        next => exact looked.trans read
        next =>
          rcases kmalloc_cases s'' with ⟨t, eq, same⟩ | ⟨t, p, eq, grant⟩
          · rw [eq]
            exact (looked.trans read).trans same
          · rw [eq]
            exact (looked.trans read).trans (grant.free (.refl t))

end Files

/-- No call but formatting and mounting keeps a block. -/
theorem step_balanced (s : WitFs) (op : FsOp) : Balanced s (s.step op) := by
  cases op with
  | fsCreate path type => exact fsCreate_balanced s path type
  | fsMkdir path => exact fsCreate_balanced s path FS_TYPE_DIR
  | fsOpen path flags => exact fsOpen_balanced s path flags
  | fsClose fd => exact fsClose_balanced s fd
  | fsRead fd size => exact fsRead_balanced s fd size
  | fsWrite fd buf size => exact fsWrite_balanced s fd buf size
  | fsUnlink path => exact fsUnlink_balanced s path
  | fsRmdir path => exact fsUnlink_balanced s path
  | fsReaddir path max => exact fsReaddir_balanced s path max
  | fsStat path => exact fsStat_balanced s path
  | fsExists path => exact fsExists_balanced s path
  | timer ticks => exact ⟨rfl, rfl, rfl, rfl⟩

/-- At most the two blocks that the bitmap pointers name are in use. -/
structure NoLeak (s : WitFs) : Prop where
  once : s.heap.live.Nodup
  named : ∀ p ∈ s.heap.live, s.inodeBitmap.ptr = some p ∨ s.dataBitmap.ptr = some p

section Mounting

variable {s t : WitFs}

theorem NoLeak.balanced (h : NoLeak s) (same : Balanced s t) : NoLeak t := by
  refine ⟨?_, fun p mem => ?_⟩
  · rw [same.live]
    exact h.once
  · rw [same.live] at mem
    rw [same.inodePtr, same.dataPtr]
    exact h.named p mem

theorem allocBitmap_cases (s : WitFs) : (∃ t junk, allocBitmap s = (t, ⟨none, junk⟩) ∧ Balanced s t) ∨
    ∃ t p junk, allocBitmap s = (t, ⟨some p, junk⟩) ∧ Granted s t p := by
  rw [allocBitmap]
  rcases kmalloc_cases s with ⟨t, eq, same⟩ | ⟨t, p, eq, grant⟩
  · exact Or.inl ⟨t, t.heap.junk, by rw [eq], same⟩
  · exact Or.inr ⟨t, p, t.heap.junk, by rw [eq], grant⟩

/-- Beside the blocks `old`, exactly those are in use that the bitmap pointers name. -/
structure Mounting (s : WitFs) (old : List Nat) : Prop where
  live : s.heap.live = s.dataBitmap.ptr.toList ++ (s.inodeBitmap.ptr.toList ++ old)
  once : (s.dataBitmap.ptr.toList ++ (s.inodeBitmap.ptr.toList ++ old)).Nodup

theorem kfreeBitmap_live (s : WitFs) (b : BitmapBuffer) :
    (kfreeBitmap s b).heap.live = b.ptr.toList.foldl List.erase s.heap.live := by
  rw [kfreeBitmap]
  split
  next none => rw [none]; rfl
  next p some => rw [some]; rfl

theorem kfreeBitmap_bitmaps (s : WitFs) (b : BitmapBuffer) :
    (kfreeBitmap s b).inodeBitmap = s.inodeBitmap ∧ (kfreeBitmap s b).dataBitmap = s.dataBitmap := by
  rw [kfreeBitmap]
  split
  next => exact ⟨rfl, rfl⟩
  next => exact ⟨rfl, rfl⟩

theorem Mounting.drop {old : List Nat} (h : Mounting s old) : (dropBitmaps s).heap.live = old := by
  obtain ⟨live, once⟩ := h
  rw [dropBitmaps, kfreeBitmap_live, kfreeBitmap_live, live]
  cases data : s.dataBitmap.ptr with
  | none =>
    cases s.inodeBitmap.ptr with
    | none => rfl
    | some p => simp
  | some q =>
    rw [data] at once
    cases inode : s.inodeBitmap.ptr with
    | none => simp
    | some p =>
      rw [inode] at once
      have apart : q ≠ p := by
        rintro rfl
        simp at once
      simp [List.erase_cons_tail, apart]

/-- What `fs_init` leaves: `old` is still in use and no pointer names it, and whatever
else is in use has a pointer. -/
structure Remounted (t : WitFs) (old : List Nat) : Prop where
  once : t.heap.live.Nodup
  lost : ∀ p ∈ old, p ∈ t.heap.live ∧ t.inodeBitmap.ptr ≠ some p ∧ t.dataBitmap.ptr ≠ some p
  named : ∀ p ∈ t.heap.live, p ∉ old → t.inodeBitmap.ptr = some p ∨ t.dataBitmap.ptr = some p

theorem Mounting.unnamed {old : List Nat} (h : Mounting s old) {p : Nat} (mem : p ∈ old) :
    s.inodeBitmap.ptr ≠ some p ∧ s.dataBitmap.ptr ≠ some p := by
  have once := h.once
  refine ⟨fun named => ?_, fun named => ?_⟩
  · rw [named] at once
    have tail := once.of_append_right
    simp [mem] at tail
  · rw [named] at once
    simp [mem] at once

theorem Mounting.remounted {old : List Nat} (h : Mounting s old) (live : t.heap.live = s.heap.live)
    (inodePtr : t.inodeBitmap.ptr = s.inodeBitmap.ptr) (dataPtr : t.dataBitmap.ptr = s.dataBitmap.ptr) :
    Remounted t old := by
  refine ⟨?_, fun p mem => ⟨?_, ?_⟩, fun p mem new => ?_⟩
  · rw [live, h.live]
    exact h.once
  · rw [live, h.live]
    simp [mem]
  · rw [inodePtr, dataPtr]
    exact h.unnamed mem
  · rw [live, h.live, List.mem_append, List.mem_append] at mem
    rw [inodePtr, dataPtr]
    rcases mem with data | inode | stale
    · exact Or.inr (by simpa using data)
    · exact Or.inl (by simpa using inode)
    · exact absurd stale new

theorem Mounting.dropped {old : List Nat} (h : Mounting s old) : Remounted (dropBitmaps s) old := by
  have live := h.drop
  have inodePtr : (dropBitmaps s).inodeBitmap = s.inodeBitmap := by
    rw [dropBitmaps, (kfreeBitmap_bitmaps _ _).1, (kfreeBitmap_bitmaps _ _).1]
  have dataPtr : (dropBitmaps s).dataBitmap = s.dataBitmap := by
    rw [dropBitmaps, (kfreeBitmap_bitmaps _ _).2, (kfreeBitmap_bitmaps _ _).2]
  refine ⟨?_, fun p mem => ⟨?_, ?_⟩, fun p mem new => ?_⟩
  · rw [live]
    exact h.once.of_append_right.of_append_right
  · rw [live]
    exact mem
  · rw [inodePtr, dataPtr]
    exact h.unnamed mem
  · rw [live] at mem
    exact absurd mem new

theorem Mounting.balanced {old : List Nat} (h : Mounting s old) (same : Balanced s t) : Mounting t old := by
  refine ⟨?_, ?_⟩
  · rw [same.live, same.dataPtr, same.inodePtr]
    exact h.live
  · rw [same.dataPtr, same.inodePtr]
    exact h.once

theorem Mounting.load {old : List Nat} (h : Mounting s old) : Remounted (loadSuperblock s) old := by
  rw [loadSuperblock]
  rcases kmalloc_cases s with ⟨t, eq, same⟩ | ⟨t, p, eq, grant⟩
  · rw [eq]
    exact (h.balanced same).dropped
  · rw [eq]
    dsimp only
    have freed := grant.free (Balanced.refl t)
    have mounting : ∀ superblock, Mounting (kfree { t with superblock := superblock } p) old :=
      fun superblock => h.balanced ⟨freed.live, freed.inodePtr, freed.dataPtr, freed.disk⟩
    split
    next => exact (mounting _).dropped
    next => exact (mounting _).remounted rfl rfl rfl

theorem allocBitmap_live (s : WitFs) (once : s.heap.live.Nodup) :
    (allocBitmap s).1.heap.live = (allocBitmap s).2.ptr.toList ++ s.heap.live ∧
      (allocBitmap s).1.heap.live.Nodup ∧ (allocBitmap s).1.inodeBitmap.ptr = s.inodeBitmap.ptr ∧
      (allocBitmap s).1.dataBitmap.ptr = s.dataBitmap.ptr := by
  rcases allocBitmap_cases s with ⟨t, junk, eq, same⟩ | ⟨t, p, junk, eq, grant⟩
  · rw [eq]
    exact ⟨same.live, same.live ▸ once, same.inodePtr, same.dataPtr⟩
  · rw [eq]
    refine ⟨grant.live, ?_, congrArg _ grant.inodeBitmap, congrArg _ grant.dataBitmap⟩
    rw [grant.live, List.nodup_cons]
    exact ⟨grant.fresh, once⟩

theorem fsInit_remounted (on : s.disk.initialized = true) (once : s.heap.live.Nodup) :
    Remounted (fsInit s) s.heap.live := by
  rw [fsInit, on, Bool.not_true, if_neg Bool.false_ne_true]
  dsimp only
  obtain ⟨live, once1, -, -⟩ := allocBitmap_live s once
  generalize allocBitmap s = r at live once1
  obtain ⟨s1, ib⟩ := r
  dsimp only at live once1 ⊢
  obtain ⟨live', once', inodePtr, -⟩ := allocBitmap_live { s1 with inodeBitmap := ib } once1
  generalize allocBitmap { s1 with inodeBitmap := ib } = r at live' once' inodePtr
  obtain ⟨s2, db⟩ := r
  dsimp only at live' once' inodePtr ⊢
  have mounting : Mounting { s2 with dataBitmap := db } s.heap.live := by
    rw [live, ← inodePtr] at live'
    exact ⟨live', live' ▸ once'⟩
  split
  next => exact mounting.dropped
  next => exact mounting.load

theorem fsInit_noLeak (on : s.disk.initialized = true) (once : s.heap.live.Nodup) :
    NoLeak (fsInit s) ↔ s.heap.live = [] := by
  have after := fsInit_remounted on once
  constructor
  · intro h
    rw [List.eq_nil_iff_forall_not_mem]
    intro p mem
    obtain ⟨used, inode, data⟩ := after.lost p mem
    rcases h.named p used with named | named
    · exact inode named
    · exact data named
  · intro none
    refine ⟨after.once, fun p mem => after.named p mem ?_⟩
    rw [none]
    exact List.not_mem_nil

theorem keepBitmap_live (s : WitFs) (b : BitmapBuffer) (once : s.heap.live.Nodup) :
    (∀ p ∈ (keepBitmap s b).1.heap.live, p ∈ s.heap.live ∨ (keepBitmap s b).2.ptr = some p) ∧
      (keepBitmap s b).1.heap.live.Nodup ∧ (∀ p, b.ptr = some p → (keepBitmap s b).2.ptr = some p) ∧
      (keepBitmap s b).1.inodeBitmap.ptr = s.inodeBitmap.ptr ∧
      (keepBitmap s b).1.dataBitmap.ptr = s.dataBitmap.ptr := by
  rw [keepBitmap]
  split
  next null =>
    obtain ⟨live, once', inodePtr, dataPtr⟩ := allocBitmap_live s once
    refine ⟨fun p mem => ?_, once', fun p named => ?_, inodePtr, dataPtr⟩
    · rw [live, List.mem_append] at mem
      exact mem.symm.imp_right fun new => by simpa using new
    · rw [named] at null
      exact absurd null Bool.false_ne_true
  next => exact ⟨fun p mem => Or.inl mem, once, fun p named => named, rfl, rfl⟩

theorem writeThroughTemp_balanced (s : WitFs) (b : Nat) (data : Buffer) :
    Balanced s (writeThroughTemp s b data) := by
  rw [writeThroughTemp]
  rcases kmalloc_cases s with ⟨t, eq, same⟩ | ⟨t, p, eq, grant⟩
  · rw [eq]
    exact same
  · rw [eq]
    exact grant.free (writeBlock_balanced t _ _)

theorem Balanced.on (h : Balanced s t) : Balanced s { t with initialized := true } :=
  ⟨h.live, h.inodePtr, h.dataPtr, h.disk⟩

theorem writeFormat_balanced (s : WitFs) : Balanced s (writeFormat s) := by
  rw [writeFormat]
  refine Balanced.on (.trans ?_ (writeBlock_balanced ..))
  refine .trans ?_ (writeBlock_balanced ..)
  refine .trans ?_ (writeThroughTemp_balanced ..)
  exact (writeInode_balanced ..).trans (writeThroughTemp_balanced ..)

theorem NoLeak.format (h : NoLeak s) : NoLeak (fsFormat s) := by
  rw [fsFormat]
  split
  next => exact h
  next =>
    obtain ⟨live, once, kept, -, dataPtr⟩ := keepBitmap_live s s.inodeBitmap h.once
    generalize keepBitmap s s.inodeBitmap = r at live once kept dataPtr
    obtain ⟨s1, ib⟩ := r
    dsimp only at live once kept dataPtr ⊢
    obtain ⟨live', once', kept', inodePtr, -⟩ :=
      keepBitmap_live { s1 with inodeBitmap := ib } s1.dataBitmap once
    generalize keepBitmap { s1 with inodeBitmap := ib } s1.dataBitmap = r at live' once' kept' inodePtr
    obtain ⟨s2, db⟩ := r
    dsimp only at live' once' kept' inodePtr ⊢
    have named : NoLeak { s2 with dataBitmap := db } := by
      refine ⟨once', fun p mem => ?_⟩
      show s2.inodeBitmap.ptr = some p ∨ db.ptr = some p
      rw [inodePtr]
      rcases live' p mem with old | new
      · rcases live p old with older | new
        · rcases h.named p older with inode | data
          · exact Or.inl (kept p inode)
          · exact Or.inr (kept' p (dataPtr.trans data))
        · exact Or.inl new
      · exact Or.inr new
    split
    next => exact named
    next =>
      have fresh : NoLeak { s2 with
          superblock := formatSuperblock
          inodeBitmap := freshBitmap s2.inodeBitmap
          dataBitmap := freshBitmap db } := ⟨named.once, named.named⟩
      exact fresh.balanced (writeFormat_balanced _)

end Mounting

/-- One call keeps to the two bitmap blocks, unless it mounts while a block is in use. -/
theorem NoLeak.step_iff {s : WitFs} (h : NoLeak s) (op : VolumeOp) : NoLeak (s.volumeStep op) ↔
    (op = .fsInit → s.disk.initialized = true → s.heap.live = []) := by
  cases op with
  | call op => simpa [WitFs.volumeStep] using h.balanced (step_balanced s op)
  | fsFormat => simpa [WitFs.volumeStep] using h.format
  | fsInit =>
    cases on : s.disk.initialized with
    | false => simpa [WitFs.volumeStep, fsInit, on] using h
    | true => simpa [WitFs.volumeStep] using fsInit_noLeak on h.once

/-- Every `fs_init` of the calls, on a disk that is there, finds no block in use. -/
def MountsUnheld (s : WitFs) (ops : List VolumeOp) : Prop :=
  ∀ k, ops[k]? = some .fsInit → (s.volumeRun (ops.take k)).disk.initialized = true →
    (s.volumeRun (ops.take k)).heap.live = []

theorem mountsUnheld_cons (s : WitFs) (op : VolumeOp) (ops : List VolumeOp) :
    MountsUnheld s (op :: ops) ↔ (op = .fsInit → s.disk.initialized = true → s.heap.live = []) ∧
      MountsUnheld (s.volumeStep op) ops := by
  constructor
  · intro h
    exact ⟨fun first => h 0 (congrArg some first), fun k => h (k + 1)⟩
  · rintro ⟨first, rest⟩ k at_k
    cases k with
    | zero => exact first (Option.some.inj at_k)
    | succ k => exact rest k at_k

theorem NoLeak.run_iff {s : WitFs} (h : NoLeak s) (ops : List VolumeOp) :
    (∀ k, NoLeak (s.volumeRun (ops.take k))) ↔ MountsUnheld s ops := by
  induction ops generalizing s with
  | nil =>
    refine ⟨fun _ k at_k => absurd at_k (by simp), fun _ k => ?_⟩
    rw [List.take_nil]
    exact h
  | cons op ops ih =>
    rw [mountsUnheld_cons, ← h.step_iff op]
    constructor
    · intro all
      have next : NoLeak (s.volumeStep op) := all 1
      exact ⟨next, (ih next).mp fun k => all (k + 1)⟩
    · rintro ⟨next, rest⟩ k
      cases k with
      | zero => exact h
      | succ k => exact (ih next).mpr rest k

section Fsformat

variable {s : WitFs}

theorem mounted_live (ready : Ready s) (inode : s.inodeBitmap.ptr.isNone = false)
    (data : s.dataBitmap.ptr.isNone = false) :
    (mounted s).heap.live.length = s.heap.live.length + 2 := by
  have formatted := fsFormat_formatted ready
  obtain ⟨-, p, q, live, -⟩ := fsInit_mounts formatted.ready (by rw [formatted.onDisk]; rfl)
  obtain ⟨heap, ib, db, eq, pending, -, -, same⟩ := fsFormat_eq ready
  have kept : (fsFormat s).heap.live = s.heap.live := by
    rw [eq, (writeFormat_balanced _).live, same inode data]
  rw [mounted, live, kept]
  rfl

theorem mounted_pointers (ready : Ready s) : Ready (mounted s) ∧
    (mounted s).inodeBitmap.ptr.isNone = false ∧ (mounted s).dataBitmap.ptr.isNone = false := by
  have formatted := fsFormat_formatted ready
  obtain ⟨mounts, p, q, -, inode, data⟩ := fsInit_mounts formatted.ready (by rw [formatted.onDisk]; rfl)
  refine ⟨⟨?_, mounts.pending⟩, ?_, ?_⟩
  · rw [mounted, mounts.disk]
    exact formatted.ready.disk
  · rw [mounted, inode]
    rfl
  · rw [mounted, data]
    rfl

theorem mounted_again (ready : Ready s) (n : Nat) :
    (mounted^[n + 1] s).heap.live.length = (mounted s).heap.live.length + 2 * n := by
  induction n generalizing s with
  | zero => rfl
  | succ n ih =>
    obtain ⟨ready', inode, data⟩ := mounted_pointers ready
    rw [Function.iterate_succ_apply, ih ready', mounted_live ready' inode data]
    omega

end Fsformat

/-- From a state in which `fs.c` holds nothing, a run keeps to the two bitmap blocks
exactly when it never mounts while it holds a block; and with requests granted every
`fsformat` after the first takes two blocks more. -/
theorem bitmap_blocks_only_iff (s : WitFs) (ops : List VolumeOp) (start : s.heap.live = []) :
    ((∀ k, NoLeak (s.volumeRun (ops.take k))) ↔ MountsUnheld s ops) ∧
      ∀ n, Ready s → (mounted^[n + 1] s).heap.live.length = (mounted s).heap.live.length + 2 * n := by
  have none : NoLeak s := by
    refine ⟨?_, ?_⟩
    · rw [start]
      exact List.nodup_nil
    · rw [start]
      exact fun p mem => absurd mem List.not_mem_nil
  exact ⟨none.run_iff ops, fun n ready => mounted_again ready n⟩

theorem bitmap_blocks_only_iff_fsformat :
    ((∀ k, NoLeak (powerOn.volumeRun ([.fsFormat, .fsInit].take k))) ↔
      MountsUnheld powerOn [.fsFormat, .fsInit]) ∧
      ∀ n, Ready powerOn →
        (mounted^[n + 1] powerOn).heap.live.length = (mounted powerOn).heap.live.length + 2 * n :=
  bitmap_blocks_only_iff powerOn [.fsFormat, .fsInit] rfl

/-- One `fsformat` from boot already keeps two blocks that no pointer names. -/
theorem fsformat_leaks : ¬NoLeak (powerOn.volumeRun [.fsFormat, .fsInit]) ∧
    (mounted powerOn).heap.live.length = 4 ∧ (mounted (mounted powerOn)).heap.live.length = 6 := by
  refine ⟨fun h => ?_, by decide +kernel, by decide +kernel⟩
  have unheld := (fsInit_noLeak (s := fsFormat powerOn) rfl (by decide +kernel)).mp h
  exact absurd unheld (by decide +kernel)

end Wittche.Fs
