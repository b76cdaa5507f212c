import Wittche.Fs.Runs

/-! The two free counters of the superblock are written and never read: with other
counters every call of `fs.c` returns the same and does the same, and the counters keep
their distance. -/

namespace Wittche.Fs
open Bytes CString

/-- The free counters moved by `d.1` inodes and `d.2` blocks. -/
def recount (d : Word × Word) (s : WitFs) : WitFs :=
  { s with superblock := { s.superblock with
      freeInodes := s.superblock.freeInodes + d.1
      freeBlocks := s.superblock.freeBlocks + d.2 } }

theorem less_one_add (a b : Word) : a + b - 1 = a - 1 + b := by bv_omega

theorem one_more_add (a b : Word) : a + b + 1 = a + 1 + b := by bv_omega

section Blocks

variable (d : Word × Word) (s : WitFs)

theorem kmalloc_recount : kmalloc (recount d s) = (recount d (kmalloc s).1, (kmalloc s).2) := by
  have pending : (recount d s).heap = s.heap := rfl
  rw [kmalloc, kmalloc, pending]
  split
  next => rfl
  next => rfl
  next => rfl

theorem readInode_recount (n : Nat) :
    readInode (recount d s) n = (recount d (readInode s n).1, (readInode s n).2) := by
  rw [readInode, readInode]
  split
  next => rfl
  next =>
    rw [kmalloc_recount]
    generalize kmalloc s = r
    obtain ⟨s', _ | p⟩ := r
    · rfl
    · rfl

theorem writeInode_recount (n : Nat) (x : Inode) :
    writeInode (recount d s) n x = (recount d (writeInode s n x).1, (writeInode s n x).2) := by
  rw [writeInode, writeInode]
  split
  next => rfl
  next =>
    rw [kmalloc_recount]
    generalize kmalloc s = r
    obtain ⟨s', _ | p⟩ := r
    · rfl
    · rfl

theorem storeInodeBitmap_recount (bytes : Buffer) (free : Word) :
    storeInodeBitmap (recount d s) bytes (free + d.1) = recount d (storeInodeBitmap s bytes free) := rfl

theorem storeDataBitmap_recount (bytes : Buffer) (free : Word) :
    storeDataBitmap (recount d s) bytes (free + d.2) = recount d (storeDataBitmap s bytes free) := rfl

theorem allocInode_recount : allocInode (recount d s) = (recount d (allocInode s).1, (allocInode s).2) := by
  have bytes : (recount d s).inodeBitmap = s.inodeBitmap := rfl
  have free : (recount d s).superblock.freeInodes - 1 = s.superblock.freeInodes - 1 + d.1 := less_one_add ..
  rw [allocInode, allocInode, bytes]
  split
  next => rfl
  next => rw [free, storeInodeBitmap_recount]

theorem freeInode_recount (n : Nat) : freeInode (recount d s) n = recount d (freeInode s n) := by
  have free : (recount d s).superblock.freeInodes + 1 = s.superblock.freeInodes + 1 + d.1 := one_more_add ..
  rw [freeInode, free]
  exact storeInodeBitmap_recount ..

theorem allocDataBlock_recount :
    allocDataBlock (recount d s) = (recount d (allocDataBlock s).1, (allocDataBlock s).2) := by
  have bytes : (recount d s).dataBitmap = s.dataBitmap := rfl
  have free : (recount d s).superblock.freeBlocks - 1 = s.superblock.freeBlocks - 1 + d.2 := less_one_add ..
  rw [allocDataBlock, allocDataBlock, bytes]
  split
  next => rfl
  next => rw [free, storeDataBitmap_recount]

theorem freeDataBlock_recount (b : Nat) : freeDataBlock (recount d s) b = recount d (freeDataBlock s b) := by
  have free : (recount d s).superblock.freeBlocks + 1 = s.superblock.freeBlocks + 1 + d.2 := one_more_add ..
  rw [freeDataBlock, free]
  exact storeDataBitmap_recount ..

theorem ensureBlock_recount (x : Inode) (k : Nat) (data : Buffer) :
    ensureBlock (recount d s) x k data =
      (recount d (ensureBlock s x k data).1, (ensureBlock s x k data).2) := by
  rw [ensureBlock, ensureBlock]
  split
  next =>
    rw [allocDataBlock_recount]
    generalize allocDataBlock s = r
    obtain ⟨s', _ | b⟩ := r
    · rfl
    · rfl
  next => rfl

theorem clearDataBlock_recount (b : Nat) : clearDataBlock (recount d s) b = recount d (clearDataBlock s b) := by
  rw [clearDataBlock, clearDataBlock, kmalloc_recount]
  generalize kmalloc s = r
  obtain ⟨s', _ | p⟩ := r
  · rfl
  · rfl

end Blocks

section Directory

variable (d : Word × Word)

theorem lookupFrom_recount (s : WitFs) (root : Inode) (name : CStr) (n k : Nat) (data : Buffer) :
    lookupFrom (recount d s) root name n k data = lookupFrom s root name n k data := by
  induction n generalizing k data with
  | zero => rfl
  | succ n ih =>
    have read : ∀ b, readBlock (recount d s) b data = readBlock s b data := fun _ => rfl
    simp only [lookupFrom, ih, read]

theorem pathLookup_recount (s : WitFs) (path : CStr) :
    pathLookup (recount d s) path = (recount d (pathLookup s path).1, (pathLookup s path).2) := by
  rw [pathLookup, pathLookup]
  split
  next => rfl
  next =>
    rw [readInode_recount]
    generalize readInode s 0 = r
    obtain ⟨s', _ | root⟩ := r
    · rfl
    · dsimp only
      split
      next => rfl
      next =>
        rw [kmalloc_recount]
        generalize kmalloc s' = r
        obtain ⟨s'', _ | p⟩ := r
        · rfl
        · exact congrArg (Prod.mk _) (lookupFrom_recount d s'' root _ _ _ _)

theorem dirAddFrom_recount (dirNum : Nat) (name : CStr) (inode n k : Nat) (s : WitFs) (dir : Inode)
    (data : Buffer) : dirAddFrom dirNum name inode n k (recount d s) dir data =
      (recount d (dirAddFrom dirNum name inode n k s dir data).1,
        (dirAddFrom dirNum name inode n k s dir data).2) := by
  induction n generalizing k s dir data with
  | zero => rfl
  | succ n ih =>
    rw [dirAddFrom, dirAddFrom, ensureBlock_recount]
    generalize ensureBlock s dir k data = r
    obtain ⟨s', _ | ⟨dir', data'⟩⟩ := r
    · rfl
    · dsimp only
      split
      next =>
        have written : ∀ b buffer, writeBlock (recount d s') b buffer = recount d (writeBlock s' b buffer) :=
          fun _ _ => rfl
        rw [written, writeInode_recount]
        rfl
      next => exact ih ..

theorem dirAddEntry_recount (s : WitFs) (dirNum : Nat) (name : CStr) (inode : Nat) :
    dirAddEntry (recount d s) dirNum name inode =
      (recount d (dirAddEntry s dirNum name inode).1, (dirAddEntry s dirNum name inode).2) := by
  rw [dirAddEntry, dirAddEntry, readInode_recount]
  generalize readInode s dirNum = r
  obtain ⟨s', _ | dir⟩ := r
  · rfl
  · dsimp only
    split
    next => rfl
    next =>
      rw [kmalloc_recount]
      generalize kmalloc s' = r
      obtain ⟨s'', _ | p⟩ := r
      · rfl
      · dsimp only
        rw [dirAddFrom_recount]
        rfl

theorem dirRemoveFrom_recount (dirNum : Nat) (name : CStr) (n k : Nat) (s : WitFs) (dir : Inode)
    (data : Buffer) : dirRemoveFrom dirNum name n k (recount d s) dir data =
      (recount d (dirRemoveFrom dirNum name n k s dir data).1,
        (dirRemoveFrom dirNum name n k s dir data).2) := by
  induction n generalizing k s dir data with
  | zero => rfl
  | succ n ih =>
    have read : ∀ b, readBlock (recount d s) b data = readBlock s b data := fun _ => rfl
    rw [dirRemoveFrom, dirRemoveFrom]
    split
    next => rfl
    next =>
      rw [read]
      dsimp only
      split
      next =>
        have written : ∀ b buffer, writeBlock (recount d s) b buffer = recount d (writeBlock s b buffer) :=
          fun _ _ => rfl
        rw [written, writeInode_recount]
        rfl
      next => exact ih ..

theorem dirRemoveEntry_recount (s : WitFs) (dirNum : Nat) (name : CStr) :
    dirRemoveEntry (recount d s) dirNum name =
      (recount d (dirRemoveEntry s dirNum name).1, (dirRemoveEntry s dirNum name).2) := by
  rw [dirRemoveEntry, dirRemoveEntry, readInode_recount]
  generalize readInode s dirNum = r
  obtain ⟨s', _ | dir⟩ := r
  · rfl
  · dsimp only
    rw [kmalloc_recount]
    generalize kmalloc s' = r
    obtain ⟨s'', _ | p⟩ := r
    · rfl
    · dsimp only
      rw [dirRemoveFrom_recount]
      rfl

end Directory

section Files

variable (d : Word × Word) (s : WitFs)

theorem enterInode_recount (name : CStr) (type : Word) (n : Nat) (x : Inode) :
    enterInode (recount d s) name type n x =
      (recount d (enterInode s name type n x).1, (enterInode s name type n x).2) := by
  rw [enterInode, enterInode, writeInode_recount]
  dsimp only
  rw [dirAddEntry_recount]
  generalize dirAddEntry (writeInode s n x).1 0 name n = r
  obtain ⟨s', code⟩ := r
  dsimp only
  split
  next =>
    rw [freeInode_recount]
    split
    next => rw [freeDataBlock_recount]
    next => rfl
  next => rfl

theorem makeInode_recount (name : CStr) (type : Word) (n : Nat) :
    makeInode (recount d s) name type n =
      (recount d (makeInode s name type n).1, (makeInode s name type n).2) := by
  have blank : newInode (recount d s) type = newInode s type := rfl
  rw [makeInode, makeInode, blank]
  split
  next =>
    rw [allocDataBlock_recount]
    generalize allocDataBlock s = r
    obtain ⟨s', _ | b⟩ := r
    · exact congrArg (Prod.mk · _) (freeInode_recount d s' n)
    · dsimp only
      rw [clearDataBlock_recount, enterInode_recount]
  next => exact enterInode_recount ..

theorem fsCreate_recount (path : CStr) (type : Word) :
    fsCreate (recount d s) path type = (recount d (fsCreate s path type).1, (fsCreate s path type).2) := by
  have on : (recount d s).initialized = s.initialized := rfl
  rw [fsCreate, fsCreate, on]
  split
  next => rfl
  next =>
    rw [pathLookup_recount]
    generalize pathLookup s path = r
    obtain ⟨s', _ | m⟩ := r
    · dsimp only
      rw [allocInode_recount]
      generalize allocInode s' = r
      obtain ⟨s'', _ | n⟩ := r
      · rfl
      · exact makeInode_recount ..
    · rfl

theorem freeBlocksFrom_recount (x : Inode) (n k : Nat) :
    freeBlocksFrom x n k (recount d s) = recount d (freeBlocksFrom x n k s) := by
  induction n generalizing k s with
  | zero => rfl
  | succ n ih =>
    rw [freeBlocksFrom, freeBlocksFrom]
    split
    next => rfl
    next => rw [freeDataBlock_recount, ih]

theorem fsUnlink_recount (path : CStr) :
    fsUnlink (recount d s) path = (recount d (fsUnlink s path).1, (fsUnlink s path).2) := by
  have on : (recount d s).initialized = s.initialized := rfl
  rw [fsUnlink, fsUnlink, on]
  split
  next => rfl
  next =>
    rw [pathLookup_recount]
    generalize pathLookup s path = r
    obtain ⟨s', _ | n⟩ := r
    · rfl
    · dsimp only
      rw [readInode_recount]
      generalize readInode s' n = r
      obtain ⟨s'', _ | x⟩ := r
      · rfl
      · dsimp only
        rw [freeBlocksFrom_recount, freeInode_recount, dirRemoveEntry_recount]

theorem takeDescriptor_recount (n : Nat) (flags : Word) :
    takeDescriptor (recount d s) n flags =
      (recount d (takeDescriptor s n flags).1, (takeDescriptor s n flags).2) := by
  have files : (recount d s).openFiles = s.openFiles := rfl
  rw [takeDescriptor, takeDescriptor, files]
  split
  next => rfl
  next => rfl

theorem fsOpen_recount (path : CStr) (flags : Word) :
    fsOpen (recount d s) path flags = (recount d (fsOpen s path flags).1, (fsOpen s path flags).2) := by
  have on : (recount d s).initialized = s.initialized := rfl
  rw [fsOpen, fsOpen, on]
  split
  next => rfl
  next =>
    rw [pathLookup_recount]
    generalize pathLookup s path = r
    obtain ⟨s', _ | n⟩ := r
    · dsimp only
      split
      next =>
        rw [fsCreate_recount]
        generalize fsCreate s' path FS_TYPE_FILE = r
        obtain ⟨s'', code⟩ := r
        dsimp only
        split
        next => rfl
        next =>
          rw [pathLookup_recount]
          generalize pathLookup s'' path = r
          obtain ⟨s3, _ | n⟩ := r
          · rfl
          · exact takeDescriptor_recount ..
      next => rfl
    · exact takeDescriptor_recount ..

theorem fsClose_recount (fd : Int) :
    fsClose (recount d s) fd = (recount d (fsClose s fd).1, (fsClose s fd).2) := by
  have valid : validFd (recount d s) fd = validFd s fd := rfl
  rw [fsClose, fsClose, valid]
  split
  next => rfl
  next => rfl

theorem readFrom_recount (fd : Nat) (x : Inode) (size turns : Nat) (data : Buffer) (done : List Byte) :
    readFrom fd x size turns (recount d s) data done =
      (recount d (readFrom fd x size turns s data done).1, (readFrom fd x size turns s data done).2) := by
  induction turns generalizing s data done with
  | zero => rfl
  | succ turns ih =>
    have files : (recount d s).openFiles = s.openFiles := rfl
    have read : ∀ b, readBlock (recount d s) b data = readBlock s b data := fun _ => rfl
    have moved : ∀ n, advance (recount d s) fd n = recount d (advance s fd n) := fun _ => rfl
    rw [readFrom, readFrom, files]
    simp only [read, moved]
    split
    next =>
      split
      next => rfl
      next => exact ih ..
    next => rfl

theorem fsRead_recount (fd : Int) (size : Nat) :
    fsRead (recount d s) fd size = (recount d (fsRead s fd size).1, (fsRead s fd size).2) := by
  have files : (recount d s).openFiles = s.openFiles := rfl
  have valid : validFd (recount d s) fd = validFd s fd := rfl
  rw [fsRead, fsRead, valid, files]
  split
  next => rfl
  next =>
    split
    next => rfl
    next =>
      rw [readInode_recount]
      generalize readInode s (s.openFiles fd.toNat).inode = r
      obtain ⟨s', _ | x⟩ := r
      · rfl
      · have files' : (recount d s').openFiles = s'.openFiles := rfl
        dsimp only
        rw [files']
        split
        next => rfl
        next =>
          rw [kmalloc_recount]
          generalize kmalloc s' = r
          obtain ⟨s'', _ | p⟩ := r
          · rfl
          · dsimp only
            rw [readFrom_recount]
            rfl

theorem writeChunk_recount (fd : Nat) (buf : Buffer) (x : Inode) (data : Buffer) (done toWrite : Nat) :
    writeChunk fd buf (recount d s) x data done toWrite =
      (recount d (writeChunk fd buf s x data done toWrite).1,
        (writeChunk fd buf s x data done toWrite).2) := rfl

theorem writeFrom_recount (fd : Nat) (buf : Buffer) (size turns : Nat) (x : Inode) (data : Buffer)
    (done : Nat) : writeFrom fd buf size turns (recount d s) x data done =
      (recount d (writeFrom fd buf size turns s x data done).1,
        (writeFrom fd buf size turns s x data done).2) := by
  induction turns generalizing s x data done with
  | zero => rfl
  | succ turns ih =>
    have files : (recount d s).openFiles = s.openFiles := rfl
    rw [writeFrom, writeFrom, files]
    split
    next =>
      dsimp only
      split
      next => rfl
      next =>
        rw [ensureBlock_recount]
        generalize ensureBlock s x ((s.openFiles fd).position / FS_BLOCK_SIZE) data = r
        obtain ⟨s', _ | ⟨x', data'⟩⟩ := r
        · rfl
        · dsimp only
          rw [writeChunk_recount, ih]
    next => rfl

theorem fsWrite_recount (fd : Int) (buf : Buffer) (size : Nat) :
    fsWrite (recount d s) fd buf size = (recount d (fsWrite s fd buf size).1, (fsWrite s fd buf size).2) := by
  have files : (recount d s).openFiles = s.openFiles := rfl
  have valid : validFd (recount d s) fd = validFd s fd := rfl
  rw [fsWrite, fsWrite, valid, files]
  split
  next => rfl
  next =>
    split
    next => rfl
    next =>
      rw [readInode_recount]
      generalize readInode s (s.openFiles fd.toNat).inode = r
      obtain ⟨s', _ | x⟩ := r
      · rfl
      · dsimp only
        rw [kmalloc_recount]
        generalize kmalloc s' = r
        obtain ⟨s'', _ | p⟩ := r
        · rfl
        · have freed : ∀ t, kfree (recount d t) p = recount d (kfree t p) := fun _ => rfl
          dsimp only
          rw [writeFrom_recount]
          dsimp only
          rw [freed, writeInode_recount]
          rfl

theorem fsStat_recount (path : CStr) :
    fsStat (recount d s) path = (recount d (fsStat s path).1, (fsStat s path).2) := by
  have on : (recount d s).initialized = s.initialized := rfl
  rw [fsStat, fsStat, on]
  split
  next => rfl
  next =>
    rw [pathLookup_recount]
    generalize pathLookup s path = r
    obtain ⟨s', _ | n⟩ := r
    · rfl
    · exact readInode_recount d s' n

theorem fsExists_recount (path : CStr) :
    fsExists (recount d s) path = (recount d (fsExists s path).1, (fsExists s path).2) := by
  rw [fsExists, fsExists, pathLookup_recount]
  generalize pathLookup s path = r
  obtain ⟨s', _ | n⟩ := r
  · rfl
  · rfl

theorem readdirFrom_recount (x : Inode) (max : Int) (n k : Nat) (data : Buffer) (found : List Dirent) :
    readdirFrom (recount d s) x max n k data found = readdirFrom s x max n k data found := by
  induction n generalizing k data found with
  | zero => rfl
  | succ n ih =>
    have read : ∀ b, readBlock (recount d s) b data = readBlock s b data := fun _ => rfl
    simp only [readdirFrom, ih, read]

theorem fsReaddir_recount (path : CStr) (max : Int) :
    fsReaddir (recount d s) path max = (recount d (fsReaddir s path max).1, (fsReaddir s path max).2) := by
  have on : (recount d s).initialized = s.initialized := rfl
  rw [fsReaddir, fsReaddir, on]
  split
  next => rfl
  next =>
    rw [pathLookup_recount]
    generalize pathLookup s path = r
    obtain ⟨s', _ | n⟩ := r
    · rfl
    · dsimp only
      rw [readInode_recount]
      generalize readInode s' n = r
      obtain ⟨s'', _ | x⟩ := r
      · rfl
      · dsimp only
        split
        next => rfl
        next =>
          rw [kmalloc_recount]
          generalize kmalloc s'' = r
          obtain ⟨s3, _ | p⟩ := r
          · rfl
          · dsimp only
            rw [readdirFrom_recount]
            rfl

end Files

theorem step_recount (d : Word × Word) (s : WitFs) (op : FsOp) :
    (recount d s).step op = recount d (s.step op) := by
  cases op with
  | fsCreate path type => rw [WitFs.step, WitFs.step, fsCreate_recount]
  | fsMkdir path => rw [WitFs.step, WitFs.step, fsMkdir, fsMkdir, fsCreate_recount]
  | fsOpen path flags => rw [WitFs.step, WitFs.step, fsOpen_recount]
  | fsClose fd => rw [WitFs.step, WitFs.step, fsClose_recount]
  | fsRead fd size => rw [WitFs.step, WitFs.step, fsRead_recount]
  | fsWrite fd buf size => rw [WitFs.step, WitFs.step, fsWrite_recount]
  | fsUnlink path => rw [WitFs.step, WitFs.step, fsUnlink_recount]
  | fsRmdir path => rw [WitFs.step, WitFs.step, fsRmdir, fsRmdir, fsUnlink_recount]
  | fsReaddir path max => rw [WitFs.step, WitFs.step, fsReaddir_recount]
  | fsStat path => rw [WitFs.step, WitFs.step, fsStat_recount]
  | fsExists path => rw [WitFs.step, WitFs.step, fsExists_recount]
  | timer ticks => rfl

end Wittche.Fs
