import Wittche.Lib.Bitmap
import Wittche.CString
import Wittche.Fs.Disk

/-! WitFS, the file system of `kernel/fs.c`, as functions on its global state.
Screen output is left out. Every request `fs.c` makes to the kernel heap is for one
block of `FS_BLOCK_SIZE` bytes; the heap is seen through the outcomes of these
requests and the blocks `fs.c` holds. Public functions return the C result code. -/

namespace Wittche.Fs
open Bytes CString

def FS_MAX_OPEN_FILES : Nat := 16
def FS_OPEN_READ : Word := 0x01
def FS_OPEN_WRITE : Word := 0x02
def FS_OPEN_CREATE : Word := 0x04

/-- The kernel heap as `fs.c` sees it. `pending` lists the outcomes of the coming
requests, and requests behind its end succeed; `live` are the blocks granted and not
yet freed; `junk` is what a fresh block contains. -/
structure FsHeap where
  pending : List Bool
  live : List Nat
  junk : Buffer

/-- A pointer to a bitmap buffer with the bytes it points to; `none` is `NULL`. -/
structure BitmapBuffer where
  ptr : Option Nat
  bytes : Buffer

/-- `fs_file_t`. -/
structure OpenFile where
  inode : Nat
  position : Nat
  flags : Word
  inUse : Bool

structure WitFs where
  disk : RamDisk
  superblock : Superblock
  inodeBitmap : BitmapBuffer
  dataBitmap : BitmapBuffer
  openFiles : Nat → OpenFile
  initialized : Bool
  ticks : Word
  heap : FsHeap

def FsHeap.fresh (h : FsHeap) : Nat := h.live.foldr max 0 + 1

def FsHeap.grant (h : FsHeap) (rest : List Bool) : FsHeap × Option Nat :=
  ({ h with pending := rest, live := h.fresh :: h.live }, some h.fresh)

def kmalloc (s : WitFs) : WitFs × Option Nat :=
  match s.heap.pending with
  | [] => ({ s with heap := (s.heap.grant []).1 }, (s.heap.grant []).2)
  | true :: rest => ({ s with heap := (s.heap.grant rest).1 }, (s.heap.grant rest).2)
  | false :: rest => ({ s with heap := { s.heap with pending := rest } }, none)

def kfree (s : WitFs) (p : Nat) : WitFs :=
  { s with heap := { s.heap with live := s.heap.live.erase p } }

def readBlock (s : WitFs) (blockNum : Nat) (buffer : Buffer) : Buffer :=
  (ramdiskReadBlock s.disk blockNum buffer).2

def writeBlock (s : WitFs) (blockNum : Nat) (buffer : Buffer) : WitFs :=
  { s with disk := (ramdiskWriteBlock s.disk blockNum buffer).2 }

/-- `FS_DATA_BLOCKS_START + blocks[k]`. -/
def dataBlockNum (b : Word) : Nat := (FS_DATA_BLOCKS_START + b.toNat) % 2 ^ 32

def bitmapFindFree (bitmap : Buffer) (maxBits : Nat) : Option Nat :=
  Bitmap.findClear (w := 8) bitmap maxBits

def bitmapTest (bitmap : Buffer) (bit : Nat) : Bool := Bitmap.test (w := 8) bitmap bit
def bitmapSet (bitmap : Buffer) (bit : Nat) : Buffer := Bitmap.set (w := 8) bitmap bit
def bitmapClear (bitmap : Buffer) (bit : Nat) : Buffer := Bitmap.clear (w := 8) bitmap bit

def INODES_PER_BLOCK : Nat := FS_BLOCK_SIZE / SIZEOF_INODE
def inodeBlock (n : Nat) : Nat := FS_INODE_TABLE_BLOCK + n / INODES_PER_BLOCK
def inodeOffset (n : Nat) : Nat := n % INODES_PER_BLOCK * SIZEOF_INODE

def readInode (s : WitFs) (n : Nat) : WitFs × Option Inode :=
  if FS_MAX_INODES ≤ n then (s, none)
  else
    match kmalloc s with
    | (s, none) => (s, none)
    | (s, some temp) =>
      let data := readBlock s (inodeBlock n) s.heap.junk
      (kfree s temp, some (Inode.ofBytes fun i => data (inodeOffset n + i)))

def writeInode (s : WitFs) (n : Nat) (x : Inode) : WitFs × Int :=
  if FS_MAX_INODES ≤ n then (s, -1)
  else
    match kmalloc s with
    | (s, none) => (s, -1)
    | (s, some temp) =>
      let data := readBlock s (inodeBlock n) s.heap.junk
      let data := copy data (inodeOffset n) x.bytes SIZEOF_INODE
      (kfree (writeBlock s (inodeBlock n) data) temp, 0)

def storeInodeBitmap (s : WitFs) (bytes : Buffer) (free : Word) : WitFs :=
  let s := { s with
    inodeBitmap := { s.inodeBitmap with bytes := bytes }
    superblock := { s.superblock with freeInodes := free } }
  writeBlock s FS_INODE_BITMAP_BLOCK bytes

def storeDataBitmap (s : WitFs) (bytes : Buffer) (free : Word) : WitFs :=
  let s := { s with
    dataBitmap := { s.dataBitmap with bytes := bytes }
    superblock := { s.superblock with freeBlocks := free } }
  writeBlock s FS_DATA_BITMAP_BLOCK bytes

def allocInode (s : WitFs) : WitFs × Option Nat :=
  match bitmapFindFree s.inodeBitmap.bytes FS_MAX_INODES with
  | none => (s, none)
  | some n =>
    (storeInodeBitmap s (bitmapSet s.inodeBitmap.bytes n) (s.superblock.freeInodes - 1), some n)

def freeInode (s : WitFs) (n : Nat) : WitFs :=
  storeInodeBitmap s (bitmapClear s.inodeBitmap.bytes n) (s.superblock.freeInodes + 1)

def allocDataBlock (s : WitFs) : WitFs × Option Nat :=
  match bitmapFindFree s.dataBitmap.bytes FS_MAX_DATA_BLOCKS with
  | none => (s, none)
  | some b =>
    (storeDataBitmap s (bitmapSet s.dataBitmap.bytes b) (s.superblock.freeBlocks - 1), some b)

def freeDataBlock (s : WitFs) (b : Nat) : WitFs :=
  storeDataBitmap s (bitmapClear s.dataBitmap.bytes b) (s.superblock.freeBlocks + 1)

/-- The name in a path: one leading `'/'` is skipped. -/
def pathName (path : CStr) : CStr := if path.get 0 = 0x2F then path.tail else path

def ENTRIES_PER_BLOCK : Nat := FS_BLOCK_SIZE / SIZEOF_DIRENT

def findEntry (data : Buffer) (name : CStr) : Option Nat :=
  Scan.firstFrom (fun i => decide (direntInode data i ≠ 0 ∧ strcmp (direntName data i) name = 0))
    ENTRIES_PER_BLOCK 0

/-- The block loop of `path_lookup`, `n` indices from `k` on. -/
def lookupFrom (s : WitFs) (root : Inode) (name : CStr) : (n k : Nat) → Buffer → Option Nat
  | 0, _, _ => none
  | n + 1, k, data =>
    if root.block k = 0 then none
    else
      let data := readBlock s (dataBlockNum (root.block k)) data
      match findEntry data name with
      | some i => some (direntInode data i).toNat
      | none => lookupFrom s root name n (k + 1) data

def pathLookup (s : WitFs) (path : CStr) : WitFs × Option Nat :=
  let name := pathName path
  if name.get 0 = 0 then (s, some 0)
  else
    match readInode s 0 with
    | (s, none) => (s, none)
    | (s, some root) =>
      if root.mode &&& FS_TYPE_DIR = 0 then (s, none)
      else
        match kmalloc s with
        | (s, none) => (s, none)
        | (s, some p) =>
          (kfree s p, lookupFrom s root name FS_DIRECT_BLOCKS 0 s.heap.junk)

/-- `entries[i]` filled in: the inode number, and the name cut at `FS_MAX_FILENAME`. -/
def fillEntry (data : Buffer) (i : Nat) (name : CStr) (inode : Nat) : Buffer :=
  let data := store data (i * SIZEOF_DIRENT) (BitVec.ofNat 32 inode)
  let data := strncpy data (i * SIZEOF_DIRENT + 4) name FS_MAX_FILENAME
  Function.update data (i * SIZEOF_DIRENT + 4 + FS_MAX_FILENAME) 0

def findUnused (data : Buffer) : Option Nat :=
  Scan.firstFrom (fun i => decide (direntInode data i = 0)) ENTRIES_PER_BLOCK 0

/-- Block `k` of an inode with its contents in the buffer, allocated and zero if it was
missing: the start of a turn in `dir_add_entry` and in `fs_write`. -/
def ensureBlock (s : WitFs) (x : Inode) (k : Nat) (data : Buffer) : WitFs × Option (Inode × Buffer) :=
  if x.block k = 0 then
    match allocDataBlock s with
    | (s, none) => (s, none)
    | (s, some b) => (s, some (x.setBlock k (BitVec.ofNat 32 b), fun _ => 0))
  else (s, some (x, readBlock s (dataBlockNum (x.block k)) data))

def Inode.resized (x : Inode) (size ticks : Word) : Inode := { x with size := size, modified := ticks }

/-- The block loop of `dir_add_entry`. -/
def dirAddFrom (dirNum : Nat) (name : CStr) (inode : Nat) :
    (n k : Nat) → WitFs → Inode → Buffer → WitFs × Int
  | 0, _, s, _, _ => (s, -1)
  | n + 1, k, s, dir, data =>
    match ensureBlock s dir k data with
    | (s, none) => (s, -1)
    | (s, some (dir, data)) =>
      match findUnused data with
      | some i =>
        let s := writeBlock s (dataBlockNum (dir.block k)) (fillEntry data i name inode)
        ((writeInode s dirNum (dir.resized (dir.size + BitVec.ofNat 32 SIZEOF_DIRENT) s.ticks)).1, 0)
      | none => dirAddFrom dirNum name inode n (k + 1) s dir data

def dirAddEntry (s : WitFs) (dirNum : Nat) (name : CStr) (inode : Nat) : WitFs × Int :=
  match readInode s dirNum with
  | (s, none) => (s, -1)
  | (s, some dir) =>
    if dir.mode &&& FS_TYPE_DIR = 0 then (s, -1)
    else
      match kmalloc s with
      | (s, none) => (s, -1)
      | (s, some p) =>
        let r := dirAddFrom dirNum name inode FS_DIRECT_BLOCKS 0 s dir s.heap.junk
        (kfree r.1 p, r.2)

/-- The block loop of `dir_remove_entry`. -/
def dirRemoveFrom (dirNum : Nat) (name : CStr) : (n k : Nat) → WitFs → Inode → Buffer → WitFs × Int
  | 0, _, s, _, _ => (s, -1)
  | n + 1, k, s, dir, data =>
    if dir.block k = 0 then (s, -1)
    else
      let data := readBlock s (dataBlockNum (dir.block k)) data
      match findEntry data name with
      | some i =>
        let s := writeBlock s (dataBlockNum (dir.block k)) (store data (i * SIZEOF_DIRENT) 0)
        ((writeInode s dirNum (dir.resized (dir.size - BitVec.ofNat 32 SIZEOF_DIRENT) s.ticks)).1, 0)
      | none => dirRemoveFrom dirNum name n (k + 1) s dir data

def dirRemoveEntry (s : WitFs) (dirNum : Nat) (name : CStr) : WitFs × Int :=
  match readInode s dirNum with
  | (s, none) => (s, -1)
  | (s, some dir) =>
    match kmalloc s with
    | (s, none) => (s, -1)
    | (s, some p) =>
      let r := dirRemoveFrom dirNum name FS_DIRECT_BLOCKS 0 s dir s.heap.junk
      (kfree r.1 p, r.2)

/-- The inode `fs_create` starts from. -/
def newInode (s : WitFs) (type : Word) : Inode :=
  { Inode.zero with mode := type ||| FS_PERM_DEFAULT, created := s.ticks, modified := s.ticks }

/-- The data block of a new directory, cleared if a buffer can be had. -/
def clearDataBlock (s : WitFs) (b : Nat) : WitFs :=
  match kmalloc s with
  | (s, none) => s
  | (s, some p) => kfree (writeBlock s (dataBlockNum (BitVec.ofNat 32 b)) fun _ => 0) p

/-- The end of `fs_create`: write the inode, enter the name, undo on failure. -/
def enterInode (s : WitFs) (name : CStr) (type : Word) (n : Nat) (x : Inode) : WitFs × Int :=
  let s := (writeInode s n x).1
  match dirAddEntry s 0 name n with
  | (s, r) =>
    if r < 0 then
      let s := freeInode s n
      let s := if type = FS_TYPE_DIR ∧ x.block 0 ≠ 0 then freeDataBlock s (x.block 0).toNat else s
      (s, -1)
    else (s, 0)

/-- `fs_create` once the inode number is allocated. -/
def makeInode (s : WitFs) (name : CStr) (type : Word) (n : Nat) : WitFs × Int :=
  let x := newInode s type
  if type = FS_TYPE_DIR then
    match allocDataBlock s with
    | (s, none) => (freeInode s n, -1)
    | (s, some b) => enterInode (clearDataBlock s b) name type n (x.setBlock 0 (BitVec.ofNat 32 b))
  else enterInode s name type n x

def fsCreate (s : WitFs) (path : CStr) (type : Word) : WitFs × Int :=
  if !s.initialized then (s, -1)
  else
    match pathLookup s path with
    | (s, some _) => (s, -1)
    | (s, none) =>
      match allocInode s with
      | (s, none) => (s, -1)
      | (s, some n) => makeInode s (pathName path) type n

/-- The loop of `fs_unlink` over the block pointers, `n` of them from `k` on. -/
def freeBlocksFrom (x : Inode) : (n k : Nat) → WitFs → WitFs
  | 0, _, s => s
  | n + 1, k, s =>
    if x.block k = 0 then s else freeBlocksFrom x n (k + 1) (freeDataBlock s (x.block k).toNat)

def fsUnlink (s : WitFs) (path : CStr) : WitFs × Int :=
  if !s.initialized then (s, -1)
  else
    match pathLookup s path with
    | (s, none) => (s, -1)
    | (s, some n) =>
      match readInode s n with
      | (s, none) => (s, -1)
      | (s, some x) =>
        let s := freeBlocksFrom x FS_DIRECT_BLOCKS 0 s
        let s := freeInode s n
        ((dirRemoveEntry s 0 (pathName path)).1, 0)

/-- The descriptor setup at the end of `fs_open`. -/
def takeDescriptor (s : WitFs) (n : Nat) (flags : Word) : WitFs × Int :=
  match Scan.firstFrom (fun i => !(s.openFiles i).inUse) FS_MAX_OPEN_FILES 0 with
  | none => (s, -1)
  | some fd =>
    ({ s with openFiles := Function.update s.openFiles fd ⟨n, 0, flags, true⟩ }, fd)

def fsOpen (s : WitFs) (path : CStr) (flags : Word) : WitFs × Int :=
  if !s.initialized then (s, -1)
  else
    match pathLookup s path with
    | (s, some n) => takeDescriptor s n flags
    | (s, none) =>
      if flags &&& FS_OPEN_CREATE ≠ 0 then
        match fsCreate s path FS_TYPE_FILE with
        | (s, r) =>
          if r < 0 then (s, -1)
          else
            match pathLookup s path with
            | (s, none) => (s, -1)
            | (s, some n) => takeDescriptor s n flags
      else (s, -1)

def validFd (s : WitFs) (fd : Int) : Bool :=
  decide (0 ≤ fd ∧ fd < FS_MAX_OPEN_FILES) && (s.openFiles fd.toNat).inUse

def fsClose (s : WitFs) (fd : Int) : WitFs × Int :=
  if !validFd s fd then (s, -1)
  else
    let f := s.openFiles fd.toNat
    ({ s with openFiles := Function.update s.openFiles fd.toNat { f with inUse := false } }, 0)

/-- `open_files[fd].position += n`. -/
def advance (s : WitFs) (fd n : Nat) : WitFs :=
  let f := s.openFiles fd
  { s with openFiles :=
      Function.update s.openFiles fd { f with position := (f.position + n) % 2 ^ 32 } }

/-- The bytes one turn of the read and write loops moves: up to the end of the block. -/
def chunk (position left : Nat) : Nat :=
  if left < FS_BLOCK_SIZE - position % FS_BLOCK_SIZE then left
  else FS_BLOCK_SIZE - position % FS_BLOCK_SIZE

/-- The loop of `fs_read`; `done` are the bytes delivered so far. Each turn but the
last ends at a block boundary, so `FS_DIRECT_BLOCKS + 1` turns are all there can be. -/
def readFrom (fd : Nat) (x : Inode) (size : Nat) :
    (turns : Nat) → WitFs → Buffer → (done : List Byte) → WitFs × List Byte
  | 0, s, _, done => (s, done)
  | turns + 1, s, data, done =>
    if done.length < size then
      let position := (s.openFiles fd).position
      let k := position / FS_BLOCK_SIZE
      let toRead := chunk position (size - done.length)
      if FS_DIRECT_BLOCKS ≤ k ∨ x.block k = 0 then (s, done)
      else
        let data := readBlock s (dataBlockNum (x.block k)) data
        let bytes := (List.range toRead).map fun i => data (position % FS_BLOCK_SIZE + i)
        readFrom fd x size turns (advance s fd toRead) data (done ++ bytes)
    else (s, done)

def fsRead (s : WitFs) (fd : Int) (size : Nat) : WitFs × Int × List Byte :=
  if !validFd s fd then (s, -1, [])
  else if (s.openFiles fd.toNat).flags &&& FS_OPEN_READ = 0 then (s, -1, [])
  else
    match readInode s (s.openFiles fd.toNat).inode with
    | (s, none) => (s, -1, [])
    | (s, some x) =>
      let position := (s.openFiles fd.toNat).position
      if x.size.toNat ≤ position then (s, 0, [])
      else
        let size := if x.size.toNat < (position + size) % 2 ^ 32 then x.size.toNat - position else size
        match kmalloc s with
        | (s, none) => (s, -1, [])
        | (s, some p) =>
          let r := readFrom fd.toNat x size (FS_DIRECT_BLOCKS + 1) s s.heap.junk []
          (kfree r.1 p, r.2.length, r.2)

/-- `inode.size` after a write that ended at `position`. -/
def growTo (x : Inode) (position : Nat) : Inode :=
  if x.size.toNat < position then { x with size := BitVec.ofNat 32 position } else x

/-- The end of a turn of `fs_write`: the bytes go into the block at the position, which
moves on, and the size follows it. -/
def writeChunk (fd : Nat) (buf : Buffer) (s : WitFs) (x : Inode) (data : Buffer) (done toWrite : Nat) :
    WitFs × Inode × Buffer :=
  let position := (s.openFiles fd).position
  let data := copy data (position % FS_BLOCK_SIZE) (fun i => buf (done + i)) toWrite
  let s := writeBlock s (dataBlockNum (x.block (position / FS_BLOCK_SIZE))) data
  let s := advance s fd toWrite
  (s, growTo x (s.openFiles fd).position, data)

/-- The loop of `fs_write`; `done` counts the bytes written so far. -/
def writeFrom (fd : Nat) (buf : Buffer) (size : Nat) :
    (turns : Nat) → WitFs → Inode → Buffer → (done : Nat) → WitFs × Inode × Nat
  | 0, s, x, _, done => (s, x, done)
  | turns + 1, s, x, data, done =>
    if done < size then
      let position := (s.openFiles fd).position
      let k := position / FS_BLOCK_SIZE
      let toWrite := chunk position (size - done)
      if FS_DIRECT_BLOCKS ≤ k then (s, x, done)
      else
        match ensureBlock s x k data with
        | (s, none) => (s, x, done)
        | (s, some (x, data)) =>
          let (s, x, data) := writeChunk fd buf s x data done toWrite
          writeFrom fd buf size turns s x data (done + toWrite)
    else (s, x, done)

def fsWrite (s : WitFs) (fd : Int) (buf : Buffer) (size : Nat) : WitFs × Int :=
  if !validFd s fd then (s, -1)
  else if (s.openFiles fd.toNat).flags &&& FS_OPEN_WRITE = 0 then (s, -1)
  else
    match readInode s (s.openFiles fd.toNat).inode with
    | (s, none) => (s, -1)
    | (s, some x) =>
      match kmalloc s with
      | (s, none) => (s, -1)
      | (s, some p) =>
        let r := writeFrom fd.toNat buf size (FS_DIRECT_BLOCKS + 1) s x s.heap.junk 0
        let s := kfree r.1 p
        let x := { r.2.1 with modified := s.ticks }
        ((writeInode s (s.openFiles fd.toNat).inode x).1, r.2.2)

/-- The entry loop of `fs_readdir` over one block; `found` is what has been copied so far. -/
def readdirEntries (data : Buffer) (max : Int) : (n i : Nat) → List Dirent → List Dirent
  | 0, _, found => found
  | n + 1, i, found =>
    if (found.length : Int) < max then
      readdirEntries data max n (i + 1)
        (if direntInode data i ≠ 0 then found ++ [direntAt data i] else found)
    else found

def readdirFrom (s : WitFs) (x : Inode) (max : Int) : (n k : Nat) → Buffer → List Dirent → List Dirent
  | 0, _, _, found => found
  | n + 1, k, data, found =>
    if x.block k ≠ 0 ∧ (found.length : Int) < max then
      let data := readBlock s (dataBlockNum (x.block k)) data
      readdirFrom s x max n (k + 1) data (readdirEntries data max ENTRIES_PER_BLOCK 0 found)
    else found

def fsReaddir (s : WitFs) (path : CStr) (max : Int) : WitFs × Int × List Dirent :=
  if !s.initialized then (s, -1, [])
  else
    match pathLookup s path with
    | (s, none) => (s, -1, [])
    | (s, some n) =>
      match readInode s n with
      | (s, none) => (s, -1, [])
      | (s, some x) =>
        if x.mode &&& FS_TYPE_DIR = 0 then (s, -1, [])
        else
          match kmalloc s with
          | (s, none) => (s, -1, [])
          | (s, some p) =>
            let found := readdirFrom s x max FS_DIRECT_BLOCKS 0 s.heap.junk []
            (kfree s p, found.length, found)

def fsMkdir (s : WitFs) (path : CStr) : WitFs × Int := fsCreate s path FS_TYPE_DIR

def fsRmdir (s : WitFs) (path : CStr) : WitFs × Int := fsUnlink s path

def fsStat (s : WitFs) (path : CStr) : WitFs × Option Inode :=
  if !s.initialized then (s, none)
  else
    match pathLookup s path with
    | (s, none) => (s, none)
    | (s, some n) => readInode s n

def fsExists (s : WitFs) (path : CStr) : WitFs × Int :=
  match pathLookup s path with
  | (s, none) => (s, 0)
  | (s, some _) => (s, 1)

/-- The four values `fs_get_stats` stores. -/
def fsGetStats (s : WitFs) : Word × Word × Word × Word :=
  (s.superblock.totalInodes, s.superblock.freeInodes, s.superblock.totalDataBlocks,
    s.superblock.freeBlocks)

/-- `kmalloc` for a bitmap buffer: the pointer, and the junk it points to. -/
def allocBitmap (s : WitFs) : WitFs × BitmapBuffer :=
  match kmalloc s with
  | (s, p) => (s, ⟨p, s.heap.junk⟩)

def kfreeBitmap (s : WitFs) (b : BitmapBuffer) : WitFs :=
  match b.ptr with
  | none => s
  | some p => kfree s p

/-- Both bitmap buffers freed, the pointers kept: the error exits of `fs_init`. -/
def dropBitmaps (s : WitFs) : WitFs := kfreeBitmap (kfreeBitmap s s.inodeBitmap) s.dataBitmap

/-- The end of `fs_init`: the bitmaps are loaded and no file is open. -/
def loadBitmaps (s : WitFs) : WitFs :=
  { s with
    inodeBitmap := { s.inodeBitmap with
      bytes := readBlock s FS_INODE_BITMAP_BLOCK s.inodeBitmap.bytes }
    dataBitmap := { s.dataBitmap with
      bytes := readBlock s FS_DATA_BITMAP_BLOCK s.dataBitmap.bytes }
    openFiles := fun i =>
      if i < FS_MAX_OPEN_FILES then { s.openFiles i with inUse := false } else s.openFiles i
    initialized := true }

/-- `fs_init` once both bitmap buffers are there. -/
def loadSuperblock (s : WitFs) : WitFs :=
  match kmalloc s with
  | (s, none) => dropBitmaps s
  | (s, some temp) =>
    let data := readBlock s FS_SUPERBLOCK_BLOCK s.heap.junk
    let s := kfree { s with superblock := Superblock.ofBytes data } temp
    if s.superblock.magic ≠ FS_MAGIC then dropBitmaps s else loadBitmaps s

def fsInit (s : WitFs) : WitFs :=
  if !s.disk.initialized then s
  else
    let (s, ib) := allocBitmap s
    let s := { s with inodeBitmap := ib }
    let (s, db) := allocBitmap s
    let s := { s with dataBitmap := db }
    if s.inodeBitmap.ptr.isNone ∨ s.dataBitmap.ptr.isNone then dropBitmaps s else loadSuperblock s

/-- The superblock `fs_format` writes. -/
def formatSuperblock : Superblock where
  magic := FS_MAGIC
  version := FS_VERSION
  blockSize := BitVec.ofNat 32 FS_BLOCK_SIZE
  totalBlocks := 2048
  inodeBitmapBlock := BitVec.ofNat 32 FS_INODE_BITMAP_BLOCK
  dataBitmapBlock := BitVec.ofNat 32 FS_DATA_BITMAP_BLOCK
  inodeTableBlock := BitVec.ofNat 32 FS_INODE_TABLE_BLOCK
  dataBlocksStart := BitVec.ofNat 32 FS_DATA_BLOCKS_START
  totalInodes := BitVec.ofNat 32 FS_MAX_INODES
  totalDataBlocks := BitVec.ofNat 32 FS_MAX_DATA_BLOCKS
  freeInodes := BitVec.ofNat 32 (FS_MAX_INODES - 1)
  freeBlocks := BitVec.ofNat 32 (FS_MAX_DATA_BLOCKS - 1)
  rootInode := 0

/-- One bitmap buffer of `fs_format`: allocated only if there is none yet. -/
def keepBitmap (s : WitFs) (b : BitmapBuffer) : WitFs × BitmapBuffer :=
  if b.ptr.isNone then allocBitmap s else (s, b)

/-- A whole block written through a temporary buffer, skipped when there is none. -/
def writeThroughTemp (s : WitFs) (blockNum : Nat) (data : Buffer) : WitFs :=
  match kmalloc s with
  | (s, none) => s
  | (s, some p) => kfree (writeBlock s blockNum data) p

/-- The writes of `fs_format`: root inode, its data block, superblock and bitmaps. -/
def writeFormat (s : WitFs) : WitFs :=
  let root := { Inode.zero with
    mode := FS_TYPE_DIR ||| FS_PERM_DEFAULT, created := s.ticks, modified := s.ticks }
  let s := (writeInode s 0 root).1
  let s := writeThroughTemp s FS_DATA_BLOCKS_START fun _ => 0
  let s := writeThroughTemp s FS_SUPERBLOCK_BLOCK s.superblock.bytes
  let s := writeBlock s FS_INODE_BITMAP_BLOCK s.inodeBitmap.bytes
  let s := writeBlock s FS_DATA_BITMAP_BLOCK s.dataBitmap.bytes
  { s with initialized := true }

def freshBitmap (b : BitmapBuffer) : BitmapBuffer :=
  { b with bytes := bitmapSet (copy b.bytes 0 (fun _ => 0) FS_BLOCK_SIZE) 0 }

def fsFormat (s : WitFs) : WitFs :=
  if !s.disk.initialized then s
  else
    let (s, ib) := keepBitmap s s.inodeBitmap
    let s := { s with inodeBitmap := ib }
    let (s, db) := keepBitmap s s.dataBitmap
    let s := { s with dataBitmap := db }
    if s.inodeBitmap.ptr.isNone ∨ s.dataBitmap.ptr.isNone then s
    else
      writeFormat { s with
        superblock := formatSuperblock
        inodeBitmap := freshBitmap s.inodeBitmap
        dataBitmap := freshBitmap s.dataBitmap }

end Wittche.Fs
