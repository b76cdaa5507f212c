import Wittche.Lib.Bytes

/-! The RAM disk of `kernel/ramdisk.c` and the on-disk structures of `include/fs.h`.
The disk is byte memory accessed in whole blocks; the packed structures are read
and written as their bytes. Buffers are passed by contents, so the `NULL` checks on
them do not appear. -/

namespace Wittche.Fs
open Bytes

def RAMDISK_SIZE : Nat := 1024 * 1024
def RAMDISK_BLOCK_SIZE : Nat := 512
def RAMDISK_BLOCK_COUNT : Nat := RAMDISK_SIZE / RAMDISK_BLOCK_SIZE

def FS_MAGIC : Word := 0x57495443
def FS_VERSION : Word := 1
def FS_BLOCK_SIZE : Nat := 512
def FS_SUPERBLOCK_BLOCK : Nat := 0
def FS_INODE_BITMAP_BLOCK : Nat := 1
def FS_DATA_BITMAP_BLOCK : Nat := 2
def FS_INODE_TABLE_BLOCK : Nat := 3
def FS_INODE_TABLE_BLOCKS : Nat := 64
def FS_DATA_BLOCKS_START : Nat := 67
def FS_MAX_INODES : Nat := 512
def FS_MAX_DATA_BLOCKS : Nat := 1981
def FS_MAX_FILENAME : Nat := 27
def FS_DIRECT_BLOCKS : Nat := 10
def FS_MAX_FILE_SIZE : Nat := FS_DIRECT_BLOCKS * FS_BLOCK_SIZE
def FS_TYPE_FILE : Word := 0x01
def FS_TYPE_DIR : Word := 0x02
def FS_PERM_READ : Word := 0x04
def FS_PERM_WRITE : Word := 0x02
def FS_PERM_DEFAULT : Word := FS_PERM_READ ||| FS_PERM_WRITE

/-- `ramdisk_t`: once initialised, the sizes are those `ramdisk_init` stores. -/
structure RamDisk where
  data : Buffer
  initialized : Bool
  blockSize : Nat
  blockCount : Nat
  configured : initialized = true →
    blockSize = RAMDISK_BLOCK_SIZE ∧ blockCount = RAMDISK_BLOCK_COUNT

/-- The disk behind `ramdisk_init`. -/
def blankDisk : RamDisk := ⟨fun _ => 0, true, RAMDISK_BLOCK_SIZE, RAMDISK_BLOCK_COUNT, fun _ => ⟨rfl, rfl⟩⟩

def RamDisk.withData (d : RamDisk) (data : Buffer) : RamDisk := { d with data := data }

def ramdiskReadBlock (d : RamDisk) (blockNum : Nat) (buffer : Buffer) : Int × Buffer :=
  if !d.initialized then (-1, buffer)
  else if d.blockCount ≤ blockNum then (-1, buffer)
  else (0, copy buffer 0 (fun i => d.data (blockNum * d.blockSize + i)) d.blockSize)

def ramdiskWriteBlock (d : RamDisk) (blockNum : Nat) (buffer : Buffer) : Int × RamDisk :=
  if !d.initialized then (-1, d)
  else if d.blockCount ≤ blockNum then (-1, d)
  else (0, d.withData (copy d.data (blockNum * d.blockSize) buffer d.blockSize))

/-- `fs_superblock_t` without its reserved tail, which is always zero. -/
structure Superblock where
  magic : Word
  version : Word
  blockSize : Word
  totalBlocks : Word
  inodeBitmapBlock : Word
  dataBitmapBlock : Word
  inodeTableBlock : Word
  dataBlocksStart : Word
  totalInodes : Word
  totalDataBlocks : Word
  freeInodes : Word
  freeBlocks : Word
  rootInode : Word

def Superblock.word (sb : Superblock) : Nat → Word
  | 0 => sb.magic
  | 1 => sb.version
  | 2 => sb.blockSize
  | 3 => sb.totalBlocks
  | 4 => sb.inodeBitmapBlock
  | 5 => sb.dataBitmapBlock
  | 6 => sb.inodeTableBlock
  | 7 => sb.dataBlocksStart
  | 8 => sb.totalInodes
  | 9 => sb.totalDataBlocks
  | 10 => sb.freeInodes
  | 11 => sb.freeBlocks
  | 12 => sb.rootInode
  | _ => 0

def Superblock.bytes (sb : Superblock) : Buffer := ofWords sb.word

def Superblock.ofBytes (b : Buffer) : Superblock where
  magic := load b 0
  version := load b 4
  blockSize := load b 8
  totalBlocks := load b 12
  inodeBitmapBlock := load b 16
  dataBitmapBlock := load b 20
  inodeTableBlock := load b 24
  dataBlocksStart := load b 28
  totalInodes := load b 32
  totalDataBlocks := load b 36
  freeInodes := load b 40
  freeBlocks := load b 44
  rootInode := load b 48

@[ext] structure Inode where
  mode : Word
  size : Word
  uid : Word
  gid : Word
  created : Word
  modified : Word
  blocks : Fin 10 → Word
  reserved : Fin 4 → Word

/-- `sizeof(fs_inode_t)`: six words, the direct blocks, four reserved words, packed. -/
def SIZEOF_INODE : Nat := 4 * 6 + 4 * FS_DIRECT_BLOCKS + 4 * 4

def Inode.zero : Inode := ⟨0, 0, 0, 0, 0, 0, fun _ => 0, fun _ => 0⟩

def Inode.block (x : Inode) (k : Nat) : Word := if h : k < 10 then x.blocks ⟨k, h⟩ else 0

def Inode.setBlock (x : Inode) (k : Nat) (b : Word) : Inode :=
  { x with blocks := fun i => if i.val = k then b else x.blocks i }

def Inode.word (x : Inode) : Nat → Word
  | 0 => x.mode
  | 1 => x.size
  | 2 => x.uid
  | 3 => x.gid
  | 4 => x.created
  | 5 => x.modified
  | k + 6 => if h : k < 10 then x.blocks ⟨k, h⟩
    else if h : k - 10 < 4 then x.reserved ⟨k - 10, h⟩ else 0

def Inode.bytes (x : Inode) : Buffer := ofWords x.word

def Inode.ofBytes (b : Buffer) : Inode where
  mode := load b 0
  size := load b 4
  uid := load b 8
  gid := load b 12
  created := load b 16
  modified := load b 20
  blocks := fun i => load b (24 + 4 * i.val)
  reserved := fun i => load b (64 + 4 * i.val)

/-- `sizeof(fs_dirent_t)`: the inode number and the name with its NUL. -/
def SIZEOF_DIRENT : Nat := 4 + (FS_MAX_FILENAME + 1)

@[ext] structure Dirent where
  inode : Word
  name : Fin 28 → Byte

/-- `entries[i].inode` in a directory block. -/
def direntInode (data : Buffer) (i : Nat) : Word := load data (i * SIZEOF_DIRENT)

/-- `entries[i].name`, as the pointer `strcmp` gets. -/
def direntName (data : Buffer) (i : Nat) : Buffer := fun j => data (i * SIZEOF_DIRENT + 4 + j)

def direntAt (data : Buffer) (i : Nat) : Dirent := ⟨direntInode data i, fun j => direntName data i j.val⟩

theorem block_of_ge {x : Inode} {k : Nat} (h : 10 ≤ k) : x.block k = 0 := dif_neg (by omega)

theorem block_setBlock {x : Inode} {k : Nat} (h : k < 10) (b : Word) (j : Nat) :
    (x.setBlock k b).block j = if j = k then b else x.block j := by
  by_cases hj : j < 10
  · simp [Inode.block, Inode.setBlock, hj]
  · rw [block_of_ge (by omega), block_of_ge (by omega), if_neg (by omega)]

theorem ofBytes_bytes (x : Inode) : Inode.ofBytes x.bytes = x := by
  have word : ∀ k, load x.bytes (4 * k) = x.word k := load_ofWords x.word
  refine Inode.ext (word 0) (word 1) (word 2) (word 3) (word 4) (word 5) ?_ ?_
  · funext i
    have entry := word (i.val + 6)
    rw [show 4 * (i.val + 6) = 24 + 4 * i.val by omega] at entry
    simp [Inode.ofBytes, entry, Inode.word]
  · funext i
    have entry := word (i.val + 10 + 6)
    rw [show 4 * (i.val + 10 + 6) = 64 + 4 * i.val by omega] at entry
    have behind : ¬i.val + 10 < 10 := by omega
    simp only [Inode.ofBytes, entry, Inode.word, behind, dif_neg, not_false_iff]
    simp

theorem ofBytes_congr {b c : Buffer} (h : ∀ i < SIZEOF_INODE, b i = c i) :
    Inode.ofBytes b = Inode.ofBytes c := by
  have word : ∀ k, k + 4 ≤ SIZEOF_INODE → load b k = load c k := by
    intro k hk
    exact load_congr fun i hi => h _ (by omega)
  have size : SIZEOF_INODE = 80 := rfl
  have direct : ∀ i : Fin 10, load b (24 + 4 * i.val) = load c (24 + 4 * i.val) :=
    fun i => word _ (by omega)
  have tail : ∀ i : Fin 4, load b (64 + 4 * i.val) = load c (64 + 4 * i.val) :=
    fun i => word _ (by omega)
  simp only [Inode.ofBytes, direct, tail, word 0 (by omega), word 4 (by omega), word 8 (by omega),
    word 12 (by omega), word 16 (by omega), word 20 (by omega)]

theorem superblock_ofBytes_bytes (sb : Superblock) : Superblock.ofBytes sb.bytes = sb := by
  have word : ∀ k, load sb.bytes (4 * k) = sb.word k := load_ofWords sb.word
  have entries := And.intro (word 0) (And.intro (word 1) (And.intro (word 2) (And.intro (word 3)
    (And.intro (word 4) (And.intro (word 5) (And.intro (word 6) (And.intro (word 7)
    (And.intro (word 8) (And.intro (word 9) (And.intro (word 10) (And.intro (word 11)
    (word 12))))))))))))
  simp only [Nat.reduceMul] at entries
  simp only [Superblock.ofBytes, entries, Superblock.word]

theorem superblock_ofBytes_congr {b c : Buffer} (h : ∀ i < 52, b i = c i) :
    Superblock.ofBytes b = Superblock.ofBytes c := by
  have word : ∀ k, k + 4 ≤ 52 → load b k = load c k := by
    intro k hk
    exact load_congr fun i hi => h _ (by omega)
  simp only [Superblock.ofBytes, word 0 (by omega), word 4 (by omega), word 8 (by omega),
    word 12 (by omega), word 16 (by omega), word 20 (by omega), word 24 (by omega),
    word 28 (by omega), word 32 (by omega), word 36 (by omega), word 40 (by omega),
    word 44 (by omega), word 48 (by omega)]

end Wittche.Fs
