import Wittche.Fs.Counters
import Wittche.Fs.Persistence

/-! Mounting again. `fs_init` finds on the disk every file and both bitmaps as they are in
memory, and the superblock as `fs_format` wrote it. The free counters in memory are the
only thing that gets lost. -/

namespace Wittche.Fs
open Bytes CString Execution

section Bitmaps

theorem bitmapTest_congr {a b : Buffer} (same : ∀ i < 512, b i = a i) {n : Nat} (hn : n < 8 * FS_BLOCK_SIZE) :
    bitmapTest b n = bitmapTest a n := by
  rw [bitmapTest, bitmapTest, Bitmap.test, Bitmap.test, same]
  simp only [FS_BLOCK_SIZE] at hn
  omega

theorem clearBits_congr {a b : Buffer} (same : ∀ i < 512, b i = a i) {n : Nat} (hn : n ≤ 8 * FS_BLOCK_SIZE) :
    clearBits b n = clearBits a n :=
  Bitmap.clearCount_congr fun i hi => bitmapTest_congr same (n := i) (by omega)

theorem dataBlock_bit {b : Nat} (h : DataBlock b) : b < 8 * FS_BLOCK_SIZE := by
  have lt := h.2
  simp only [FS_MAX_DATA_BLOCKS, FS_BLOCK_SIZE] at lt ⊢
  omega

theorem Consistent.bitmaps {V : View} {ib db ib' db' : Buffer} {hi hb : Nat → Prop}
    (c : Consistent V ib db hi hb) (inodes : ∀ i < 512, ib' i = ib i) (blocks : ∀ i < 512, db' i = db i) :
    Consistent V ib' db' hi hb := by
  refine { c with inodes := ⟨fun n hn => ?_, c.inodes.apart⟩, blocks := ⟨fun b hb => ?_, c.blocks.apart⟩, block0 := ?_ }
  · rw [bitmapTest_congr inodes hn]
    exact c.inodes.iff n hn
  · rw [bitmapTest_congr blocks (dataBlock_bit hb)]
    exact c.blocks.iff b hb
  · rw [bitmapTest_congr blocks (by decide)]
    exact c.block0

end Bitmaps

section Views

variable {s t : WitFs} {leaked leaked' : Nat → Prop}

theorem Sound.lookup_view (h : Sound s leaked) (path : CStr) : (Fs.pathLookup s path).2 =
    if (pathName path).get 0 = 0 then some 0 else (s.view.find (pathName path)).map s.view.ent := by
  split
  next root => rw [pathLookup_empty root]
  next named => rw [pathLookup_eq h.ready h.books.cons named]

theorem Sound.stat_view (h : Sound s leaked) (path : CStr) :
    (fsStat s path).2 = (Fs.pathLookup s path).2.map s.view.inode := by
  obtain ⟨found, looked⟩ := h.pathLookup path
  rw [fsStat, h.on, Bool.not_true, if_neg Bool.false_ne_true, looked]
  cases found with
  | none => rfl
  | some n => simp only [readInode_view h.ready (h.books.cons.owner_lt (h.lookup_owner looked).1), Option.map_some]

/-- A client reads the file a path names: descriptor 0 is closed and the file opened. -/
def readFile (s : WitFs) (path : CStr) (size : Nat) : Int × List Byte :=
  match fsOpen (fsClose s 0).1 path FS_OPEN_READ with
  | (s, fd) => (fsRead s fd size).2

theorem fsClose_files (s : WitFs) (fd : Int) : ∃ files, (fsClose s fd).1 = { s with openFiles := files } ∧
    (fd = 0 → (files 0).inUse = false) := by
  rw [fsClose]
  split
  next shut =>
    refine ⟨s.openFiles, rfl, ?_⟩
    rintro rfl
    simpa [validFd, FS_MAX_OPEN_FILES] using shut
  next =>
    refine ⟨_, rfl, ?_⟩
    rintro rfl
    simp

theorem takeDescriptor_first {n : Nat} {flags : Word} (free : (s.openFiles 0).inUse = false) :
    takeDescriptor s n flags = ({ s with openFiles := Function.update s.openFiles 0 ⟨n, 0, flags, true⟩ }, 0) := by
  have first : Scan.firstFrom (fun i => !(s.openFiles i).inUse) FS_MAX_OPEN_FILES 0 = some 0 := by
    simp [FS_MAX_OPEN_FILES, Scan.firstFrom, free]
  rw [takeDescriptor, first]
  rfl

theorem Sound.readFile_none (h : Sound s leaked) {path : CStr} (looked : (Fs.pathLookup s path).2 = none)
    (size : Nat) : readFile s path size = (-1, []) := by
  obtain ⟨files, eq, -⟩ := fsClose_files s 0
  have here := h.withFiles files
  have same : (Fs.pathLookup { s with openFiles := files } path).2 = none := by
    rw [here.lookup_view, ← looked, h.lookup_view]
    rfl
  have closed : ∀ u : WitFs, ¬Usable u (-1) FS_OPEN_READ := by
    rintro u ⟨valid, -⟩
    simp [validFd] at valid
  rw [readFile, eq]
  rcases fsOpen_cases here path FS_OPEN_READ with ⟨n, found, -⟩ | ⟨-, eq | ⟨create, -⟩⟩
  · rw [found] at same
    exact absurd same (by simp)
  · rw [eq]
    dsimp only
    rw [fsRead_unusable (closed _)]
  · exact absurd create (by decide)

theorem Sound.readFile_some (h : Sound s leaked) {path : CStr} {n : Nat}
    (looked : (Fs.pathLookup s path).2 = some n) (size : Nat) :
    ∃ len : Nat, readFile s path size = ((len : Int), s.view.bytesAt n 0 len) ∧
      len ≤ readSize (s.view.inode n).size.toNat 0 size ∧ (∀ i < len, s.view.blk n (i / 512) ≠ 0) ∧
      (len < readSize (s.view.inode n).size.toNat 0 size → s.view.blk n (len / 512) = 0) := by
  obtain ⟨files, eq, shut⟩ := fsClose_files s 0
  have here := h.withFiles files
  have same : (Fs.pathLookup { s with openFiles := files } path).2 = some n := by
    rw [here.lookup_view, ← looked, h.lookup_view]
    rfl
  rw [readFile, eq]
  rcases fsOpen_cases here path FS_OPEN_READ with ⟨m, found, eq⟩ | ⟨found, -⟩
  · rw [found] at same
    obtain rfl : m = n := Option.some.inj same
    have own := (here.lookup_owner found).1
    rw [eq, takeDescriptor_first (shut rfl)]
    have usable : Usable { s with openFiles := Function.update files 0 ⟨m, 0, FS_OPEN_READ, true⟩ } 0
        FS_OPEN_READ := ⟨rfl, (by decide : FS_OPEN_READ &&& FS_OPEN_READ ≠ 0)⟩
    have ready : Ready { s with openFiles := Function.update files 0 ⟨m, 0, FS_OPEN_READ, true⟩ } :=
      ⟨h.ready.disk, h.ready.heap⟩
    obtain ⟨len, read, le, filled, stop⟩ := fsRead_spec ready usable (n := m) (p := 0) rfl rfl
      (h.books.cons.owner_lt own) (fun k => h.books.cons.blkLt m k own) size
    simp only [Nat.zero_add] at filled stop
    exact ⟨len, congrArg Prod.snd read, le, filled, stop⟩
  · rw [found] at same
    exact absurd same (by simp)

theorem readFile_congr (h : Sound s leaked) (h' : Sound t leaked') (view : t.view = s.view) (path : CStr)
    (size : Nat) : readFile t path size = readFile s path size := by
  have looked : (pathLookup t path).2 = (pathLookup s path).2 := by
    rw [h.lookup_view, h'.lookup_view, view]
  cases found : (pathLookup s path).2 with
  | none => rw [h.readFile_none found, h'.readFile_none (looked.trans found)]
  | some n =>
    obtain ⟨len, eq, le, filled, stop⟩ := h.readFile_some found size
    obtain ⟨len', eq', le', filled', stop'⟩ := h'.readFile_some (looked.trans found) size
    rw [view] at eq' le' filled' stop'
    -- Both reads end at the first missing block, or at the size.
    have same : len' = len := by
      rcases Nat.lt_trichotomy len len' with short | same | long
      · exact absurd (stop (by omega)) (filled' len short)
      · exact same.symm
      · exact absurd (stop' (by omega)) (filled len' long)
    rw [eq, eq', same]

end Views

/-- The two bitmaps, and what path lookup, `fs_stat` and reading find, are the same. -/
structure SameFiles (s t : WitFs) : Prop where
  inodeBitmap : ∀ i < FS_BLOCK_SIZE, t.inodeBitmap.bytes i = s.inodeBitmap.bytes i
  dataBitmap : ∀ i < FS_BLOCK_SIZE, t.dataBitmap.bytes i = s.dataBitmap.bytes i
  lookup : ∀ path, (pathLookup t path).2 = (pathLookup s path).2
  stat : ∀ path, (fsStat t path).2 = (fsStat s path).2
  reads : ∀ path size, readFile t path size = readFile s path size

/-- The first three blocks of the disk encode the superblock and the bitmaps in memory. -/
structure Encoded (s : WitFs) : Prop where
  superblock : Superblock.ofBytes s.disk.data = s.superblock
  inodeBitmap : ∀ i < FS_BLOCK_SIZE, s.disk.data (FS_INODE_BITMAP_BLOCK * FS_BLOCK_SIZE + i) = s.inodeBitmap.bytes i
  dataBitmap : ∀ i < FS_BLOCK_SIZE, s.disk.data (FS_DATA_BITMAP_BLOCK * FS_BLOCK_SIZE + i) = s.dataBitmap.bytes i

/-- Mounting again loses nothing. -/
structure Lossless (s : WitFs) : Prop where
  files : SameFiles s (fsInit s)
  stats : fsGetStats (fsInit s) = fsGetStats s
  encoded : Encoded s

section Mounting

variable {s t : WitFs} {d : Word × Word}

/-- Up to the counters, which are `d` away, a tidy state that the disk is in step with. -/
structure Intact (d : Word × Word) (s : WitFs) : Prop where
  tidy : Tidy (recount d s)
  closed : RootClosed s
  synced : Synced s

theorem Synced.onDisk (h : Synced s) : Superblock.ofBytes s.disk.data = formatSuperblock := by
  rw [← superblock_ofBytes_bytes formatSuperblock]
  exact superblock_ofBytes_congr fun i hi => h.superblock i (by omega)

theorem Synced.mounts (h : Synced s) : Mounts s (fsInit s) :=
  (fsInit_mounts h.ready (by rw [h.onDisk]; rfl)).1

theorem Mounts.view_eq (h : Mounts s t) : t.view = s.view := by
  rw [WitFs.view, h.disk]
  rfl

theorem Mounts.inodes (h : Mounts s t) (synced : Synced s) :
    ∀ i < 512, t.inodeBitmap.bytes i = s.inodeBitmap.bytes i := fun i hi =>
  (h.inodeBitmap i hi).trans (synced.inodeBitmap i hi)

theorem Mounts.blocks (h : Mounts s t) (synced : Synced s) :
    ∀ i < 512, t.dataBitmap.bytes i = s.dataBitmap.bytes i := fun i hi =>
  (h.dataBitmap i hi).trans (synced.dataBitmap i hi)

theorem Mounts.synced (h : Mounts s t) (synced : Synced s) : Synced t := by
  refine ⟨⟨?_, h.pending⟩, ?_, fun i hi => ?_, fun i hi => ?_, ?_, ?_⟩
  · rw [h.disk]
    exact synced.ready.disk
  · rw [h.disk]
    exact synced.superblock
  · rw [h.disk, h.inodeBitmap i hi]
  · rw [h.disk, h.dataBitmap i hi]
  · rw [h.superblock, synced.onDisk]
  · rw [h.view_eq]
    exact synced.rootLow

/-- The counters of `fs_format` brought up to those in memory, which are `d` away. -/
def mountGap (d : Word × Word) (s : WitFs) : Word × Word :=
  (s.superblock.freeInodes + d.1 - formatSuperblock.freeInodes,
    s.superblock.freeBlocks + d.2 - formatSuperblock.freeBlocks)

theorem Mounts.recount (h : Mounts s t) (synced : Synced s) :
    (recount (mountGap d s) t).superblock.freeInodes = (recount d s).superblock.freeInodes ∧
      (recount (mountGap d s) t).superblock.freeBlocks = (recount d s).superblock.freeBlocks := by
  have stored : t.superblock = formatSuperblock := h.superblock.trans synced.onDisk
  simp only [Fs.recount, stored, mountGap]
  exact ⟨by bv_omega, by bv_omega⟩

theorem Synced.remount (h : Synced s) {leaked stale stale' : Nat → Prop} (inv : Inv (Fs.recount d s) leaked stale) :
    Inv (Fs.recount (mountGap d s) (fsInit s)) leaked stale' := by
  have mounts := h.mounts
  have unused : ∀ fd < FS_MAX_OPEN_FILES, ¬((fsInit s).openFiles fd).inUse = true := by
    intro fd lt used
    rw [mounts.shut fd lt] at used
    exact Bool.noConfusion used
  have synced := mounts.synced h
  have books := inv.sound.books
  obtain ⟨inodes, blocks⟩ := mounts.recount (d := d) h
  refine ⟨⟨⟨synced.ready.disk, synced.ready.heap⟩, mounts.on, ⟨?_, ?_, ?_⟩, ?_⟩, ?_, ?_⟩
  · have cons := books.cons.bitmaps (mounts.inodes h) (mounts.blocks h)
    change Consistent s.view _ _ _ _ at cons
    rw [← mounts.view_eq] at cons
    exact cons
  · rw [inodes, books.freeInodes]
    exact (clearBits_congr (mounts.inodes h) (by decide)).symm
  · rw [blocks, books.freeBlocks]
    exact (clearBits_congr (mounts.blocks h) (by decide)).symm
  · have sized := inv.sound.sized
    change Sized s.view at sized
    rw [← mounts.view_eq] at sized
    exact sized
  · exact fun fd lt used => absurd used (unused fd lt)
  · exact fun fd lt used => absurd used (unused fd lt)

theorem Mounts.rootClosed (h : Mounts s t) : RootClosed t := by
  intro fd lt used
  rw [h.shut fd lt] at used
  exact Bool.noConfusion used

theorem Intact.remount (h : Intact d s) : Intact (mountGap d s) (fsInit s) :=
  ⟨h.synced.remount h.tidy, h.synced.mounts.rootClosed, h.synced.mounts.synced h.synced⟩

theorem readFile_recount (d : Word × Word) (s : WitFs) (path : CStr) (size : Nat) :
    readFile (recount d s) path size = readFile s path size := by
  rw [readFile, readFile, fsClose_recount]
  dsimp only
  rw [fsOpen_recount]
  dsimp only
  rw [fsRead_recount]

theorem Intact.sameFiles (h : Intact d s) : SameFiles s (fsInit s) := by
  have mounts := h.synced.mounts
  have view : (recount (mountGap d s) (fsInit s)).view = (recount d s).view := mounts.view_eq
  have sound := h.tidy.sound
  have sound' := h.remount.tidy.sound
  have lookup : ∀ path, (pathLookup (fsInit s) path).2 = (pathLookup s path).2 := by
    intro path
    have same : (pathLookup (recount (mountGap d s) (fsInit s)) path).2 = (pathLookup (recount d s) path).2 := by
      rw [sound.lookup_view, sound'.lookup_view, view]
    rw [pathLookup_recount, pathLookup_recount] at same
    exact same
  refine ⟨mounts.inodes h.synced, mounts.blocks h.synced, lookup, fun path => ?_, fun path size => ?_⟩
  · have stat := sound.stat_view path
    have stat' := sound'.stat_view path
    rw [fsStat_recount, pathLookup_recount] at stat stat'
    rw [stat, stat', lookup, view]
  · rw [← readFile_recount d s, ← readFile_recount (mountGap d s) (fsInit s)]
    exact readFile_congr sound sound' view path size

theorem recount_zero (s : WitFs) : recount (0, 0) s = s := by
  simp [recount]

theorem Formatted.synced (h : Formatted s) (disk : t.disk = s.disk) (pending : t.heap.pending = [])
    (superblock : t.superblock = formatSuperblock)
    (inodes : ∀ i < 512, t.inodeBitmap.bytes i = s.disk.data (512 + i))
    (blocks : ∀ i < 512, t.dataBitmap.bytes i = s.disk.data (1024 + i)) : Synced t := by
  refine ⟨⟨?_, pending⟩, ?_, fun i hi => ?_, fun i hi => ?_, ?_, ?_⟩
  · rw [disk]
    exact h.ready.disk
  · rw [disk]
    exact h.superblock
  · rw [disk, inodes i hi]
  · rw [disk, blocks i hi]
  · rw [superblock]
  · intro k
    have empty := h.rootEmpty k
    rw [WitFs.view] at empty ⊢
    rw [disk, empty]
    decide

theorem mounted_intact (ready : Ready s) : Intact (0, 0) (mounted s) := by
  have formatted := fsFormat_formatted ready
  have blank := mount_blank ready
  have mounts := (fsInit_mounts formatted.ready (by rw [formatted.onDisk]; rfl)).1
  refine ⟨?_, blank.rootClosed, ?_⟩
  · rw [recount_zero]
    exact blank.tidy
  · exact formatted.synced mounts.disk mounts.pending (mounts.superblock.trans formatted.onDisk)
      mounts.inodeBitmap mounts.dataBitmap

/-- No descriptor is in use. -/
def AllShut (s : WitFs) : Prop := ∀ fd < FS_MAX_OPEN_FILES, (s.openFiles fd).inUse = false

theorem fsFormat_intact (ready : Ready s) (shut : AllShut s) : Intact (0, 0) (fsFormat s) := by
  have formatted := fsFormat_formatted ready
  obtain ⟨on, superblock, files, inodes, blocks⟩ := fsFormat_memory ready
  have blank : Blank (fsFormat s) := by
    refine formatted.blank rfl formatted.ready.heap on superblock inodes blocks ?_
    rw [files]
    exact shut
  refine ⟨?_, blank.rootClosed, formatted.synced rfl formatted.ready.heap superblock inodes blocks⟩
  rw [recount_zero]
  exact blank.tidy

/-- Calls that keep off the root and off open files; the disk is formatted with no file
open. -/
def SeparateVolume (s : WitFs) : VolumeOp → Prop
  | .call op => Separate s op
  | .fsFormat => AllShut s
  | .fsInit => True

theorem Separate.recount {op : FsOp} (ok : Separate s op) (d : Word × Word) : Separate (Fs.recount d s) op := by
  have shut : ∀ path, NotOpen s path → NotOpen (Fs.recount d s) path := by
    intro path shut fd lt used names
    refine shut fd lt used ?_
    rw [Names, pathLookup_recount] at names
    exact names
  cases op with
  | fsUnlink path => exact ⟨ok.1, shut path ok.2⟩
  | fsRmdir path => exact ⟨ok.1, shut path ok.2⟩
  | _ => exact ok

theorem synced_recount (d : Word × Word) (s : WitFs) : Synced (recount d s) ↔ Synced s := by
  constructor
  · intro h
    refine ⟨⟨h.ready.disk, h.ready.heap⟩, h.superblock, h.inodeBitmap, h.dataBitmap, ?_, h.rootLow⟩
    exact congrArg (fun sb => { sb with
      freeInodes := s.superblock.freeInodes, freeBlocks := s.superblock.freeBlocks }) h.fixed
  · intro h
    refine ⟨⟨h.ready.disk, h.ready.heap⟩, h.superblock, h.inodeBitmap, h.dataBitmap, ?_, h.rootLow⟩
    exact congrArg (fun sb => { sb with
      freeInodes := s.superblock.freeInodes + d.1, freeBlocks := s.superblock.freeBlocks + d.2 }) h.fixed

theorem Intact.call (h : Intact d s) {op : FsOp} (ok : Separate s op) : Intact d (s.step op) := by
  have closed : RootClosed (recount d s) := h.closed
  have next := separate_step ⟨h.tidy, closed⟩ (ok.recount d)
  have synced := ((synced_recount d s).mpr h.synced).step h.tidy op
  rw [step_recount] at next synced
  exact ⟨next.1, next.2, (synced_recount d _).mp synced⟩

/-- Without `fs_init` the counters in memory stay right. -/
theorem Intact.step (h : Intact d s) {op : VolumeOp} (ok : SeparateVolume s op) :
    ∃ d', Intact d' (s.volumeStep op) ∧ (d = (0, 0) → op ≠ .fsInit → d' = (0, 0)) := by
  cases op with
  | call op => exact ⟨d, h.call ok, fun zero _ => zero⟩
  | fsFormat => exact ⟨(0, 0), fsFormat_intact h.synced.ready ok, fun _ _ => rfl⟩
  | fsInit => exact ⟨mountGap d s, h.remount, fun _ other => absurd rfl other⟩

theorem Intact.run (h : Intact d s) {ops : List VolumeOp}
    (run : Exec SeparateVolume WitFs.volumeStep s ops t) :
    ∃ d', Intact d' t ∧ (d = (0, 0) → .fsInit ∉ ops → d' = (0, 0)) := by
  induction run generalizing d with
  | nil s => exact ⟨d, h, fun zero _ => zero⟩
  | cons allowed rest ih =>
    obtain ⟨d1, next, right⟩ := h.step allowed
    obtain ⟨d2, last, right'⟩ := ih next
    refine ⟨d2, last, fun zero none => ?_⟩
    rw [List.mem_cons, not_or] at none
    exact right' (right zero (Ne.symm none.1)) none.2

end Mounting

section Stats

variable {s : WitFs} {d : Word × Word}

/-- The counters in memory are those `fs_format` stored. -/
def FormatCounters (s : WitFs) : Prop :=
  s.superblock.freeInodes = formatSuperblock.freeInodes ∧ s.superblock.freeBlocks = formatSuperblock.freeBlocks

theorem Synced.superblock_eq_iff (h : Synced s) : s.superblock = formatSuperblock ↔ FormatCounters s := by
  constructor
  · intro same
    rw [FormatCounters, same]
    exact ⟨rfl, rfl⟩
  · rintro ⟨inodes, blocks⟩
    rw [h.fixed, inodes, blocks]

theorem Intact.lossless_iff (h : Intact d s) : Lossless s ↔ FormatCounters s := by
  have mounts := h.synced.mounts
  have stored : (fsInit s).superblock = formatSuperblock := mounts.superblock.trans h.synced.onDisk
  constructor
  · intro lossless
    rw [← h.synced.superblock_eq_iff, ← lossless.encoded.superblock]
    exact h.synced.onDisk
  · intro counters
    have same := h.synced.superblock_eq_iff.mpr counters
    refine ⟨h.sameFiles, ?_, ⟨h.synced.onDisk.trans same.symm, h.synced.inodeBitmap, h.synced.dataBitmap⟩⟩
    rw [fsGetStats, fsGetStats, stored, same]

theorem Intact.stats_iff (h : Intact d s) : fsGetStats (fsInit s) = fsGetStats s ↔ FormatCounters s := by
  have stored : (fsInit s).superblock = formatSuperblock := h.synced.mounts.superblock.trans h.synced.onDisk
  refine ⟨fun same => ?_, fun counters => (h.lossless_iff.mpr counters).stats⟩
  rw [fsGetStats, fsGetStats, stored] at same
  simp only [Prod.mk.injEq] at same
  exact ⟨same.2.1.symm, same.2.2.2.symm⟩

/-- The root directory has no data block: nothing has been created since `fs_format`. -/
def NothingCreated (s : WitFs) : Prop := (s.view.inode 0).block 0 = 0

/-- A right counter is one below the number of bits when bit 0 alone is set. -/
theorem counter_eq_iff {bitmap : Buffer} {free : Word} {n : Nat} (pos : 0 < n) (small : n < 2 ^ 32)
    (count : free.toNat = clearBits bitmap n) (first : bitmapTest bitmap 0 = true) :
    free = BitVec.ofNat 32 (n - 1) ↔ ∀ i < n, i ≠ 0 → bitmapTest bitmap i = false := by
  rw [← BitVec.toNat_inj, BitVec.toNat_ofNat, Nat.mod_eq_of_lt (by omega), count]
  exact Bitmap.clearCount_eq_pred_iff pos first

theorem NothingCreated.owner {V : View} {ib db : Buffer} {hi hb : Nat → Prop} (c : Consistent V ib db hi hb)
    (none : V.blk 0 0 = 0) : (∀ k, V.blk 0 k = 0) ∧ ∀ n, V.Owner n ↔ n = 0 := by
  have blks : ∀ k, V.blk 0 k = 0 := by
    intro k
    by_contra used
    have index : 0 < k := by
      rcases Nat.eq_zero_or_pos k with rfl | pos
      · exact absurd none used
      · exact pos
    exact c.shape 0 0 k (owner_root V) used index none
  refine ⟨blks, fun n => ⟨?_, Or.inl⟩⟩
  rintro (zero | ⟨e, rfl⟩)
  · exact zero
  · simp [View.ent, blks]

/-- With right counters, they are those of `fs_format` until the first file is created. -/
theorem Tidy.formatCounters_iff (h : Tidy s) : FormatCounters s ↔ NothingCreated s := by
  have books := h.sound.books
  have c := books.cons
  have bit0 : bitmapTest s.inodeBitmap.bytes 0 = true := (c.inodes.iff 0 (by decide)).mpr (Or.inl (owner_root _))
  have inodes : s.superblock.freeInodes = formatSuperblock.freeInodes ↔
      ∀ n < FS_MAX_INODES, n ≠ 0 → bitmapTest s.inodeBitmap.bytes n = false :=
    counter_eq_iff (by decide) (by decide) books.freeInodes bit0
  have blocks : s.superblock.freeBlocks = formatSuperblock.freeBlocks ↔
      ∀ b < FS_MAX_DATA_BLOCKS, b ≠ 0 → bitmapTest s.dataBitmap.bytes b = false :=
    counter_eq_iff (by decide) (by decide) books.freeBlocks c.block0
  rw [FormatCounters, inodes, blocks, NothingCreated, blk_word]
  constructor
  · rintro ⟨-, clear⟩
    by_contra used
    have taken := (c.blocks.iff _ (c.taken_lt (owner_root _) used)).mpr (Or.inl ⟨0, 0, owner_root _, rfl⟩)
    rw [clear _ (c.blkLt 0 0 (owner_root _)) used] at taken
    exact Bool.noConfusion taken
  · intro none
    obtain ⟨blks, owner⟩ := NothingCreated.owner c none
    refine ⟨fun n lt ne => ?_, fun b lt ne => ?_⟩
    · rw [← Bool.not_eq_true, c.inodes.iff n (inode_bit lt), owner, or_false]
      exact ne
    · rw [← Bool.not_eq_true, c.blocks.iff b ⟨ne, lt⟩, or_false]
      rintro ⟨n, k, own, rfl⟩
      rw [(owner n).mp own] at ne
      exact ne (blks k)

end Stats

/-- In every state of a run, mounting again finds the files and the bitmaps as they were.
It finds the counters as they were exactly when they are those `fs_format` stored: in a
run without another `fs_init`, while nothing has been created. -/
theorem remount_lossless_iff (s0 s : WitFs) (ops : List VolumeOp) (ready : Ready s0)
    (run : Exec SeparateVolume WitFs.volumeStep (mounted s0) ops s) :
    SameFiles s (fsInit s) ∧ (fsGetStats (fsInit s) = fsGetStats s ↔ FormatCounters s) ∧
      (Lossless s ↔ FormatCounters s) ∧ (.fsInit ∉ ops → (Lossless s ↔ NothingCreated s)) := by
  obtain ⟨d, intact, right⟩ := (mounted_intact ready).run run
  refine ⟨intact.sameFiles, intact.stats_iff, intact.lossless_iff, fun none => ?_⟩
  have tidy := intact.tidy
  rw [right rfl none, recount_zero] at tidy
  exact intact.lossless_iff.trans tidy.formatCounters_iff

/-- A run that formats and mounts the disk once more before `/a` is created. -/
theorem remount_lossless_iff_small :
    SameFiles ((((mounted powerOn).volumeStep .fsFormat).volumeStep .fsInit).volumeStep
        (.call (.fsCreate pathA FS_TYPE_FILE)))
      (fsInit ((((mounted powerOn).volumeStep .fsFormat).volumeStep .fsInit).volumeStep
        (.call (.fsCreate pathA FS_TYPE_FILE)))) :=
  (remount_lossless_iff powerOn _ [.fsFormat, .fsInit, .call (.fsCreate pathA FS_TYPE_FILE)] ⟨rfl, rfl⟩
    (.cons (mount_blank (s := powerOn) ⟨rfl, rfl⟩).shut (.cons trivial
      (.cons (show NonRoot pathA by decide) (.nil _))))).1

/-- After one `fs_create` the next `fs_init` forgets that an inode and a block are taken. -/
theorem remount_forgets_counters :
    ¬∀ s0 s ops, Ready s0 → Exec SeparateVolume WitFs.volumeStep (mounted s0) ops s → Lossless s := by
  intro law
  have run : Exec SeparateVolume WitFs.volumeStep (mounted powerOn) [.call (.fsCreate pathA FS_TYPE_FILE)]
      ((mounted powerOn).volumeStep (.call (.fsCreate pathA FS_TYPE_FILE))) :=
    .cons (show NonRoot pathA by decide) (.nil _)
  have lossless := law powerOn _ _ ⟨rfl, rfl⟩ run
  have before : ((mounted powerOn).step (.fsCreate pathA FS_TYPE_FILE)).superblock.freeInodes = 510 := by
    decide +kernel
  have after : (fsInit ((mounted powerOn).step (.fsCreate pathA FS_TYPE_FILE))).superblock.freeInodes = 511 := by
    decide +kernel
  have same := congrArg (fun stats => stats.2.1) lossless.stats
  exact absurd (after.symm.trans (same.trans before)) (by decide)

end Wittche.Fs
