import Wittche.Fs.Runs

/-! What the writes of `fs.c` do to the head of the disk and to the mode words.
The head is the superblock and the two bitmap blocks. Each allocation and each release
writes its bitmap back at once; the superblock is written by `fs_format` only. Mode
words change where `fs_create` writes the inode of a new file. -/

namespace Wittche.Fs
open Bytes CString

def Inode.Low (x : Inode) : Prop := ∀ k, (x.block k).toNat < FS_MAX_DATA_BLOCKS

/-- The disk carries the superblock of `fs_format` and the bitmaps as they are in memory,
and the superblock in memory differs from it in the counters at most. -/
structure Synced (s : WitFs) : Prop where
  ready : Ready s
  superblock : ∀ i < 512, s.disk.data i = formatSuperblock.bytes i
  inodeBitmap : ∀ i < 512, s.disk.data (512 + i) = s.inodeBitmap.bytes i
  dataBitmap : ∀ i < 512, s.disk.data (1024 + i) = s.dataBitmap.bytes i
  fixed : s.superblock = { formatSuperblock with
    freeInodes := s.superblock.freeInodes, freeBlocks := s.superblock.freeBlocks }
  rootLow : (s.view.inode 0).Low

def modeOf (s : WitFs) (n : Nat) : Word := (s.view.inode n).mode

/-- `t` is in step with its disk and has the mode words of `s`. -/
structure Steady (s t : WitFs) : Prop where
  synced : Synced t
  modes : ∀ n, modeOf t n = modeOf s n

theorem Synced.refl {s : WitFs} (h : Synced s) : Steady s s := ⟨h, fun _ => rfl⟩

theorem Steady.trans {s t u : WitFs} (h : Steady s t) (h' : Steady t u) : Steady s u :=
  ⟨h'.synced, fun n => (h'.modes n).trans (h.modes n)⟩

section Writes

variable {s t : WitFs}

theorem Synced.memory (h : Synced s) (disk : t.disk = s.disk) (superblock : t.superblock = s.superblock)
    (inodes : t.inodeBitmap = s.inodeBitmap) (blocks : t.dataBitmap = s.dataBitmap)
    (pending : t.heap.pending = []) : Steady s t := by
  have view : t.view = s.view := by rw [WitFs.view, disk]; rfl
  refine ⟨⟨⟨?_, pending⟩, ?_, ?_, ?_, ?_, ?_⟩, fun n => ?_⟩
  · rw [disk]
    exact h.ready.disk
  · rw [disk]
    exact h.superblock
  · rw [disk, inodes]
    exact h.inodeBitmap
  · rw [disk, blocks]
    exact h.dataBitmap
  · rw [superblock]
    exact h.fixed
  · rw [view]
    exact h.rootLow
  · rw [modeOf, modeOf, view]

theorem Synced.setData (h : Synced s) {data : Buffer} (head : ∀ i < 1536, data i = s.disk.data i)
    (root : ((view data).inode 0).Low) : Synced (s.setData data) := by
  refine ⟨h.ready.setData data, fun i hi => ?_, fun i hi => ?_, fun i hi => ?_, h.fixed, root⟩
  · exact (head i (by omega)).trans (h.superblock i hi)
  · exact (head (512 + i) (by omega)).trans (h.inodeBitmap i hi)
  · exact (head (1024 + i) (by omega)).trans (h.dataBitmap i hi)

theorem Synced.writeBlock (h : Synced s) {b : Word} (low : b.toNat < FS_MAX_DATA_BLOCKS) (buffer : Buffer) :
    Steady s (writeBlock s (dataBlockNum b) buffer) := by
  obtain ⟨num, lt⟩ := dataBlockNum_toNat low
  have inodes : (view (copy s.disk.data ((67 + b.toNat) * 512) buffer 512)).inode = s.view.inode := by
    rw [← dataStart_eq, view_writeData]
    rfl
  rw [writeBlock_of_ready h.ready lt, num]
  refine ⟨h.setData (fun i hi => copy_outside (by omega)) ?_, fun n => ?_⟩
  · rw [inodes]
    exact h.rootLow
  · exact congrArg Inode.mode (congrFun inodes n)

theorem Synced.writeInode (h : Synced s) (n : Nat) {x : Inode} (root : n = 0 → x.Low) :
    Synced (writeInode s n x).1 ∧
      ∀ m, modeOf (writeInode s n x).1 m = if m = n ∧ m < TABLE_INODES then x.mode else modeOf s m := by
  by_cases inside : n < FS_MAX_INODES
  · have inodes : ∀ m, (view (copy s.disk.data (slotStart n) x.bytes SIZEOF_INODE)).inode m =
        if m = n ∧ m < TABLE_INODES then x else s.view.inode m := by
      intro m
      simp only [view, WitFs.view, inodeAt_writeSlot]
      by_cases low : m < TABLE_INODES
      · simp only [low, if_true, and_true]
      · simp only [low, if_false, and_false]
    have high := slot_above_bitmaps n
    rw [writeInode_of_ready h.ready inside]
    refine ⟨h.setData (fun i hi => copy_outside (by omega)) ?_, fun m => ?_⟩
    · rw [inodes]
      split
      next here => exact root here.1.symm
      next => exact h.rootLow
    · show ((view (copy s.disk.data (slotStart n) x.bytes SIZEOF_INODE)).inode m).mode = _
      rw [inodes]
      split
      next => rfl
      next => rfl
  · have same : Fs.writeInode s n x = (s, -1) := if_pos (by omega)
    rw [same]
    refine ⟨h, fun m => (if_neg ?_).symm⟩
    rintro ⟨rfl, low⟩
    rw [table_inodes] at low
    simp only [FS_MAX_INODES] at inside
    omega

theorem Synced.rewrite (h : Synced s) {n : Nat} {x : Inode} (low : x.Low) (mode : x.mode = modeOf s n) :
    Steady s (Fs.writeInode s n x).1 := by
  obtain ⟨synced, modes⟩ := h.writeInode n fun _ => low
  refine ⟨synced, fun m => ?_⟩
  rw [modes m]
  split
  next here => rw [mode, here.1]
  next => rfl

theorem Synced.storeInodeBitmap (h : Synced s) (bytes : Buffer) (free : Word) :
    Steady s (storeInodeBitmap s bytes free) := by
  have view := (storeInodeBitmap_of_ready h.ready bytes free).2
  have keeps := (storeInodeBitmap_of_ready h.ready bytes free).1
  have data : (Fs.storeInodeBitmap s bytes free).disk.data = copy s.disk.data (1 * 512) bytes 512 := by
    have ready : Ready { s with
        inodeBitmap := { s.inodeBitmap with bytes := bytes }
        superblock := { s.superblock with freeInodes := free } } := ⟨h.ready.disk, h.ready.heap⟩
    exact congrArg (fun t => t.disk.data)
      (writeBlock_of_ready ready (by decide : FS_INODE_BITMAP_BLOCK < 2048) bytes)
  refine ⟨⟨keeps.ready h.ready, fun i hi => ?_, fun i hi => ?_, fun i hi => ?_, ?_, ?_⟩, fun n => ?_⟩
  · rw [data, copy_outside (by omega)]
    exact h.superblock i hi
  · rw [data, copy_inside (by omega), show 512 + i - 1 * 512 = i by omega]
    rfl
  · rw [data, copy_outside (by omega)]
    exact h.dataBitmap i hi
  · show { s.superblock with freeInodes := free } = _
    rw [h.fixed]
    rfl
  · rw [view]
    exact h.rootLow
  · rw [modeOf, modeOf, view]

theorem Synced.storeDataBitmap (h : Synced s) (bytes : Buffer) (free : Word) :
    Steady s (storeDataBitmap s bytes free) := by
  have view := (storeDataBitmap_of_ready h.ready bytes free).2
  have keeps := (storeDataBitmap_of_ready h.ready bytes free).1
  have data : (Fs.storeDataBitmap s bytes free).disk.data = copy s.disk.data (2 * 512) bytes 512 := by
    have ready : Ready { s with
        dataBitmap := { s.dataBitmap with bytes := bytes }
        superblock := { s.superblock with freeBlocks := free } } := ⟨h.ready.disk, h.ready.heap⟩
    exact congrArg (fun t => t.disk.data)
      (writeBlock_of_ready ready (by decide : FS_DATA_BITMAP_BLOCK < 2048) bytes)
  refine ⟨⟨keeps.ready h.ready, fun i hi => ?_, fun i hi => ?_, fun i hi => ?_, ?_, ?_⟩, fun n => ?_⟩
  · rw [data, copy_outside (by omega)]
    exact h.superblock i hi
  · rw [data, copy_outside (by omega)]
    exact h.inodeBitmap i hi
  · rw [data, copy_inside (by omega), show 1024 + i - 2 * 512 = i by omega]
    rfl
  · show { s.superblock with freeBlocks := free } = _
    rw [h.fixed]
    rfl
  · rw [view]
    exact h.rootLow
  · rw [modeOf, modeOf, view]

theorem Synced.freeInode (h : Synced s) (n : Nat) : Steady s (freeInode s n) := h.storeInodeBitmap _ _

theorem Synced.freeDataBlock (h : Synced s) (b : Nat) : Steady s (freeDataBlock s b) := h.storeDataBitmap _ _

theorem Synced.allocInode (h : Synced s) : Steady s (allocInode s).1 := by
  rw [Fs.allocInode]
  split
  next => exact h.refl
  next => exact h.storeInodeBitmap _ _

theorem Synced.allocDataBlock (h : Synced s) : Steady s (allocDataBlock s).1 ∧
    ∀ b, (Fs.allocDataBlock s).2 = some b → (BitVec.ofNat 32 b).toNat < FS_MAX_DATA_BLOCKS := by
  rw [Fs.allocDataBlock]
  split
  next => exact ⟨h.refl, fun b found => by cases found⟩
  next b found =>
    refine ⟨h.storeDataBitmap _ _, ?_⟩
    rintro _ ⟨⟩
    have lt := (Bitmap.findClear_some found).1
    rw [BitVec.toNat_ofNat]
    exact Nat.lt_of_le_of_lt (Nat.mod_le _ _) lt

theorem Synced.kmalloc (h : Synced s) : ∃ heap p, kmalloc s = ({ s with heap := heap }, some p) ∧
    Steady s { s with heap := heap } := by
  obtain ⟨heap, p, grant, pending, -, -⟩ := kmalloc_of_ready h.ready
  exact ⟨heap, p, grant, h.memory rfl rfl rfl rfl pending⟩

theorem Synced.kfree (h : Synced s) (p : Nat) : Steady s (kfree s p) := h.memory rfl rfl rfl rfl h.ready.heap

end Writes

section Directory

variable {s : WitFs}

theorem Synced.ensureBlock (h : Synced s) {x : Inode} (low : x.Low) {k : Nat} (index : k < 10)
    (data : Buffer) : Steady s (ensureBlock s x k data).1 ∧
      ∀ x' data', (Fs.ensureBlock s x k data).2 = some (x', data') → x'.Low ∧ x'.mode = x.mode := by
  rw [Fs.ensureBlock]
  split
  next =>
    obtain ⟨steady, fits⟩ := h.allocDataBlock
    generalize Fs.allocDataBlock s = r at steady fits
    obtain ⟨s', _ | b⟩ := r
    · exact ⟨steady, fun x' data' found => by cases found⟩
    · refine ⟨steady, ?_⟩
      rintro _ _ ⟨⟩
      refine ⟨fun j => ?_, rfl⟩
      rw [block_setBlock index]
      split
      next => exact fits b rfl
      next => exact low j
  next =>
    refine ⟨h.refl, ?_⟩
    rintro _ _ ⟨⟩
    exact ⟨low, rfl⟩

theorem Synced.dirAddFrom (h : Synced s) (name : CStr) (inode : Nat) {n k : Nat} (index : k + n ≤ 10) {dir : Inode}
    (low : dir.Low) (mode : dir.mode = modeOf s 0) (data : Buffer) :
    Steady s (dirAddFrom 0 name inode n k s dir data).1 := by
  induction n generalizing k s dir data with
  | zero => exact h.refl
  | succ n ih =>
    obtain ⟨steady, kept⟩ := h.ensureBlock low (k := k) (by omega) data
    rw [Fs.dirAddFrom]
    generalize Fs.ensureBlock s dir k data = r at steady kept
    obtain ⟨s', _ | ⟨dir', data'⟩⟩ := r
    · exact steady
    · obtain ⟨low', mode'⟩ := kept dir' data' rfl
      have root : dir'.mode = modeOf s' 0 := by rw [steady.modes 0, mode', mode]
      dsimp only at steady ⊢
      split
      next i found =>
        have written := steady.synced.writeBlock (low' k) (fillEntry data' i name inode)
        refine (steady.trans written).trans (written.synced.rewrite low' ?_)
        exact root.trans (written.modes 0).symm
      next => exact steady.trans (ih steady.synced (by omega) low' root data')

theorem Synced.dirRemoveFrom (h : Synced s) (name : CStr) {n k : Nat} {dir : Inode} (low : dir.Low)
    (mode : dir.mode = modeOf s 0) (data : Buffer) :
    Steady s (dirRemoveFrom 0 name n k s dir data).1 := by
  induction n generalizing k data with
  | zero => exact h.refl
  | succ n ih =>
    rw [Fs.dirRemoveFrom]
    split
    next => exact h.refl
    next =>
      dsimp only
      split
      next i found =>
        have written := h.writeBlock (low k)
          (store (readBlock s (dataBlockNum (dir.block k)) data) (i * SIZEOF_DIRENT) 0)
        refine written.trans (written.synced.rewrite low ?_)
        exact mode.trans (written.modes 0).symm
      next => exact ih _

theorem Synced.readRoot (h : Synced s) : readInode s 0 = (s, some (s.view.inode 0)) :=
  readInode_view h.ready (by decide)

theorem Synced.dirAddEntry (h : Synced s) (name : CStr) (inode : Nat) :
    Steady s (dirAddEntry s 0 name inode).1 := by
  obtain ⟨heap, p, grant, lent⟩ := h.kmalloc
  rw [Fs.dirAddEntry, h.readRoot]
  dsimp only
  split
  next => exact h.refl
  next =>
    rw [grant]
    have added := lent.synced.dirAddFrom name inode (n := FS_DIRECT_BLOCKS) (k := 0) (by decide) h.rootLow
      rfl heap.junk
    exact (lent.trans added).trans (added.synced.kfree p)

theorem Synced.dirRemoveEntry (h : Synced s) (name : CStr) : Steady s (dirRemoveEntry s 0 name).1 := by
  obtain ⟨heap, p, grant, lent⟩ := h.kmalloc
  rw [Fs.dirRemoveEntry, h.readRoot]
  dsimp only
  rw [grant]
  have removed := lent.synced.dirRemoveFrom name (n := FS_DIRECT_BLOCKS) (k := 0) h.rootLow rfl heap.junk
  exact (lent.trans removed).trans (removed.synced.kfree p)

end Directory

section Files

variable {s : WitFs}

theorem Synced.clearDataBlock (h : Synced s) {b : Nat} (low : (BitVec.ofNat 32 b).toNat < FS_MAX_DATA_BLOCKS) :
    Steady s (clearDataBlock s b) := by
  obtain ⟨heap, p, grant, lent⟩ := h.kmalloc
  rw [Fs.clearDataBlock, grant]
  have cleared := lent.synced.writeBlock low fun _ => 0
  exact (lent.trans cleared).trans (cleared.synced.kfree p)

/-- `t` is in step with its disk and has the mode words of `s`, but for the new inode `n`. -/
structure NewMode (s t : WitFs) (n : Nat) (mode : Word) : Prop where
  synced : Synced t
  modes : ∀ m, modeOf t m = if m = n ∧ m < TABLE_INODES then mode else modeOf s m

theorem Steady.newMode {s t u : WitFs} {n : Nat} {mode : Word} (h : Steady s t) (made : NewMode t u n mode) :
    NewMode s u n mode := by
  refine ⟨made.synced, fun m => ?_⟩
  rw [made.modes m, h.modes m]

theorem NewMode.steady {s t u : WitFs} {n : Nat} {mode : Word} (made : NewMode s t n mode)
    (h : Steady t u) : NewMode s u n mode :=
  ⟨h.synced, fun m => (h.modes m).trans (made.modes m)⟩

theorem Synced.enterInode (h : Synced s) (name : CStr) (type : Word) {n : Nat} (root : n ≠ 0) (x : Inode) :
    NewMode s (enterInode s name type n x).1 n x.mode := by
  obtain ⟨synced, modes⟩ := h.writeInode n (x := x) fun zero => absurd zero root
  have entered := (NewMode.mk synced modes).steady (synced.dirAddEntry name n)
  rw [Fs.enterInode]
  dsimp only
  split
  next =>
    have freed := entered.steady (entered.synced.freeInode n)
    split
    next => exact freed.steady (freed.synced.freeDataBlock _)
    next => exact freed
  next => exact entered

/-- Only the mode word of inode `n` can differ. -/
def OffMode (s t : WitFs) (n : Nat) : Prop := ∀ m, m ≠ n → modeOf t m = modeOf s m

theorem NewMode.off {s t : WitFs} {n : Nat} {mode : Word} (made : NewMode s t n mode) : OffMode s t n := by
  intro m ne
  rw [made.modes m, if_neg fun both => ne both.1]

theorem Synced.makeInode (h : Synced s) (name : CStr) (type : Word) {n : Nat} (root : n ≠ 0) :
    Synced (makeInode s name type n).1 ∧ OffMode s (makeInode s name type n).1 n ∧
      ((makeInode s name type n).2 = 0 →
        NewMode s (makeInode s name type n).1 n (type ||| FS_PERM_DEFAULT)) := by
  rw [Fs.makeInode]
  split
  next =>
    obtain ⟨steady, fits⟩ := h.allocDataBlock
    generalize Fs.allocDataBlock s = r at steady fits
    obtain ⟨s', _ | b⟩ := r
    · have freed := steady.trans (steady.synced.freeInode n)
      exact ⟨freed.synced, fun m _ => freed.modes m, fun failed => absurd failed (show (-1 : Int) ≠ 0 by decide)⟩
    · have cleared := steady.trans (steady.synced.clearDataBlock (fits b rfl))
      have made := cleared.newMode (cleared.synced.enterInode name type root
        ((newInode s type).setBlock 0 (BitVec.ofNat 32 b)))
      exact ⟨made.synced, made.off, fun _ => made⟩
  next =>
    have made := h.enterInode name type root (newInode s type)
    exact ⟨made.synced, made.off, fun _ => made⟩

/-- A failed `fs_create` leaves the mode words of the files; a successful one makes an
entry for an inode with the type and the default permissions in its mode word. -/
theorem Synced.create (h : Synced s) {leaked : Nat → Prop} (sound : Sound s leaked) (path : CStr)
    (type : Word) : (∃ t, fsCreate s path type = (t, -1) ∧ Unchanged s t ∧ Sound t leaked ∧ Synced t ∧
        ∀ m, s.view.Owner m → modeOf t m = modeOf s m) ∨
      ∃ t e n, fsCreate s path type = (t, 0) ∧ Keeps s t ∧ Sound t leaked ∧ Synced t ∧
        Created s.view t.view e (pathName path) n ∧ OffMode s t n ∧
        modeOf t n = type ||| FS_PERM_DEFAULT := by
  rcases fsCreate_cases sound path type with eq | ⟨n, s1, eq, alloc, free, low, quiet, books, -⟩
  · exact Or.inl ⟨s, eq, .refl s, sound, h, fun _ _ => rfl⟩
  · have root : n ≠ 0 := fun zero => free (Or.inl zero)
    have steady := h.allocInode
    rw [alloc] at steady
    obtain ⟨synced, off, made⟩ := steady.synced.makeInode (pathName path) type root
    have off' : OffMode s (Fs.makeInode s1 (pathName path) type n).1 n := fun m ne =>
      (off m ne).trans (steady.modes m)
    rw [eq]
    rcases makeInode_spec quiet (quiet.toKeeps.ready sound.ready) (quiet.initialized.trans sound.on) books
      (quiet.view ▸ sound.sized) low (pathName path) type with
      ⟨t, eq', same, sound'⟩ | ⟨t, e, eq', keeps, sound', created, -⟩
    · rw [eq'] at synced off'
      refine Or.inl ⟨t, eq', same, sound', synced, fun m own => off' m ?_⟩
      rintro rfl
      exact free own
    · rw [eq'] at synced off' made
      refine Or.inr ⟨t, e, n, eq', keeps, sound', synced, created, off', ?_⟩
      rw [(made rfl).modes n, if_pos ⟨rfl, low⟩]

theorem Synced.freeBlocksFrom (h : Synced s) (x : Inode) (n k : Nat) : Steady s (freeBlocksFrom x n k s) := by
  induction n generalizing k s with
  | zero => exact h.refl
  | succ n ih =>
    rw [Fs.freeBlocksFrom]
    split
    next => exact h.refl
    next =>
      have freed := h.freeDataBlock (x.block k).toNat
      exact freed.trans (ih freed.synced (k + 1))

theorem Synced.unlink (h : Synced s) {leaked : Nat → Prop} (sound : Sound s leaked) (path : CStr) :
    Steady s (fsUnlink s path).1 := by
  obtain ⟨found, looked⟩ := sound.pathLookup path
  rw [fsUnlink, sound.on, Bool.not_true, if_neg Bool.false_ne_true, looked]
  cases found with
  | none => exact h.refl
  | some n =>
    simp only [readInode_view h.ready (sound.books.cons.owner_lt (sound.lookup_owner looked).1)]
    have blocks := h.freeBlocksFrom (s.view.inode n) FS_DIRECT_BLOCKS 0
    have freed := blocks.trans (blocks.synced.freeInode n)
    exact freed.trans (freed.synced.dirRemoveEntry (pathName path))

theorem Synced.takeDescriptor (h : Synced s) (n : Nat) (flags : Word) :
    Steady s (takeDescriptor s n flags).1 := by
  rw [Fs.takeDescriptor]
  split
  next => exact h.refl
  next => exact h.memory rfl rfl rfl rfl h.ready.heap

theorem Synced.close (h : Synced s) (fd : Int) : Steady s (fsClose s fd).1 := by
  rw [fsClose]
  split
  next => exact h.refl
  next => exact h.memory rfl rfl rfl rfl h.ready.heap

theorem Synced.read (h : Synced s) {fd : Int}
    (slot : Usable s fd FS_OPEN_READ → (s.openFiles fd.toNat).inode < TABLE_INODES ∧
      ∀ k, s.view.blk (s.openFiles fd.toNat).inode k < FS_MAX_DATA_BLOCKS) (size : Nat) :
    Steady s (fsRead s fd size).1 := by
  by_cases usable : Usable s fd FS_OPEN_READ
  · obtain ⟨inside, low⟩ := slot usable
    obtain ⟨len, eq, -⟩ := fsRead_spec h.ready usable rfl rfl inside low size
    rw [eq]
    exact h.memory rfl rfl rfl rfl h.ready.heap
  · rw [fsRead_unusable usable]
    exact h.refl

theorem growTo_mode (x : Inode) (position : Nat) : (growTo x position).mode = x.mode := by
  rw [growTo]
  split
  next => rfl
  next => rfl

theorem ensureBlock_openFiles (s : WitFs) (x : Inode) (k : Nat) (data : Buffer) :
    (ensureBlock s x k data).1.openFiles = s.openFiles := by
  rw [ensureBlock]
  split
  next =>
    rw [allocDataBlock]
    cases bitmapFindFree s.dataBitmap.bytes FS_MAX_DATA_BLOCKS with
    | none => rfl
    | some b => rfl
  next => rfl

theorem advance_inode (s : WitFs) (fd n i : Nat) :
    ((advance s fd n).openFiles i).inode = (s.openFiles i).inode := by
  rw [advance]
  by_cases here : i = fd
  · subst here
    simp only [Function.update_self]
  · simp only [Function.update_of_ne here]

theorem writeFrom_inode (fd : Nat) (buf : Buffer) (size turns : Nat) (s : WitFs) (x : Inode) (data : Buffer)
    (done i : Nat) :
    ((writeFrom fd buf size turns s x data done).1.openFiles i).inode = (s.openFiles i).inode := by
  induction turns generalizing s x data done with
  | zero => rfl
  | succ turns ih =>
    rw [writeFrom]
    split
    next =>
      dsimp only
      split
      next => rfl
      next =>
        have files := ensureBlock_openFiles s x ((s.openFiles fd).position / FS_BLOCK_SIZE) data
        generalize ensureBlock s x ((s.openFiles fd).position / FS_BLOCK_SIZE) data = r at files
        obtain ⟨s', _ | ⟨x', data'⟩⟩ := r
        · exact congrArg (fun f => (f i).inode) files
        · dsimp only at files ⊢
          rw [ih, writeChunk, advance_inode]
          exact congrArg (fun f => (f i).inode) files
    next => rfl

theorem Synced.writeChunk (h : Synced s) (fd : Nat) (buf : Buffer) {x : Inode} (low : x.Low) (data : Buffer)
    (done toWrite : Nat) : Steady s (writeChunk fd buf s x data done toWrite).1 ∧
      (writeChunk fd buf s x data done toWrite).2.1.Low ∧
      (writeChunk fd buf s x data done toWrite).2.1.mode = x.mode := by
  have written := h.writeBlock (low ((s.openFiles fd).position / FS_BLOCK_SIZE))
    (copy data ((s.openFiles fd).position % FS_BLOCK_SIZE) (fun i => buf (done + i)) toWrite)
  refine ⟨written.trans (written.synced.memory rfl rfl rfl rfl written.synced.ready.heap), fun k => ?_, ?_⟩
  · rw [Fs.writeChunk, growTo_block]
    exact low k
  · rw [Fs.writeChunk, growTo_mode]

theorem Synced.writeFrom (h : Synced s) (fd : Nat) (buf : Buffer) (size turns : Nat) {x : Inode} (low : x.Low)
    (data : Buffer) (done : Nat) : Steady s (writeFrom fd buf size turns s x data done).1 ∧
      (writeFrom fd buf size turns s x data done).2.1.Low ∧
      (writeFrom fd buf size turns s x data done).2.1.mode = x.mode := by
  induction turns generalizing s x data done with
  | zero => exact ⟨h.refl, low, rfl⟩
  | succ turns ih =>
    rw [Fs.writeFrom]
    split
    next =>
      dsimp only
      split
      next => exact ⟨h.refl, low, rfl⟩
      next index =>
        have fits : (s.openFiles fd).position / FS_BLOCK_SIZE < 10 := by
          simpa [FS_DIRECT_BLOCKS] using index
        obtain ⟨steady, kept⟩ := h.ensureBlock low fits data
        generalize Fs.ensureBlock s x ((s.openFiles fd).position / FS_BLOCK_SIZE) data = r at steady kept
        obtain ⟨s', _ | ⟨x', data'⟩⟩ := r
        · exact ⟨steady, low, rfl⟩
        · obtain ⟨low', mode'⟩ := kept x' data' rfl
          dsimp only at steady ⊢
          obtain ⟨written, low2, mode2⟩ := steady.synced.writeChunk fd buf low' data' done
            (chunk (s.openFiles fd).position (size - done))
          obtain ⟨rest, low3, mode3⟩ := ih written.synced low2 (Fs.writeChunk fd buf s' x' data' done
            (chunk (s.openFiles fd).position (size - done))).2.2
            (done + chunk (s.openFiles fd).position (size - done))
          exact ⟨(steady.trans written).trans rest, low3, mode3.trans (mode2.trans mode')⟩
    next => exact ⟨h.refl, low, rfl⟩

theorem Synced.write (h : Synced s) {fd : Int}
    (slot : Usable s fd FS_OPEN_WRITE → (s.openFiles fd.toNat).inode < TABLE_INODES ∧
      ∀ k, s.view.blk (s.openFiles fd.toNat).inode k < FS_MAX_DATA_BLOCKS) (buf : Buffer) (size : Nat) :
    Steady s (fsWrite s fd buf size).1 := by
  by_cases usable : Usable s fd FS_OPEN_WRITE
  · obtain ⟨inside, low⟩ := slot usable
    obtain ⟨heap, p, grant, lent⟩ := h.kmalloc
    obtain ⟨written, low', mode⟩ := lent.synced.writeFrom fd.toNat buf size (FS_DIRECT_BLOCKS + 1)
      (x := s.view.inode (s.openFiles fd.toNat).inode) low heap.junk 0
    have freed := lent.trans (written.trans (written.synced.kfree p))
    have inode := writeFrom_inode fd.toNat buf size (FS_DIRECT_BLOCKS + 1) { s with heap := heap }
      (s.view.inode (s.openFiles fd.toNat).inode) heap.junk 0 fd.toNat
    rw [fsWrite, usable.1, Bool.not_true, if_neg Bool.false_ne_true, if_neg usable.2,
      readInode_view h.ready inside]
    dsimp only
    rw [grant]
    dsimp only
    refine freed.trans (freed.synced.rewrite low' ?_)
    rw [freed.modes]
    exact mode.trans (congrArg (modeOf s) inode.symm)
  · rw [fsWrite_unusable usable]
    exact h.refl

theorem Synced.fsCreate (h : Synced s) {leaked : Nat → Prop} (sound : Sound s leaked) (path : CStr)
    (type : Word) : Synced (fsCreate s path type).1 := by
  rcases h.create sound path type with ⟨t, eq, -, -, synced, -⟩ | ⟨t, e, n, eq, -, -, synced, -⟩
  · rw [eq]
    exact synced
  · rw [eq]
    exact synced

theorem Synced.open (h : Synced s) {leaked : Nat → Prop} (sound : Sound s leaked) (path : CStr)
    (flags : Word) : Synced (fsOpen s path flags).1 := by
  have made := h.fsCreate sound path FS_TYPE_FILE
  rcases fsOpen_cases sound path flags with ⟨n, -, eq⟩ | ⟨-, eq | ⟨-, eq | ⟨t, n, eq', -, eq⟩⟩⟩
  · rw [eq]
    exact (h.takeDescriptor n flags).synced
  · rw [eq]
    exact h
  · rw [eq]
    exact made
  · rw [eq'] at made
    rw [eq]
    exact (made.takeDescriptor n flags).synced

theorem Inv.slot {leaked stale : Nat → Prop} (inv : Inv s leaked stale) {fd : Int} {flag : Word}
    (usable : Usable s fd flag) : (s.openFiles fd.toNat).inode < TABLE_INODES ∧
      ∀ k, s.view.blk (s.openFiles fd.toNat).inode k < FS_MAX_DATA_BLOCKS := by
  obtain ⟨lt, used⟩ := validFd_spec usable.1
  exact inv.slots _ lt used

/-- Every call leaves the disk in step with the memory. -/
theorem Synced.step (h : Synced s) {leaked stale : Nat → Prop} (inv : Inv s leaked stale) (op : FsOp) :
    Synced (s.step op) := by
  cases op with
  | fsCreate path type => exact h.fsCreate inv.sound path type
  | fsMkdir path => exact h.fsCreate inv.sound path FS_TYPE_DIR
  | fsOpen path flags => exact h.open inv.sound path flags
  | fsClose fd => exact (h.close fd).synced
  | fsRead fd size => exact (h.read inv.slot size).synced
  | fsWrite fd buf size => exact (h.write inv.slot buf size).synced
  | fsUnlink path => exact (h.unlink inv.sound path).synced
  | fsRmdir path => exact (h.unlink inv.sound path).synced
  | fsReaddir path max =>
    rw [WitFs.step, fsReaddir_state inv.sound]
    exact h
  | fsStat path =>
    rw [WitFs.step, fsStat_state inv.sound]
    exact h
  | fsExists path =>
    rw [WitFs.step, fsExists_state inv.sound]
    exact h
  | timer ticks => exact (h.memory (t := { s with ticks := ticks }) rfl rfl rfl rfl h.ready.heap).synced

end Files

end Wittche.Fs
