import Wittche.Fs.CreatedNames
import Wittche.Fs.FailedCreate

/-! `fs_open` that fails. With `FS_OPEN_CREATE` the file is created before the descriptor is
looked for, and it stays when there is no descriptor, or when its name is too long to be
found again. -/

namespace Wittche.Fs
open Bytes CString Execution

/-- There is a place for one more entry in the root directory: an unused one in a block it
has, or a data block for the next sixteen. -/
def EntryRoom (s : WitFs) : Prop :=
  (∃ e, s.view.blk 0 (e / 16) ≠ 0 ∧ s.view.ent e = 0) ∨
    s.view.blk 0 9 = 0 ∧ ∃ b < FS_MAX_DATA_BLOCKS, bitmapTest s.dataBitmap.bytes b = false

def FileRoom (s : WitFs) : Prop :=
  (∃ n < FS_MAX_INODES, bitmapTest s.inodeBitmap.bytes n = false) ∧ EntryRoom s

def AllInUse (s : WitFs) : Prop := ∀ fd < FS_MAX_OPEN_FILES, (s.openFiles fd).inUse = true

/-- The file is created and then not opened. -/
def LeavesFile (s : WitFs) (path : CStr) (flags : Word) : Prop :=
  flags &&& FS_OPEN_CREATE ≠ 0 ∧ (pathLookup s path).2 = none ∧ FileRoom s ∧
    (FS_MAX_FILENAME < (pathName path).length ∨ AllInUse s)

section Room

variable {s : WitFs} {hi hb : Nat → Prop}

theorem findUnused_none {V : View} {k i : Nat} {data : Buffer} (used : V.blk 0 k ≠ 0)
    (contents : cut data = V.block (V.blk 0 k)) (none : findUnused data = none) (lt : i < 16) :
    V.ent (16 * k + i) ≠ 0 := by
  have taken := Scan.firstFrom_none.mp none i (Nat.zero_le i) (by rw [entries_per_block]; omega)
  exact fun zero => of_decide_eq_false taken ((ent_zero_iff used contents lt).mp zero)

theorem Consistent.blk_behind {V : View} {ib db : Buffer} (c : Consistent V ib db hi hb) {k j : Nat}
    (missing : V.blk 0 k = 0) (le : k ≤ j) : V.blk 0 j = 0 := by
  by_contra used
  rcases Nat.eq_or_lt_of_le le with rfl | less
  · exact used missing
  · exact c.shape 0 k j (owner_root _) used less missing

theorem dirAddFrom_done_iff (ready : Ready s) (books : Books s.view s hi hb) (name : CStr) (n : Nat)
    {turns k : Nat} (h : k + turns = 10) (before : ∀ j < k, s.view.blk 0 j ≠ 0) (data : Buffer) :
    0 ≤ (dirAddFrom 0 name n turns k s (s.view.inode 0) data).2 ↔
      (∃ e, 16 * k ≤ e ∧ s.view.blk 0 (e / 16) ≠ 0 ∧ s.view.ent e = 0) ∨
        s.view.blk 0 9 = 0 ∧ ∃ b < FS_MAX_DATA_BLOCKS, bitmapTest s.dataBitmap.bytes b = false := by
  induction turns generalizing k data with
  | zero =>
    refine iff_of_false (show ¬(0 : Int) ≤ -1 by decide) ?_
    rintro (⟨e, behind, used, -⟩ | ⟨missing, -⟩)
    · have index := blk_lt_ten used
      omega
    · exact before 9 (by omega) missing
  | succ turns ih =>
    rw [dirAddFrom]
    by_cases missing : (s.view.inode 0).block k = 0
    · have behind : ∀ j, k ≤ j → s.view.blk 0 j = 0 :=
        fun j => books.cons.blk_behind ((blk_word _ k).mp missing)
      rw [ensureBlock, if_pos missing]
      rcases allocDataBlock_spec ready books with ⟨full, taken⟩ | ⟨b, s', alloc, dom, free, loose, -⟩
      · rw [full]
        refine iff_of_false (show ¬(0 : Int) ≤ -1 by decide) ?_
        rintro (⟨e, le, used, -⟩ | ⟨-, b, lt, clear⟩)
        · exact used (behind _ (by omega))
        · rw [taken b lt] at clear
          exact Bool.noConfusion clear
      · have clear : bitmapTest s.dataBitmap.bytes b = false := by
          rw [← Bool.not_eq_true, books.cons.blocks.iff b dom]
          rintro (taken | held)
          · exact free taken
          · exact loose held
        simp only [alloc, findUnused_zero]
        exact iff_of_true (Int.le_refl 0) (Or.inr ⟨behind 9 (by omega), b, dom.2, clear⟩)
    · have used : s.view.blk 0 k ≠ 0 := fun zero => missing ((blk_word _ k).mpr zero)
      have contents := readDir_contents ready books.cons k data
      rw [ensureBlock, if_neg missing]
      dsimp only
      cases found : findUnused (readBlock s (dataBlockNum ((s.view.inode 0).block k)) data) with
      | none =>
        rw [ih (by omega) (fun j hj => ?_)]
        · refine or_congr_left (exists_congr fun e => and_congr_left fun room => ?_)
          refine ⟨fun behind => by omega, fun behind => ?_⟩
          by_contra inside
          refine findUnused_none used contents found (show e - 16 * k < 16 by omega) ?_
          rw [Nat.add_sub_cancel' behind]
          exact room.2
        · by_cases here : j = k
          · rw [here]
            exact used
          · exact before j (by omega)
      | some i =>
        obtain ⟨inside, unused⟩ := findUnused_some used contents found
        refine iff_of_true (Int.le_refl 0) (Or.inl ⟨16 * k + i, by omega, ?_, unused⟩)
        rw [(ent_block_index inside).1]
        exact used

theorem dirAddEntry_done_iff (ready : Ready s) (books : Books s.view s hi hb) (name : CStr) (n : Nat) :
    0 ≤ (dirAddEntry s 0 name n).2 ↔ EntryRoom s := by
  obtain ⟨heap, p, grant, pending, -⟩ := kmalloc_of_ready ready
  have ready' : Ready { s with heap := heap } := ⟨ready.disk, pending⟩
  have loop := dirAddFrom_done_iff ready' (books.withHeap heap) name n (show 0 + 10 = 10 from rfl)
    (fun j h => absurd h (Nat.not_lt_zero j)) heap.junk
  rw [dirAddEntry, readInode_view ready (show 0 < TABLE_INODES by decide)]
  simp only [books.cons.rootDir, if_false, grant]
  refine loop.trans ?_
  simp only [Nat.mul_zero, Nat.zero_le, true_and]
  rfl

theorem entryRoom_congr {t : WitFs} (root : ∀ k, t.view.blk 0 k = s.view.blk 0 k)
    (ents : ∀ e, t.view.ent e = s.view.ent e) (bitmap : t.dataBitmap = s.dataBitmap) :
    EntryRoom t ↔ EntryRoom s := by
  simp only [EntryRoom, root, ents, bitmap]

theorem enterInode_done_iff {n : Nat} {x : Inode} (ready : Ready s) (books : Books s.view s (fun m => m = n) hb)
    (lt : n < TABLE_INODES) (name : CStr) (type : Word) :
    (enterInode s name type n x).2 = 0 ↔ EntryRoom s := by
  have free := (books.cons.inodes.apart n rfl).2
  have nonzero : n ≠ 0 := fun zero => free (Or.inl zero)
  obtain ⟨t, written, disk, view⟩ := writeInode_view ready lt x
  have books' := (books.diskOnly disk).view ((books.diskOnly disk).cons.setInode_free free x)
  rw [← view] at books'
  have room : EntryRoom t ↔ EntryRoom s := by
    refine entryRoom_congr (fun k => ?_) (fun e => ?_) disk.dataBitmap
    · rw [view, blk_setInode, if_neg (Ne.symm nonzero)]
    · rw [view, (ent_setInode nonzero x e).1]
  rw [← room, ← dirAddEntry_done_iff (disk.toKeeps.ready ready) books' name n]
  simp only [enterInode, written]
  split
  next minus => exact iff_of_false (show (-1 : Int) ≠ 0 by decide) (Int.not_le.mpr minus)
  next plus => exact iff_of_true rfl (Int.not_lt.mp plus)

theorem allocInode_none_iff (s : WitFs) :
    (allocInode s).2 = none ↔ ∀ n < FS_MAX_INODES, bitmapTest s.inodeBitmap.bytes n = true := by
  rw [allocInode]
  cases found : bitmapFindFree s.inodeBitmap.bytes FS_MAX_INODES with
  | none => exact iff_of_true rfl (Bitmap.findClear_none.mp found)
  | some n =>
    refine iff_of_false (Option.some_ne_none n) fun taken => ?_
    obtain ⟨lt, clear, -⟩ := Bitmap.findClear_some found
    exact Bool.noConfusion ((taken n lt).symm.trans clear)

theorem fsCreate_file_iff {leaked : Nat → Prop} (h : Sound s leaked) {path : CStr}
    (absent : (pathLookup s path).2 = none) : (fsCreate s path FS_TYPE_FILE).2 = 0 ↔ FileRoom s := by
  obtain ⟨found, looked⟩ := h.pathLookup path
  obtain rfl : found = none := by rw [looked] at absent; exact absent
  rw [fsCreate, h.on, Bool.not_true, if_neg Bool.false_ne_true, looked]
  dsimp only
  have none := allocInode_none_iff s
  have blocks := allocInode_blocks s
  rcases allocInode_spec h.ready h.books with full | ⟨n, t, alloc, -, low, quiet, books⟩
  · rw [full] at none ⊢
    refine iff_of_false (show (-1 : Int) ≠ 0 by decide) ?_
    rintro ⟨⟨n, lt, clear⟩, -⟩
    exact Bool.noConfusion ((none.mp rfl n lt).symm.trans clear)
  · rw [alloc] at none blocks ⊢
    have number : ∃ n < FS_MAX_INODES, bitmapTest s.inodeBitmap.bytes n = false := by
      by_contra taken
      refine Option.some_ne_none n (none.mpr fun m lt => ?_)
      rw [← Bool.not_eq_false]
      exact fun clear => taken ⟨m, lt, clear⟩
    simp only [or_false] at books
    rw [← quiet.view] at books
    have room : EntryRoom t ↔ EntryRoom s :=
      entryRoom_congr (fun k => by rw [quiet.view]) (fun e => by rw [quiet.view]) blocks.bitmap
    dsimp only
    rw [makeInode, if_neg (by decide), enterInode_done_iff (quiet.toKeeps.ready h.ready) books
      (low fun _ no => no) (pathName path) FS_TYPE_FILE, room]
    exact ⟨fun entry => ⟨number, entry⟩, fun both => both.2⟩

end Room

section Open

variable {s t : WitFs} {leaked : Nat → Prop} {path : CStr} {flags : Word}

theorem takeDescriptor_cases (s : WitFs) (n : Nat) (flags : Word) :
    (takeDescriptor s n flags = (s, -1) ∧ AllInUse s) ∨ (takeDescriptor s n flags).2 ≠ -1 ∧ ¬AllInUse s := by
  rw [takeDescriptor]
  cases found : Scan.firstFrom (fun i => !(s.openFiles i).inUse) FS_MAX_OPEN_FILES 0 with
  | none =>
    refine Or.inl ⟨rfl, fun fd lt => ?_⟩
    simpa using Scan.firstFrom_none.mp found fd (Nat.zero_le fd) (by omega)
  | some fd =>
    obtain ⟨-, lt, free, -⟩ := Scan.firstFrom_some found
    refine Or.inr ⟨?_, fun all => ?_⟩
    · change (fd : Int) ≠ -1
      omega
    · rw [all fd (by omega)] at free
      exact Bool.noConfusion free

/-- The cases of `fs_open` by what is left behind: nothing, or a new file. -/
theorem fsOpen_failed (h : Sound s leaked) (path : CStr) (flags : Word) :
    (LeavesFile s path flags ∧ (fsOpen s path flags).2 = -1 ∧ (fsCreate s path FS_TYPE_FILE).2 = 0 ∧
        (fsOpen s path flags).1 = (fsCreate s path FS_TYPE_FILE).1) ∨
      ¬LeavesFile s path flags ∧ ((fsOpen s path flags).2 = -1 → (fsOpen s path flags).1 = s ∨
        (fsCreate s path FS_TYPE_FILE).2 = -1 ∧ (fsOpen s path flags).1 = (fsCreate s path FS_TYPE_FILE).1) := by
  obtain ⟨found, looked⟩ := h.pathLookup path
  rw [fsOpen, h.on, Bool.not_true, if_neg Bool.false_ne_true, looked]
  cases found with
  | some n =>
    refine Or.inr ⟨fun leaves => ?_, fun failed => Or.inl ?_⟩
    · rw [LeavesFile, looked] at leaves
      exact absurd leaves.2.1 (Option.some_ne_none n)
    · rcases takeDescriptor_cases s n flags with ⟨eq, -⟩ | ⟨done, -⟩
      · exact congrArg Prod.fst eq
      · exact absurd failed done
  | none =>
    dsimp only
    by_cases create : flags &&& FS_OPEN_CREATE ≠ 0
    · have room := fsCreate_file_iff h (show (pathLookup s path).2 = none by rw [looked])
      rw [if_pos create]
      rcases fsCreate_spec h path FS_TYPE_FILE with ⟨t, eq, -⟩ | ⟨t, e, n, eq, keeps, sound, made, -, named, absent⟩
      · rw [eq] at room ⊢
        refine Or.inr ⟨fun leaves => ?_, fun _ => Or.inr ⟨rfl, rfl⟩⟩
        exact absurd (room.mpr leaves.2.2.1) (show (-1 : Int) ≠ 0 by decide)
      · rw [eq] at room ⊢
        have used : AllInUse t ↔ AllInUse s := by rw [AllInUse, AllInUse, keeps.openFiles]
        have looked' := pathLookup_eq sound.ready sound.books.cons named
        simp only [if_neg (show ¬(0 : Int) < 0 by decide), looked']
        by_cases long : FS_MAX_FILENAME < (pathName path).length
        · rw [find_long sound.books.cons long]
          exact Or.inl ⟨⟨create, by rw [looked], room.mp rfl, Or.inl long⟩, rfl, trivial, rfl⟩
        · rw [made.find h.books.cons sound.books.cons (Nat.le_of_not_lt long) absent]
          dsimp only [Option.map_some]
          rcases takeDescriptor_cases t (t.view.ent e) flags with ⟨none, all⟩ | ⟨done, free⟩
          · rw [none]
            exact Or.inl ⟨⟨create, by rw [looked], room.mp rfl, Or.inr (used.mp all)⟩, rfl, trivial, rfl⟩
          · refine Or.inr ⟨?_, fun failed => absurd failed done⟩
            rintro ⟨-, -, -, tooLong | all⟩
            · exact long tooLong
            · exact free (used.mpr all)
    · rw [if_neg create]
      exact Or.inr ⟨fun leaves => create leaves.1, fun _ => Or.inl rfl⟩

end Open

section Counters

variable {s t : WitFs} {d : Word × Word}

theorem recount_back (d : Word × Word) (s : WitFs) : recount (-d.1, -d.2) (recount d s) = s := by
  have back : ∀ a b : Word, a + b + -b = a := by
    intro a b
    bv_omega
  simp [recount, back]

theorem recount_inj (same : recount d s = recount d t) : s = t := by
  rw [← recount_back d s, same, recount_back]

theorem leavesFile_recount (d : Word × Word) (s : WitFs) (path : CStr) (flags : Word) :
    LeavesFile (recount d s) path flags ↔ LeavesFile s path flags := by
  rw [LeavesFile, pathLookup_recount]
  rfl

/-- Counters aside, a state with right books: the effect of a failed `fs_open` is that of
`fs_create`. -/
theorem failed_open_iff (synced : Synced s) {leaked : Nat → Prop} (sound : Sound (recount d s) leaked) (path : CStr)
    (flags : Word) : ((fsOpen s path flags).2 = -1 → NoVisibleEffect s (fsOpen s path flags).1) ↔
      ¬LeavesFile s path flags := by
  have cases := fsOpen_failed sound path flags
  rw [leavesFile_recount, fsOpen_recount, fsCreate_recount] at cases
  rcases cases with ⟨leaves, failed, done, same⟩ | ⟨spared, reason⟩
  · refine iff_of_false (fun unseen => ?_) (not_not.mpr leaves)
    -- The new entry can be seen.
    have entries := (unseen failed).root.2
    have adds := fsCreate_entries sound path FS_TYPE_FILE
    rw [fsCreate_recount] at adds
    rw [recount_inj same] at entries
    rcases adds with ⟨-, entry, new, more⟩ | ⟨minus, -⟩
    · refine new ?_
      change entry ∈ s.view.entries
      change (fsCreate s path FS_TYPE_FILE).1.view.entries = insert entry s.view.entries at more
      rw [← entries, more]
      exact Set.mem_insert ..
    · exact absurd (minus.symm.trans done) (by decide)
  · refine iff_of_true (fun failed => ?_) spared
    rcases reason failed with same | ⟨minus, same⟩
    · rw [recount_inj same]
      exact .refl s
    · rw [recount_inj same]
      exact fsCreate_failed_effect synced sound path FS_TYPE_FILE minus

end Counters

/-- In every state of a run an `fs_open` that fails has no visible effect, except that it leaves
a file behind when it was to create it and there is room, and either no descriptor is free or
the name has more than 27 characters. -/
theorem failed_open_invisible_iff (s0 : WitFs) (x : Tracked) (ops : List VolumeOp) (path : CStr) (flags : Word)
    (ready : Ready s0) (run : Exec CarefulVolume Tracked.volumeStep (Tracked.mounted s0) ops x) :
    ((fsOpen x.fs path flags).2 = -1 → NoVisibleEffect x.fs (fsOpen x.fs path flags).1) ↔
      ¬LeavesFile x.fs path flags := by
  obtain ⟨d, settled⟩ := careful_run_settled ready run
  obtain ⟨leaked, sound⟩ := settled.sound
  exact failed_open_iff settled.synced sound path flags

def sixteenTracked : Tracked :=
  (List.replicate 16 (VolumeOp.call (.fsOpen pathA 7))).foldl Tracked.volumeStep (Tracked.mounted powerOn)

/-- With no descriptor free a file that is there cannot be opened, and none is created. -/
theorem failed_open_invisible_iff_full :
    NoVisibleEffect sixteenTracked.fs (fsOpen sixteenTracked.fs pathA FS_OPEN_CREATE).1 := by
  have facts : (fsOpen sixteenTracked.fs pathA FS_OPEN_CREATE).2 = -1 ∧ (pathLookup sixteenTracked.fs pathA).2 ≠ none := by
    decide +kernel
  have calls : ∀ op ∈ List.replicate 16 (VolumeOp.call (.fsOpen pathA 7)), ∀ x, CarefulVolume x op := by
    intro op mem x
    rw [List.eq_of_mem_replicate mem]
    trivial
  exact (failed_open_invisible_iff powerOn sixteenTracked _ pathA FS_OPEN_CREATE ⟨rfl, rfl⟩ (exec_foldl calls _)).mpr
    (fun leaves => facts.2 leaves.2.1) facts.1

def sixteenOpen : WitFs := (List.replicate 16 (FsOp.fsOpen pathA 7)).foldl WitFs.step (mounted powerOn)

/-- With no descriptor free, opening `/b` fails and creates it; and so does opening a name of 28
characters with all of them free. -/
theorem failed_open_creates :
    (fsOpen sixteenOpen pathB FS_OPEN_CREATE).2 = -1 ∧
      ¬NoVisibleEffect sixteenOpen (fsOpen sixteenOpen pathB FS_OPEN_CREATE).1 ∧
      (fsOpen (mounted powerOn) longName FS_OPEN_CREATE).2 = -1 ∧
      ¬NoVisibleEffect (mounted powerOn) (fsOpen (mounted powerOn) longName FS_OPEN_CREATE).1 := by
  have before : sixteenOpen.superblock.freeInodes = 510 := by decide +kernel
  have after : (fsOpen sixteenOpen pathB FS_OPEN_CREATE).1.superblock.freeInodes = 509 := by decide +kernel
  have long : (fsOpen (mounted powerOn) longName FS_OPEN_CREATE).1.superblock.freeInodes = 510 := by decide +kernel
  have blank : (mounted powerOn).superblock.freeInodes = 511 := by decide +kernel
  refine ⟨by decide +kernel, fun unseen => ?_, by decide +kernel, fun unseen => ?_⟩
  · exact absurd (after.symm.trans (unseen.freeInodes.trans before)) (by decide)
  · exact absurd (long.symm.trans (unseen.freeInodes.trans blank)) (by decide)

end Wittche.Fs
