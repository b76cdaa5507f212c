import Mathlib.Data.Finset.Prod
import Wittche.Fs.Root
import Wittche.Fs.Contents

/-! What can run out. The root directory has 160 entries, and the disk has more inodes and data
blocks than the root and 160 files can take. So a new name is refused for want of an entry only,
and a write is cut off at the largest file size only. -/

namespace Wittche.Fs
open Bytes CString Execution

section Counting

variable {V : View} {ib db : Buffer} {hi hb : Nat → Prop}

def View.owners (V : View) : Finset Nat := insert 0 (V.live.image V.ent)

theorem mem_owners {n : Nat} (own : V.Owner n) : n ∈ V.owners := by
  rcases own with rfl | ⟨e, rfl⟩
  · exact Finset.mem_insert_self ..
  · by_cases live : V.ent e = 0
    · rw [live]
      exact Finset.mem_insert_self ..
    · exact Finset.mem_insert_of_mem (Finset.mem_image.mpr ⟨e, mem_live.mpr live, rfl⟩)

theorem owners_card_le (V : View) : V.owners.card ≤ 161 := by
  have images := (Finset.card_image_le (s := V.live) (f := V.ent)).trans (live_card_le V)
  exact (Finset.card_insert_le ..).trans (Nat.succ_le_succ images)

def View.pointers (V : View) : Finset Nat := (V.owners ×ˢ Finset.range 10).image fun p => V.blk p.1 p.2

theorem mem_pointers {b : Nat} (taken : V.Taken b) (some : b ≠ 0) : b ∈ V.pointers := by
  rw [View.pointers, Finset.mem_image]
  obtain ⟨n, k, own, same⟩ := taken
  have index : k < 10 := blk_lt_ten (same ▸ some)
  exact ⟨(n, k), Finset.mem_product.mpr ⟨mem_owners own, Finset.mem_range.mpr index⟩, same⟩

theorem pointers_card_le (V : View) : V.pointers.card ≤ 1610 := by
  have images : V.pointers.card ≤ (V.owners ×ˢ Finset.range 10).card := Finset.card_image_le
  rw [Finset.card_product, Finset.card_range] at images
  have owners := owners_card_le V
  omega

/-- 161 inodes with ten pointers each take fewer than the 1980 data blocks. -/
theorem Consistent.not_full (c : Consistent V ib db hi hb) {z : Nat} (few : ∀ a, hb a → a = z) :
    ¬∀ b < FS_MAX_DATA_BLOCKS, bitmapTest db b = true := by
  intro full
  have covered : Finset.Ico 1 FS_MAX_DATA_BLOCKS ⊆ insert z V.pointers := by
    intro b inside
    rw [Finset.mem_Ico] at inside
    have data : DataBlock b := ⟨by omega, inside.2⟩
    rw [Finset.mem_insert]
    rcases (c.blocks.iff b data).mp (full b inside.2) with taken | held
    · exact Or.inr (mem_pointers taken data.1)
    · exact Or.inl (few b held)
  have count := (Finset.card_le_card covered).trans (Finset.card_insert_le ..)
  rw [Nat.card_Ico, show FS_MAX_DATA_BLOCKS = 1981 from rfl] at count
  have pointers := pointers_card_le V
  omega

theorem Consistent.free_inode (c : Consistent V ib db hi hb) (none : ∀ n, ¬hi n) :
    bitmapFindFree ib FS_MAX_INODES ≠ .none := by
  intro full
  have low := c.lowest_lt none (show 511 < FS_MAX_INODES by decide) fun m below =>
    Bitmap.findClear_none.mp full m (Nat.lt_trans below (by decide))
  rw [table_inodes] at low
  omega

def RootFull (V : View) : Prop := ∀ e < 160, V.ent e ≠ 0

theorem rootFull_iff : RootFull V ↔ V.live.card = 160 := by
  constructor
  · intro full
    have all : V.live = Finset.range 160 := Finset.filter_true_of_mem fun e inside =>
      full e (Finset.mem_range.mp inside)
    rw [all, Finset.card_range]
  · intro count e inside
    have all := Finset.eq_of_subset_of_card_le (Finset.filter_subset _ (Finset.range 160))
      (show (Finset.range 160).card ≤ V.live.card by rw [count, Finset.card_range])
    have here : e ∈ V.live := by
      rw [View.live, all]
      exact Finset.mem_range.mpr inside
    exact mem_live.mp here

end Counting

section Refusal

variable {s : WitFs} {hi hb : Nat → Prop} {z : Nat} {name : CStr} {n : Nat}

theorem Books.allocDataBlock_some {V : View} (ready : Ready s) (books : Books V s hi hb) (few : ∀ a, hb a → a = z) :
    ∃ b t, allocDataBlock s = (t, some b) ∧ DataBlock b ∧ Quiet s t ∧ ¬V.Taken b := by
  rcases allocDataBlock_spec ready books with ⟨-, full⟩ | ⟨b, t, alloc, data, free, -, quiet, -⟩
  · exact absurd full (books.cons.not_full few)
  · exact ⟨b, t, alloc, data, quiet, free⟩

theorem dirAddFrom_full (ready : Ready s) (books : Books s.view s hi hb) (few : ∀ a, hb a → a = z)
    {turns k : Nat} (h : k + turns = 10) (data : Buffer)
    (failed : (dirAddFrom 0 name n turns k s (s.view.inode 0) data).2 ≠ 0) {e : Nat} (lo : 16 * k ≤ e) (hi : e < 160) :
    s.view.ent e ≠ 0 := by
  induction turns generalizing k data with
  | zero => omega
  | succ turns ih =>
    rw [dirAddFrom] at failed
    by_cases missing : (s.view.inode 0).block k = 0
    · obtain ⟨b, t, alloc, -, -, -⟩ := books.allocDataBlock_some ready few
      have first : findUnused (fun _ => 0) = some 0 := by decide
      rw [ensureBlock, if_pos missing] at failed
      simp only [alloc, first] at failed
      exact absurd rfl failed
    · have used : s.view.blk 0 k ≠ 0 := fun zero => missing ((blk_word _ k).mpr zero)
      have contents := readDir_contents ready books.cons k data
      rw [ensureBlock, if_neg missing] at failed
      simp only [] at failed
      cases found : findUnused (readBlock s (dataBlockNum ((s.view.inode 0).block k)) data) with
      | none =>
        rw [found] at failed
        by_cases here : e < 16 * (k + 1)
        · obtain ⟨i, inside, rfl⟩ : ∃ i < 16, e = 16 * k + i := ⟨e - 16 * k, by omega, by omega⟩
          have live := Scan.firstFrom_none.mp found i (Nat.zero_le i) (by rw [entries_per_block]; omega)
          rw [ne_eq, ent_zero_iff used contents inside]
          exact of_decide_eq_false live
        · exact ih (by omega) _ failed (by omega)
      | some i =>
        rw [found] at failed
        exact absurd rfl failed

theorem dirAddEntry_full (ready : Ready s) (books : Books s.view s hi hb) (few : ∀ a, hb a → a = z)
    (failed : (dirAddEntry s 0 name n).2 ≠ 0) : RootFull s.view := by
  obtain ⟨heap, p, grant, pending, -, -⟩ := kmalloc_of_ready ready
  have ready' : Ready { s with heap := heap } := ⟨ready.disk, pending⟩
  rw [dirAddEntry, readInode_view ready (show 0 < TABLE_INODES by decide)] at failed
  simp only [books.cons.rootDir, if_false, grant] at failed
  exact fun e inside => dirAddFrom_full ready' (books.withHeap heap) few (show 0 + 10 = 10 from rfl) heap.junk failed
    (Nat.zero_le e) inside

theorem enterInode_full (ready : Ready s) (books : Books s.view s (fun m => m = n) hb) (few : ∀ a, hb a → a = z)
    (lt : n < TABLE_INODES) {x : Inode} {type : Word} (failed : (enterInode s name type n x).2 ≠ 0) :
    RootFull s.view := by
  have free := (books.cons.inodes.apart n rfl).2
  have root : n ≠ 0 := fun zero => free (Or.inl zero)
  obtain ⟨s1, written, disk, view⟩ := writeInode_view ready lt x
  have books1 := (books.diskOnly disk).view ((books.diskOnly disk).cons.setInode_free free x)
  rw [← view] at books1
  have refused : (dirAddEntry s1 0 name n).2 ≠ 0 := by
    intro done
    simp only [enterInode, written] at failed
    rw [done, if_neg (by decide)] at failed
    exact failed rfl
  have full := dirAddEntry_full (disk.toKeeps.ready ready) books1 few refused
  intro e inside
  have live := full e inside
  rw [view, (ent_setInode root x e).1] at live
  exact live

theorem makeInode_full (ready : Ready s) (books : Books s.view s (fun m => m = n) fun _ => False)
    (lt : n < TABLE_INODES) {type : Word} (failed : (makeInode s name type n).2 ≠ 0) : RootFull s.view := by
  rw [makeInode] at failed
  by_cases dir : type = FS_TYPE_DIR
  · obtain ⟨b, t, alloc, data, quiet, free⟩ := books.allocDataBlock_some ready (z := 0) fun _ held => held.elim
    obtain ⟨-, -, -, -, books'⟩ := Fs.allocDataBlock_some ready books alloc
    obtain ⟨disk, view⟩ := clearDataBlock_view (quiet.toKeeps.ready ready) data.2
    rw [quiet.view] at view
    have off : OffRoot s.view b := fun k _ same => free ⟨0, k, owner_root _, same⟩
    have books'' := (books'.diskOnly disk).view ((books'.diskOnly disk).cons.setBlock_off off fun _ => 0)
    rw [← view] at books''
    simp only [dir, if_true, alloc] at failed
    have full := enterInode_full (disk.toKeeps.ready (quiet.toKeeps.ready ready)) books''
      (z := b) (fun a held => held.resolve_right id) lt failed
    intro e inside
    have live := full e inside
    rw [view, (ent_setBlock off _ e).1] at live
    exact live
  · rw [if_neg dir] at failed
    exact enterInode_full ready books (z := 0) (fun _ held => held.elim) lt failed

theorem fsCreate_full (h : Sound s fun _ => False) {path : CStr} {type : Word} (absent : (pathLookup s path).2 = none)
    (failed : (fsCreate s path type).2 ≠ 0) : RootFull s.view := by
  obtain ⟨found, looked⟩ := h.pathLookup path
  obtain rfl : found = none := by
    rw [looked] at absent
    exact absent
  rcases allocInode_spec h.ready h.books with out | ⟨n, t, alloc, -, low, quiet, books⟩
  · rw [allocInode] at out
    cases first : bitmapFindFree s.inodeBitmap.bytes FS_MAX_INODES with
    | none => exact absurd first (h.books.cons.free_inode fun _ => id)
    | some n =>
      rw [first] at out
      exact absurd (Prod.mk.inj out).2 (Option.some_ne_none n)
  · simp only [or_false] at books
    rw [fsCreate, h.on, Bool.not_true, if_neg Bool.false_ne_true, looked] at failed
    simp only [alloc] at failed
    rw [← quiet.view] at books ⊢
    exact makeInode_full (quiet.toKeeps.ready h.ready) books (low fun _ => id) failed

end Refusal

section Runs

variable {s : WitFs}

/-- `fs_create` refuses a path that leads somewhere, and any path when all entries are in use. -/
theorem Tidy.create_refused (h : Tidy s) (path : CStr) (type : Word) : (fsCreate s path type).2 = -1 ↔
    (pathLookup s path).2 ≠ none ∨ s.view.live.card = 160 := by
  have sound : Sound s fun _ => False := h.sound
  constructor
  · intro failed
    by_contra fine
    simp only [not_or, not_not] at fine
    obtain ⟨absent, room⟩ := fine
    exact room (rootFull_iff.mp (fsCreate_full sound absent (by rw [failed]; decide)))
  · intro reason
    rcases fsCreate_spec sound path type with ⟨t, eq, -⟩ | ⟨t, e, n, eq, -, -, made, -, named, absent⟩
    · rw [eq]
    · rcases reason with found | full
      · rw [pathLookup_eq sound.ready sound.books.cons named, absent] at found
        exact absurd rfl found
      · exact absurd made.unused (rootFull_iff.mpr full e made.index)

theorem Sound.write_count (h : Sound s fun _ => False) {fd : Int} (usable : Usable s fd FS_OPEN_WRITE)
    (own : s.view.Owner (s.openFiles fd.toNat).inode) (root : (s.openFiles fd.toNat).inode ≠ 0)
    (covers : Covers s.view (s.openFiles fd.toNat).inode (s.openFiles fd.toNat).position) (buf : Buffer) (size : Nat) :
    (fsWrite s fd buf size).2 = (min size (FS_MAX_FILE_SIZE - (s.openFiles fd.toNat).position) : Nat) := by
  obtain ⟨t, len, eq, le, sound, wrote, stop⟩ := fsWrite_spec h usable rfl rfl own root covers buf size
  have most := wrote.covers.le
  have start := covers.le
  rw [eq]
  by_cases short : len < size
  · rcases stop short with whole | full
    · omega
    · exact absurd full (sound.books.cons.not_full (z := 0) fun _ held => held.elim)
  · omega

end Runs

/-- In every state of a run that spares the root and the files that are open, the 160 entries of the
root directory are the only limit on the number of files. -/
theorem create_refused_iff (s0 s : WitFs) (ops : List FsOp) (path : CStr) (type : Word) (ready : Ready s0)
    (run : Exec Sparing WitFs.step (mounted s0) ops s) : (fsCreate s path type).2 = -1 ↔
      (pathLookup s path).2 ≠ none ∨ s.view.live.card = 160 :=
  (run.invariant (fun _ _ tidy ok => tidy.sparing_step ok) (mounted_tidy ready)).create_refused path type

theorem create_refused_iff_second :
    (fsCreate ((mounted powerOn).step (.fsCreate pathA FS_TYPE_FILE)) pathB FS_TYPE_DIR).2 = -1 ↔
      (pathLookup ((mounted powerOn).step (.fsCreate pathA FS_TYPE_FILE)) pathB).2 ≠ none ∨
        ((mounted powerOn).step (.fsCreate pathA FS_TYPE_FILE)).view.live.card = 160 :=
  create_refused_iff powerOn _ [.fsCreate pathA FS_TYPE_FILE] pathB FS_TYPE_DIR ⟨rfl, rfl⟩
    (.cons ⟨trivial, trivial⟩ (.nil _))

/-- And the largest file size is the only limit on what a write takes. -/
theorem write_complete (s0 s : WitFs) (ops : List FsOp) (fd : Int) (buf : Buffer) (size : Nat) (ready : Ready s0)
    (run : Exec Sparing WitFs.step (mounted s0) ops s) (usable : Usable s fd FS_OPEN_WRITE)
    (root : (s.openFiles fd.toNat).inode ≠ 0) : (fsWrite s fd buf size).2 =
      (min size (FS_MAX_FILE_SIZE - (s.openFiles fd.toNat).position) : Nat) := by
  have tidy := run.invariant (fun _ _ tidy ok => Tidy.sparing_step tidy ok) (mounted_tidy ready)
  obtain ⟨lt, used⟩ := validFd_spec usable.1
  obtain ⟨own, covers⟩ := tidy.handles _ lt used id
  exact Sound.write_count tidy.sound usable own root covers buf size

theorem write_complete_largest :
    (fsWrite ((mounted powerOn).step (.fsOpen pathA 7)) 0 (fun _ => 0x41) 6000).2 = (min 6000
      (FS_MAX_FILE_SIZE - (((mounted powerOn).step (.fsOpen pathA 7)).openFiles (0 : Int).toNat).position) : Nat) := by
  have usable : Usable ((mounted powerOn).step (.fsOpen pathA 7)) 0 FS_OPEN_WRITE := by decide +kernel
  have root : (((mounted powerOn).step (.fsOpen pathA 7)).openFiles (0 : Int).toNat).inode ≠ 0 := by decide +kernel
  exact write_complete powerOn ((mounted powerOn).step (.fsOpen pathA 7)) [.fsOpen pathA 7] 0 (fun _ => 0x41) 6000
    ⟨rfl, rfl⟩ (.cons ⟨trivial, trivial⟩ (.nil _)) usable root

end Wittche.Fs
