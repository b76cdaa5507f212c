import Wittche.Fs.Directory

/-! `fs_create` and `fs_unlink`: what they do to the books, to the entries of the root
directory and to the files that are not concerned. -/

namespace Wittche.Fs
open Bytes CString

/-- File `m` has the same inode and the same bytes in both views. -/
structure SameFile (V W : View) (m : Nat) : Prop where
  inode : W.inode m = V.inode m
  blocks : ∀ k, V.blk m k ≠ 0 → W.block (V.blk m k) = V.block (V.blk m k)

theorem SameFile.refl (V : View) (m : Nat) : SameFile V V m := ⟨rfl, fun _ _ => rfl⟩

theorem SameFile.blk {V W : View} {m : Nat} (h : SameFile V W m) (k : Nat) : W.blk m k = V.blk m k := by
  rw [View.blk, h.inode]
  rfl

theorem SameFile.trans {V W X : View} {m : Nat} (h : SameFile V W m) (h' : SameFile W X m) :
    SameFile V X m := by
  refine ⟨h'.inode.trans h.inode, fun k used => ?_⟩
  have next := h'.blocks k (by rw [h.blk]; exact used)
  rw [h.blk] at next
  rw [next, h.blocks k used]

theorem SameFile.ents {V W : View} (h : SameFile V W 0) (e : Nat) :
    W.ent e = V.ent e ∧ (V.ent e ≠ 0 → W.entName e = V.entName e) := by
  have blk := h.blk (e / 16)
  by_cases missing : V.blk 0 (e / 16) = 0
  · simp [View.ent, blk, missing]
  · have same : W.entryBlock e = V.entryBlock e := by
      rw [View.entryBlock, blk, h.blocks _ missing]
      rfl
    simp [View.ent, View.entName, same, blk]

theorem sameFile_setInode {V : View} {n m : Nat} (ne : m ≠ n) (x : Inode) :
    SameFile V (V.setInode n x) m := ⟨by simp [ne], fun _ _ => rfl⟩

theorem sameFile_setBlock {V : View} {m b : Nat} (free : ∀ k, V.blk m k ≠ 0 → V.blk m k ≠ b)
    (data : Buffer) : SameFile V (V.setBlock b data) m := by
  refine ⟨rfl, fun k used => ?_⟩
  simp [free k used]

/-- Bytes before `p` lie in blocks the file has. -/
def Covers (V : View) (n p : Nat) : Prop := ∀ k, 512 * k < p → V.blk n k ≠ 0

theorem Covers.le {V : View} {n p : Nat} (h : Covers V n p) : p ≤ FS_MAX_FILE_SIZE := by
  by_contra high
  simp only [FS_MAX_FILE_SIZE, FS_DIRECT_BLOCKS, FS_BLOCK_SIZE] at high
  exact h 10 (by omega) (blk_of_ge V n (Nat.le_refl 10))

theorem Covers.congr {V W : View} {n p : Nat} (h : Covers V n p) (blks : ∀ k, W.blk n k = V.blk n k) :
    Covers W n p := fun k hk => by
  rw [blks]
  exact h k hk

def Sized (V : View) : Prop := ∀ n, V.Owner n → n ≠ 0 → Covers V n (V.inode n).size.toNat

/-- A mounted file system whose books are right, `leaked` being allocated data blocks
that belong to no file. -/
structure Sound (s : WitFs) (leaked : Nat → Prop) : Prop where
  ready : Ready s
  on : s.initialized = true
  books : Books s.view s (fun _ => False) leaked
  sized : Sized s.view

/-- No slot of the inode table gets a pointer behind the last data block. -/
def Bounded (V W : View) : Prop :=
  ∀ m, (∀ k, V.blk m k < FS_MAX_DATA_BLOCKS) → ∀ k, W.blk m k < FS_MAX_DATA_BLOCKS

section Create

variable {s : WitFs} {hb : Nat → Prop}

theorem kfree_restore {t : WitFs} {heap : FsHeap} {p : Nat} {s : WitFs}
    (back : ∀ t : WitFs, t.heap = heap → kfree t p = { t with heap := s.heap })
    (disk : DiskOnly { s with heap := heap } t) : DiskOnly s (kfree t p) ∧ (kfree t p).view = t.view := by
  rw [back t disk.heap]
  exact ⟨disk.restore, rfl⟩

theorem clearDataBlock_view (ready : Ready s) {b : Nat} (lt : b < FS_MAX_DATA_BLOCKS) :
    DiskOnly s (clearDataBlock s b) ∧ (clearDataBlock s b).view = s.view.setBlock b fun _ => 0 := by
  obtain ⟨heap, p, grant, pending, -, back⟩ := kmalloc_of_ready ready
  have ready' : Ready { s with heap := heap } := ⟨ready.disk, pending⟩
  have num : (BitVec.ofNat 32 b).toNat = b := blockWord_toNat lt
  obtain ⟨disk, view⟩ := writeBlock_view ready' (b := BitVec.ofNat 32 b) (by rw [num]; exact lt) fun _ => 0
  obtain ⟨disk', view'⟩ := kfree_restore back disk
  rw [clearDataBlock, grant]
  refine ⟨disk', ?_⟩
  rw [view', view, num]
  rfl

/-- The blocks `fs_create` gives a new inode: none, or one cleared block for a directory. -/
structure Fresh (type : Word) (x : Inode) (held hb : Nat → Prop) : Prop where
  first : ∀ k, x.block k ≠ 0 → k = 0 ∧ held (x.block k).toNat
  rest : ∀ a, hb a ↔ held a ∧ ∀ k, (x.block k).toNat ≠ a
  dir : x.block 0 ≠ 0 → type = FS_TYPE_DIR
  empty : x.size = 0

/-- How the view changes when `fs_create` succeeds. -/
structure Created (V W : View) (e : Nat) (name : CStr) (n : Nat) : Prop where
  unused : V.ent e = 0
  index : e < 160
  fresh : ¬V.Owner n
  ents : ∀ a, W.ent a = if a = e then n else V.ent a
  name : ∀ c < 27, W.entName e c = name.get c
  stop : W.entName e 27 = 0
  names : ∀ a, a ≠ e → V.ent a ≠ 0 → ∀ c < 28, W.entName a c = V.entName a c
  same : ∀ m, V.Owner m → m ≠ 0 → SameFile V W m
  roots : ∀ k, V.blk 0 k ≠ 0 → W.blk 0 k = V.blk 0 k
  empty : (W.inode n).size = 0
  length : (W.inode 0).size = (V.inode 0).size + BitVec.ofNat 32 SIZEOF_DIRENT

theorem Linked.owner_iff {V W : View} {e n : Nat} {name : CStr} (link : Linked V W e name n) (m : Nat) :
    W.Owner m ↔ m = n ∨ V.Owner m := by
  simp only [View.Owner, link.ents]
  constructor
  · rintro (root | ⟨a, eq⟩)
    · exact Or.inr (Or.inl root)
    · split at eq
      next => exact Or.inl eq.symm
      next => exact Or.inr (Or.inr ⟨a, eq⟩)
  · rintro (same | root | ⟨a, eq⟩)
    · exact Or.inr ⟨e, by rw [if_pos rfl, same]⟩
    · exact Or.inl root
    · by_cases here : a = e
      · rw [here, link.unused] at eq
        exact Or.inl eq.symm
      · exact Or.inr ⟨a, by rw [if_neg here, eq]⟩

theorem Linked.sameFile {V W : View} {e n m : Nat} {name : CStr} {ib db : Buffer} {hi held : Nat → Prop}
    (link : Linked V W e name n) (c : Consistent W ib db hi held) (own : V.Owner m) (root : m ≠ 0) :
    SameFile V W m := by
  have inode := link.inodes m root
  refine ⟨inode, fun k used => link.blocks _ fun j same => ?_⟩
  have blk : W.blk m k = V.blk m k := by
    rw [View.blk, inode]
    rfl
  have own' := (link.owner_iff m).mpr (Or.inr own)
  have clash := c.excl m 0 k j own' (owner_root W) (by rw [blk]; exact used) (by rw [blk, same])
  exact root clash.1

theorem Sized.congr {V W : View} (sized : Sized V) (same : ∀ m, V.Owner m → SameFile V W m) : Sized W := by
  intro m own root
  have old := (owner_congr (fun e => ((same 0 (owner_root _)).ents e).1) m).mp own
  rw [(same m old).inode]
  exact (sized m old root).congr (same m old).blk

theorem Sized.setInode_free {V : View} (sized : Sized V) {n : Nat} (free : ¬V.Owner n) (x : Inode) :
    Sized (V.setInode n x) := by
  intro m own root
  have nonzero : n ≠ 0 := fun h => free (Or.inl h)
  have old := (owner_congr (fun e => (ent_setInode nonzero x e).1) m).mp own
  have same := sameFile_setInode (V := V) (show m ≠ n from fun h => free (h ▸ old)) x
  rw [same.inode]
  exact (sized m old root).congr same.blk

theorem Sized.linked {V W : View} (sized : Sized V) {e n : Nat} {name : CStr}
    (link : Linked V W e name n) (empty : (V.inode n).size = 0) : Sized W := by
  intro m own root
  have inode := link.inodes m root
  have blks : ∀ k, W.blk m k = V.blk m k := by
    intro k
    rw [View.blk, inode]
    rfl
  rw [inode]
  rcases (link.owner_iff m).mp own with rfl | old
  · rw [empty]
    exact fun k hk => absurd hk (Nat.not_lt_zero _)
  · exact (sized m old root).congr blks

theorem Sound.of_quiet {t : WitFs} (ready : Ready s) (on : s.initialized = true) (sized : Sized s.view)
    (quiet : Quiet s t) (books : Books s.view t (fun _ => False) hb) : Sound t hb := by
  refine ⟨quiet.toKeeps.ready ready, quiet.initialized.trans on, ?_, ?_⟩
  · rw [quiet.view]
    exact books
  · rw [quiet.view]
    exact sized

theorem undoCreate_spec {n : Nat} {x : Inode} {type : Word} {held : Nat → Prop} (ready : Ready s)
    (on : s.initialized = true) (books : Books s.view s (fun m => m = n) held) (sized : Sized s.view)
    (lt : n < TABLE_INODES) (fresh : Fresh type x held hb) :
    ∃ t, (if type = FS_TYPE_DIR ∧ x.block 0 ≠ 0 then freeDataBlock (freeInode s n) (x.block 0).toNat
        else freeInode s n) = t ∧ Quiet s t ∧ Sound t hb := by
  have none : ∀ m, (m = n ∧ m ≠ n) = False := fun m => eq_false fun h => h.2 h.1
  obtain ⟨quiet, books'⟩ := freeInode_spec ready books rfl (by
    rw [table_inodes] at lt
    simp only [FS_MAX_INODES]
    omega)
  simp only [none] at books'
  by_cases dir : x.block 0 = 0
  · have zero : ∀ k, x.block k = 0 := by
      intro k
      by_contra used
      exact used ((fresh.first k used).1 ▸ dir)
    have same : held = hb := by
      funext a
      refine propext ⟨fun h => (fresh.rest a).mpr ⟨h, fun k eq => ?_⟩, fun h => ((fresh.rest a).mp h).1⟩
      rw [zero k] at eq
      exact (books.cons.blocks.apart a h).1.1 eq.symm
    rw [same] at books'
    rw [if_neg fun h => h.2 dir]
    exact ⟨_, rfl, quiet, .of_quiet ready on sized quiet books'⟩
  · obtain ⟨quiet', books''⟩ := freeDataBlock_spec (quiet.toKeeps.ready ready) books'
      (fresh.first 0 dir).2
    have same : (fun a => held a ∧ a ≠ (x.block 0).toNat) = hb := by
      funext a
      rw [propext_iff, fresh.rest a]
      refine ⟨fun h => ⟨h.1, fun k eq => ?_⟩, fun h => ⟨h.1, fun eq => h.2 0 eq.symm⟩⟩
      by_cases used : x.block k = 0
      · rw [used] at eq
        exact (books.cons.blocks.apart a h.1).1.1 eq.symm
      · rw [(fresh.first k used).1] at eq
        exact h.2 eq.symm
    rw [same] at books''
    rw [if_pos ⟨fresh.dir dir, dir⟩]
    exact ⟨_, rfl, quiet.trans quiet', .of_quiet ready on sized (quiet.trans quiet') books''⟩

theorem enterInode_spec {n : Nat} {x : Inode} {type : Word} {held : Nat → Prop} (ready : Ready s)
    (on : s.initialized = true) (books : Books s.view s (fun m => m = n) held) (sized : Sized s.view)
    (lt : n < TABLE_INODES) (fresh : Fresh type x held hb) (name : CStr) :
    (∃ t, enterInode s name type n x = (t, -1) ∧ Keeps s t ∧ Sound t hb ∧
        t.view = s.view.setInode n x) ∨
      ∃ t e, enterInode s name type n x = (t, 0) ∧ Keeps s t ∧ Sound t hb ∧
        Linked (s.view.setInode n x) t.view e name n := by
  have free := (books.cons.inodes.apart n rfl).2
  obtain ⟨s1, written, disk, view⟩ := writeInode_view ready lt x
  have ready1 := disk.toKeeps.ready ready
  have on1 := disk.initialized.trans on
  have books1 := (books.diskOnly disk).view ((books.diskOnly disk).cons.setInode_free free x)
  have sized1 := sized.setInode_free free x
  rw [← view] at books1 sized1
  have blkn : ∀ k, s1.view.blk n k = (x.block k).toNat := by
    intro k
    rw [view, blk_setInode, if_pos rfl]
  have first : ∀ k, s1.view.blk n k ≠ 0 → k = 0 ∧ held (s1.view.blk n k) := by
    intro k used
    rw [blkn] at used ⊢
    exact fresh.first k fun zero => used (by rw [zero]; rfl)
  simp only [enterInode, written]
  rw [← view]
  rcases dirAddEntry_spec ready1 books1 rfl lt first name with
    full | ⟨t, e, added, keeps, link, books2⟩
  · obtain ⟨t, undone, quiet, sound⟩ := undoCreate_spec ready1 on1 books1 sized1 lt fresh
    rw [full, if_pos (show (-1 : Int) < 0 by decide), undone]
    exact Or.inl ⟨t, rfl, disk.toKeeps.trans quiet.toKeeps, sound, quiet.view⟩
  · have none : ∀ m, (m = n ∧ m ≠ n) = False := fun m => eq_false fun h => h.2 h.1
    have same : (fun a => held a ∧ ∀ k, s1.view.blk n k ≠ a) = hb := by
      funext a
      rw [propext_iff, fresh.rest a]
      simp only [blkn]
    have empty : (s1.view.inode n).size = 0 := by
      rw [view, setInode_inode, if_pos rfl]
      exact fresh.empty
    simp only [none, same] at books2
    rw [added, if_neg (show ¬(0 : Int) < 0 by decide)]
    exact Or.inr ⟨t, e, rfl, disk.toKeeps.trans keeps,
      ⟨keeps.ready ready1, keeps.initialized.trans on1, books2, sized1.linked link empty⟩, link⟩

/-- A step after which every file is as it was. -/
structure Unchanged (s t : WitFs) : Prop extends Keeps s t where
  same : ∀ m, s.view.Owner m → SameFile s.view t.view m
  bounded : Bounded s.view t.view

theorem Created.of_linked {V V' W : View} {e n : Nat} {name : CStr} {ib db : Buffer}
    {hi held : Nat → Prop} (pre : ∀ m, V.Owner m → SameFile V V' m) (fresh : ¬V.Owner n)
    (empty : (V'.inode n).size = 0) (link : Linked V' W e name n) (c : Consistent W ib db hi held) :
    Created V W e name n := by
  have ents := (pre 0 (owner_root V)).ents
  have root : n ≠ 0 := fun h => fresh (Or.inl h)
  have blks := (pre 0 (owner_root V)).blk
  refine ⟨?_, link.index, fresh, ?_, link.name, link.stop, ?_, ?_, ?_, ?_, ?_⟩
  · rw [← (ents e).1, link.unused]
  · intro a
    rw [link.ents, (ents a).1]
  · intro a ne live c hc
    rw [link.names a ne (by rwa [(ents a).1]) c hc, (ents a).2 live]
  · intro m own nonroot
    have own' := (owner_congr (fun e => (ents e).1) m).mpr own
    exact (pre m own).trans (link.sameFile c own' nonroot)
  · intro k used
    rw [link.roots k (by rw [blks]; exact used), blks]
  · rw [link.inodes n root]
    exact empty
  · rw [link.length, (pre 0 (owner_root V)).inode]

theorem bounded_of_inodes {V W : View}
    (h : ∀ m, W.inode m = V.inode m ∨ ∀ k, W.blk m k < FS_MAX_DATA_BLOCKS) : Bounded V W := by
  intro m old k
  rcases h m with same | new
  · rw [View.blk, same]
    exact old k
  · exact new k

/-- `enterInode` for an inode that is not on the disk yet, seen from the state `s0` in
which `fs_create` started. -/
theorem createEnd_spec {s0 : WitFs} {n : Nat} {x : Inode} {type : Word} {held : Nat → Prop}
    (ready : Ready s) (on : s.initialized = true) (books : Books s.view s (fun m => m = n) held)
    (sized : Sized s.view) (lt : n < TABLE_INODES) (fresh : Fresh type x held hb) (name : CStr)
    (keeps : Keeps s0 s) (pre : ∀ m, s0.view.Owner m → SameFile s0.view s.view m)
    (inodes : s.view.inode = s0.view.inode) (small : ∀ k, (x.block k).toNat < FS_MAX_DATA_BLOCKS) :
    (∃ t, enterInode s name type n x = (t, -1) ∧ Unchanged s0 t ∧ Sound t hb) ∨
      ∃ t e, enterInode s name type n x = (t, 0) ∧ Keeps s0 t ∧ Sound t hb ∧
        Created s0.view t.view e name n ∧ Bounded s0.view t.view := by
  have ents := (pre 0 (owner_root s0.view)).ents
  have free : ¬s0.view.Owner n := fun own =>
    (books.cons.inodes.apart n rfl).2 ((owner_congr (fun e => (ents e).1) n).mpr own)
  have pre' : ∀ m, s0.view.Owner m → SameFile s0.view (s.view.setInode n x) m := by
    intro m own
    exact (pre m own).trans (sameFile_setInode (show m ≠ n from fun h => free (h ▸ own)) x)
  have slots : ∀ m, (s.view.setInode n x).inode m = s0.view.inode m ∨
      ∀ k, (s.view.setInode n x).blk m k < FS_MAX_DATA_BLOCKS := by
    intro m
    by_cases here : m = n
    · refine Or.inr fun k => ?_
      rw [blk_setInode, if_pos here]
      exact small k
    · refine Or.inl ?_
      rw [setInode_inode, if_neg here, inodes]
  rcases enterInode_spec ready on books sized lt fresh name with
    ⟨t, eq, keeps', sound, view⟩ | ⟨t, e, eq, keeps', sound, link⟩
  · refine Or.inl ⟨t, eq, ⟨keeps.trans keeps', ?_, ?_⟩, sound⟩
    · rw [view]
      exact pre'
    · rw [view]
      exact bounded_of_inodes slots
  · have empty : ((s.view.setInode n x).inode n).size = 0 := by
      rw [setInode_inode, if_pos rfl]
      exact fresh.empty
    refine Or.inr ⟨t, e, eq, keeps.trans keeps', sound,
      .of_linked pre' free empty link sound.books.cons, bounded_of_inodes fun m => ?_⟩
    by_cases root : m = 0
    · exact Or.inr fun k => sound.books.cons.blkLt m k (Or.inl root)
    · rcases slots m with same | low
      · exact Or.inl ((link.inodes m root).trans same)
      · refine Or.inr fun k => ?_
        rw [View.blk, link.inodes m root]
        exact low k

theorem newInode_block (s : WitFs) (type : Word) (k : Nat) : (newInode s type).block k = 0 := by
  simp [newInode, Inode.block, Inode.zero]

theorem Unchanged.refl (s : WitFs) : Unchanged s s :=
  ⟨Keeps.refl s, fun m _ => SameFile.refl _ m, fun _ h => h⟩

theorem Unchanged.of_quiet {t : WitFs} (quiet : Quiet s t) : Unchanged s t := by
  refine ⟨quiet.toKeeps, fun m _ => ?_, ?_⟩
  · rw [quiet.view]
    exact SameFile.refl _ m
  · rw [quiet.view]
    exact fun _ h => h

theorem setBlock_zero {x : Inode} (zero : ∀ k, x.block k = 0) {b : Nat} (lt : b < FS_MAX_DATA_BLOCKS)
    (k : Nat) : ((x.setBlock 0 (BitVec.ofNat 32 b)).block k).toNat = if k = 0 then b else 0 := by
  rw [block_setBlock (by decide), zero]
  split
  next => exact blockWord_toNat lt
  next => rfl

theorem newInode_fresh (s : WitFs) (type : Word) (outside : ∀ a, hb a → a ≠ 0) :
    Fresh type (newInode s type) hb hb := by
  have zero := newInode_block s type
  refine ⟨fun k used => absurd (zero k) used, fun a => ⟨fun h => ⟨h, fun k same => ?_⟩, fun h => h.1⟩,
    fun used => absurd (zero 0) used, rfl⟩
  rw [zero] at same
  exact outside a h same.symm

theorem newInode_fresh_dir (s : WitFs) {type : Word} (dir : type = FS_TYPE_DIR) {b : Nat} (lt : b < FS_MAX_DATA_BLOCKS)
    (loose : ¬hb b) (outside : ∀ a, hb a → a ≠ 0) :
    Fresh type ((newInode s type).setBlock 0 (BitVec.ofNat 32 b)) (fun a => a = b ∨ hb a) hb := by
  have zero := newInode_block s type
  have num := setBlock_zero zero lt
  refine ⟨?_, ?_, fun _ => dir, rfl⟩
  · intro k used
    by_cases first : k = 0
    · exact ⟨first, Or.inl (by rw [num, if_pos first])⟩
    · rw [block_setBlock (by decide), if_neg first, zero] at used
      exact absurd rfl used
  · intro a
    constructor
    · intro h
      refine ⟨Or.inr h, fun k same => ?_⟩
      rw [num] at same
      split at same
      next => exact loose (same ▸ h)
      next => exact outside a h same.symm
    · rintro ⟨same | h, away⟩
      · exact absurd (by rw [num, if_pos rfl, same]) (away 0)
      · exact h

theorem makeInode_spec {s0 : WitFs} {n : Nat} (quiet : Quiet s0 s) (ready : Ready s)
    (on : s.initialized = true) (books : Books s.view s (fun m => m = n) hb) (sized : Sized s.view)
    (lt : n < TABLE_INODES) (name : CStr) (type : Word) :
    (∃ t, makeInode s name type n = (t, -1) ∧ Unchanged s0 t ∧ Sound t hb) ∨
      ∃ t e, makeInode s name type n = (t, 0) ∧ Keeps s0 t ∧ Sound t hb ∧
        Created s0.view t.view e name n ∧ Bounded s0.view t.view := by
  have zero := newInode_block s type
  have none : ∀ m, (m = n ∧ m ≠ n) = False := fun m => eq_false fun h => h.2 h.1
  have outside : ∀ a, hb a → a ≠ 0 := fun a h => (books.cons.blocks.apart a h).1.1
  rw [makeInode]
  by_cases dir : type = FS_TYPE_DIR
  · simp only [if_pos dir]
    rcases allocDataBlock_spec ready books with
      ⟨full, -⟩ | ⟨b, s', alloc, dom, free, loose, quiet', books'⟩
    · obtain ⟨back, books'⟩ := freeInode_spec ready books rfl (by
        rw [table_inodes] at lt
        simp only [FS_MAX_INODES]
        omega)
      simp only [none] at books'
      simp only [full]
      exact Or.inl ⟨_, rfl, .of_quiet (quiet.trans back), .of_quiet ready on sized back books'⟩
    · simp only [alloc]
      obtain ⟨disk, view⟩ := clearDataBlock_view (quiet'.toKeeps.ready ready) dom.2
      rw [quiet'.view] at view
      have num := setBlock_zero zero dom.2
      have off : OffRoot s.view b := fun k _ same => free ⟨0, k, owner_root _, same⟩
      have same : ∀ m, s.view.Owner m → SameFile s.view (clearDataBlock s' b).view m := by
        intro m own
        rw [view]
        exact sameFile_setBlock (fun k _ same => free ⟨m, k, own, same⟩) _
      have books'' := (books'.diskOnly disk).view ((books'.diskOnly disk).cons.setBlock_off off fun _ => 0)
      rw [← view] at books''
      have fresh := newInode_fresh_dir s dir dom.2 loose outside
      refine createEnd_spec (disk.toKeeps.ready (quiet'.toKeeps.ready ready)) ?_ books'' (sized.congr same) lt fresh name
        (quiet.toKeeps.trans (quiet'.toKeeps.trans disk.toKeeps)) ?_ ?_ ?_
      · rw [disk.initialized, quiet'.initialized, on]
      · rw [← quiet.view]
        exact same
      · rw [view, ← quiet.view]
        rfl
      · intro k
        rw [num]
        split
        next => exact dom.2
        next => decide
  · rw [if_neg dir]
    refine createEnd_spec ready on books sized lt (newInode_fresh s type outside) name quiet.toKeeps ?_ ?_ ?_
    · rw [quiet.view]
      exact fun m _ => SameFile.refl _ m
    · rw [quiet.view]
    · intro k
      rw [zero]
      decide

/-- `fs_create` gives up at once, or an inode number has been allocated for a name that is
not there. -/
theorem fsCreate_cases (h : Sound s hb) (path : CStr) (type : Word) : fsCreate s path type = (s, -1) ∨
    ∃ n s1, fsCreate s path type = makeInode s1 (pathName path) type n ∧ allocInode s = (s1, some n) ∧
      ¬s.view.Owner n ∧ n < TABLE_INODES ∧ Quiet s s1 ∧ Books s1.view s1 (fun m => m = n) hb ∧
      (pathName path).get 0 ≠ 0 ∧ s.view.find (pathName path) = none := by
  rw [fsCreate, h.on, Bool.not_true, if_neg Bool.false_ne_true]
  by_cases root : (pathName path).get 0 = 0
  · rw [pathLookup_empty root]
    exact Or.inl rfl
  rw [pathLookup_eq h.ready h.books.cons root]
  cases absent : s.view.find (pathName path) with
  | some e => exact Or.inl rfl
  | none =>
    simp only [Option.map_none]
    rcases allocInode_spec h.ready h.books with full | ⟨n, s1, alloc, free, low, quiet, books⟩
    · rw [full]
      exact Or.inl rfl
    · rw [alloc]
      simp only [or_false] at books
      rw [← quiet.view] at books
      exact Or.inr ⟨n, s1, rfl, rfl, free, low fun _ h => h, quiet, books, root, trivial⟩

theorem fsCreate_spec (h : Sound s hb) (path : CStr) (type : Word) :
    (∃ t, fsCreate s path type = (t, -1) ∧ Unchanged s t ∧ Sound t hb) ∨
      ∃ t e n, fsCreate s path type = (t, 0) ∧ Keeps s t ∧ Sound t hb ∧
        Created s.view t.view e (pathName path) n ∧ Bounded s.view t.view ∧
        (pathName path).get 0 ≠ 0 ∧ s.view.find (pathName path) = none := by
  rcases fsCreate_cases h path type with eq | ⟨n, s1, eq, -, -, low, quiet, books, root, absent⟩
  · exact Or.inl ⟨s, eq, .refl s, h⟩
  · rw [eq]
    rcases makeInode_spec quiet (quiet.toKeeps.ready h.ready) (quiet.initialized.trans h.on) books
      (quiet.view ▸ h.sized) low (pathName path) type with failed | ⟨t, e, eq, keeps, sound, created, bounded⟩
    · exact Or.inl failed
    · exact Or.inr ⟨t, e, n, eq, keeps, sound, created, bounded, root, absent⟩

end Create

section Unlink

variable {s : WitFs} {V : View} {hi hb : Nat → Prop}

theorem freeDataBlock_quiet (ready : Ready s) (b : Nat) : Quiet s (freeDataBlock s b) := by
  obtain ⟨keeps, view⟩ := storeDataBitmap_of_ready ready (bitmapClear s.dataBitmap.bytes b)
    (s.superblock.freeBlocks + 1)
  exact ⟨keeps, view⟩

theorem freeInode_quiet (ready : Ready s) (n : Nat) : Quiet s (freeInode s n) := by
  obtain ⟨keeps, view⟩ := storeInodeBitmap_of_ready ready (bitmapClear s.inodeBitmap.bytes n)
    (s.superblock.freeInodes + 1)
  exact ⟨keeps, view⟩

theorem freeBlocksFrom_quiet (ready : Ready s) (x : Inode) (turns k : Nat) :
    Quiet s (freeBlocksFrom x turns k s) := by
  induction turns generalizing s k with
  | zero => exact Quiet.refl s
  | succ turns ih =>
    rw [freeBlocksFrom]
    split
    next => exact Quiet.refl s
    next =>
      have quiet := freeDataBlock_quiet ready (x.block k).toNat
      exact quiet.trans (ih (quiet.toKeeps.ready ready) (k + 1))

theorem freeBlocksFrom_books (ready : Ready s) (books : Books V s hi hb) {x : Inode}
    (shape : ∀ i j, x.block j ≠ 0 → i < j → x.block i ≠ 0)
    (inj : ∀ i j, x.block i ≠ 0 → x.block i = x.block j → i = j) {turns k : Nat} (h : k + turns = 10)
    (held : ∀ j, k ≤ j → x.block j ≠ 0 → hb (x.block j).toNat) :
    Books V (freeBlocksFrom x turns k s) hi fun a => hb a ∧ ∀ j, k ≤ j → (x.block j).toNat ≠ a := by
  have rest : ∀ {s : WitFs} {hb : Nat → Prop} {k : Nat}, Books V s hi hb →
      (∀ j, k ≤ j → x.block j = 0) →
      Books V s hi fun a => hb a ∧ ∀ j, k ≤ j → (x.block j).toNat ≠ a := by
    intro s hb k books zero
    have same : (fun a => hb a ∧ ∀ j, k ≤ j → (x.block j).toNat ≠ a) = hb := by
      funext a
      refine propext ⟨fun h => h.1, fun h => ⟨h, fun j hj same => ?_⟩⟩
      rw [zero j hj] at same
      exact (books.cons.blocks.apart a h).1.1 same.symm
    rw [same]
    exact books
  induction turns generalizing s k hb with
  | zero => exact rest books fun j hj => block_of_ge (by omega)
  | succ turns ih =>
    rw [freeBlocksFrom]
    split
    next zero =>
      refine rest books fun j hj => ?_
      by_contra used
      by_cases here : j = k
      · exact used (here ▸ zero)
      · exact shape k j used (by omega) zero
    next used =>
      obtain ⟨quiet, books'⟩ := freeDataBlock_spec ready books (held k (Nat.le_refl k) used)
      have next := ih (quiet.toKeeps.ready ready) books' (k := k + 1) (by omega) fun j hj used' => by
        refine ⟨held j (by omega) used', fun same => ?_⟩
        have clash := inj k j used (BitVec.eq_of_toNat_eq same.symm)
        omega
      have same : (fun a => (hb a ∧ a ≠ (x.block k).toNat) ∧ ∀ j, k + 1 ≤ j → (x.block j).toNat ≠ a) =
          fun a => hb a ∧ ∀ j, k ≤ j → (x.block j).toNat ≠ a := by
        funext a
        refine propext ⟨fun h => ⟨h.1.1, fun j hj => ?_⟩, fun h =>
          ⟨⟨h.1, fun eq => h.2 k (Nat.le_refl k) eq.symm⟩, fun j hj => h.2 j (by omega)⟩⟩
        by_cases here : j = k
        · rw [here]
          exact fun eq => h.1.2 eq.symm
        · exact h.2 j (by omega)
      rw [same] at next
      exact next

theorem fsUnlink_none (h : Sound s hb) {path : CStr} (named : (pathName path).get 0 ≠ 0)
    (absent : s.view.find (pathName path) = none) : fsUnlink s path = (s, -1) := by
  rw [fsUnlink, h.on, Bool.not_true, if_neg Bool.false_ne_true,
    pathLookup_eq h.ready h.books.cons named, absent]
  rfl

theorem SetEntry.sized {W : View} {e : Nat} (set : SetEntry V W e 0) (sized : Sized V) :
    Sized W := by
  intro m own root
  have old : V.Owner m := by
    rcases own with zero | ⟨a, eq⟩
    · exact absurd zero root
    · rw [set.ents] at eq
      split at eq
      next => exact absurd eq.symm root
      next => exact Or.inr ⟨a, eq⟩
  rw [set.inodes m root]
  exact (sized m old root).congr (set.blks m)

/-- Blocks and inode are given back while the entry still points there; the books are
right again when the entry is gone. -/
theorem fsUnlink_some (h : Sound s hb) {path : CStr} {e : Nat} (named : (pathName path).get 0 ≠ 0)
    (found : s.view.find (pathName path) = some e) :
    ∃ t, fsUnlink s path = (t, 0) ∧ Keeps s t ∧ Sound t hb ∧ SetEntry s.view t.view e 0 ∧
      (t.view.inode 0).size = (s.view.inode 0).size - BitVec.ofNat 32 SIZEOF_DIRENT := by
  have c := h.books.cons
  have live : s.view.ent e ≠ 0 := (of_decide_eq_true (Scan.firstFrom_some found).2.2.1).1
  have own := owner_ent s.view e
  have word : ∀ j, (s.view.inode (s.view.ent e)).block j ≠ 0 ↔ s.view.blk (s.view.ent e) j ≠ 0 := by
    intro j
    rw [View.blk, ← BitVec.toNat_zero, ne_eq, ne_eq, BitVec.toNat_inj]
    rfl
  have quiet := freeBlocksFrom_quiet h.ready (s.view.inode (s.view.ent e)) FS_DIRECT_BLOCKS 0
  have ready1 := quiet.toKeeps.ready h.ready
  have quiet' := freeInode_quiet ready1 (s.view.ent e)
  have quiet2 := quiet.trans quiet'
  have ready2 := quiet2.toKeeps.ready h.ready
  obtain ⟨t, removed, disk, set, length⟩ := dirRemoveEntry_some ready2
    (by rw [quiet2.view]; exact c) (by rw [quiet2.view]; exact found)
  rw [quiet2.view] at set length
  have books := h.books.view (c.dropEntry set live)
  have books1 := freeBlocksFrom_books h.ready books
    (fun i j used less => (word i).mpr (c.shape _ i j own ((word j).mp used) less))
    (fun i j used same => (c.excl _ _ i j own own ((word i).mp used) (congrArg BitVec.toNat same)).2)
    (show 0 + FS_DIRECT_BLOCKS = 10 from rfl)
    (fun j _ used => Or.inl ⟨(word j).mp used, j, rfl⟩)
  obtain ⟨-, books2⟩ := freeInode_spec ready1 books1 (Or.inl rfl) (by
    have lt := c.entLt e
    rw [table_inodes] at lt
    simp only [FS_MAX_INODES]
    omega)
  have noInode : (fun m => (m = s.view.ent e ∨ False) ∧ m ≠ s.view.ent e) = fun _ => False := by
    funext m
    simp
  have noBlock : (fun a => ((a ≠ 0 ∧ ∃ k, s.view.blk (s.view.ent e) k = a) ∨ hb a) ∧
      ∀ j, 0 ≤ j → ((s.view.inode (s.view.ent e)).block j).toNat ≠ a) = hb := by
    funext a
    refine propext ⟨?_, fun held => ⟨Or.inr held, fun j _ same => ?_⟩⟩
    · rintro ⟨⟨-, k, eq⟩ | held, away⟩
      · exact absurd eq (away k (Nat.zero_le k))
      · exact held
    · exact (c.blocks.apart a held).2 ⟨_, j, own, same⟩
  rw [noInode, noBlock] at books2
  refine ⟨t, ?_, quiet2.toKeeps.trans disk.toKeeps, ⟨disk.toKeeps.ready ready2, ?_, ?_, ?_⟩, set,
    length⟩
  · rw [fsUnlink, h.on, Bool.not_true, if_neg Bool.false_ne_true, pathLookup_eq h.ready c named, found]
    simp only [Option.map_some, readInode_view h.ready (c.entLt e), removed]
  · rw [disk.initialized, quiet2.initialized, h.on]
  · exact books2.diskOnly disk
  · exact set.sized h.sized

end Unlink

end Wittche.Fs
