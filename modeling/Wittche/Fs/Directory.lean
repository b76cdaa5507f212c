import Wittche.Fs.Allocation

/-! The root directory as a numbered sequence of entries.
`path_lookup`, `dir_add_entry` and `dir_remove_entry` walk the directory block by
block; here each walk is one scan over the entry numbers, and an edit of a directory
block is a change of one entry. -/

namespace Wittche.Fs
open Bytes CString

section Blocks

theorem sizeof_dirent : SIZEOF_DIRENT = 32 := rfl

theorem entries_per_block : ENTRIES_PER_BLOCK = 16 := rfl

theorem direntName_cut (data : Buffer) {i c : Nat} (hi : i < 16) (hc : c < 28) :
    direntName (cut data) i c = direntName data i c := by
  refine cut_apply ?_
  rw [sizeof_dirent]
  omega

theorem fillEntry_outside (data : Buffer) {i x : Nat} (name : CStr) (n : Nat)
    (h : x < i * 32 ∨ i * 32 + 32 ≤ x) : fillEntry data i name n x = data x := by
  have last : x ≠ i * SIZEOF_DIRENT + 4 + FS_MAX_FILENAME := by
    simp only [sizeof_dirent, FS_MAX_FILENAME]
    omega
  simp only [fillEntry]
  rw [Function.update_of_ne last, strncpy_apply, if_neg, if_neg, store_apart]
  all_goals
    simp only [sizeof_dirent, FS_MAX_FILENAME]
    omega

theorem direntInode_fill (data : Buffer) (i : Nat) (name : CStr) {n : Nat} (hn : n < 2 ^ 32) :
    (direntInode (fillEntry data i name n) i).toNat = n := by
  have same : load (fillEntry data i name n) (i * 32) =
      load (store data (i * 32) (BitVec.ofNat 32 n)) (i * 32) := by
    refine load_congr fun j hj => ?_
    have last : i * 32 + j ≠ i * SIZEOF_DIRENT + 4 + FS_MAX_FILENAME := by
      simp only [sizeof_dirent, FS_MAX_FILENAME]
      omega
    simp only [fillEntry]
    rw [Function.update_of_ne last, strncpy_apply, if_neg, if_neg, sizeof_dirent]
    all_goals
      simp only [sizeof_dirent, FS_MAX_FILENAME]
      omega
  rw [direntInode, sizeof_dirent, same, load_store_same, BitVec.toNat_ofNat, Nat.mod_eq_of_lt hn]

theorem direntName_fill (data : Buffer) (i : Nat) (name : CStr) (n : Nat) :
    (∀ c < 27, direntName (fillEntry data i name n) i c = name.get c) ∧
      direntName (fillEntry data i name n) i 27 = 0 := by
  constructor
  · intro c hc
    have last : i * SIZEOF_DIRENT + 4 + c ≠ i * SIZEOF_DIRENT + 4 + FS_MAX_FILENAME := by
      simp only [FS_MAX_FILENAME]
      omega
    simp only [direntName, fillEntry]
    rw [Function.update_of_ne last, strncpy_apply, if_pos, Nat.add_sub_cancel_left]
    simp only [FS_MAX_FILENAME]
    omega
  · exact Function.update_self ..

theorem dirent_fill_other (data : Buffer) {i j : Nat} (name : CStr) (n : Nat) (ne : j ≠ i) :
    direntInode (fillEntry data i name n) j = direntInode data j ∧
      ∀ c < 28, direntName (fillEntry data i name n) j c = direntName data j c := by
  constructor
  · refine load_congr fun c hc => fillEntry_outside data name n ?_
    rw [sizeof_dirent]
    omega
  · intro c hc
    refine fillEntry_outside data name n ?_
    rw [sizeof_dirent]
    omega

theorem dirent_clear_other (data : Buffer) {i j : Nat} (ne : j ≠ i) :
    direntInode (store data (i * SIZEOF_DIRENT) 0) j = direntInode data j ∧
      ∀ c < 28, direntName (store data (i * SIZEOF_DIRENT) 0) j c = direntName data j c := by
  constructor
  · refine load_store_apart ?_
    rw [sizeof_dirent]
    omega
  · intro c hc
    refine store_apart ?_
    rw [sizeof_dirent]
    omega

end Blocks

namespace View

/-- Entry `e` is live and its name is the whole of `name`. -/
def Match (V : View) (name : CStr) (e : Nat) : Prop :=
  V.ent e ≠ 0 ∧ ∀ i ≤ name.length, V.entName e i = name.get i

instance (V : View) (name : CStr) (e : Nat) : Decidable (V.Match name e) :=
  inferInstanceAs (Decidable (_ ∧ _))

/-- The first entry that carries the name. -/
def find (V : View) (name : CStr) : Option Nat :=
  Scan.firstFrom (fun e => decide (V.Match name e)) 160 0

end View

theorem strcmp_congr {p q : Buffer} (name : CStr) (same : ∀ i < 28, p i = q i) (stop : q 27 = 0) :
    strcmp p name = 0 ↔ ∀ i ≤ name.length, q i = name.get i := by
  rw [strcmp_eq_zero]
  by_cases short : name.length ≤ 27
  · constructor
    · intro h i hi
      rw [← same i (by omega), h i hi]
    · intro h i hi
      rw [same i (by omega), h i hi]
  · have nonzero : name.get 27 ≠ 0 := by
      intro zero
      have lt : 27 < name.chars.length := by
        simp only [CStr.length] at short
        omega
      rw [CStr.get, List.getD_eq_getElem?_getD, List.getElem?_eq_getElem lt, Option.getD_some] at zero
      exact name.noNul (zero ▸ List.getElem_mem lt)
    constructor
    · intro h
      exact absurd ((h 27 (by omega)).symm.trans ((same 27 (by omega)).trans stop)) nonzero
    · intro h
      exact absurd ((h 27 (by omega)).symm.trans stop) nonzero

section Walks

variable {s : WitFs} {V : View} {ib db : Buffer} {hi hb : Nat → Prop}

theorem ent_block_index {k i : Nat} (h : i < 16) : (16 * k + i) / 16 = k ∧ (16 * k + i) % 16 = i := by
  omega

theorem ent_eq {k i : Nat} {data : Buffer} (used : V.blk 0 k ≠ 0)
    (contents : cut data = V.block (V.blk 0 k)) (h : i < 16) :
    V.ent (16 * k + i) = (direntInode data i).toNat ∧
      ∀ c < 28, V.entName (16 * k + i) c = direntName data i c := by
  obtain ⟨q, r⟩ := ent_block_index (k := k) h
  rw [View.ent, View.entName, View.entryBlock, q, r, if_pos used, ← contents, direntInode_cut data h]
  exact ⟨rfl, fun c hc => direntName_cut data h hc⟩

theorem ent_zero_iff {k i : Nat} {data : Buffer} (used : V.blk 0 k ≠ 0)
    (contents : cut data = V.block (V.blk 0 k)) (h : i < 16) :
    V.ent (16 * k + i) = 0 ↔ direntInode data i = 0 := by
  rw [(ent_eq used contents h).1, ← BitVec.toNat_zero, BitVec.toNat_inj]
  rfl

theorem findEntry_eq (c : Consistent V ib db hi hb) {k : Nat} {data : Buffer} (name : CStr)
    (used : V.blk 0 k ≠ 0) (contents : cut data = V.block (V.blk 0 k)) :
    Scan.firstFrom (fun e => decide (V.Match name e)) 16 (16 * k) =
      (findEntry data name).map (16 * k + ·) := by
  rw [show 16 * k = 16 * k + 0 from rfl, Scan.firstFrom_shift, findEntry, entries_per_block]
  congr 1
  refine Scan.firstFrom_congr fun i _ hi => ?_
  have lt : i < 16 := by omega
  obtain ⟨-, names⟩ := ent_eq used contents lt
  have zero := ent_zero_iff used contents lt
  rw [decide_eq_decide, View.Match, ne_eq, zero]
  constructor
  · rintro ⟨live, same⟩
    have stop := c.named (16 * k + i) (fun h => live (zero.mp h))
    exact ⟨live, (strcmp_congr name (fun j hj => (names j hj).symm) stop).mpr same⟩
  · rintro ⟨live, same⟩
    have stop := c.named (16 * k + i) (fun h => live (zero.mp h))
    exact ⟨live, (strcmp_congr name (fun j hj => (names j hj).symm) stop).mp same⟩

/-- Behind the first missing block there are no entries. -/
theorem Consistent.ent_behind (c : Consistent V ib db hi hb) {k e : Nat} (missing : V.blk 0 k = 0)
    (behind : 16 * k ≤ e) : V.ent e = 0 := by
  by_contra live
  have used := ent_block live
  by_cases here : e / 16 = k
  · exact used (here ▸ missing)
  · exact c.shape 0 k (e / 16) (owner_root V) used (by omega) missing

theorem blk_word (V : View) (k : Nat) : (V.inode 0).block k = 0 ↔ V.blk 0 k = 0 := by
  rw [View.blk, ← BitVec.toNat_zero, BitVec.toNat_inj]
  rfl

theorem readDir_contents (ready : Ready s) (c : Consistent s.view ib db hi hb) (k : Nat)
    (buffer : Buffer) :
    cut (readBlock s (dataBlockNum ((s.view.inode 0).block k)) buffer) =
      s.view.block (s.view.blk 0 k) :=
  readBlock_view ready (c.blkLt 0 k (owner_root _)) buffer

theorem lookupFrom_eq (ready : Ready s) (c : Consistent s.view ib db hi hb) (name : CStr) {n k : Nat}
    (h : k + n = 10) (data : Buffer) :
    lookupFrom s (s.view.inode 0) name n k data =
      (Scan.firstFrom (fun e => decide (s.view.Match name e)) (16 * n) (16 * k)).map s.view.ent := by
  induction n generalizing k data with
  | zero => rfl
  | succ n ih =>
    rw [lookupFrom]
    split
    next missing =>
      have none : Scan.firstFrom (fun e => decide (s.view.Match name e)) (16 * (n + 1)) (16 * k) =
          none := by
        refine Scan.firstFrom_none.mpr fun e lo _ => decide_eq_false fun found => ?_
        exact found.1 (c.ent_behind ((blk_word _ k).mp missing) lo)
      rw [none]
      rfl
    next used =>
      have contents := readDir_contents ready c k data
      have exists_k : s.view.blk 0 k ≠ 0 := fun h => used ((blk_word _ k).mpr h)
      simp only []
      rw [show 16 * (n + 1) = 16 + 16 * n by omega, Scan.firstFrom_add,
        findEntry_eq c name exists_k contents, ih (by omega), show 16 * (k + 1) = 16 * k + 16 by omega]
      split
      next i found =>
        have lt := (Scan.firstFrom_some found).2.1
        rw [entries_per_block] at lt
        rw [found, Option.map_some, Option.some_or, Option.map_some,
          (ent_eq exists_k contents (by omega)).1]
      next missed => rw [missed, Option.map_none, Option.none_or]

theorem pathLookup_empty {path : CStr} (h : (pathName path).get 0 = 0) :
    pathLookup s path = (s, some 0) := by
  rw [pathLookup, if_pos h]

theorem pathLookup_eq (ready : Ready s) (c : Consistent s.view ib db hi hb) {path : CStr}
    (h : (pathName path).get 0 ≠ 0) :
    pathLookup s path = (s, (s.view.find (pathName path)).map s.view.ent) := by
  obtain ⟨heap, p, grant, pending, -, back⟩ := kmalloc_of_ready ready
  have ready' : Ready { s with heap := heap } := ⟨ready.disk, pending⟩
  have root := readInode_view ready (show 0 < TABLE_INODES by decide)
  have loop := lookupFrom_eq ready' c (pathName path) (show 0 + 10 = 10 from rfl) heap.junk
  rw [pathLookup, if_neg h, root]
  simp only [c.rootDir, if_false, grant, back { s with heap := heap } rfl]
  exact congrArg (Prod.mk s) loop

end Walks

section Edits

variable {V : View} {ib db : Buffer} {hi hb : Nat → Prop}

def View.edit (V : View) (k : Nat) (data : Buffer) (size ticks : Word) : View :=
  (V.setBlock (V.blk 0 k) data).setInode 0 ((V.inode 0).resized size ticks)

/-- Two directory blocks that differ in entry `i` at most. -/
def OtherEntries (i : Nat) (data data' : Buffer) : Prop :=
  ∀ j, j ≠ i → direntInode data' j = direntInode data j ∧
    ∀ c < 28, direntName data' j c = direntName data j c

theorem edit_entry (c : Consistent V ib db hi hb) {k i : Nat} {data data' : Buffer}
    (used : V.blk 0 k ≠ 0) (contents : cut data = V.block (V.blk 0 k)) (lt : i < 16)
    (others : OtherEntries i data data') (size ticks : Word) :
    SetEntry V (V.edit k data' size ticks) (16 * k + i) (direntInode data' i).toNat ∧
      ∀ c < 28, (V.edit k data' size ticks).entName (16 * k + i) c = direntName data' i c := by
  have blks : ∀ m j, (V.edit k data' size ticks).blk m j = V.blk m j := by
    intro m j
    rw [View.edit, blk_setInode]
    split
    next root => rw [root]; rfl
    next => rfl
  have used' : (V.edit k data' size ticks).blk 0 k ≠ 0 := by
    rw [blks]
    exact used
  have contents' : cut data' = (V.edit k data' size ticks).block ((V.edit k data' size ticks).blk 0 k) := by
    rw [blks]
    simp [View.edit]
  -- An entry of another block is read from where it was.
  have apart : ∀ a, a / 16 ≠ k → V.blk 0 (a / 16) ≠ 0 →
      (V.edit k data' size ticks).entryBlock a = V.entryBlock a := by
    intro a other live
    rw [View.entryBlock, blks]
    simp only [View.edit, setInode_block, setBlock_block]
    rw [if_neg]
    · rfl
    · intro h
      exact other (c.excl 0 0 (a / 16) k (owner_root V) (owner_root V) live h).2
  refine ⟨⟨?_, ?_, ?_, blks, ?_, ?_⟩, (ent_eq used' contents' lt).2⟩
  · simpa [View.edit, Inode.resized] using c.rootDir
  · intro a
    by_cases here : a / 16 = k
    · have split : a = 16 * k + a % 16 := by omega
      rw [split, (ent_eq used' contents' (by omega)).1, (ent_eq used contents (by omega)).1]
      by_cases at_i : a % 16 = i
      · rw [at_i, if_pos rfl]
      · rw [if_neg (by omega), (others _ at_i).1]
    · rw [if_neg (by omega), View.ent, View.ent, blks]
      by_cases missing : V.blk 0 (a / 16) = 0
      · simp [missing]
      · rw [apart a here missing]
  · intro a ne live c hc
    by_cases here : a / 16 = k
    · have split : a = 16 * k + a % 16 := by omega
      rw [split, (ent_eq used' contents' (by omega)).2 c hc, (ent_eq used contents (by omega)).2 c hc,
        (others _ (by omega)).2 c hc]
    · rw [View.entName, apart a here (ent_block live)]
      rfl
  · intro m nonzero
    simp [View.edit, nonzero]
  · intro b ne
    rw [(ent_block_index lt).1] at ne
    simp [View.edit, ne]

end Edits

section Remove

variable {s : WitFs} {ib db : Buffer} {hi hb : Nat → Prop}

theorem dirRemoveFrom_some (ready : Ready s) (c : Consistent s.view ib db hi hb) (name : CStr)
    {n k e : Nat} (h : k + n = 10) (data : Buffer)
    (some : Scan.firstFrom (fun e => decide (s.view.Match name e)) (16 * n) (16 * k) = some e) :
    ∃ t, dirRemoveFrom 0 name n k s (s.view.inode 0) data = (t, 0) ∧ DiskOnly s t ∧
      SetEntry s.view t.view e 0 ∧
      (t.view.inode 0).size = (s.view.inode 0).size - BitVec.ofNat 32 SIZEOF_DIRENT := by
  induction n generalizing k data with
  | zero => exact absurd some (by simp [Scan.firstFrom])
  | succ n ih =>
    obtain ⟨lo, -, found, -⟩ := Scan.firstFrom_some some
    have live := (of_decide_eq_true found).1
    rw [dirRemoveFrom]
    split
    next missing => exact absurd (c.ent_behind ((blk_word _ k).mp missing) lo) live
    next used =>
      have exists_k : s.view.blk 0 k ≠ 0 := fun h => used ((blk_word _ k).mpr h)
      have contents := readDir_contents ready c k data
      have scan := findEntry_eq c name exists_k contents
      rw [show 16 * (n + 1) = 16 + 16 * n by omega, Scan.firstFrom_add, scan] at some
      simp only []
      split
      next i here =>
        have lt := (Scan.firstFrom_some here).2.1
        rw [entries_per_block] at lt
        rw [here, Option.map_some, Option.some_or, Option.some.injEq] at some
        obtain ⟨disk, view⟩ := writeBlock_view ready (c.blkLt 0 k (owner_root _)) (store _ _ 0)
        obtain ⟨t, written, disk', view'⟩ := writeInode_view (disk.toKeeps.ready ready)
          (show 0 < TABLE_INODES by decide) ((s.view.inode 0).resized _ _)
        rw [written]
        refine ⟨t, rfl, disk.trans disk', ?_, by rw [view', setInode_inode, if_pos rfl]; rfl⟩
        have edit := fun size ticks => (edit_entry c exists_k contents (show i < 16 by omega)
          (fun j ne => dirent_clear_other _ ne) size ticks).1
        simp only [direntInode, load_store_same, some] at edit
        rw [view', view]
        exact edit _ _
      next missed =>
        rw [missed, Option.map_none, Option.none_or] at some
        exact ih (by omega) _ (by rw [show 16 * (k + 1) = 16 * k + 16 by omega]; exact some)

theorem dirRemoveEntry_some (ready : Ready s) (c : Consistent s.view ib db hi hb) {name : CStr}
    {e : Nat} (some : s.view.find name = some e) :
    ∃ t, dirRemoveEntry s 0 name = (t, 0) ∧ DiskOnly s t ∧ SetEntry s.view t.view e 0 ∧
      (t.view.inode 0).size = (s.view.inode 0).size - BitVec.ofNat 32 SIZEOF_DIRENT := by
  obtain ⟨heap, p, grant, pending, -, back⟩ := kmalloc_of_ready ready
  have ready' : Ready { s with heap := heap } := ⟨ready.disk, pending⟩
  obtain ⟨t, loop, disk, set, length⟩ :=
    dirRemoveFrom_some ready' c name (show 0 + 10 = 10 from rfl) heap.junk some
  refine ⟨{ t with heap := s.heap }, ?_, disk.restore, set, length⟩
  rw [dirRemoveEntry, readInode_view ready (show 0 < TABLE_INODES by decide)]
  simp only [grant]
  erw [loop]
  rw [back t disk.heap]

end Remove

/-- `W` is `V` with an unused entry made to point at `n` under a name. The directory may
have got a further block for it; nothing else is touched. -/
structure Linked (V W : View) (e : Nat) (name : CStr) (n : Nat) : Prop where
  unused : V.ent e = 0
  index : e < 160
  ents : ∀ a, W.ent a = if a = e then n else V.ent a
  name : ∀ c < 27, W.entName e c = name.get c
  stop : W.entName e 27 = 0
  names : ∀ a, a ≠ e → V.ent a ≠ 0 → ∀ c < 28, W.entName a c = V.entName a c
  inodes : ∀ m, m ≠ 0 → W.inode m = V.inode m
  blocks : ∀ b, (∀ k, W.blk 0 k ≠ b) → W.block b = V.block b
  roots : ∀ k, V.blk 0 k ≠ 0 → W.blk 0 k = V.blk 0 k
  length : (W.inode 0).size = (V.inode 0).size + BitVec.ofNat 32 SIZEOF_DIRENT

section Add

variable {s : WitFs} {V : View} {hi hb : Nat → Prop} {b : Nat}

theorem findUnused_some {k i : Nat} {data : Buffer} (used : V.blk 0 k ≠ 0)
    (contents : cut data = V.block (V.blk 0 k)) (found : findUnused data = some i) :
    i < 16 ∧ V.ent (16 * k + i) = 0 := by
  obtain ⟨-, lt, unused, -⟩ := Scan.firstFrom_some found
  have inside : i < 16 := by
    rw [entries_per_block] at lt
    omega
  exact ⟨inside, (ent_zero_iff used contents inside).mpr (of_decide_eq_true unused)⟩

theorem fill_linked {ib db : Buffer} (c : Consistent V ib db hi hb) {k i n : Nat} {data : Buffer}
    (used : V.blk 0 k ≠ 0) (contents : cut data = V.block (V.blk 0 k)) (lt : i < 16)
    (unused : V.ent (16 * k + i) = 0) (name : CStr) (small : n < 2 ^ 32) {size : Word}
    (length : size = (V.inode 0).size + BitVec.ofNat 32 SIZEOF_DIRENT) (ticks : Word) :
    SetEntry V (V.edit k (fillEntry data i name n) size ticks) (16 * k + i) n ∧
      Linked V (V.edit k (fillEntry data i name n) size ticks) (16 * k + i) name n := by
  obtain ⟨set, own⟩ := edit_entry c used contents lt (fun j ne => dirent_fill_other data name n ne)
    size ticks
  rw [direntInode_fill data i name small] at set
  obtain ⟨chars, stop⟩ := direntName_fill data i name n
  have index : k < 10 := blk_lt_ten used
  refine ⟨set, unused, by omega, set.ents, ?_, ?_, set.names, set.inodes, ?_, fun j _ => set.blks 0 j, length⟩
  · intro c hc
    rw [own c (by omega), chars c hc]
  · rw [own 27 (by omega), stop]
  · intro b off
    refine set.blocks b fun here => off k ?_
    rw [set.blks, here, (ent_block_index lt).1]

theorem grow_edit {x : Inode} {k b : Nat} {data : Buffer} (blk : (V.grow 0 x b data).blk 0 k = b)
    (data' : Buffer) (size ticks : Word) :
    (V.setBlock b data').setInode 0 (x.resized size ticks) =
      (V.grow 0 x b data).edit k data' size ticks := by
  rw [View.edit, blk]
  simp [View.grow, View.setBlock, View.setInode]

theorem Linked.of_grow {x : Inode} {k b e n : Nat} {data : Buffer} {name : CStr} {W : View}
    (g : Grown V 0 k b x) (lt : b < 2 ^ 32) (off : OffRoot V b)
    (empty : ∀ i < 16, direntInode data i = 0) (length : x.size = (V.inode 0).size)
    (link : Linked (V.grow 0 x b data) W e name n) (keep : W.blk 0 k = b) :
    Linked V W e name n := by
  have ents := g.ents lt off fun _ => empty
  have blk := g.blk lt data
  refine ⟨?_, link.index, ?_, link.name, link.stop, ?_, ?_, ?_, ?_, ?_⟩
  · rw [← (ents e).1, link.unused]
  · intro a
    rw [link.ents, (ents a).1]
  · intro a ne live c hc
    rw [link.names a ne (by rwa [(ents a).1]) c hc, (ents a).2 live]
  · intro m nonzero
    rw [link.inodes m nonzero]
    simp [View.grow, nonzero]
  · intro a away
    have ne : a ≠ b := fun h => away k (by rw [keep, h])
    rw [link.blocks a away]
    simp [View.grow, ne]
  · intro j used
    have other : j ≠ k := fun h => used (h ▸ g.missing)
    rw [link.roots j]
    · rw [blk, if_neg fun h => other h.2]
    · rw [blk, if_neg fun h => other h.2]
      exact used
  · rw [link.length, ← length]
    rfl

theorem writeEntry_view (ready : Ready s) (dir : Inode) {k : Nat}
    (lt : (dir.block k).toNat < FS_MAX_DATA_BLOCKS) (data : Buffer) (size : Word) :
    ∃ t ticks, (writeInode (writeBlock s (dataBlockNum (dir.block k)) data) 0 (dir.resized size
        (writeBlock s (dataBlockNum (dir.block k)) data).ticks)).1 = t ∧ DiskOnly s t ∧
      t.view = (s.view.setBlock (dir.block k).toNat data).setInode 0 (dir.resized size ticks) := by
  obtain ⟨disk, view⟩ := writeBlock_view ready lt data
  obtain ⟨t, written, disk', view'⟩ := writeInode_view (disk.toKeeps.ready ready)
    (show 0 < TABLE_INODES by decide)
    (dir.resized size (writeBlock s (dataBlockNum (dir.block k)) data).ticks)
  rw [view] at view'
  exact ⟨t, _, by rw [written], disk.trans disk', view'⟩

/-- The held inode becomes an owner through the new entry. -/
theorem Books.link {t : WitFs} {W : View} {e n : Nat} (books : Books V t hi hb)
    (set : SetEntry V W e n) {name : CStr} (link : Linked V W e name n) (held : hi n)
    (lt : n < TABLE_INODES) (blks : ∀ k, V.blk n k ≠ 0 → k = 0 ∧ hb (V.blk n k)) :
    Books W t (fun m => hi m ∧ m ≠ n) fun b => hb b ∧ ∀ k, V.blk n k ≠ b :=
  books.view (books.cons.addEntry set link.stop link.unused held lt blks)

theorem addEntry_newBlock {s' : WitFs} (ready : Ready s') (books : Books s'.view s' hi fun a => a = b ∨ hb a)
    {n : Nat} (held : hi n) (lt : n < TABLE_INODES)
    (blks : ∀ k, s'.view.blk n k ≠ 0 → k = 0 ∧ hb (s'.view.blk n k)) (loose : ¬hb b) {k : Nat}
    {dir : Inode} (g : Grown s'.view 0 k b dir) (mode : dir.mode &&& FS_TYPE_DIR ≠ 0)
    (length : dir.size = (s'.view.inode 0).size) (name : CStr) :
    ∃ t e, (writeInode (writeBlock s' (dataBlockNum (dir.block k)) (fillEntry (fun _ => 0) 0 name n)) 0
        (dir.resized (dir.size + BitVec.ofNat 32 SIZEOF_DIRENT) (writeBlock s' (dataBlockNum (dir.block k))
          (fillEntry (fun _ => 0) 0 name n)).ticks)).1 = t ∧ Keeps s' t ∧
      Linked s'.view t.view e name n ∧
      Books t.view t (fun m => hi m ∧ m ≠ n) fun b => hb b ∧ ∀ k, s'.view.blk n k ≠ b := by
  have small : n < 2 ^ 32 := by
    rw [table_inodes] at lt
    omega
  obtain ⟨⟨nonzero, ltb⟩, -⟩ := books.cons.blocks.apart b (Or.inl rfl)
  have lt32 : b < 2 ^ 32 := by
    simp only [FS_MAX_DATA_BLOCKS] at ltb
    omega
  have off := books.cons.held_offRoot (Or.inl rfl)
  have empty : ∀ i < 16, direntInode (fun _ => 0) i = 0 := fun i _ => rfl
  have blk0 := g.blk lt32 (fun _ => 0) 0 k
  rw [if_pos ⟨rfl, rfl⟩] at blk0
  have ptr : (dir.block k).toNat = b := by
    rw [g.blocks, if_pos rfl, BitVec.toNat_ofNat, Nat.mod_eq_of_lt lt32]
  have cons := books.cons.grow (fun _ => 0) (owner_root _) (Or.inl rfl) g (fun _ => mode) fun _ => empty
  rw [held_back loose] at cons
  obtain ⟨t, ticks, written, disk, view⟩ := writeEntry_view ready dir (by rw [ptr]; exact ltb)
    (fillEntry (fun _ => 0) 0 name n) (dir.size + BitVec.ofNat 32 SIZEOF_DIRENT)
  rw [ptr, grow_edit blk0] at view
  have contents : cut (fun _ => 0) =
      (s'.view.grow 0 dir b fun _ => 0).block ((s'.view.grow 0 dir b fun _ => 0).blk 0 k) := by
    rw [blk0, View.grow, setInode_block, setBlock_block, if_pos rfl]
  have unused : (s'.view.grow 0 dir b fun _ => 0).ent (16 * k + 0) = 0 := by
    rw [(g.ents lt32 off (fun _ => empty) _).1]
    exact books.cons.ent_behind g.missing (by omega)
  obtain ⟨set, link⟩ := fill_linked cons (by rw [blk0]; exact nonzero) contents (show 0 < 16 by decide)
    unused name small (show dir.size + BitVec.ofNat 32 SIZEOF_DIRENT = _ from rfl) ticks
  rw [← view] at set link
  have root : n ≠ 0 := fun h => (books.cons.inodes.apart n held).2 (Or.inl h)
  have blkn : ∀ j, (s'.view.grow 0 dir b fun _ => 0).blk n j = s'.view.blk n j := by
    intro j
    rw [g.blk lt32, if_neg fun h => root h.1]
  have linked := ((books.view cons).diskOnly disk).link set link held lt (by
    simp only [blkn]
    exact blks)
  simp only [blkn] at linked
  exact ⟨t, _, written, disk.toKeeps, link.of_grow g lt32 off empty length (by rw [set.blks, blk0]), linked⟩

theorem dirAddFrom_spec (ready : Ready s) (books : Books s.view s hi hb) {n : Nat} (held : hi n)
    (lt : n < TABLE_INODES) (blks : ∀ k, s.view.blk n k ≠ 0 → k = 0 ∧ hb (s.view.blk n k))
    (name : CStr) {turns k : Nat} (h : k + turns = 10) (before : ∀ j < k, s.view.blk 0 j ≠ 0)
    (data : Buffer) :
    dirAddFrom 0 name n turns k s (s.view.inode 0) data = (s, -1) ∨
      ∃ t e, dirAddFrom 0 name n turns k s (s.view.inode 0) data = (t, 0) ∧ Keeps s t ∧
        Linked s.view t.view e name n ∧
        Books t.view t (fun m => hi m ∧ m ≠ n) fun b => hb b ∧ ∀ k, s.view.blk n k ≠ b := by
  have small : n < 2 ^ 32 := by
    rw [table_inodes] at lt
    omega
  induction turns generalizing k data with
  | zero => exact Or.inl rfl
  | succ turns ih =>
    rw [dirAddFrom]
    by_cases missing : (s.view.inode 0).block k = 0
    · rw [ensureBlock, if_pos missing]
      rcases allocDataBlock_spec ready books with ⟨full, -⟩ | ⟨b, s', alloc, -, -, loose, quiet, books'⟩
      · rw [full]
        exact Or.inl rfl
      · rw [← quiet.view] at books' blks missing before ⊢
        have g : Grown s'.view 0 k b ((s'.view.inode 0).setBlock k (BitVec.ofNat 32 b)) :=
          ⟨by omega, (blk_word _ k).mp missing, before, block_setBlock (by omega) _⟩
        have first : findUnused (fun _ => 0) = some 0 := by decide
        obtain ⟨t, e, written, keeps, linked⟩ := addEntry_newBlock (quiet.toKeeps.ready ready) books'
          held lt blks loose g books'.cons.rootDir rfl name
        simp only [alloc, first]
        exact Or.inr ⟨t, e, congrArg (Prod.mk · 0) written, quiet.toKeeps.trans keeps, linked⟩
    · have used : s.view.blk 0 k ≠ 0 := fun h => missing ((blk_word _ k).mpr h)
      have contents := readDir_contents ready books.cons k data
      rw [ensureBlock, if_neg missing]
      simp only []
      cases found : findUnused (readBlock s (dataBlockNum ((s.view.inode 0).block k)) data) with
      | none =>
        refine ih (by omega) ?_ _
        intro j hj
        by_cases here : j = k
        · rw [here]
          exact used
        · exact before j (by omega)
      | some i =>
        obtain ⟨inside, unused⟩ := findUnused_some used contents found
        obtain ⟨t, ticks, written, disk, view⟩ := writeEntry_view ready (s.view.inode 0)
          (books.cons.blkLt 0 k (owner_root _))
          (fillEntry (readBlock s (dataBlockNum ((s.view.inode 0).block k)) data) i name n)
          ((s.view.inode 0).size + BitVec.ofNat 32 SIZEOF_DIRENT)
        obtain ⟨set, link⟩ := fill_linked books.cons used contents inside unused name small rfl ticks
        change t.view = s.view.edit k _ _ _ at view
        rw [← view] at set link
        exact Or.inr ⟨t, _, congrArg (Prod.mk · 0) written, disk.toKeeps, link,
          (books.diskOnly disk).link set link held lt blks⟩

theorem dirAddEntry_spec (ready : Ready s) (books : Books s.view s hi hb) {n : Nat} (held : hi n)
    (lt : n < TABLE_INODES) (blks : ∀ k, s.view.blk n k ≠ 0 → k = 0 ∧ hb (s.view.blk n k))
    (name : CStr) :
    dirAddEntry s 0 name n = (s, -1) ∨
      ∃ t e, dirAddEntry s 0 name n = (t, 0) ∧ Keeps s t ∧ Linked s.view t.view e name n ∧
        Books t.view t (fun m => hi m ∧ m ≠ n) fun b => hb b ∧ ∀ k, s.view.blk n k ≠ b := by
  obtain ⟨heap, p, grant, pending, -, back⟩ := kmalloc_of_ready ready
  have ready' : Ready { s with heap := heap } := ⟨ready.disk, pending⟩
  rw [dirAddEntry, readInode_view ready (show 0 < TABLE_INODES by decide)]
  simp only [books.cons.rootDir, if_false, grant]
  rcases dirAddFrom_spec ready' (books.withHeap heap) held lt blks name (show 0 + 10 = 10 from rfl)
    (fun j h => absurd h (Nat.not_lt_zero j)) heap.junk with full | ⟨t, e, added, keeps, link, books'⟩
  · erw [full]
    rw [back _ rfl]
    exact Or.inl rfl
  · erw [added]
    rw [back t keeps.heap]
    exact Or.inr ⟨_, e, rfl, keeps.restore, link, books'.withHeap s.heap⟩

end Add

end Wittche.Fs
