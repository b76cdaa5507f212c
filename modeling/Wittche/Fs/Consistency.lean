import Mathlib.Data.Finset.Card
import Mathlib.Order.Interval.Finset.Nat
import Wittche.Lib.Ledger
import Wittche.Fs.View

/-! The allocation invariant of WitFS, on a view of the disk and the two bitmaps.
A directory entry is numbered by its block index and its place in that block. The
owners of blocks are the root inode and the inodes named by entries. Between the
separate updates of one operation an inode number or a data block can be allocated
and not yet linked; these are the held ones. -/

namespace Wittche.Fs
open Bytes CString

namespace View

def blk (V : View) (n k : Nat) : Nat := ((V.inode n).block k).toNat

def entryBlock (V : View) (e : Nat) : Buffer := V.block (V.blk 0 (e / 16))

/-- The inode number in entry `e` of the root directory; 0 for an unused one. -/
def ent (V : View) (e : Nat) : Nat :=
  if V.blk 0 (e / 16) ≠ 0 then (direntInode (V.entryBlock e) (e % 16)).toNat else 0

def entName (V : View) (e : Nat) : Buffer := direntName (V.entryBlock e) (e % 16)

def Owner (V : View) (n : Nat) : Prop := n = 0 ∨ ∃ e, V.ent e = n

def Taken (V : View) (b : Nat) : Prop := ∃ n k, V.Owner n ∧ V.blk n k = b

end View

/-- Data blocks that the data bitmap accounts for; block 0 is never handed out. -/
def DataBlock (b : Nat) : Prop := b ≠ 0 ∧ b < FS_MAX_DATA_BLOCKS

theorem blockWord_toNat {b : Nat} (lt : b < FS_MAX_DATA_BLOCKS) : (BitVec.ofNat 32 b).toNat = b := by
  simp only [FS_MAX_DATA_BLOCKS] at lt
  rw [BitVec.toNat_ofNat]
  omega

structure Consistent (V : View) (ib db : Buffer) (heldInode heldBlock : Nat → Prop) : Prop where
  rootDir : (V.inode 0).mode &&& FS_TYPE_DIR ≠ 0
  entLt : ∀ e, V.ent e < TABLE_INODES
  entInj : ∀ e e', V.ent e ≠ 0 → V.ent e = V.ent e' → e = e'
  named : ∀ e, V.ent e ≠ 0 → V.entName e FS_MAX_FILENAME = 0
  blkLt : ∀ n k, V.Owner n → V.blk n k < FS_MAX_DATA_BLOCKS
  excl : ∀ n m j k, V.Owner n → V.Owner m → V.blk n j ≠ 0 → V.blk n j = V.blk m k → n = m ∧ j = k
  shape : ∀ n j k, V.Owner n → V.blk n k ≠ 0 → j < k → V.blk n j ≠ 0
  inodes : Ledger (· < 8 * FS_BLOCK_SIZE) (bitmapTest ib) V.Owner heldInode
  blocks : Ledger DataBlock (bitmapTest db) V.Taken heldBlock
  block0 : bitmapTest db 0 = true

theorem bitmapTest_set (b : Buffer) (i j : Nat) :
    bitmapTest (bitmapSet b i) j = (decide (j = i) || bitmapTest b j) :=
  Bitmap.test_set (by decide) b i j

theorem bitmapTest_clear (b : Buffer) (i j : Nat) :
    bitmapTest (bitmapClear b i) j = (!decide (j = i) && bitmapTest b j) :=
  Bitmap.test_clear (by decide) b i j

theorem blk_of_ge (V : View) (n : Nat) {k : Nat} (h : 10 ≤ k) : V.blk n k = 0 := by
  rw [View.blk, block_of_ge h]
  rfl

theorem ent_of_ge (V : View) {e : Nat} (h : 160 ≤ e) : V.ent e = 0 := by
  rw [View.ent, blk_of_ge V 0 (by omega)]
  simp

theorem ent_lt {V : View} {e : Nat} (h : V.ent e ≠ 0) : e < 160 := by
  by_contra high
  exact h (ent_of_ge V (by omega))

theorem ent_block {V : View} {e : Nat} (h : V.ent e ≠ 0) : V.blk 0 (e / 16) ≠ 0 := by
  intro zero
  exact h (by simp [View.ent, zero])

theorem owner_root (V : View) : V.Owner 0 := Or.inl rfl

theorem owner_ent (V : View) (e : Nat) : V.Owner (V.ent e) := Or.inr ⟨e, rfl⟩

section Bits

variable {V : View} {ib db : Buffer} {hi hb : Nat → Prop}

theorem Consistent.owner_lt (c : Consistent V ib db hi hb) {n : Nat} (own : V.Owner n) :
    n < TABLE_INODES := by
  rcases own with rfl | ⟨e, rfl⟩
  · decide
  · exact c.entLt e

theorem Consistent.taken_lt (c : Consistent V ib db hi hb) {n k : Nat} (own : V.Owner n)
    (used : V.blk n k ≠ 0) : DataBlock (V.blk n k) := ⟨used, c.blkLt n k own⟩

theorem Consistent.holdInode (c : Consistent V ib db hi hb) {n : Nat} (lt : n < FS_MAX_INODES)
    (clear : bitmapTest ib n = false) :
    Consistent V (bitmapSet ib n) db (fun m => m = n ∨ hi m) hb :=
  { c with inodes := c.inodes.hold (show n < 8 * FS_BLOCK_SIZE by
      simp only [FS_MAX_INODES, FS_BLOCK_SIZE] at *
      omega) clear fun b _ => bitmapTest_set ib n b }

theorem Consistent.releaseInode (c : Consistent V ib db hi hb) {n : Nat} (held : hi n) :
    Consistent V (bitmapClear ib n) db (fun m => hi m ∧ m ≠ n) hb :=
  { c with inodes := c.inodes.release held (bitmapTest_clear ib n) }

theorem Consistent.holdBlock (c : Consistent V ib db hi hb) {b : Nat} (lt : b < FS_MAX_DATA_BLOCKS)
    (clear : bitmapTest db b = false) :
    b ≠ 0 ∧ Consistent V ib (bitmapSet db b) hi (fun a => a = b ∨ hb a) := by
  have nonzero : b ≠ 0 := by
    rintro rfl
    rw [c.block0] at clear
    exact Bool.noConfusion clear
  refine ⟨nonzero, { c with
    blocks := c.blocks.hold ⟨nonzero, lt⟩ clear fun k _ => bitmapTest_set db b k
    block0 := ?_ }⟩
  rw [bitmapTest_set, c.block0, Bool.or_true]

theorem Consistent.releaseBlock (c : Consistent V ib db hi hb) {b : Nat} (held : hb b) :
    Consistent V ib (bitmapClear db b) hi (fun a => hb a ∧ a ≠ b) := by
  have nonzero := (c.blocks.apart b held).1.1
  refine { c with blocks := c.blocks.release held (bitmapTest_clear db b), block0 := ?_ }
  rw [bitmapTest_clear, c.block0]
  simpa using Ne.symm nonzero

/-- With nothing held, an inode number below which all bits are set is at most 161: the
numbers from 1 on are all named by different entries. -/
theorem Consistent.lowest_lt (c : Consistent V ib db hi hb) (none : ∀ n, ¬hi n) {n : Nat}
    (lt : n < FS_MAX_INODES) (below : ∀ m < n, bitmapTest ib m = true) : n < TABLE_INODES := by
  have covered : Finset.Ico 1 n ⊆ (Finset.range 160).image V.ent := by
    intro m hm
    rw [Finset.mem_Ico] at hm
    have bit := below m hm.2
    rw [c.inodes.iff m (by simp only [FS_MAX_INODES, FS_BLOCK_SIZE] at *; omega)] at bit
    rcases bit with (zero | ⟨e, entry⟩) | held
    · omega
    · have live : V.ent e ≠ 0 := by omega
      exact Finset.mem_image.mpr ⟨e, Finset.mem_range.mpr (ent_lt live), entry⟩
    · exact absurd held (none m)
  have count := (Finset.card_le_card covered).trans Finset.card_image_le
  rw [Nat.card_Ico, Finset.card_range] at count
  rw [table_inodes]
  omega

end Bits

theorem held_back {held : Nat → Prop} {b : Nat} (loose : ¬held b) :
    (fun a => (a = b ∨ held a) ∧ a ≠ b) = held := by
  funext a
  refine propext ⟨?_, fun h => ⟨Or.inr h, fun same => loose (same ▸ h)⟩⟩
  rintro ⟨same | h, ne⟩
  · exact absurd same ne
  · exact h

section Updates

variable {V : View}

theorem blk_setInode (V : View) (n : Nat) (x : Inode) (m k : Nat) :
    (V.setInode n x).blk m k = if m = n then (x.block k).toNat else V.blk m k := by
  simp only [View.blk, setInode_inode]
  split <;> rfl

@[simp] theorem blk_setBlock (V : View) (b : Nat) (data : Buffer) (m k : Nat) :
    (V.setBlock b data).blk m k = V.blk m k := rfl

theorem ent_setInode {n : Nat} (h : n ≠ 0) (x : Inode) (e : Nat) :
    (V.setInode n x).ent e = V.ent e ∧ (V.setInode n x).entName e = V.entName e := by
  simp [View.ent, View.entName, View.entryBlock, blk_setInode, Ne.symm h]

theorem owner_congr {V W : View} (h : ∀ e, W.ent e = V.ent e) (n : Nat) : W.Owner n ↔ V.Owner n := by
  simp only [View.Owner, h]

def OffRoot (V : View) (b : Nat) : Prop := ∀ k, V.blk 0 k ≠ 0 → V.blk 0 k ≠ b

theorem ent_setBlock {b : Nat} (off : OffRoot V b) (data : Buffer) (e : Nat) :
    (V.setBlock b data).ent e = V.ent e ∧
      ((V.setBlock b data).ent e ≠ 0 → (V.setBlock b data).entName e = V.entName e) := by
  by_cases zero : V.blk 0 (e / 16) = 0
  · simp [View.ent, zero]
  · have same : (V.setBlock b data).entryBlock e = V.entryBlock e := by
      simp only [View.entryBlock, setBlock_block, blk_setBlock]
      rw [if_neg (off _ zero)]
    simp [View.ent, View.entName, same]

variable {ib db : Buffer} {hi hb : Nat → Prop}

theorem Consistent.of_ents (c : Consistent V ib db hi hb) {W : View} {hb' : Nat → Prop}
    (dir : (W.inode 0).mode &&& FS_TYPE_DIR ≠ 0) (ents : ∀ e, W.ent e = V.ent e)
    (names : ∀ e, V.ent e ≠ 0 → W.entName e FS_MAX_FILENAME = V.entName e FS_MAX_FILENAME)
    (blkLt : ∀ n k, V.Owner n → W.blk n k < FS_MAX_DATA_BLOCKS)
    (excl : ∀ n m j k, V.Owner n → V.Owner m → W.blk n j ≠ 0 → W.blk n j = W.blk m k →
      n = m ∧ j = k)
    (shape : ∀ n j k, V.Owner n → W.blk n k ≠ 0 → j < k → W.blk n j ≠ 0)
    (blocks : Ledger DataBlock (bitmapTest db) (fun b => ∃ n k, V.Owner n ∧ W.blk n k = b) hb') :
    Consistent W ib db hi hb' := by
  have owners : W.Owner = V.Owner := funext fun m => propext (owner_congr ents m)
  refine ⟨dir, ?_, ?_, ?_, owners ▸ blkLt, owners ▸ excl, owners ▸ shape, owners ▸ c.inodes, ?_,
    c.block0⟩
  · exact fun e => ents e ▸ c.entLt e
  · intro e e'
    rw [ents, ents]
    exact c.entInj e e'
  · intro e
    rw [ents]
    intro live
    rw [names e live]
    exact c.named e live
  · rw [show W.Taken = fun b => ∃ n k, V.Owner n ∧ W.blk n k = b by rw [← owners]; rfl]
    exact blocks

theorem Consistent.of_same (c : Consistent V ib db hi hb) {W : View}
    (dir : (W.inode 0).mode &&& FS_TYPE_DIR ≠ 0) (ents : ∀ e, W.ent e = V.ent e)
    (names : ∀ e, V.ent e ≠ 0 → W.entName e FS_MAX_FILENAME = V.entName e FS_MAX_FILENAME)
    (blks : ∀ n k, V.Owner n → W.blk n k = V.blk n k) : Consistent W ib db hi hb := by
  refine c.of_ents dir ents names ?_ ?_ ?_ ?_
  · intro n k own
    rw [blks n k own]
    exact c.blkLt n k own
  · intro n m j k own own'
    rw [blks n j own, blks m k own']
    exact c.excl n m j k own own'
  · intro n j k own
    rw [blks n k own, blks n j own]
    exact c.shape n j k own
  · have taken : (fun b => ∃ n k, V.Owner n ∧ W.blk n k = b) = V.Taken := by
      funext b
      refine propext ⟨?_, ?_⟩
      · rintro ⟨n, k, own, eq⟩
        exact ⟨n, k, own, blks n k own ▸ eq⟩
      · rintro ⟨n, k, own, eq⟩
        exact ⟨n, k, own, (blks n k own).trans eq⟩
    rw [taken]
    exact c.blocks

theorem Consistent.setInode_free (c : Consistent V ib db hi hb) {n : Nat} (free : ¬V.Owner n)
    (x : Inode) : Consistent (V.setInode n x) ib db hi hb := by
  have nonzero : n ≠ 0 := fun h => free (Or.inl h)
  refine c.of_same ?_ (fun e => (ent_setInode nonzero x e).1)
    (fun e _ => congrFun (ent_setInode nonzero x e).2 _) ?_
  · rw [setInode_inode, if_neg (Ne.symm nonzero)]
    exact c.rootDir
  · intro m k own
    rw [blk_setInode, if_neg]
    rintro rfl
    exact free own

theorem Consistent.setInode_same (c : Consistent V ib db hi hb) {n : Nat} {x : Inode}
    (dir : n = 0 → x.mode &&& FS_TYPE_DIR ≠ 0) (same : ∀ k, x.block k = (V.inode n).block k) :
    Consistent (V.setInode n x) ib db hi hb := by
  have blks : ∀ m k, (V.setInode n x).blk m k = V.blk m k := by
    intro m k
    rw [blk_setInode]
    split
    next here => rw [same, here]; rfl
    next => rfl
  refine c.of_same ?_ (fun e => ?_) (fun e _ => ?_) fun m k _ => blks m k
  · rw [setInode_inode]
    split
    next root => exact dir root.symm
    next => exact c.rootDir
  · simp only [View.ent, View.entryBlock, blks, setInode_block]
  · simp only [View.entName, View.entryBlock, blks, setInode_block]

theorem Consistent.held_offRoot (c : Consistent V ib db hi hb) {b : Nat} (held : hb b) :
    OffRoot V b := fun k _ same => (c.blocks.apart b held).2 ⟨0, k, owner_root V, same⟩

theorem Consistent.setBlock_off (c : Consistent V ib db hi hb) {b : Nat} (off : OffRoot V b)
    (data : Buffer) : Consistent (V.setBlock b data) ib db hi hb := by
  have ents : ∀ e, (V.setBlock b data).ent e = V.ent e := fun e => (ent_setBlock off data e).1
  refine c.of_same c.rootDir ents (fun e live => ?_) fun _ _ _ => rfl
  rw [(ent_setBlock off data e).2 (by rw [ents]; exact live)]

theorem direntInode_cut (data : Buffer) {i : Nat} (hi : i < 16) :
    direntInode (cut data) i = direntInode data i := by
  refine load_congr fun j hj => cut_apply ?_
  simp only [SIZEOF_DIRENT, FS_MAX_FILENAME]
  omega

theorem blk_lt_ten {n k : Nat} (used : V.blk n k ≠ 0) : k < 10 := by
  by_contra high
  exact used (blk_of_ge V n (by omega))

def View.grow (V : View) (n : Nat) (x : Inode) (b : Nat) (data : Buffer) : View :=
  (V.setBlock b data).setInode n x

/-- `x` is inode `n` with the pointer `blocks[k]`, the first unused one, set to `b`. -/
structure Grown (V : View) (n k b : Nat) (x : Inode) : Prop where
  index : k < 10
  missing : V.blk n k = 0
  before : ∀ j < k, V.blk n j ≠ 0
  blocks : ∀ j, x.block j = if j = k then BitVec.ofNat 32 b else (V.inode n).block j

theorem Grown.blk {n k b : Nat} {x : Inode} (g : Grown V n k b x) (lt : b < 2 ^ 32) (data : Buffer)
    (m j : Nat) : (V.grow n x b data).blk m j = if m = n ∧ j = k then b else V.blk m j := by
  rw [View.grow, blk_setInode, g.blocks]
  by_cases here : m = n
  · subst here
    by_cases at_k : j = k
    · rw [if_pos rfl, if_pos at_k, if_pos ⟨rfl, at_k⟩, BitVec.toNat_ofNat, Nat.mod_eq_of_lt lt]
    · rw [if_pos rfl, if_neg at_k, if_neg fun h => at_k h.2]
      rfl
  · rw [if_neg here, if_neg fun h => here h.1]
    rfl

theorem Grown.ents {n k b : Nat} {x : Inode} (g : Grown V n k b x) (lt : b < 2 ^ 32) {data : Buffer}
    (off : OffRoot V b) (empty : n = 0 → ∀ i < 16, direntInode data i = 0) (e : Nat) :
    (V.grow n x b data).ent e = V.ent e ∧
      (V.ent e ≠ 0 → (V.grow n x b data).entName e = V.entName e) := by
  have blk := g.blk lt data 0 (e / 16)
  by_cases fresh : 0 = n ∧ e / 16 = k
  · obtain ⟨rfl, rfl⟩ := fresh
    rw [if_pos ⟨rfl, rfl⟩] at blk
    have none : V.ent e = 0 := by simp [View.ent, g.missing]
    have zero : direntInode ((V.grow 0 x b data).block b) (e % 16) = 0 := by
      simp only [View.grow, setInode_block, setBlock_block, if_true]
      rw [direntInode_cut data (by omega)]
      exact empty rfl _ (by omega)
    refine ⟨?_, fun live => absurd none live⟩
    rw [none, View.ent, View.entryBlock, blk, zero]
    simp
  · rw [if_neg fresh] at blk
    by_cases used : V.blk 0 (e / 16) = 0
    · have none : V.ent e = 0 := by simp [View.ent, used]
      refine ⟨?_, fun live => absurd none live⟩
      rw [none, View.ent, blk, used]
      simp
    · have same : (V.grow n x b data).entryBlock e = V.entryBlock e := by
        rw [View.entryBlock, blk]
        simp only [View.grow, setInode_block, setBlock_block]
        rw [if_neg (off _ used)]
        rfl
      simp [View.ent, View.entName, same, blk]

theorem Consistent.grow (c : Consistent V ib db hi hb) {n k b : Nat} {x : Inode} (data : Buffer)
    (own : V.Owner n) (held : hb b) (g : Grown V n k b x)
    (dir : n = 0 → x.mode &&& FS_TYPE_DIR ≠ 0) (empty : n = 0 → ∀ i < 16, direntInode data i = 0) :
    Consistent (V.grow n x b data) ib db hi fun a => hb a ∧ a ≠ b := by
  obtain ⟨⟨nonzero, lt⟩, free⟩ := c.blocks.apart b held
  have lt32 : b < 2 ^ 32 := by
    simp only [FS_MAX_DATA_BLOCKS] at lt
    omega
  have blk := g.blk lt32 data
  have ents := g.ents lt32 (c.held_offRoot held) empty
  refine c.of_ents ?_ (fun e => (ents e).1) (fun e live => congrFun ((ents e).2 live) _) ?_ ?_ ?_ ?_
  · rw [View.grow, setInode_inode]
    split
    next root => exact dir root.symm
    next => exact c.rootDir
  · intro m j ownm
    rw [blk]
    split
    next => exact lt
    next => exact c.blkLt m j ownm
  · intro m m' j j' ownm ownm'
    rw [blk, blk]
    split
    next here =>
      split
      next there => exact fun _ _ => ⟨here.1.trans there.1.symm, here.2.trans there.2.symm⟩
      next => exact fun _ same => absurd ⟨m', j', ownm', same.symm⟩ free
    next =>
      split
      next => exact fun _ same => absurd ⟨m, j, ownm, same⟩ free
      next => exact c.excl m m' j j' ownm ownm'
  · intro m j j' ownm
    rw [blk, blk]
    split
    next here =>
      intro _ less
      rw [if_neg (by omega), here.1]
      exact g.before j (by omega)
    next =>
      intro used less
      split
      next => exact nonzero
      next => exact c.shape m j j' ownm used less
  · refine c.blocks.adopt (· = b) (fun a _ same => same ▸ held) (fun a da => ?_) fun _ => Iff.rfl
    constructor
    · rintro ⟨m, j, ownm, eq⟩
      rw [blk] at eq
      split at eq
      next => exact Or.inr eq.symm
      next => exact Or.inl ⟨m, j, ownm, eq⟩
    · rintro (⟨m, j, ownm, eq⟩ | same)
      · refine ⟨m, j, ownm, ?_⟩
        rw [blk, if_neg]
        · exact eq
        · rintro ⟨rfl, rfl⟩
          rw [g.missing] at eq
          exact da.1 eq.symm
      · exact ⟨n, k, own, by rw [blk, if_pos ⟨rfl, rfl⟩, same]⟩

end Updates

section Entries

variable {V W : View} {ib db : Buffer} {hi hb : Nat → Prop}

/-- `W` is `V` with the inode number in entry `e` set to `n`: names of other live entries,
block pointers, other inodes and other blocks stay. -/
structure SetEntry (V W : View) (e n : Nat) : Prop where
  dir : (W.inode 0).mode &&& FS_TYPE_DIR ≠ 0
  ents : ∀ a, W.ent a = if a = e then n else V.ent a
  names : ∀ a, a ≠ e → V.ent a ≠ 0 → ∀ c < 28, W.entName a c = V.entName a c
  blks : ∀ m k, W.blk m k = V.blk m k
  inodes : ∀ m, m ≠ 0 → W.inode m = V.inode m
  blocks : ∀ b, b ≠ V.blk 0 (e / 16) → W.block b = V.block b

theorem SetEntry.owner_add {e n : Nat} (set : SetEntry V W e n) (unused : V.ent e = 0) (m : Nat) :
    W.Owner m ↔ V.Owner m ∨ m = n := by
  simp only [View.Owner, set.ents]
  constructor
  · rintro (root | ⟨a, eq⟩)
    · exact Or.inl (Or.inl root)
    · split at eq
      next => exact Or.inr eq.symm
      next => exact Or.inl (Or.inr ⟨a, eq⟩)
  · rintro ((root | ⟨a, eq⟩) | same)
    · exact Or.inl root
    · by_cases here : a = e
      · rw [here, unused] at eq
        exact Or.inl eq.symm
      · exact Or.inr ⟨a, by rw [if_neg here, eq]⟩
    · exact Or.inr ⟨e, by rw [if_pos rfl, same]⟩

theorem SetEntry.owner_drop (c : Consistent V ib db hi hb) {e : Nat} (set : SetEntry V W e 0) (live : V.ent e ≠ 0)
    (m : Nat) : W.Owner m ↔ V.Owner m ∧ m ≠ V.ent e := by
  simp only [View.Owner, set.ents]
  constructor
  · rintro (rfl | ⟨a, eq⟩)
    · exact ⟨Or.inl rfl, Ne.symm live⟩
    · split at eq
      next =>
        subst eq
        exact ⟨Or.inl rfl, Ne.symm live⟩
      next other =>
        refine ⟨Or.inr ⟨a, eq⟩, ?_⟩
        rintro rfl
        exact other (c.entInj e a live eq.symm).symm
  · rintro ⟨root | ⟨a, eq⟩, ne⟩
    · exact Or.inl root
    · refine Or.inr ⟨a, ?_⟩
      rw [if_neg, eq]
      rintro rfl
      exact ne eq.symm

/-- A held inode, with its held blocks, is linked through an unused entry. -/
theorem Consistent.addEntry (c : Consistent V ib db hi hb) {e n : Nat} (set : SetEntry V W e n)
    (name : W.entName e FS_MAX_FILENAME = 0) (unused : V.ent e = 0) (held : hi n)
    (lt : n < TABLE_INODES) (blks : ∀ k, V.blk n k ≠ 0 → k = 0 ∧ hb (V.blk n k)) :
    Consistent W ib db (fun m => hi m ∧ m ≠ n) fun b => hb b ∧ ∀ k, V.blk n k ≠ b := by
  have free := (c.inodes.apart n held).2
  have owners := set.owner_add unused
  -- No owner of the old view has a block of `n`.
  have fresh : ∀ m j k, V.Owner m → V.blk n k ≠ 0 → V.blk m j ≠ V.blk n k := fun m j k own used same =>
    (c.blocks.apart _ (blks k used).2).2 ⟨m, j, own, same⟩
  refine ⟨set.dir, ?_, ?_, ?_, ?_, ?_, ?_, ?_, ?_, c.block0⟩
  · intro a
    rw [set.ents]
    split
    next => exact lt
    next => exact c.entLt a
  · intro a a'
    rw [set.ents, set.ents]
    split
    next here =>
      split
      next there => exact fun _ _ => here.trans there.symm
      next => exact fun _ same => absurd (Or.inr ⟨a', same.symm⟩) free
    next =>
      split
      next => exact fun _ same => absurd (Or.inr ⟨a, same⟩) free
      next => exact c.entInj a a'
  · intro a live
    by_cases here : a = e
    · rw [here, name]
    · rw [set.ents, if_neg here] at live
      rw [set.names a here live _ (by decide)]
      exact c.named a live
  · intro m k own
    rw [set.blks]
    rcases (owners m).mp own with old | rfl
    · exact c.blkLt m k old
    · by_cases used : V.blk m k = 0
      · rw [used]
        decide
      · exact (c.blocks.apart _ (blks k used).2).1.2
  · intro m m' j j' own own'
    rw [set.blks, set.blks]
    intro used same
    rcases (owners m).mp own with old | rfl <;> rcases (owners m').mp own' with old' | rfl
    · exact c.excl m m' j j' old old' used same
    · exact absurd same (fresh m j j' old (same ▸ used))
    · exact absurd same.symm (fresh m' j' j old' used)
    · exact ⟨rfl, by rw [(blks j used).1, (blks j' (same ▸ used)).1]⟩
  · intro m j k own
    rw [set.blks, set.blks]
    intro used less
    rcases (owners m).mp own with old | rfl
    · exact c.shape m j k old used less
    · have first := (blks k used).1
      omega
  · exact c.inodes.link held owners
  · refine c.blocks.adopt (fun b => ∃ k, V.blk n k = b) ?_ (fun b _ => ?_)
      fun b => and_congr_right' not_exists.symm
    · rintro b db ⟨k, rfl⟩
      exact (blks k db.1).2
    · constructor
      · rintro ⟨m, k, own, eq⟩
        rw [set.blks] at eq
        rcases (owners m).mp own with old | rfl
        · exact Or.inl ⟨m, k, old, eq⟩
        · exact Or.inr ⟨k, eq⟩
      · rintro (⟨m, k, old, eq⟩ | ⟨k, eq⟩)
        · exact ⟨m, k, (owners m).mpr (Or.inl old), by rw [set.blks, eq]⟩
        · exact ⟨n, k, (owners n).mpr (Or.inr rfl), by rw [set.blks, eq]⟩

/-- The inode of a dropped entry and its blocks stay allocated and have no owner. -/
theorem Consistent.dropEntry (c : Consistent V ib db hi hb) {e : Nat} (set : SetEntry V W e 0)
    (live : V.ent e ≠ 0) :
    Consistent W ib db (fun m => m = V.ent e ∨ hi m)
      fun b => (b ≠ 0 ∧ ∃ k, V.blk (V.ent e) k = b) ∨ hb b := by
  have owners := set.owner_drop c live
  have old : ∀ {m}, W.Owner m → V.Owner m := fun own => ((owners _).mp own).1
  refine ⟨set.dir, ?_, ?_, ?_, ?_, ?_, ?_, ?_, ?_, c.block0⟩
  · intro a
    rw [set.ents]
    split
    next => decide
    next => exact c.entLt a
  · intro a a'
    rw [set.ents, set.ents]
    split
    next => exact fun zero => absurd rfl zero
    next =>
      split
      next => exact fun nonzero zero => absurd zero nonzero
      next => exact c.entInj a a'
  · intro a
    rw [set.ents]
    split
    next => exact fun zero => absurd rfl zero
    next other =>
      intro used
      rw [set.names a other used _ (by decide)]
      exact c.named a used
  · intro m k own
    rw [set.blks]
    exact c.blkLt m k (old own)
  · intro m m' j k own own'
    rw [set.blks, set.blks]
    exact c.excl m m' j k (old own) (old own')
  · intro m j k own
    rw [set.blks, set.blks]
    exact c.shape m j k (old own)
  · refine c.inodes.orphan (· = V.ent e) ?_ fun m _ => owners m
    rintro m rfl
    refine ⟨?_, owner_ent V e⟩
    have lt := c.entLt e
    rw [table_inodes] at lt
    simp only [FS_BLOCK_SIZE]
    omega
  · refine c.blocks.orphan (fun b => b ≠ 0 ∧ ∃ k, V.blk (V.ent e) k = b) ?_ fun b db => ?_
    · rintro b ⟨nonzero, k, rfl⟩
      exact ⟨c.taken_lt (owner_ent V e) nonzero, V.ent e, k, owner_ent V e, rfl⟩
    · constructor
      · rintro ⟨m, k, own, eq⟩
        rw [set.blks] at eq
        obtain ⟨ownm, ne⟩ := (owners m).mp own
        refine ⟨⟨m, k, ownm, eq⟩, ?_⟩
        rintro ⟨nonzero, j, same⟩
        exact ne (c.excl m (V.ent e) k j ownm (owner_ent V e) (eq ▸ nonzero) (eq.trans same.symm)).1
      · rintro ⟨⟨m, k, own, eq⟩, away⟩
        refine ⟨m, k, (owners m).mpr ⟨own, ?_⟩, by rw [set.blks, eq]⟩
        rintro rfl
        exact away ⟨db.1, k, eq⟩

end Entries

end Wittche.Fs
