import Wittche.Fs.Transfer

/-! `fs_write` on a file that a directory entry names.
While the loop runs, the inode is in memory: the books are kept for the view with
that inode in its slot. A turn either overwrites a block the file has or adds one;
both are the same update of the view, and the books follow from the allocation
invariant in either case. -/

namespace Wittche.Fs
open Bytes

/-- The state of the loop after `done` bytes; `s0` is the state in which it started. -/
structure Writing (s0 : WitFs) (fd n p size : Nat) (buf : Buffer) (leaked : Nat → Prop)
    (s : WitFs) (x : Inode) (done : Nat) : Prop where
  ready : Ready s
  initialized : s.initialized = s0.initialized
  ticks : s.ticks = s0.ticks
  heap : s.heap = s0.heap
  files : s.openFiles = movedTo s0 fd (p + done)
  inodes : s.view.inode = s0.view.inode
  books : Books (s.view.setInode n x) s (fun _ => False) leaked
  others : ∀ m, s0.view.Owner m → m ≠ n → SameFile s0.view s.view m
  grown : ∀ k, s0.view.blk n k ≠ 0 → (x.block k).toNat = s0.view.blk n k
  covers : Covers (s.view.setInode n x) n (p + done)
  length : x.size.toNat = if done = 0 then (s0.view.inode n).size.toNat
    else max (s0.view.inode n).size.toNat (p + done)
  bytes : ∀ i, s0.view.blk n (i / 512) ≠ 0 ∨ p ≤ i ∧ i < p + done →
    (s.view.setInode n x).byteAt n i =
      if p ≤ i ∧ i < p + done then buf (i - p) else s0.view.byteAt n i
  le : done ≤ size

/-- Block `b` is at index `k` of the inode and its contents are in the buffer: the state
of a turn when the bytes are copied. -/
structure Prepared (s s1 : WitFs) (n k b : Nat) (x x1 : Inode) (data : Buffer) (leaked : Nat → Prop) :
    Prop where
  quiet : Quiet s s1
  dom : DataBlock b
  blocks : ∀ j, (x1.block j).toNat = if j = k then b else (x.block j).toNat
  size : x1.size = x.size
  apart : ∀ m j, (s.view.setInode n x).Owner m → (s.view.setInode n x).blk m j = b → m = n ∧ j = k
  contents : x.block k ≠ 0 → (x.block k).toNat = b ∧ cut data = s.view.block b
  books : ∀ data' x', (∀ j, x'.block j = x1.block j) →
    Books (((s.view.setInode n x).setBlock b data').setInode n x') s1 (fun _ => False) leaked

section

variable {s : WitFs} {n k : Nat} {x : Inode} {leaked : Nat → Prop}

theorem blk_setInode_self (V : View) (n : Nat) (x : Inode) (k : Nat) :
    (V.setInode n x).blk n k = (x.block k).toNat := by
  rw [blk_setInode, if_pos rfl]

theorem word_ne_zero {b : Word} : b ≠ 0 ↔ b.toNat ≠ 0 := by
  rw [ne_eq, ne_eq, ← BitVec.toNat_zero, BitVec.toNat_inj]
  rfl

theorem prepared_old (ready : Ready s)
    (books : Books (s.view.setInode n x) s (fun _ => False) leaked)
    (own : (s.view.setInode n x).Owner n) (root : n ≠ 0) (used : x.block k ≠ 0) (data : Buffer) :
    Prepared s s n k (x.block k).toNat x x (readBlock s (dataBlockNum (x.block k)) data) leaked := by
  have c := books.cons
  have blk := blk_setInode_self s.view n x
  have dom : DataBlock (x.block k).toNat := by
    have inside := c.taken_lt (k := k) own
    rw [blk] at inside
    exact inside (word_ne_zero.mp used)
  have apart : ∀ m j, (s.view.setInode n x).Owner m → (s.view.setInode n x).blk m j = (x.block k).toNat →
      m = n ∧ j = k := by
    intro m j ownm same
    refine c.excl m n j k ownm own (by rw [same]; exact dom.1) ?_
    rw [same, blk]
  refine ⟨Quiet.refl s, dom, fun j => ?_, rfl, apart, fun _ => ⟨rfl, readBlock_view ready dom.2 data⟩, ?_⟩
  · split
    next here => rw [here]
    next => rfl
  · intro data' x' same
    have off : OffRoot (s.view.setInode n x) (x.block k).toNat := fun j _ eq =>
      root (apart 0 j (owner_root _) eq).1.symm
    refine books.view ((c.setBlock_off off data').setInode_same (fun h => absurd h root) fun j => ?_)
    rw [same, setBlock_inode, setInode_inode, if_pos rfl]

theorem prepared_new {s1 : WitFs} {b : Nat} (ready : Ready s)
    (books : Books (s.view.setInode n x) s (fun _ => False) leaked)
    (own : (s.view.setInode n x).Owner n) (root : n ≠ 0) (index : k < 10) (missing : x.block k = 0)
    (before : ∀ j < k, (x.block j).toNat ≠ 0) (alloc : allocDataBlock s = (s1, some b)) :
    Prepared s s1 n k b x (x.setBlock k (BitVec.ofNat 32 b)) (fun _ => 0) leaked := by
  have blk := blk_setInode_self s.view n x
  obtain ⟨dom, free, loose, quiet, books'⟩ := allocDataBlock_some ready books alloc
  refine ⟨quiet, dom, fun j => ?_, rfl, fun m j ownm same => absurd ⟨m, j, ownm, same⟩ free,
    fun used => absurd missing used, ?_⟩
  · rw [block_setBlock index]
    split
    next => exact blockWord_toNat dom.2
    next => rfl
  · intro data' x' same
    have g : Grown (s.view.setInode n x) n k b x' := by
      refine ⟨index, ?_, fun j hj => ?_, fun j => ?_⟩
      · rw [blk, missing]
        rfl
      · rw [blk]
        exact before j hj
      · rw [same, block_setBlock index, setInode_inode, if_pos rfl]
    have cons := books'.cons.grow data' own (Or.inl rfl) g (fun h => absurd h root)
      fun h => absurd h root
    rw [held_back loose] at cons
    exact books'.view cons

end

section Turn

variable {s0 s s1 : WitFs} {fd n p size done len : Nat} {buf data : Buffer} {leaked : Nat → Prop}
  {x x1 : Inode} {b : Nat}

theorem turn_view (V : View) (n : Nat) (x x' : Inode) (b : Nat) (data : Buffer) :
    (V.setBlock b data).setInode n x' = ((V.setInode n x).setBlock b data).setInode n x' := by
  simp [View.setInode, View.setBlock]

theorem growTo_block (x : Inode) (q k : Nat) : (growTo x q).block k = x.block k := by
  rw [growTo]
  split <;> rfl

theorem growTo_size {x : Inode} {q : Nat} (small : q < 2 ^ 32) : (growTo x q).size.toNat = max x.size.toNat q := by
  rw [growTo]
  split
  next less =>
    simp only [BitVec.toNat_ofNat, Nat.mod_eq_of_lt small]
    omega
  next more => omega

theorem byte_copy {q len i : Nat} (data src : Buffer) (same : i / 512 = q / 512) :
    cut (copy data (q % 512) src len) (i % 512) =
      if q ≤ i ∧ i < q + len then src (i - q) else data (i % 512) := by
  rw [cut_apply (Nat.mod_lt i (by decide))]
  by_cases within : q ≤ i ∧ i < q + len
  · rw [if_pos within, copy_inside (by omega)]
    congr 1
    omega
  · rw [if_neg within, copy_outside (by omega)]

/-- What `writeChunk` does: one data block, the position, the size. -/
theorem writeChunk_spec (ready : Ready s1) {q : Nat} (files : s1.openFiles = movedTo s0 fd q)
    (small : q + len < 2 ^ 32) (ptr : (x1.block (q / 512)).toNat = b) (lt : b < FS_MAX_DATA_BLOCKS)
    (buf data : Buffer) (done : Nat) :
    ∃ t data', writeChunk fd buf s1 x1 data done len =
        ({ t with openFiles := movedTo s0 fd (q + len) }, growTo x1 (q + len), data') ∧
      DiskOnly s1 t ∧ t.view = s1.view.setBlock b data' ∧
      data' = copy data (q % 512) (fun i => buf (done + i)) len := by
  have pos : (s1.openFiles fd).position = q := by
    rw [files, movedTo_self]
  obtain ⟨disk, view⟩ := writeBlock_view ready (b := x1.block (q / 512)) (by rw [ptr]; exact lt)
    (copy data (q % 512) (fun i => buf (done + i)) len)
  rw [ptr] at view
  have moved : (advance (writeBlock s1 (dataBlockNum (x1.block (q / 512)))
      (copy data (q % 512) (fun i => buf (done + i)) len)) fd len).openFiles = movedTo s0 fd (q + len) :=
    advance_openFiles (disk.openFiles.trans files) small
  refine ⟨_, _, ?_, disk, view, rfl⟩
  simp only [writeChunk, pos]
  refine Prod.ext ?_ (Prod.ext ?_ rfl)
  · rw [← moved]
    rfl
  · exact congrArg (growTo x1) (by rw [show FS_BLOCK_SIZE = 512 from rfl, moved, movedTo_self])

theorem Writing.turn_bytes (w : Writing s0 fd n p size buf leaked s x done)
    (own : (s.view.setInode n x).Owner n) (prep : Prepared s s1 n ((p + done) / 512) b x x1 data leaked)
    {x' : Inode} (same : ∀ j, x'.block j = x1.block j) (inside : len ≤ 512 - (p + done) % 512) (i : Nat)
    (known : s0.view.blk n (i / 512) ≠ 0 ∨ p ≤ i ∧ i < p + (done + len)) :
    (((s.view.setInode n x).setBlock b (copy data ((p + done) % 512) (fun i => buf (done + i)) len)).setInode
      n x').byteAt n i = if p ≤ i ∧ i < p + (done + len) then buf (i - p) else s0.view.byteAt n i := by
  have blk := blk_setInode_self s.view n x
  have ptr : ((x'.block (i / 512)).toNat) = if i / 512 = (p + done) / 512 then b else (x.block (i / 512)).toNat := by
    rw [same, prep.blocks]
  -- Bytes before the position lie in blocks the file had already.
  have behind : p ≤ i → i < p + done → (x.block (i / 512)).toNat ≠ 0 := by
    intro _ hi
    rw [← blk]
    exact w.covers (i / 512) (by omega)
  have kept : s0.view.blk n (i / 512) ≠ 0 → (x.block (i / 512)).toNat ≠ 0 := by
    intro used
    rw [w.grown _ used]
    exact used
  -- Where the turn does not write, the bytes are those of the turns before.
  have before : (x.block (i / 512)).toNat ≠ 0 → ¬(p + done ≤ i ∧ i < p + done + len) →
      s.view.block (x.block (i / 512)).toNat (i % 512) =
        if p ≤ i ∧ i < p + (done + len) then buf (i - p) else s0.view.byteAt n i := by
    intro _ outside
    have old := w.bytes i (by omega)
    rw [View.byteAt, blk, setInode_block] at old
    rw [old]
    by_cases early : p ≤ i ∧ i < p + done
    · rw [if_pos early, if_pos (by omega)]
    · rw [if_neg early, if_neg (by omega)]
  rw [View.byteAt, blk_setInode_self, ptr, setInode_block, setBlock_block]
  by_cases here : i / 512 = (p + done) / 512
  · rw [if_pos here, if_pos rfl, byte_copy data _ here]
    by_cases within : p + done ≤ i ∧ i < p + done + len
    · rw [if_pos within, if_pos (by omega)]
      congr 1
      omega
    · have used : (x.block (i / 512)).toNat ≠ 0 := by
        rcases known with old | new
        · exact kept old
        · exact behind new.1 (by omega)
      rw [if_neg within, ← before used within]
      rw [here] at used ⊢
      obtain ⟨number, contents⟩ := prep.contents (word_ne_zero.mpr used)
      rw [number, ← contents, cut_apply (Nat.mod_lt i (by decide))]
  · have outside : ¬(p + done ≤ i ∧ i < p + done + len) := by omega
    have used : (x.block (i / 512)).toNat ≠ 0 := by
      rcases known with old | new
      · exact kept old
      · exact behind new.1 (by omega)
    have other : (x.block (i / 512)).toNat ≠ b := fun same =>
      here (prep.apart n (i / 512) own (by rw [blk, same])).2
    rw [if_neg here, if_neg other]
    exact before used outside

theorem Writing.owner_iff (w : Writing s0 fd n p size buf leaked s x done) (root : n ≠ 0) (m : Nat) :
    (s.view.setInode n x).Owner m ↔ s0.view.Owner m := by
  refine owner_congr (fun e => ?_) m
  rw [(ent_setInode root x e).1]
  exact ((w.others 0 (owner_root _) (Ne.symm root)).ents e).1

theorem Writing.turn (w : Writing s0 fd n p size buf leaked s x done)
    (own : s0.view.Owner n) (root : n ≠ 0) (low : (p + done) / 512 < 10)
    (prep : Prepared s s1 n ((p + done) / 512) b x x1 data leaked)
    (length : len = chunk (p + done) (size - done)) (left : done < size) :
    let r := writeChunk fd buf s1 x1 data done len
    Writing s0 fd n p size buf leaked r.1 r.2.1 (done + len) := by
  have bound := chunk_end (size - done) low
  have short := chunk_le (p + done) (size - done)
  have pos : 0 < len := by
    rw [length]
    exact chunk_pos (by omega)
  rw [← length] at bound short
  have own' := (w.owner_iff root n).mpr own
  have ptr : (x1.block ((p + done) / 512)).toNat = b := by
    rw [prep.blocks, if_pos rfl]
  have quiet := prep.quiet
  have ready := quiet.toKeeps.ready w.ready
  obtain ⟨t, data', eq, disk, view, copied⟩ := writeChunk_spec ready (quiet.openFiles.trans w.files)
    (show p + done + len < 2 ^ 32 by omega) ptr prep.dom.2 buf data done
  rw [quiet.view] at view
  have blocks : ∀ j, (growTo x1 (p + done + len)).block j = x1.block j := growTo_block x1 _
  have blkn := blk_setInode_self s.view n x
  have final : t.view.setInode n (growTo x1 (p + done + len)) =
      ((s.view.setInode n x).setBlock b data').setInode n (growTo x1 (p + done + len)) := by
    rw [view, turn_view s.view n x]
  rw [eq]
  refine ⟨⟨?_, ?_⟩, ?_, ?_, ?_, ?_, ?_, ?_, ?_, ?_, ?_, ?_, ?_, ?_⟩
  · exact disk.mounted.trans ready.disk
  · exact (congrArg FsHeap.pending disk.heap).trans ready.heap
  · exact disk.initialized.trans (quiet.initialized.trans w.initialized)
  · exact disk.ticks.trans (quiet.ticks.trans w.ticks)
  · exact disk.heap.trans (quiet.heap.trans w.heap)
  · rw [← Nat.add_assoc]
  · change t.view.inode = _
    rw [view, setBlock_inode, w.inodes]
  · change Books (t.view.setInode _ _) _ _ _
    rw [final]
    exact ((prep.books data' _ blocks).diskOnly disk).withFiles _
  · intro m ownm other
    change SameFile _ t.view m
    rw [view]
    refine (w.others m ownm other).trans (sameFile_setBlock (fun j _ same => ?_) data')
    have clash := prep.apart m j ((w.owner_iff root m).mpr ownm) (by rw [blk_setInode, if_neg other, same])
    exact other clash.1
  · intro k used
    rw [blocks, prep.blocks]
    split
    next here =>
      have old := w.grown k used
      rw [← old]
      rw [here] at old used ⊢
      exact (prep.contents (word_ne_zero.mpr (by rw [old]; exact used))).1.symm
    next => exact w.grown k used
  · intro k hk
    change (t.view.setInode _ _).blk n k ≠ 0
    rw [blk_setInode_self, blocks, prep.blocks]
    split
    next => exact prep.dom.1
    next other =>
      rw [← blkn]
      exact w.covers k (by omega)
  · rw [growTo_size (by omega), prep.size, w.length, if_neg (show done + len ≠ 0 by omega)]
    split <;> omega
  · intro i known
    change (t.view.setInode _ _).byteAt n i = _
    rw [final, copied]
    exact w.turn_bytes own' prep blocks short.2 i known
  · omega

end Turn

def DiskFull (s : WitFs) : Prop := ∀ b < FS_MAX_DATA_BLOCKS, bitmapTest s.dataBitmap.bytes b = true

/-- What `fs_write` of `len` bytes at position `p` does to file `n`, and to nothing else. -/
structure Wrote (s t : WitFs) (fd n p len : Nat) (buf : Buffer) : Prop where
  files : t.openFiles = movedTo s fd (p + len)
  initialized : t.initialized = s.initialized
  ticks : t.ticks = s.ticks
  heap : t.heap = s.heap
  inodes : ∀ m, m ≠ n → t.view.inode m = s.view.inode m
  others : ∀ m, s.view.Owner m → m ≠ n → SameFile s.view t.view m
  grown : ∀ k, s.view.blk n k ≠ 0 → t.view.blk n k = s.view.blk n k
  covers : Covers t.view n (p + len)
  length : (t.view.inode n).size.toNat = if len = 0 then (s.view.inode n).size.toNat
    else max (s.view.inode n).size.toNat (p + len)
  bytes : ∀ i, s.view.blk n (i / 512) ≠ 0 ∨ p ≤ i ∧ i < p + len →
    t.view.byteAt n i = if p ≤ i ∧ i < p + len then buf (i - p) else s.view.byteAt n i

theorem fsWrite_unusable {s : WitFs} {fd : Int} (h : ¬Usable s fd FS_OPEN_WRITE) (buf : Buffer) (size : Nat) :
    fsWrite s fd buf size = (s, -1) := by
  rw [fsWrite]
  split
  next => rfl
  next valid =>
    rw [if_pos]
    by_contra flag
    exact h ⟨by simpa using valid, flag⟩

section

variable {s : WitFs} {fd n p : Nat} {leaked : Nat → Prop}

theorem writing_start (ready : Ready s) (books : Books s.view s (fun _ => False) leaked)
    (position : (s.openFiles fd).position = p) (covers : Covers s.view n p) (buf : Buffer) (size : Nat) :
    Writing s fd n p size buf leaked s (s.view.inode n) 0 := by
  have same : s.view.setInode n (s.view.inode n) = s.view := by
    simp [View.setInode]
  refine ⟨ready, rfl, rfl, rfl, ?_, rfl, ?_, fun m _ _ => SameFile.refl _ m, fun _ _ => rfl, ?_, rfl, ?_,
    Nat.zero_le _⟩
  · rw [Nat.add_zero, ← position, movedTo_here]
  · rw [same]
    exact books
  · rw [same]
    exact covers
  · intro i _
    rw [same, if_neg (by omega)]

/-- The loop of `fs_write`. -/
theorem writeFrom_spec (ready : Ready s) (books : Books s.view s (fun _ => False) leaked)
    (position : (s.openFiles fd).position = p) (own : s.view.Owner n) (root : n ≠ 0)
    (covers : Covers s.view n p) (buf data : Buffer) (size : Nat) :
    ∃ t x len, writeFrom fd buf size (FS_DIRECT_BLOCKS + 1) s (s.view.inode n) data 0 = (t, x, len) ∧
      Writing s fd n p size buf leaked t x len ∧ (len < size → p + len = FS_MAX_FILE_SIZE ∨ DiskFull t) := by
  have place : ∀ {t x done}, Writing s fd n p size buf leaked t x done →
      (t.openFiles fd).position = p + done := by
    intro t x done w
    rw [w.files, movedTo_self]
  have old : TurnOld fd size buf (Writing s fd n p size buf leaked) := by
    intro t x data done w left low used
    simp only [blockAt, lengthAt, place w] at low used ⊢
    have own' := (w.owner_iff root n).mpr own
    exact w.turn own root low (prepared_old w.ready w.books own' root used data) rfl left
  have new : TurnNew fd size buf (Writing s fd n p size buf leaked) := by
    intro t t' x b done w left low missing alloc
    simp only [blockAt, lengthAt, place w] at low missing ⊢
    have own' := (w.owner_iff root n).mpr own
    have before : ∀ j < (p + done) / 512, (x.block j).toNat ≠ 0 := by
      intro j hj
      rw [← blk_setInode_self t.view n x]
      exact w.covers j (by omega)
    exact w.turn own root low (prepared_new w.ready w.books own' root low missing before alloc) rfl left
  obtain ⟨t, x, len, eq, w, stop⟩ := writeFrom_rule old new data
    (writing_start ready books position covers buf size)
    (Or.inl (Nat.lt_add_right (blockAt s fd) turns_suffice))
  refine ⟨t, x, len, eq, w, fun left => ?_⟩
  rcases stop left with past | ⟨-, full⟩
  · have most := w.covers.le
    rw [blockAt, place w] at past
    simp only [FS_MAX_FILE_SIZE, FS_DIRECT_BLOCKS, FS_BLOCK_SIZE] at most ⊢
    omega
  · rcases allocDataBlock_spec w.ready w.books with ⟨-, all⟩ | ⟨b, t', alloc, -⟩
    · exact Or.inr all
    · rw [alloc] at full
      exact absurd (Prod.mk.inj full).2 (by simp)

end

theorem Writing.finish {s t t' : WitFs} {fd n p size len : Nat} {buf : Buffer} {leaked : Nat → Prop}
    {x x' : Inode} (w : Writing s fd n p size buf leaked t x len) (root : n ≠ 0)
    (disk : DiskOnly t t') (view : t'.view = t.view.setInode n x') (blocks : ∀ k, x'.block k = x.block k)
    (length : x'.size = x.size) :
    Books t'.view t' (fun _ => False) leaked ∧ Wrote s t' fd n p len buf := by
  have final : t'.view = (t.view.setInode n x).setInode n x' := by
    rw [view]
    simp [View.setInode]
  have blkn : ∀ k, t'.view.blk n k = (t.view.setInode n x).blk n k := by
    intro k
    rw [view, blk_setInode_self, blk_setInode_self, blocks]
  have here : t'.view.inode n = x' := by
    rw [view, setInode_inode, if_pos rfl]
  refine ⟨?_, disk.openFiles.trans w.files, disk.initialized.trans w.initialized, disk.ticks.trans w.ticks,
    disk.heap.trans w.heap, ?_, ?_, ?_, w.covers.congr blkn, ?_, ?_⟩
  · have books := w.books.diskOnly disk
    rw [final]
    refine books.view (books.cons.setInode_same (fun h => absurd h root) fun k => ?_)
    rw [blocks, setInode_inode, if_pos rfl]
  · intro m other
    rw [view, setInode_inode, if_neg other, w.inodes]
  · intro m own other
    rw [view]
    exact (w.others m own other).trans (sameFile_setInode other x')
  · intro k used
    rw [blkn, blk_setInode_self]
    exact w.grown k used
  · rw [here, length]
    exact w.length
  · intro i known
    rw [← w.bytes i known, View.byteAt, View.byteAt, blkn, view]
    rfl

theorem Wrote.owner_iff {s t : WitFs} {fd n p len : Nat} {buf : Buffer} (w : Wrote s t fd n p len buf)
    (root : n ≠ 0) (m : Nat) : t.view.Owner m ↔ s.view.Owner m :=
  owner_congr (fun e => ((w.others 0 (owner_root _) (Ne.symm root)).ents e).1) m

theorem Wrote.sized {s t : WitFs} {fd n p len : Nat} {buf : Buffer} (w : Wrote s t fd n p len buf)
    (root : n ≠ 0) (sized : Sized s.view) : Sized t.view := by
  intro m own nonroot
  have old := (w.owner_iff root m).mp own
  by_cases here : m = n
  · subst here
    have before : Covers t.view m (s.view.inode m).size.toNat := by
      intro k hk
      have used := sized m old nonroot k hk
      rw [w.grown k used]
      exact used
    intro k hk
    rw [w.length] at hk
    split at hk
    next => exact before k hk
    next =>
      by_cases low : 512 * k < (s.view.inode m).size.toNat
      · exact before k low
      · exact w.covers k (by omega)
  · have same := w.others m old here
    rw [same.inode]
    exact (sized m old nonroot).congr same.blk

theorem fsWrite_spec {s : WitFs} {fd : Int} {n p : Nat} {leaked : Nat → Prop} (h : Sound s leaked)
    (usable : Usable s fd FS_OPEN_WRITE) (inode : (s.openFiles fd.toNat).inode = n)
    (position : (s.openFiles fd.toNat).position = p) (own : s.view.Owner n) (root : n ≠ 0)
    (covers : Covers s.view n p) (buf : Buffer) (size : Nat) :
    ∃ t len, fsWrite s fd buf size = (t, ((len : Nat) : Int)) ∧ len ≤ size ∧ Sound t leaked ∧
      Wrote s t fd.toNat n p len buf ∧ (len < size → p + len = FS_MAX_FILE_SIZE ∨ DiskFull t) := by
  obtain ⟨valid, flag⟩ := usable
  have lt := h.books.cons.owner_lt own
  obtain ⟨heap, q, grant, pending, -, back⟩ := kmalloc_of_ready h.ready
  have ready' : Ready { s with heap := heap } := ⟨h.ready.disk, pending⟩
  obtain ⟨t, x, len, loop, w, stop⟩ := writeFrom_spec ready' (h.books.withHeap heap) position own root covers
    buf heap.junk size
  have ready'' : Ready { t with heap := s.heap } := ⟨w.ready.disk, h.ready.heap⟩
  have slot : (t.openFiles fd.toNat).inode = n := by
    rw [w.files, movedTo_self]
    exact inode
  obtain ⟨t', written, disk, view⟩ := writeInode_view ready'' lt { x with modified := t.ticks }
  have w' : Writing s fd.toNat n p size buf leaked { t with heap := s.heap } x len :=
    ⟨ready'', w.initialized, w.ticks, rfl, w.files, w.inodes, w.books.withHeap _, w.others, w.grown, w.covers,
      w.length, w.bytes, w.le⟩
  obtain ⟨books, wrote⟩ := w'.finish root disk view (fun _ => rfl) rfl
  refine ⟨t', len, ?_, w.le, ⟨disk.toKeeps.ready ready'', wrote.initialized.trans h.on, books,
    wrote.sized root h.sized⟩, wrote, ?_⟩
  · rw [fsWrite, valid, Bool.not_true, if_neg Bool.false_ne_true, if_neg flag, inode,
      readInode_view h.ready lt]
    simp only [grant]
    erw [loop]
    simp only [back t w.heap, slot, written]
  · intro left
    refine (stop left).imp_right fun full b lt => ?_
    rw [disk.dataBitmap]
    exact full b lt

end Wittche.Fs
