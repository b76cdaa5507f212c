import Wittche.Fs.Root

/-! Descriptors whose file was unlinked while they were open.
Such a descriptor keeps an inode number that may be given to a new file, and the slot
of that inode keeps block numbers that may be given to other files. Until then reads
and writes through it stay away from every live file; after that they do not. -/

namespace Wittche.Fs
open Bytes CString Execution

/-- The loop of `fs_write` on an inode that no entry names, `done` bytes after `s0`. -/
structure Drifting (s0 : WitFs) (fd p : Nat) (s : WitFs) (x : Inode) (done : Nat) : Prop where
  ready : Ready s
  initialized : s.initialized = s0.initialized
  heap : s.heap = s0.heap
  files : s.openFiles = movedTo s0 fd (p + done)
  inodes : s.view.inode = s0.view.inode
  books : ∃ leaked, Books s.view s (fun _ => False) leaked
  others : ∀ m, s0.view.Owner m → SameFile s0.view s.view m
  low : ∀ k, (x.block k).toNat < FS_MAX_DATA_BLOCKS
  apart : ∀ k, (x.block k).toNat ≠ 0 → ¬s0.view.Taken (x.block k).toNat

section

variable {s0 s s1 : WitFs} {fd p done len : Nat} {x x1 : Inode}

theorem Drifting.taken_iff (d : Drifting s0 fd p s x done) (b : Nat) : s.view.Taken b ↔ s0.view.Taken b := by
  have own := (d.others 0 (owner_root _)).owner_iff
  simp only [View.Taken, View.blk, own, d.inodes]

theorem Drifting.turn (d : Drifting s0 fd p s x done) (quiet : Quiet s s1)
    (books : ∃ leaked, Books s.view s1 (fun _ => False) leaked)
    (low : ∀ k, (x1.block k).toNat < FS_MAX_DATA_BLOCKS)
    (apart : ∀ k, (x1.block k).toNat ≠ 0 → ¬s0.view.Taken (x1.block k).toNat)
    (used : (x1.block ((p + done) / 512)).toNat ≠ 0) (small : p + done + len < 2 ^ 32) (buf data : Buffer) :
    let r := writeChunk fd buf s1 x1 data done len
    Drifting s0 fd p r.1 r.2.1 (done + len) := by
  have ready := quiet.toKeeps.ready d.ready
  obtain ⟨t, data', eq, disk, view, -⟩ := writeChunk_spec ready (quiet.openFiles.trans d.files) small rfl
    (low _) buf data done
  rw [quiet.view] at view
  have free := apart _ used
  have clear : ∀ m, s0.view.Owner m → ∀ k, s.view.blk m k ≠ (x1.block ((p + done) / 512)).toNat := by
    intro m own k same
    rw [(d.others m own).blk] at same
    exact free ⟨m, k, own, same⟩
  rw [eq]
  refine ⟨⟨?_, ?_⟩, ?_, ?_, ?_, ?_, ?_, ?_, ?_, ?_⟩
  · exact disk.mounted.trans ready.disk
  · exact (congrArg FsHeap.pending disk.heap).trans ready.heap
  · exact disk.initialized.trans (quiet.initialized.trans d.initialized)
  · exact disk.heap.trans (quiet.heap.trans d.heap)
  · rw [← Nat.add_assoc]
  · change t.view.inode = _
    rw [view, setBlock_inode, d.inodes]
  · obtain ⟨leaked, books⟩ := books
    refine ⟨leaked, ?_⟩
    change Books t.view _ _ _
    rw [view]
    have off : OffRoot s.view (x1.block ((p + done) / 512)).toNat := fun k _ => clear 0 (owner_root _) k
    exact ((books.view (books.cons.setBlock_off off data')).diskOnly disk).withFiles _
  · intro m own
    change SameFile _ t.view m
    rw [view]
    exact (d.others m own).trans (sameFile_setBlock (fun k _ => clear m own k) data')
  · exact fun k => by rw [growTo_block]; exact low k
  · exact fun k => by rw [growTo_block]; exact apart k

theorem drifting_start {n : Nat} {leaked : Nat → Prop} (ready : Ready s)
    (books : Books s.view s (fun _ => False) leaked) (position : (s.openFiles fd).position = p)
    (low : ∀ k, s.view.blk n k < FS_MAX_DATA_BLOCKS)
    (apart : ∀ k, s.view.blk n k ≠ 0 → ¬s.view.Taken (s.view.blk n k)) :
    Drifting s fd p s (s.view.inode n) 0 := by
  refine ⟨ready, rfl, rfl, ?_, rfl, ⟨leaked, books⟩, fun m _ => SameFile.refl _ m, low, apart⟩
  rw [Nat.add_zero, ← position, movedTo_here]

/-- The loop of `fs_write` on an inode that no entry names. -/
theorem writeFrom_drifting (start : Drifting s0 fd p s0 x 0) (buf data : Buffer) (size : Nat) :
    ∃ t x' len, writeFrom fd buf size (FS_DIRECT_BLOCKS + 1) s0 x data 0 = (t, x', len) ∧
      Drifting s0 fd p t x' len := by
  have place : ∀ {t x done}, Drifting s0 fd p t x done → (t.openFiles fd).position = p + done := by
    intro t x done d
    rw [d.files, movedTo_self]
  have old : TurnOld fd size buf (Drifting s0 fd p) := by
    intro t x data done d left low used
    have small := position_fits (size - done) low
    simp only [blockAt, lengthAt, place d] at low used small ⊢
    exact d.turn (Quiet.refl t) d.books d.low d.apart (word_ne_zero.mp used) small buf _
  have new : TurnNew fd size buf (Drifting s0 fd p) := by
    intro t t' x b done d left low missing alloc
    have small := position_fits (size - done) low
    simp only [blockAt, lengthAt, place d] at low missing small ⊢
    obtain ⟨leaked, books⟩ := d.books
    obtain ⟨dom, free, -, quiet, books'⟩ := allocDataBlock_some d.ready books alloc
    have blocks : ∀ j, ((x.setBlock ((p + done) / 512) (BitVec.ofNat 32 b)).block j).toNat =
        if j = (p + done) / 512 then b else (x.block j).toNat := by
      intro j
      rw [block_setBlock low]
      split
      next => exact blockWord_toNat dom.2
      next => rfl
    refine d.turn quiet ⟨_, books'⟩ ?_ ?_ ?_ small buf _
    · intro j
      rw [blocks]
      split
      next => exact dom.2
      next => exact d.low j
    · intro j
      rw [blocks]
      split
      next => exact fun _ taken => free ((d.taken_iff b).mpr taken)
      next => exact d.apart j
    · rw [blocks, if_pos rfl]
      exact dom.1
  obtain ⟨t, x', len, eq, d, -⟩ := writeFrom_rule old new data start
    (Or.inl (Nat.lt_add_right (blockAt s0 fd) turns_suffice))
  exact ⟨t, x', len, eq, d⟩

end

/-- The slot of inode `n` is no live file's, nor are the blocks it lists. -/
def Apart (s : WitFs) (n : Nat) : Prop :=
  ¬s.view.Owner n ∧ ∀ k, s.view.blk n k ≠ 0 → ¬s.view.Taken (s.view.blk n k)

section

variable {s : WitFs} {leaked stale : Nat → Prop}

/-- A write through a descriptor whose inode stands apart touches no live file. -/
theorem fsWrite_apart (h : Sound s leaked) {fd : Int} (usable : Usable s fd FS_OPEN_WRITE) {n p : Nat}
    (inode : (s.openFiles fd.toNat).inode = n) (position : (s.openFiles fd.toNat).position = p)
    (lt : n < TABLE_INODES) (low : ∀ k, s.view.blk n k < FS_MAX_DATA_BLOCKS) (apart : Apart s n)
    (buf : Buffer) (size : Nat) :
    ∃ t len leaked', fsWrite s fd buf size = (t, ((len : Nat) : Int)) ∧ Sound t leaked' ∧
      t.openFiles = movedTo s fd.toNat (p + len) ∧ Bounded s.view t.view ∧
      ∀ m, s.view.Owner m → SameFile s.view t.view m := by
  obtain ⟨valid, flag⟩ := usable
  obtain ⟨heap, q, grant, pending, -, back⟩ := kmalloc_of_ready h.ready
  have ready' : Ready { s with heap := heap } := ⟨h.ready.disk, pending⟩
  obtain ⟨t, x, len, loop, d⟩ := writeFrom_drifting
    (drifting_start ready' (h.books.withHeap heap) position low apart.2) buf heap.junk size
  have ready'' : Ready { t with heap := s.heap } := ⟨d.ready.disk, h.ready.heap⟩
  have slot : (t.openFiles fd.toNat).inode = n := by
    rw [d.files, movedTo_self]
    exact inode
  obtain ⟨t', written, disk, view⟩ := writeInode_view ready'' lt { x with modified := t.ticks }
  have others : ∀ m, s.view.Owner m → SameFile s.view t'.view m := by
    intro m own
    rw [view]
    exact (d.others m own).trans (sameFile_setInode (show m ≠ n from fun here => apart.1 (here ▸ own)) _)
  have free : ¬t.view.Owner n := fun own => apart.1 (((d.others 0 (owner_root _)).owner_iff n).mp own)
  obtain ⟨leaked', books⟩ := d.books
  refine ⟨t', len, leaked', ?_, ⟨disk.toKeeps.ready ready'', ?_, ?_, h.sized.congr others⟩,
    disk.openFiles.trans d.files, bounded_of_inodes fun m => ?_, others⟩
  · rw [fsWrite, valid, Bool.not_true, if_neg Bool.false_ne_true, if_neg flag, inode,
      readInode_view h.ready lt]
    simp only [grant]
    erw [loop]
    simp only [back t d.heap, slot, written]
  · exact disk.initialized.trans (d.initialized.trans h.on)
  · rw [view]
    exact ((books.view (books.cons.setInode_free free _)).withHeap _).diskOnly disk
  · rw [view]
    by_cases here : m = n
    · refine Or.inr fun k => ?_
      rw [blk_setInode, if_pos here]
      exact d.low k
    · refine Or.inl ?_
      rw [setInode_inode, if_neg here]
      exact congrFun d.inodes m

theorem Inv.write_apart (h : Inv s leaked stale) {fd : Int} (usable : Usable s fd FS_OPEN_WRITE)
    (apart : Apart s (s.openFiles fd.toNat).inode) (old : stale fd.toNat) (buf : Buffer) (size : Nat) :
    ∃ leaked', Inv (fsWrite s fd buf size).1 leaked' stale := by
  obtain ⟨lt, used⟩ := validFd_spec usable.1
  obtain ⟨inside, low⟩ := h.slots _ lt used
  obtain ⟨t, len, leaked', eq, sound, files, bounded, others⟩ :=
    fsWrite_apart h.sound usable rfl rfl inside low apart buf size
  rw [eq]
  have here : Inv { t with openFiles := s.openFiles } leaked' stale := by
    refine h.transfer (sound.withFiles _) rfl bounded fun i _ _ fresh => ⟨fresh, fun own => ⟨?_, ?_⟩⟩
    · exact ((others 0 (owner_root _)).owner_iff _).mpr own
    · intro k used'
      change t.view.blk _ k ≠ 0
      rw [(others _ own).blk]
      exact used'
  have same : { t with openFiles := movedTo s fd.toNat ((s.openFiles fd.toNat).position + len) } = t := by
    rw [← files]
  rw [← same]
  exact ⟨leaked', here.setFile _ _ (fun _ _ _ fresh => fresh) (fun _ fresh => absurd old fresh)
    fun _ => here.slots _ lt used⟩

end

/-- A file system with the descriptors in use whose file was unlinked. -/
structure Tracked where
  fs : WitFs
  stale : Nat → Prop

def Tracked.step (x : Tracked) (op : FsOp) : Tracked := ⟨x.fs.step op, staleAfter x.fs x.stale op⟩

def OnNames (_ : Tracked) : FsOp → Prop
  | .fsCreate path _ => NonRoot path
  | .fsMkdir path => NonRoot path
  | .fsOpen path _ => NonRoot path
  | .fsUnlink path => NonRoot path
  | .fsRmdir path => NonRoot path
  | _ => True

/-- Reads and writes through stale descriptors come before their inode number or one of
their blocks is given to another file. -/
def BeforeReuse (x : Tracked) : FsOp → Prop
  | .fsRead fd _ => Usable x.fs fd FS_OPEN_READ → x.stale fd.toNat →
      Apart x.fs (x.fs.openFiles fd.toNat).inode
  | .fsWrite fd _ _ => Usable x.fs fd FS_OPEN_WRITE → x.stale fd.toNat →
      Apart x.fs (x.fs.openFiles fd.toNat).inode
  | _ => True

def Timely (x : Tracked) (op : FsOp) : Prop := OnNames x op ∧ BeforeReuse x op

/-- A read delivers bytes of blocks that belong to no live file, and only moves the position. -/
def ReadsNoFile (s : WitFs) (fd : Int) (size n p : Nat) : Prop :=
  ∃ len : Nat, fsRead s fd size = (s.moved fd.toNat (p + len), (len : Int), s.view.bytesAt n p len) ∧
    ∀ i < len, ¬s.view.Taken (s.view.blk n ((p + i) / 512))

/-- A read or write through a stale descriptor has nothing to do with any live file. -/
def Isolated (x : Tracked) : FsOp → Prop
  | .fsRead fd size => Usable x.fs fd FS_OPEN_READ → x.stale fd.toNat →
      ReadsNoFile x.fs fd size (x.fs.openFiles fd.toNat).inode (x.fs.openFiles fd.toNat).position
  | .fsWrite fd buf size => Usable x.fs fd FS_OPEN_WRITE → x.stale fd.toNat →
      (∀ m, x.fs.view.Owner m → SameFile x.fs.view (fsWrite x.fs fd buf size).1.view m) ∧
        (fsWrite x.fs fd buf size).1.view.entries = x.fs.view.entries
  | _ => True

/-- Every call that `ok` allows is isolated. -/
def IsolationLaw (ok : Tracked → FsOp → Prop) (x : Tracked) : Prop := ∀ op, ok x op → Isolated x op

def Watched (x : Tracked) : Prop := (∃ leaked, Inv x.fs leaked x.stale) ∧ RootClosed x.fs

section

variable {x : Tracked}

theorem OnNames.harmless {op : FsOp} (ok : OnNames x op) (closed : RootClosed x.fs)
    (fresh : ∀ fd buf size, op = .fsWrite fd buf size → Usable x.fs fd FS_OPEN_WRITE → ¬x.stale fd.toNat) :
    Harmless x.fs x.stale op := by
  cases op with
  | fsUnlink path => exact ok
  | fsRmdir path => exact ok
  | fsWrite fd buf size =>
    intro usable
    obtain ⟨lt, used⟩ := validFd_spec usable.1
    exact ⟨fresh fd buf size rfl usable, Or.inl (closed _ lt used)⟩
  | _ => trivial

theorem Watched.harmless_step (h : Watched x) {op : FsOp} (ok : OnNames x op)
    (fresh : ∀ fd buf size, op = .fsWrite fd buf size → Usable x.fs fd FS_OPEN_WRITE → ¬x.stale fd.toNat) :
    Watched (x.step op) := by
  obtain ⟨⟨leaked, inv⟩, closed⟩ := h
  have harmless := ok.harmless closed fresh
  refine ⟨⟨leaked, inv.step harmless⟩, closed.step inv harmless ?_⟩
  rintro path flags rfl
  exact ok

theorem Watched.write_apart (h : Watched x) {fd : Int} (usable : Usable x.fs fd FS_OPEN_WRITE)
    (old : x.stale fd.toNat) (apart : Apart x.fs (x.fs.openFiles fd.toNat).inode) (buf : Buffer) (size : Nat) :
    Watched (x.step (.fsWrite fd buf size)) := by
  obtain ⟨⟨leaked, inv⟩, closed⟩ := h
  obtain ⟨lt, used⟩ := validFd_spec usable.1
  obtain ⟨inside, low⟩ := inv.slots _ lt used
  obtain ⟨t, len, -, eq, -, files, -⟩ := fsWrite_apart inv.sound usable rfl rfl inside low apart buf size
  refine ⟨inv.write_apart usable apart old buf size, ?_⟩
  have moved : RootClosed (x.fs.moved fd.toNat ((x.fs.openFiles fd.toNat).position + len)) :=
    closed.setFile _ fun _ => closed _ lt used
  simp only [Tracked.step, WitFs.step, eq]
  exact moved.of_files files

theorem Watched.step (h : Watched x) {op : FsOp} (ok : Timely x op) : Watched (x.step op) := by
  cases op with
  | fsWrite fd buf size =>
    by_cases drifts : Usable x.fs fd FS_OPEN_WRITE ∧ x.stale fd.toNat
    · exact h.write_apart drifts.1 drifts.2 (ok.2 drifts.1 drifts.2) buf size
    · refine h.harmless_step ok.1 ?_
      rintro _ _ _ ⟨⟩ usable old
      exact drifts ⟨usable, old⟩
  | _ => exact h.harmless_step ok.1 (by rintro _ _ _ ⟨⟩)

theorem Watched.isolated (h : Watched x) : IsolationLaw Timely x := by
  obtain ⟨⟨leaked, inv⟩, -⟩ := h
  rintro op ⟨-, early⟩
  cases op with
  | fsRead fd size =>
    intro usable old
    obtain ⟨lt, used⟩ := validFd_spec usable.1
    obtain ⟨inside, low⟩ := inv.slots _ lt used
    obtain ⟨len, eq, -, filled, -⟩ := fsRead_spec inv.sound.ready usable rfl rfl inside low size
    exact ⟨len, eq, fun i hi => (early usable old).2 _ (filled i hi)⟩
  | fsWrite fd buf size =>
    intro usable old
    obtain ⟨lt, used⟩ := validFd_spec usable.1
    obtain ⟨inside, low⟩ := inv.slots _ lt used
    obtain ⟨t, len, -, eq, -, -, -, others⟩ :=
      fsWrite_apart inv.sound usable rfl rfl inside low (early usable old) buf size
    rw [eq]
    exact ⟨others, (others 0 (owner_root _)).entries⟩
  | _ => trivial

end

def Tracked.mounted (s : WitFs) : Tracked := ⟨Fs.mounted s, fun _ => False⟩

/-- In every state of a run whose stale descriptors are used before the reuse of what they
refer to, stale descriptors are isolated from the live files. -/
theorem timely_runs_isolated (s0 : WitFs) (x : Tracked) (ops : List FsOp) (ready : Ready s0)
    (run : Exec Timely Tracked.step (Tracked.mounted s0) ops x) : IsolationLaw Timely x := by
  have start : Watched (Tracked.mounted s0) := ⟨⟨_, mounted_tidy ready⟩, mounted_rootClosed ready⟩
  exact (run.invariant (fun _ _ h ok => h.step ok) start).isolated

theorem timely_runs_isolated_unlinked :
    IsolationLaw Timely (((Tracked.mounted powerOn).step (.fsOpen pathA 7)).step (.fsUnlink pathA)) :=
  timely_runs_isolated powerOn _ [.fsOpen pathA 7, .fsUnlink pathA] ⟨rfl, rfl⟩
    (.cons ⟨show NonRoot pathA by decide, trivial⟩ (.cons ⟨show NonRoot pathA by decide, trivial⟩ (.nil _)))

/-- `/a` is opened and unlinked, and `/b` gets its inode number. -/
def reuseOps : List FsOp := [.fsOpen pathA 7, .fsUnlink pathA, .fsCreate pathB FS_TYPE_FILE]

def reuse : Tracked := reuseOps.foldl Tracked.step (Tracked.mounted powerOn)

example : (reuse.fs.openFiles 0).inode = 1 := by decide +kernel

/-- One byte through the old descriptor of `/a` changes the size of `/b`. -/
theorem stale_write_reaches_new_file :
    ¬∀ s0 x ops, Ready s0 → Exec OnNames Tracked.step (Tracked.mounted s0) ops x →
      IsolationLaw OnNames x := by
  intro law
  have run : Exec OnNames Tracked.step (Tracked.mounted powerOn) reuseOps reuse :=
    .cons (show NonRoot pathA by decide) (.cons (show NonRoot pathA by decide)
      (.cons (show NonRoot pathB by decide) (.nil _)))
  have usable : Usable reuse.fs 0 FS_OPEN_WRITE := by decide +kernel
  have old : reuse.stale (0 : Int).toNat := Or.inr (by unfold Names; decide +kernel)
  have entry : reuse.fs.view.ent 0 = 1 := by decide +kernel
  have same := ((law powerOn reuse reuseOps ⟨rfl, rfl⟩ run) (.fsWrite 0 (fun _ => 0x41) 1) trivial usable old).1 1
    (Or.inr ⟨0, entry⟩)
  have before : (reuse.fs.view.inode 1).size = 0 := by decide +kernel
  have after : ((fsWrite reuse.fs 0 (fun _ => 0x41) 1).1.view.inode 1).size = 1 := by decide +kernel
  rw [same.inode, before] at after
  exact absurd after (by decide)

end Wittche.Fs
