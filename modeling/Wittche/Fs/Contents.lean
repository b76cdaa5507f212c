import Wittche.Fs.Namespace

/-! File contents as byte lists, and descriptors as positions in them.
As long as no descriptor stands behind the end of its file, `fs_write` replaces or
extends the list at the position and `fs_read` returns a part of it. A read whose
32-bit sum of position and size wraps can move a descriptor behind the end. -/

namespace Wittche.Fs
open Bytes CString Execution

section Lists

theorem map_range_splice {α : Type} {f g h : Nat → α} {a p len : Nat} (le : p ≤ a)
    (before : ∀ i < p, f i = g i) (inside : ∀ i < len, f (p + i) = h i)
    (behind : ∀ i, p + len ≤ i → i < a → f i = g i) :
    (List.range (max a (p + len))).map f =
      ((List.range a).map g).take p ++ (List.range len).map h ++ ((List.range a).map g).drop (p + len) := by
  have first : (((List.range a).map g).take p).length = p := by
    simp [le]
  have second : ((List.range len).map h).length = len := by
    simp
  refine List.ext_getElem ?_ fun i hi _ => ?_
  · simp only [List.length_append, List.length_map, List.length_range, List.length_drop, first]
    omega
  · simp only [List.length_map, List.length_range] at hi
    rw [List.getElem_map, List.getElem_range]
    by_cases early : i < p
    · rw [List.getElem_append_left (by rw [List.length_append, first]; omega),
        List.getElem_append_left (by rw [first]; exact early), List.getElem_take, List.getElem_map,
        List.getElem_range]
      exact before i early
    · by_cases within : i < p + len
      · rw [List.getElem_append_left (by rw [List.length_append, first, second]; exact within),
          List.getElem_append_right (by rw [first]; omega), List.getElem_map, List.getElem_range,
          ← inside _ (by rw [first]; omega)]
        congr 1
        omega
      · rw [List.getElem_append_right (by rw [List.length_append, first, second]; omega),
          List.getElem_drop, List.getElem_map, List.getElem_range, behind i (by omega) (by omega)]
        congr 1
        rw [List.length_append, first, second]
        omega

theorem map_range_slice {α : Type} (f : Nat → α) {a p len : Nat} (le : p + len ≤ a) :
    (((List.range a).map f).drop p).take len = (List.range len).map fun i => f (p + i) := by
  refine List.ext_getElem ?_ fun i hi _ => ?_
  · simp only [List.length_take, List.length_drop, List.length_map, List.length_range]
    omega
  · simp only [List.getElem_take, List.getElem_drop, List.getElem_map, List.getElem_range]

end Lists

/-- The contents of file `n`: as many bytes as its inode says. -/
def content (s : WitFs) (n : Nat) : List Byte := s.view.bytesAt n 0 (s.view.inode n).size.toNat

@[simp] theorem content_length (s : WitFs) (n : Nat) :
    (content s n).length = (s.view.inode n).size.toNat := bytesAt_length ..

theorem content_eq (s : WitFs) (n : Nat) :
    content s n = (List.range (s.view.inode n).size.toNat).map (s.view.byteAt n) := by
  simp only [content, View.bytesAt, Nat.zero_add]

theorem SameFile.byteAt {V W : View} {n i : Nat} (same : SameFile V W n) (used : V.blk n (i / 512) ≠ 0) :
    W.byteAt n i = V.byteAt n i := by
  rw [View.byteAt, View.byteAt, same.blk, same.blocks _ used]

theorem SameFile.content {s t : WitFs} {n : Nat} (same : SameFile s.view t.view n)
    (covers : Covers s.view n (s.view.inode n).size.toNat) : Fs.content t n = Fs.content s n := by
  rw [content_eq, content_eq, same.inode]
  refine List.map_congr_left fun i hi => same.byteAt (covers _ ?_)
  rw [List.mem_range] at hi
  omega

section RootSize

variable {V W : View} {ib db : Buffer} {hi hb : Nat → Prop}

def View.live (V : View) : Finset Nat := (Finset.range 160).filter fun e => V.ent e ≠ 0

theorem mem_live {e : Nat} : e ∈ V.live ↔ V.ent e ≠ 0 := by
  rw [View.live, Finset.mem_filter, Finset.mem_range]
  exact ⟨fun h => h.2, fun live => ⟨ent_lt live, live⟩⟩

theorem live_card_le (V : View) : V.live.card ≤ 160 :=
  le_of_le_of_eq (Finset.card_filter_le _ _) (Finset.card_range 160)

def RootSized (V : View) : Prop := (V.inode 0).size.toNat = 32 * V.live.card

theorem RootSized.congr (h : RootSized V) (inode : W.inode 0 = V.inode 0) (ents : ∀ e, W.ent e = V.ent e) :
    RootSized W := by
  have same : W.live = V.live := by
    ext e
    rw [mem_live, mem_live, ents]
  rw [RootSized, inode, same]
  exact h

theorem RootSized.created (h : RootSized V) {e n : Nat} {name : CStr} (made : Created V W e name n) :
    RootSized W := by
  have absent : e ∉ V.live := fun live => mem_live.mp live made.unused
  have grown : W.live = insert e V.live := by
    ext a
    rw [Finset.mem_insert, mem_live, mem_live, made.ents]
    by_cases here : a = e
    · simp [here, show n ≠ 0 from fun zero => made.fresh (Or.inl zero)]
    · simp [here]
  have most := live_card_le V
  rw [RootSized, made.length, BitVec.toNat_add, h, grown, Finset.card_insert_of_notMem absent]
  simp only [SIZEOF_DIRENT, FS_MAX_FILENAME, BitVec.toNat_ofNat]
  omega

theorem RootSized.removed (h : RootSized V) {e : Nat} (live : V.ent e ≠ 0) (set : SetEntry V W e 0)
    (length : (W.inode 0).size = (V.inode 0).size - BitVec.ofNat 32 SIZEOF_DIRENT) : RootSized W := by
  have here := mem_live.mpr live
  have shrunk : W.live = V.live.erase e := by
    ext a
    rw [Finset.mem_erase, mem_live, mem_live, set.ents]
    by_cases same : a = e
    · simp [same]
    · simp [same]
  have least := Finset.card_pos.mpr ⟨e, here⟩
  have most := live_card_le V
  rw [RootSized, length, BitVec.toNat_sub, h, shrunk, Finset.card_erase_of_mem here]
  simp only [SIZEOF_DIRENT, FS_MAX_FILENAME, BitVec.toNat_ofNat]
  omega

theorem RootSized.covers (h : RootSized V) (c : Consistent V ib db hi hb) :
    Covers V 0 (V.inode 0).size.toNat := by
  intro k low missing
  have few : V.live ⊆ Finset.range (16 * k) := by
    intro e live
    rw [Finset.mem_range]
    by_contra high
    exact mem_live.mp live (c.ent_behind missing (by omega))
  have count := Finset.card_le_card few
  rw [Finset.card_range] at count
  rw [h] at low
  omega

end RootSize

def WithinSize (s : WitFs) : Prop :=
  ∀ fd < FS_MAX_OPEN_FILES, (s.openFiles fd).inUse = true →
    (s.openFiles fd).position ≤ (s.view.inode (s.openFiles fd).inode).size.toNat

/-- A read from before the end of the file does not wrap in `position + size`. -/
def ReadFits (s : WitFs) : FsOp → Prop
  | .fsRead fd size => Usable s fd FS_OPEN_READ →
      (s.openFiles fd.toNat).position < (s.view.inode (s.openFiles fd.toNat).inode).size.toNat →
      (s.openFiles fd.toNat).position + size < 2 ^ 32
  | _ => True

/-- Separate calls whose reads fit. -/
def Fitting (s : WitFs) (op : FsOp) : Prop := Separate s op ∧ ReadFits s op

structure Measured (s : WitFs) : Prop where
  tidy : Tidy s
  closed : RootClosed s
  within : WithinSize s
  rootSized : RootSized s.view

section

variable {s t : WitFs}

theorem WithinSize.of_files (h : WithinSize s) (files : t.openFiles = s.openFiles)
    (sizes : ∀ fd < FS_MAX_OPEN_FILES, (s.openFiles fd).inUse = true →
      (s.view.inode (s.openFiles fd).inode).size.toNat ≤ (t.view.inode (s.openFiles fd).inode).size.toNat) :
    WithinSize t := by
  intro fd lt used
  rw [files] at used ⊢
  exact (h fd lt used).trans (sizes fd lt used)

theorem WithinSize.setFile (h : WithinSize s) (fd : Nat) {f : OpenFile}
    (ok : f.inUse = true → f.position ≤ (s.view.inode f.inode).size.toNat) :
    WithinSize { s with openFiles := Function.update s.openFiles fd f } := by
  intro i lt used
  by_cases here : i = fd
  · subst here
    simp only [Function.update_self] at used ⊢
    exact ok used
  · simp only [Function.update_of_ne here] at used ⊢
    exact h i lt used

theorem WithinSize.takeDescriptor (h : WithinSize s) (n : Nat) (flags : Word) :
    WithinSize (takeDescriptor s n flags).1 := by
  rw [Fs.takeDescriptor]
  split
  next => exact h
  next => exact h.setFile _ fun _ => Nat.zero_le _

theorem Measured.file (h : Measured s) {fd : Nat} (lt : fd < FS_MAX_OPEN_FILES)
    (used : (s.openFiles fd).inUse = true) :
    s.view.Owner (s.openFiles fd).inode ∧ (s.openFiles fd).inode ≠ 0 :=
  ⟨(h.tidy.handles fd lt used id).1, h.closed fd lt used⟩

theorem Measured.create (h : Measured s) (path : CStr) (type : Word) :
    WithinSize (fsCreate s path type).1 ∧ RootSized (fsCreate s path type).1.view := by
  rcases fsCreate_spec h.tidy.sound path type with
    ⟨t, eq, same, -⟩ | ⟨t, e, n, eq, keeps, -, made, -⟩
  · have root := same.same 0 (owner_root _)
    rw [eq]
    refine ⟨h.within.of_files same.openFiles fun fd lt used => ?_, ?_⟩
    · rw [(same.same _ (h.file lt used).1).inode]
    · exact h.rootSized.congr root.inode fun e => (root.ents e).1
  · rw [eq]
    refine ⟨h.within.of_files keeps.openFiles fun fd lt used => ?_, h.rootSized.created made⟩
    rw [(made.same _ (h.file lt used).1 (h.file lt used).2).inode]

theorem Measured.unlink (h : Measured s) {path : CStr} (named : NonRoot path) :
    WithinSize (fsUnlink s path).1 ∧ RootSized (fsUnlink s path).1.view := by
  cases found : s.view.find (pathName path) with
  | none =>
    rw [fsUnlink_none h.tidy.sound named found]
    exact ⟨h.within, h.rootSized⟩
  | some e =>
    have live : s.view.ent e ≠ 0 := (of_decide_eq_true (Scan.firstFrom_some found).2.2.1).1
    obtain ⟨t, eq, keeps, -, set, length⟩ := fsUnlink_some h.tidy.sound named found
    rw [eq]
    refine ⟨h.within.of_files keeps.openFiles fun fd lt used => ?_, h.rootSized.removed live set length⟩
    rw [set.inodes _ (h.file lt used).2]

theorem Measured.open (h : Measured s) (path : CStr) (flags : Word) :
    WithinSize (fsOpen s path flags).1 ∧ RootSized (fsOpen s path flags).1.view := by
  have made := h.create path FS_TYPE_FILE
  have root : ∀ (t : WitFs) n, RootSized t.view → RootSized (takeDescriptor t n flags).1.view := by
    intro t n sized
    rw [takeDescriptor]
    split <;> exact sized
  rcases fsOpen_cases h.tidy.sound path flags with ⟨n, -, eq⟩ | ⟨-, eq | ⟨-, eq | ⟨t, n, done, -, eq⟩⟩⟩
  · rw [eq]
    exact ⟨h.within.takeDescriptor n flags, root s n h.rootSized⟩
  · rw [eq]
    exact ⟨h.within, h.rootSized⟩
  · rw [eq]
    exact made
  · rw [done] at made
    rw [eq]
    exact ⟨made.1.takeDescriptor n flags, root t n made.2⟩

theorem readSize_eq {length position size : Nat} (fits : position < length → position + size < 2 ^ 32) :
    readSize length position size = min size (length - position) := by
  rw [readSize]
  split
  next behind => omega
  next before =>
    rw [Nat.mod_eq_of_lt (fits (by omega))]
    split <;> omega

/-- What `fs_read` delivers when its sum does not wrap. -/
theorem Measured.fsRead_eq (h : Measured s) {fd : Int} (usable : Usable s fd FS_OPEN_READ) {size n p len : Nat}
    (inode : (s.openFiles fd.toNat).inode = n) (position : (s.openFiles fd.toNat).position = p)
    (fits : p < (s.view.inode n).size.toNat → p + size < 2 ^ 32)
    (length : len = min size ((s.view.inode n).size.toNat - p)) :
    fsRead s fd size = (s.moved fd.toNat (p + len), (len : Int), ((content s n).drop p).take len) ∧
      p + len ≤ (s.view.inode n).size.toNat := by
  obtain ⟨lt, used⟩ := validFd_spec usable.1
  obtain ⟨inside, low⟩ := h.tidy.slots _ lt used
  obtain ⟨own, root⟩ := h.file lt used
  have within := h.within _ lt used
  rw [inode] at inside low own root within
  rw [position] at within
  obtain ⟨len', eq, le, -, stop⟩ := fsRead_spec h.tidy.sound.ready usable inode position inside low size
  rw [readSize_eq fits, ← length] at le stop
  have same : len' = len := by
    by_contra short
    have less : len' < len := by omega
    exact h.tidy.sound.sized n own root ((p + len') / 512) (by omega) (stop less)
  subst same
  refine ⟨?_, by omega⟩
  rw [eq, content_eq, map_range_slice _ (by omega)]
  rfl

theorem Measured.read (h : Measured s) {fd : Int} {size : Nat} (fits : ReadFits s (.fsRead fd size)) :
    WithinSize (fsRead s fd size).1 ∧ RootSized (fsRead s fd size).1.view := by
  by_cases usable : Usable s fd FS_OPEN_READ
  · obtain ⟨eq, le⟩ := h.fsRead_eq usable rfl rfl (fits usable) rfl
    rw [eq]
    exact ⟨h.within.setFile _ fun _ => le, h.rootSized⟩
  · rw [fsRead_unusable usable]
    exact ⟨h.within, h.rootSized⟩

theorem Wrote.size {fd n p len : Nat} {buf : Buffer} (w : Wrote s t fd n p len buf)
    (le : p ≤ (s.view.inode n).size.toNat) :
    (t.view.inode n).size.toNat = max (s.view.inode n).size.toNat (p + len) := by
  rw [w.length]
  split <;> omega

theorem Wrote.content {fd n p len : Nat} {buf : Buffer} (w : Wrote s t fd n p len buf)
    (le : p ≤ (s.view.inode n).size.toNat) (covers : Covers s.view n (s.view.inode n).size.toNat) :
    Fs.content t n =
      (Fs.content s n).take p ++ (List.range len).map buf ++ (Fs.content s n).drop (p + len) := by
  rw [content_eq, content_eq, w.size le]
  have kept : ∀ i < (s.view.inode n).size.toNat, ¬(p ≤ i ∧ i < p + len) →
      t.view.byteAt n i = s.view.byteAt n i := by
    intro i inside outside
    rw [w.bytes i (Or.inl (covers _ (by omega))), if_neg outside]
  refine map_range_splice le ?_ ?_ ?_
  · exact fun i early => kept i (by omega) (by omega)
  · intro i within
    rw [w.bytes _ (Or.inr (by omega)), if_pos (by omega), Nat.add_sub_cancel_left]
  · exact fun i late inside => kept i inside (by omega)

theorem Measured.covers (h : Measured s) {n : Nat} (own : s.view.Owner n) :
    Covers s.view n (s.view.inode n).size.toNat := by
  by_cases root : n = 0
  · subst root
    exact h.rootSized.covers h.tidy.sound.books.cons
  · exact h.tidy.sound.sized n own root

theorem Measured.write (h : Measured s) (fd : Int) (buf : Buffer) (size : Nat) :
    WithinSize (fsWrite s fd buf size).1 ∧ RootSized (fsWrite s fd buf size).1.view := by
  by_cases usable : Usable s fd FS_OPEN_WRITE
  · obtain ⟨lt, used⟩ := validFd_spec usable.1
    obtain ⟨own, root⟩ := h.file lt used
    obtain ⟨t, len, eq, -, -, wrote, -⟩ := fsWrite_spec h.tidy.sound usable rfl rfl own root
      (h.tidy.handles _ lt used id).2 buf size
    have size := wrote.size (h.within _ lt used)
    have rest := wrote.others 0 (owner_root _) (Ne.symm root)
    rw [eq]
    refine ⟨?_, h.rootSized.congr rest.inode fun e => (rest.ents e).1⟩
    intro i lti usedi
    rw [wrote.files] at usedi ⊢
    by_cases here : i = fd.toNat
    · subst here
      rw [movedTo_self, size]
      exact Nat.le_max_right _ _
    · rw [movedTo_other s here] at usedi ⊢
      refine (h.within i lti usedi).trans ?_
      by_cases mine : (s.openFiles i).inode = (s.openFiles fd.toNat).inode
      · rw [mine, size]
        exact Nat.le_max_left _ _
      · rw [wrote.inodes _ mine]
  · rw [fsWrite_unusable usable]
    exact ⟨h.within, h.rootSized⟩

theorem Measured.step (h : Measured s) {op : FsOp} (ok : Fitting s op) : Measured (s.step op) := by
  obtain ⟨tidy, closed⟩ := separate_step ⟨h.tidy, h.closed⟩ ok.1
  suffices kept : WithinSize (s.step op) ∧ RootSized (s.step op).view from ⟨tidy, closed, kept.1, kept.2⟩
  have same : WithinSize s ∧ RootSized s.view := ⟨h.within, h.rootSized⟩
  cases op with
  | fsCreate path type => exact h.create path type
  | fsMkdir path => exact h.create path FS_TYPE_DIR
  | fsOpen path flags => exact h.open path flags
  | fsClose fd =>
    rw [WitFs.step, fsClose]
    split
    next => exact same
    next => exact ⟨h.within.setFile _ fun used => absurd used Bool.false_ne_true, h.rootSized⟩
  | fsRead fd size => exact h.read ok.2
  | fsWrite fd buf size => exact h.write fd buf size
  | fsUnlink path => exact h.unlink ok.1.1
  | fsRmdir path => exact h.unlink ok.1.1
  | fsReaddir path max =>
    rw [WitFs.step, fsReaddir_state h.tidy.sound]
    exact same
  | fsStat path =>
    rw [WitFs.step, fsStat_state h.tidy.sound]
    exact same
  | fsExists path =>
    rw [WitFs.step, fsExists_state h.tidy.sound]
    exact same
  | timer ticks => exact same

theorem mounted_measured (ready : Ready s) : Measured (mounted s) := by
  refine ⟨mounted_tidy ready, mounted_rootClosed ready, ?_, ?_⟩
  · intro fd lt used
    rw [mounted, (mount_blank ready).shut fd lt] at used
    exact Bool.noConfusion used
  · have none : (mounted s).view.live = ∅ := by
      ext e
      rw [mem_live, mounted, (mount_blank ready).noEntry e]
      simp
    rw [RootSized, none, mounted, (mount_blank ready).noSize]
    rfl

end

/-- What `fs_write` does to the bytes of its file, and to nothing else. -/
def WriteLaw (s : WitFs) (fd : Int) (buf : Buffer) (size n p : Nat) : Prop :=
  ∃ t len, fsWrite s fd buf size = (t, ((len : Nat) : Int)) ∧ len ≤ size ∧
    content t n = (content s n).take p ++ (List.range len).map buf ++ (content s n).drop (p + len) ∧
    (t.view.inode n).size.toNat = max (s.view.inode n).size.toNat (p + len) ∧
    t.openFiles = movedTo s fd.toNat (p + len) ∧
    (len < size → p + len = FS_MAX_FILE_SIZE ∨ DiskFull t) ∧
    (∀ m, s.view.Owner m → m ≠ n → SameFile s.view t.view m ∧ content t m = content s m) ∧
    ∀ e, t.view.ent e = s.view.ent e ∧ (s.view.ent e ≠ 0 → t.view.entName e = s.view.entName e)

/-- What `fs_read` delivers; only the position changes. -/
def ReadLaw (s : WitFs) (fd : Int) (size n p : Nat) : Prop :=
  ∃ len, len = min size ((content s n).length - p) ∧
    fsRead s fd size = (s.moved fd.toNat (p + len), (len : Int), ((content s n).drop p).take len)

/-- Files are byte lists of at most `FS_MAX_FILE_SIZE` bytes with a position per descriptor. -/
structure ContentLaw (s : WitFs) : Prop where
  length : ∀ n, s.view.Owner n →
    (content s n).length = (s.view.inode n).size.toNat ∧ (content s n).length ≤ FS_MAX_FILE_SIZE
  write : ∀ fd buf size, Usable s fd FS_OPEN_WRITE →
    WriteLaw s fd buf size (s.openFiles fd.toNat).inode (s.openFiles fd.toNat).position
  read : ∀ fd size, Usable s fd FS_OPEN_READ → (s.openFiles fd.toNat).position + size < 2 ^ 32 →
    ReadLaw s fd size (s.openFiles fd.toNat).inode (s.openFiles fd.toNat).position

theorem Measured.contentLaw {s : WitFs} (h : Measured s) : ContentLaw s where
  length n own := ⟨content_length s n, by rw [content_length]; exact (h.covers own).le⟩
  write fd buf size usable := by
    obtain ⟨lt, used⟩ := validFd_spec usable.1
    obtain ⟨own, root⟩ := h.file lt used
    have within := h.within _ lt used
    obtain ⟨t, len, eq, le, -, wrote, stop⟩ := fsWrite_spec h.tidy.sound usable rfl rfl own root
      (h.tidy.handles _ lt used id).2 buf size
    refine ⟨t, len, eq, le, wrote.content within (h.covers own), wrote.size within, wrote.files, stop, ?_,
      (wrote.others 0 (owner_root _) (Ne.symm root)).ents⟩
    intro m ownm other
    have same := wrote.others m ownm other
    exact ⟨same, same.content (h.covers ownm)⟩
  read fd size usable fits := ⟨_, rfl, by
    rw [content_length]
    exact (h.fsRead_eq usable rfl rfl (fun _ => fits) rfl).1⟩

/-- In every state of a run whose reads fit, files are byte lists. -/
theorem fitting_runs_refine_bytes (s0 s : WitFs) (ops : List FsOp) (ready : Ready s0)
    (run : Exec Fitting WitFs.step (mounted s0) ops s) : ContentLaw s :=
  (run.invariant (fun _ _ h ok => h.step ok) (mounted_measured ready)).contentLaw

def bytesOps : List FsOp :=
  [.fsOpen pathA 7, .fsWrite 0 (fun _ => 0x41) 700, .fsOpen pathA 1, .fsRead 1 4294967295, .fsClose 0, .fsClose 1,
    .fsUnlink pathA]

theorem bytesOps_run {s : WitFs} (facts : (((bytesOps.take 3).foldl WitFs.step s).openFiles 1).position = 0 ∧
    ∀ fd < FS_MAX_OPEN_FILES, (((bytesOps.take 6).foldl WitFs.step s).openFiles fd).inUse = false) :
    Exec Fitting WitFs.step s bytesOps (bytesOps.foldl WitFs.step s) := by
  obtain ⟨position, shut⟩ := facts
  refine .cons ⟨show NonRoot pathA by decide, trivial⟩ (.cons ⟨trivial, trivial⟩
    (.cons ⟨show NonRoot pathA by decide, trivial⟩ (.cons ⟨trivial, fun _ _ => ?_⟩ (.cons ⟨trivial, trivial⟩
      (.cons ⟨trivial, trivial⟩ (.cons ⟨⟨by decide, fun fd lt used => ?_⟩, trivial⟩ (.nil _)))))))
  · exact position ▸ (by decide : 0 + 4294967295 < 2 ^ 32)
  · exact absurd ((shut fd lt).symm.trans used) Bool.false_ne_true

theorem fitting_runs_refine_bytes_small : ContentLaw (bytesOps.foldl WitFs.step (mounted powerOn)) :=
  fitting_runs_refine_bytes powerOn _ bytesOps ⟨rfl, rfl⟩ (bytesOps_run (by decide +kernel))

/-- Two descriptors of a file of two bytes; the second reads one byte and then asks for
`2 ^ 32 - 1` more, so that its position ends behind the end of the file. -/
def overreadOps : List FsOp :=
  [.fsOpen pathA 7, .fsWrite 0 (fun _ => 0x41) 2, .fsOpen pathA 7, .fsRead 1 1, .fsRead 1 4294967295]

def overread : WitFs := overreadOps.foldl WitFs.step (mounted powerOn)

example : (overread.openFiles 1).position = 512 := by decide +kernel

theorem overread_run : Exec Separate WitFs.step (mounted powerOn) overreadOps overread :=
  .cons (show NonRoot pathA by decide) (.cons trivial (.cons (show NonRoot pathA by decide)
    (.cons trivial (.cons trivial (.nil _)))))

/-- With reads that wrap the contents are no byte list: an empty write at position 512
leaves a file of two bytes as it is. -/
theorem overread_breaks_content :
    ¬∀ s0 s ops, Ready s0 → Exec Separate WitFs.step (mounted s0) ops s → ContentLaw s := by
  intro law
  have usable : Usable overread 1 FS_OPEN_WRITE := by decide +kernel
  obtain ⟨t, len, eq, le, -, size, -⟩ :=
    (law powerOn overread overreadOps ⟨rfl, rfl⟩ overread_run).write 1 (fun _ => 0) 0 usable
  have none : len = 0 := Nat.le_zero.mp le
  subst none
  have state : t = (fsWrite overread 1 (fun _ => 0) 0).1 := by rw [eq]
  rw [state] at size
  have short : ((fsWrite overread 1 (fun _ => 0) 0).1.view.inode
      (overread.openFiles (1 : Int).toNat).inode).size.toNat = 2 := by decide +kernel
  have far : (overread.openFiles (1 : Int).toNat).position = 512 := by decide +kernel
  rw [short, far] at size
  omega

end Wittche.Fs
