import Wittche.Fs.Mount

/-! The invariant of a mounted file system over its public operations: right books, and
descriptors that refer to files. A descriptor whose file was unlinked is stale; of it
only the slot in the inode table is known. -/

namespace Wittche.Fs
open Bytes CString

structure Inv (s : WitFs) (leaked stale : Nat → Prop) : Prop where
  sound : Sound s leaked
  handles : ∀ fd < FS_MAX_OPEN_FILES, (s.openFiles fd).inUse = true → ¬stale fd →
    s.view.Owner (s.openFiles fd).inode ∧
      Covers s.view (s.openFiles fd).inode (s.openFiles fd).position
  slots : ∀ fd < FS_MAX_OPEN_FILES, (s.openFiles fd).inUse = true →
    (s.openFiles fd).inode < TABLE_INODES ∧
      ∀ k, s.view.blk (s.openFiles fd).inode k < FS_MAX_DATA_BLOCKS

section

variable {s t : WitFs} {leaked leaked' stale stale' : Nat → Prop}

/-- Descriptors stay as they are and their files keep at least their blocks. -/
theorem Inv.transfer (h : Inv s leaked stale) (sound : Sound t leaked') (files : t.openFiles = s.openFiles)
    (bounded : Bounded s.view t.view)
    (keep : ∀ fd < FS_MAX_OPEN_FILES, (s.openFiles fd).inUse = true → ¬stale' fd → ¬stale fd ∧
      (s.view.Owner (s.openFiles fd).inode → t.view.Owner (s.openFiles fd).inode ∧
        ∀ k, s.view.blk (s.openFiles fd).inode k ≠ 0 → t.view.blk (s.openFiles fd).inode k ≠ 0)) :
    Inv t leaked' stale' := by
  refine ⟨sound, ?_, ?_⟩
  · intro fd lt used fresh
    rw [files] at used ⊢
    obtain ⟨fresh', more⟩ := keep fd lt used fresh
    obtain ⟨own, covers⟩ := h.handles fd lt used fresh'
    exact ⟨(more own).1, fun k hk => (more own).2 k (covers k hk)⟩
  · intro fd lt used
    rw [files] at used ⊢
    obtain ⟨inside, low⟩ := h.slots fd lt used
    exact ⟨inside, bounded _ low⟩

theorem SameFile.owner_iff {V W : View} (h : SameFile V W 0) (m : Nat) : W.Owner m ↔ V.Owner m :=
  owner_congr (fun e => (h.ents e).1) m

theorem Inv.unchanged (h : Inv s leaked stale) (same : Unchanged s t) (sound : Sound t leaked') :
    Inv t leaked' stale := by
  refine h.transfer sound same.openFiles same.bounded fun fd _ _ fresh => ⟨fresh, fun own => ⟨?_, ?_⟩⟩
  · exact ((same.same 0 (owner_root _)).owner_iff _).mpr own
  · intro k used
    rw [(same.same _ own).blk]
    exact used

theorem Created.owner {V W : View} {e n m : Nat} {name : CStr} (h : Created V W e name n)
    (own : V.Owner m) : W.Owner m := by
  rcases own with root | ⟨a, eq⟩
  · exact Or.inl root
  · by_cases here : a = e
    · rw [here, h.unused] at eq
      exact Or.inl eq.symm
    · exact Or.inr ⟨a, by rw [h.ents, if_neg here, eq]⟩

theorem Inv.created (h : Inv s leaked stale) (keeps : Keeps s t) (sound : Sound t leaked) {e n : Nat}
    {name : CStr} (made : Created s.view t.view e name n) (bounded : Bounded s.view t.view) :
    Inv t leaked stale := by
  refine h.transfer sound keeps.openFiles bounded fun fd _ _ fresh => ⟨fresh, fun own => ⟨made.owner own, ?_⟩⟩
  intro k used
  by_cases root : (s.openFiles fd).inode = 0
  · rw [root] at used ⊢
    rw [made.roots k used]
    exact used
  · rw [(made.same _ own root).blk]
    exact used

theorem Inv.create (h : Inv s leaked stale) (path : CStr) (type : Word) :
    Inv (fsCreate s path type).1 leaked stale := by
  rcases fsCreate_spec h.sound path type with
    ⟨t, eq, same, sound⟩ | ⟨t, e, n, eq, keeps, sound, made, bounded, -, -⟩
  · rw [eq]
    exact h.unchanged same sound
  · rw [eq]
    exact h.created keeps sound made bounded

theorem Sound.pathLookup (h : Sound s leaked) (path : CStr) :
    ∃ found, Fs.pathLookup s path = (s, found) := by
  by_cases root : (pathName path).get 0 = 0
  · exact ⟨_, pathLookup_empty root⟩
  · exact ⟨_, pathLookup_eq h.ready h.books.cons root⟩

/-- What `path_lookup` finds is an owner, and the root only for the empty name. -/
theorem Sound.lookup_owner (h : Sound s leaked) {path : CStr} {n : Nat}
    (looked : Fs.pathLookup s path = (s, some n)) :
    s.view.Owner n ∧ ((pathName path).get 0 ≠ 0 → n ≠ 0) := by
  by_cases root : (pathName path).get 0 = 0
  · rw [pathLookup_empty root, Prod.mk.injEq, Option.some.injEq] at looked
    exact ⟨Or.inl looked.2.symm, fun named => absurd root named⟩
  · rw [pathLookup_eq h.ready h.books.cons root, Prod.mk.injEq] at looked
    obtain ⟨e, found, rfl⟩ := Option.map_eq_some_iff.mp looked.2
    exact ⟨owner_ent s.view e, fun _ => (of_decide_eq_true (Scan.firstFrom_some found).2.2.1).1⟩

def Names (s : WitFs) (path : CStr) (fd : Nat) : Prop :=
  (pathLookup s path).2 = some (s.openFiles fd).inode

theorem Inv.unlink (h : Inv s leaked stale) {path : CStr} (named : (pathName path).get 0 ≠ 0) :
    Inv (fsUnlink s path).1 leaked fun fd => stale fd ∨ Names s path fd := by
  have looked := pathLookup_eq h.sound.ready h.sound.books.cons named
  cases found : s.view.find (pathName path) with
  | none =>
    rw [fsUnlink_none h.sound named found]
    exact h.transfer h.sound rfl (fun _ h => h) fun fd _ _ fresh =>
      ⟨fun old => fresh (Or.inl old), fun own => ⟨own, fun _ used => used⟩⟩
  | some e =>
    obtain ⟨t, eq, keeps, sound, set, -⟩ := fsUnlink_some h.sound named found
    rw [eq]
    refine h.transfer sound keeps.openFiles ?_ fun fd _ _ fresh =>
      ⟨fun old => fresh (Or.inl old), fun own => ⟨?_, ?_⟩⟩
    · intro m low k
      rw [set.blks]
      exact low k
    · rcases own with root | ⟨a, entry⟩
      · exact Or.inl root
      · refine Or.inr ⟨a, ?_⟩
        rw [set.ents, if_neg, entry]
        rintro rfl
        refine fresh (Or.inr ?_)
        rw [Names, looked, found, ← entry]
        rfl
    · intro k used
      rw [set.blks]
      exact used

theorem Sound.withFiles (h : Sound s leaked) (files : Nat → OpenFile) :
    Sound { s with openFiles := files } leaked :=
  ⟨⟨h.ready.disk, h.ready.heap⟩, h.on, h.books.withFiles files, h.sized⟩

theorem Inv.setFile (h : Inv s leaked stale) (fd : Nat) (f : OpenFile)
    (others : ∀ i, i ≠ fd → (s.openFiles i).inUse = true → ¬stale' i → ¬stale i)
    (handle : f.inUse = true → ¬stale' fd → s.view.Owner f.inode ∧ Covers s.view f.inode f.position)
    (slot : f.inUse = true → f.inode < TABLE_INODES ∧ ∀ k, s.view.blk f.inode k < FS_MAX_DATA_BLOCKS) :
    Inv { s with openFiles := Function.update s.openFiles fd f } leaked stale' := by
  refine ⟨h.sound.withFiles _, ?_, ?_⟩
  · intro i lt used fresh
    by_cases here : i = fd
    · subst here
      simp only [Function.update_self] at used ⊢
      exact handle used fresh
    · simp only [Function.update_of_ne here] at used ⊢
      exact h.handles i lt used (others i here used fresh)
  · intro i lt used
    by_cases here : i = fd
    · subst here
      simp only [Function.update_self] at used ⊢
      exact slot used
    · simp only [Function.update_of_ne here] at used ⊢
      exact h.slots i lt used

theorem Inv.close (h : Inv s leaked stale) (fd : Int) : Inv (fsClose s fd).1 leaked stale := by
  rw [fsClose]
  split
  next => exact h
  next =>
    have closed : ¬{ s.openFiles fd.toNat with inUse := false }.inUse = true := Bool.false_ne_true
    exact h.setFile _ _ (fun _ _ _ fresh => fresh) (fun used => absurd used closed)
      fun used => absurd used closed

theorem validFd_spec {fd : Int} (h : validFd s fd = true) :
    fd.toNat < FS_MAX_OPEN_FILES ∧ (s.openFiles fd.toNat).inUse = true := by
  rw [validFd, Bool.and_eq_true, decide_eq_true_eq] at h
  exact ⟨by omega, h.2⟩

theorem Inv.read_cases (h : Inv s leaked stale) (fd : Int) (size : Nat) : (fsRead s fd size).1 = s ∨
    ∃ len, fd.toNat < FS_MAX_OPEN_FILES ∧ (s.openFiles fd.toNat).inUse = true ∧
      (∀ i < len, s.view.blk (s.openFiles fd.toNat).inode (((s.openFiles fd.toNat).position + i) / 512) ≠ 0) ∧
      (fsRead s fd size).1 = s.moved fd.toNat ((s.openFiles fd.toNat).position + len) := by
  by_cases usable : Usable s fd FS_OPEN_READ
  · obtain ⟨lt, used⟩ := validFd_spec usable.1
    obtain ⟨inside, low⟩ := h.slots _ lt used
    obtain ⟨len, eq, -, filled, -⟩ := fsRead_spec h.sound.ready usable rfl rfl inside low size
    exact Or.inr ⟨len, lt, used, filled, congrArg Prod.fst eq⟩
  · rw [fsRead_unusable usable]
    exact Or.inl rfl

theorem Inv.read_view (h : Inv s leaked stale) (fd : Int) (size : Nat) : (fsRead s fd size).1.view = s.view := by
  rcases h.read_cases fd size with same | ⟨len, -, -, -, moved⟩
  · rw [same]
  · rw [moved, moved_view]

theorem Inv.read (h : Inv s leaked stale) (fd : Int) (size : Nat) :
    Inv (fsRead s fd size).1 leaked stale := by
  rcases h.read_cases fd size with same | ⟨len, lt, used, filled, moved⟩
  · rw [same]
    exact h
  · rw [moved]
    refine h.setFile _ _ (fun _ _ _ fresh => fresh) (fun _ fresh => ?_) fun _ => h.slots _ lt used
    obtain ⟨own, covered⟩ := h.handles _ lt used fresh
    exact ⟨own, covered.extend filled⟩

theorem Inv.write (h : Inv s leaked stale) {fd : Int} (fresh : ¬stale fd.toNat)
    (root : (s.openFiles fd.toNat).inode ≠ 0) (buf : Buffer) (size : Nat) :
    Inv (fsWrite s fd buf size).1 leaked stale := by
  by_cases usable : Usable s fd FS_OPEN_WRITE
  · obtain ⟨lt, used⟩ := validFd_spec usable.1
    obtain ⟨own, covers⟩ := h.handles _ lt used fresh
    obtain ⟨t, len, eq, -, sound, wrote, -⟩ := fsWrite_spec h.sound usable rfl rfl own root covers buf size
    rw [eq]
    have here : Inv { t with openFiles := s.openFiles } leaked stale := by
      refine h.transfer (sound.withFiles _) rfl ?_ fun i _ _ fresh' => ⟨fresh', fun own' => ⟨?_, ?_⟩⟩
      · refine bounded_of_inodes fun m => ?_
        by_cases mine : m = (s.openFiles fd.toNat).inode
        · refine Or.inr fun k => sound.books.cons.blkLt m k ?_
          rw [mine]
          exact (wrote.owner_iff root _).mpr own
        · exact Or.inl (wrote.inodes m mine)
      · exact (wrote.owner_iff root _).mpr own'
      · intro k used'
        change t.view.blk _ k ≠ 0
        by_cases mine : (s.openFiles i).inode = (s.openFiles fd.toNat).inode
        · rw [mine] at used' ⊢
          rw [wrote.grown k used']
          exact used'
        · rw [(wrote.others _ own' mine).blk]
          exact used'
    have same : { t with openFiles := movedTo s fd.toNat ((s.openFiles fd.toNat).position + len) } = t := by
      rw [← wrote.files]
    rw [← same]
    exact here.setFile _ _ (fun _ _ _ fresh => fresh)
      (fun _ _ => ⟨(wrote.owner_iff root _).mpr own, wrote.covers⟩) fun _ => here.slots _ lt used
  · rw [fsWrite_unusable usable]
    exact h

theorem Inv.mono (h : Inv s leaked stale)
    (more : ∀ fd, (s.openFiles fd).inUse = true → ¬stale' fd → ¬stale fd) : Inv s leaked stale' :=
  ⟨h.sound, fun fd lt used fresh => h.handles fd lt used (more fd used fresh), h.slots⟩

def StillOpen (s : WitFs) (stale : Nat → Prop) (fd : Nat) : Prop := stale fd ∧ (s.openFiles fd).inUse = true

theorem Inv.stillOpen (h : Inv s leaked stale) : Inv s leaked (StillOpen s stale) :=
  h.mono fun _ used fresh old => fresh ⟨old, used⟩

theorem Inv.takeDescriptor (h : Inv s leaked stale) {n : Nat} (own : s.view.Owner n) (flags : Word) :
    Inv (takeDescriptor s n flags).1 leaked (StillOpen s stale) := by
  rw [Fs.takeDescriptor]
  cases found : Scan.firstFrom (fun i => !(s.openFiles i).inUse) FS_MAX_OPEN_FILES 0 with
  | none => exact h.stillOpen
  | some fd =>
    have c := h.sound.books.cons
    exact h.setFile fd ⟨n, 0, flags, true⟩ (fun i _ used fresh old => fresh ⟨old, used⟩)
      (fun _ _ => ⟨own, fun k hk => absurd hk (Nat.not_lt_zero _)⟩)
      fun _ => ⟨c.owner_lt own, fun k => c.blkLt n k own⟩

/-- `fs_open` looks the path up, creates the file if it is told to, and takes a descriptor. -/
theorem fsOpen_cases (h : Sound s leaked) (path : CStr) (flags : Word) :
    (∃ n, Fs.pathLookup s path = (s, some n) ∧ fsOpen s path flags = takeDescriptor s n flags) ∨
    Fs.pathLookup s path = (s, none) ∧
      (fsOpen s path flags = (s, -1) ∨
        flags &&& FS_OPEN_CREATE ≠ 0 ∧
          (fsOpen s path flags = ((fsCreate s path FS_TYPE_FILE).1, -1) ∨
            ∃ t n, fsCreate s path FS_TYPE_FILE = (t, 0) ∧ Fs.pathLookup t path = (t, some n) ∧
              fsOpen s path flags = takeDescriptor t n flags)) := by
  obtain ⟨found, looked⟩ := h.pathLookup path
  cases found with
  | some n =>
    refine Or.inl ⟨n, looked, ?_⟩
    rw [fsOpen, h.on, Bool.not_true, if_neg Bool.false_ne_true, looked]
  | none =>
    refine Or.inr ⟨looked, ?_⟩
    rw [fsOpen, h.on, Bool.not_true, if_neg Bool.false_ne_true, looked]
    simp only []
    by_cases create : flags &&& FS_OPEN_CREATE = 0
    · rw [if_neg (not_not.mpr create)]
      exact Or.inl rfl
    · rw [if_pos create]
      refine Or.inr ⟨create, ?_⟩
      rcases fsCreate_spec h path FS_TYPE_FILE with ⟨t, eq, -⟩ | ⟨t, e, n, eq, -, sound, -⟩
      · rw [eq]
        exact Or.inl rfl
      · obtain ⟨found', looked'⟩ := sound.pathLookup path
        rw [eq]
        simp only [looked', if_neg (show ¬(0 : Int) < 0 by decide)]
        cases found' with
        | none => exact Or.inl rfl
        | some m => exact Or.inr ⟨t, m, rfl, looked', rfl⟩

theorem fsCreate_files (h : Sound s leaked) (path : CStr) (type : Word) :
    (fsCreate s path type).1.openFiles = s.openFiles := by
  rcases fsCreate_spec h path type with ⟨t, eq, same, -⟩ | ⟨t, e, n, eq, keeps, -⟩
  · rw [eq]
    exact same.openFiles
  · rw [eq]
    exact keeps.openFiles

theorem Inv.open (h : Inv s leaked stale) (path : CStr) (flags : Word) :
    Inv (fsOpen s path flags).1 leaked (StillOpen s stale) := by
  rcases fsOpen_cases h.sound path flags with
    ⟨n, looked, eq⟩ | ⟨-, eq | ⟨-, eq | ⟨t, n, made, looked, eq⟩⟩⟩
  · rw [eq]
    exact h.takeDescriptor (h.sound.lookup_owner looked).1 flags
  · rw [eq]
    exact h.stillOpen
  · rw [eq]
    exact h.stillOpen.create path FS_TYPE_FILE
  · have created := h.create path FS_TYPE_FILE
    have files := fsCreate_files h.sound path FS_TYPE_FILE
    rw [made] at created files
    have same : StillOpen t stale = StillOpen s stale := by
      funext fd
      rw [StillOpen, StillOpen, files]
    rw [eq, ← same]
    exact created.takeDescriptor (created.sound.lookup_owner looked).1 flags

def View.setTime (V : View) (n : Nat) (ticks : Word) : View :=
  V.setInode n { V.inode n with modified := ticks }

theorem blk_setTime (V : View) (n : Nat) (ticks : Word) (m k : Nat) :
    (V.setTime n ticks).blk m k = V.blk m k := by
  rw [View.setTime, blk_setInode]
  split
  next here => rw [here]; rfl
  next => rfl

theorem ent_setTime (V : View) (n : Nat) (ticks : Word) (e : Nat) :
    (V.setTime n ticks).ent e = V.ent e ∧ (V.setTime n ticks).entName e = V.entName e := by
  have same : (V.setTime n ticks).entryBlock e = V.entryBlock e := by
    rw [View.entryBlock, blk_setTime]
    rfl
  simp [View.ent, View.entName, blk_setTime, same]

theorem fsWrite_zero (ready : Ready s) {fd : Int} (usable : Usable s fd FS_OPEN_WRITE) {n : Nat}
    (inode : (s.openFiles fd.toNat).inode = n) (lt : n < TABLE_INODES) (buf : Buffer) :
    ∃ t, fsWrite s fd buf 0 = (t, 0) ∧ DiskOnly s t ∧
      t.view = s.view.setTime n s.ticks := by
  obtain ⟨valid, flag⟩ := usable
  obtain ⟨heap, p, grant, -, -, back⟩ := kmalloc_of_ready ready
  obtain ⟨t, written, disk, view⟩ := writeInode_view ready lt { s.view.inode n with modified := s.ticks }
  refine ⟨t, ?_, disk, view⟩
  rw [fsWrite, valid, Bool.not_true, if_neg Bool.false_ne_true, if_neg flag, inode, readInode_view ready lt]
  simp only [grant, writeFrom, Nat.lt_irrefl, if_false, back { s with heap := heap } rfl, inode]
  erw [written]
  rfl

theorem Inv.write_zero (h : Inv s leaked stale) {fd : Int} (fresh : ¬stale fd.toNat) (buf : Buffer) :
    Inv (fsWrite s fd buf 0).1 leaked stale := by
  by_cases usable : Usable s fd FS_OPEN_WRITE
  · obtain ⟨lt, used⟩ := validFd_spec usable.1
    obtain ⟨own, -⟩ := h.handles _ lt used fresh
    have inside := h.sound.books.cons.owner_lt own
    obtain ⟨t, eq, disk, view⟩ := fsWrite_zero h.sound.ready usable rfl inside buf
    have blks : ∀ m k, t.view.blk m k = s.view.blk m k := by
      intro m k
      rw [view, blk_setTime]
    have cons := h.sound.books.cons.setInode_same (n := (s.openFiles fd.toNat).inode)
      (x := { s.view.inode (s.openFiles fd.toNat).inode with modified := s.ticks })
      (fun root => by rw [root]; exact h.sound.books.cons.rootDir) fun _ => rfl
    have ents : ∀ e, t.view.ent e = s.view.ent e := by
      intro e
      rw [view, (ent_setTime ..).1]
    have sound : Sound t leaked := by
      refine ⟨disk.toKeeps.ready h.sound.ready, disk.initialized.trans h.sound.on, ?_, ?_⟩
      · rw [view]
        exact (h.sound.books.view cons).diskOnly disk
      · intro m ownm root
        have old := (owner_congr ents m).mp ownm
        have size : (t.view.inode m).size = (s.view.inode m).size := by
          rw [view, View.setTime, setInode_inode]
          split
          next here => rw [here]
          next => rfl
        rw [size]
        exact (h.sound.sized m old root).congr (blks m)
    rw [eq]
    refine h.transfer sound disk.openFiles ?_ fun i _ _ fresh' => ⟨fresh', fun own' => ⟨?_, ?_⟩⟩
    · exact fun m low k => by rw [blks]; exact low k
    · exact (owner_congr ents _).mpr own'
    · exact fun k used' => by rw [blks]; exact used'
  · rw [fsWrite_unusable usable]
    exact h

end

section Queries

variable {s : WitFs} {leaked : Nat → Prop}

theorem fsStat_state (h : Sound s leaked) (path : CStr) : (fsStat s path).1 = s := by
  obtain ⟨found, looked⟩ := h.pathLookup path
  rw [fsStat, h.on, Bool.not_true, if_neg Bool.false_ne_true, looked]
  cases found with
  | none => rfl
  | some n =>
    simp only [readInode_view h.ready (h.books.cons.owner_lt (h.lookup_owner looked).1)]

theorem fsExists_state (h : Sound s leaked) (path : CStr) : (fsExists s path).1 = s := by
  obtain ⟨found, looked⟩ := h.pathLookup path
  rw [fsExists, looked]
  cases found <;> rfl

theorem fsReaddir_state (h : Sound s leaked) (path : CStr) (max : Int) : (fsReaddir s path max).1 = s := by
  obtain ⟨found, looked⟩ := h.pathLookup path
  rw [fsReaddir, h.on, Bool.not_true, if_neg Bool.false_ne_true, looked]
  cases found with
  | none => rfl
  | some n =>
    simp only [readInode_view h.ready (h.books.cons.owner_lt (h.lookup_owner looked).1)]
    obtain ⟨heap, p, grant, -, -, back⟩ := kmalloc_of_ready h.ready
    split
    next => rfl
    next =>
      rw [grant]
      simp only [back { s with heap := heap } rfl]

end Queries

end Wittche.Fs
