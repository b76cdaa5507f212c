import Wittche.Fs.Namespace

/-! The root directory under calls with arbitrary arguments.
`path_lookup` answers the empty name with the root inode, and neither `fs_unlink` nor
`fs_write` treats that inode in a special way. As long as a client neither unlinks the
root nor writes into it, the root stays allocated and its entries change one at a time. -/

namespace Wittche.Fs
open Bytes CString Execution

def Adds (s t : WitFs) : Prop :=
  ∃ entry, entry ∉ s.view.entries ∧ t.view.entries = insert entry s.view.entries

def Removes (s t : WitFs) : Prop :=
  ∃ entry, entry ∈ s.view.entries ∧ t.view.entries = s.view.entries \ {entry}

def AddsIfDone (s : WitFs) (result : WitFs × Int) : Prop :=
  result.2 = 0 ∧ Adds s result.1 ∨ result.2 = -1 ∧ result.1.view.entries = s.view.entries

def RemovesIfDone (s : WitFs) (result : WitFs × Int) : Prop :=
  result.2 = 0 ∧ Removes s result.1 ∨ result.2 = -1 ∧ result.1.view.entries = s.view.entries

/-- Which calls change the live entries, and how. `fs_open` does it through `fs_create`. -/
def EntryLaw (s : WitFs) : FsOp → Prop
  | .fsCreate path type => AddsIfDone s (fsCreate s path type)
  | .fsMkdir path => AddsIfDone s (fsMkdir s path)
  | .fsOpen path flags => (fsOpen s path flags).1.view.entries = s.view.entries ∨
      flags &&& FS_OPEN_CREATE ≠ 0 ∧ (fsCreate s path FS_TYPE_FILE).2 = 0 ∧ Adds s (fsOpen s path flags).1
  | .fsUnlink path => RemovesIfDone s (fsUnlink s path)
  | .fsRmdir path => RemovesIfDone s (fsRmdir s path)
  | op => (s.step op).view.entries = s.view.entries

section

variable {s : WitFs} {leaked : Nat → Prop}

theorem fsCreate_entries (h : Sound s leaked) (path : CStr) (type : Word) :
    AddsIfDone s (fsCreate s path type) := by
  rcases fsCreate_spec h path type with ⟨t, eq, same, -⟩ | ⟨t, e, n, eq, -, -, made, -⟩
  · rw [eq]
    exact Or.inr ⟨rfl, (same.same 0 (owner_root _)).entries⟩
  · rw [eq]
    exact Or.inl ⟨rfl, _, made.entries⟩

theorem fsUnlink_entries (h : Sound s leaked) {path : CStr} (named : NonRoot path) :
    RemovesIfDone s (fsUnlink s path) := by
  cases found : s.view.find (pathName path) with
  | none =>
    rw [fsUnlink_none h named found]
    exact Or.inr ⟨rfl, rfl⟩
  | some e =>
    have live : s.view.ent e ≠ 0 := (of_decide_eq_true (Scan.firstFrom_some found).2.2.1).1
    obtain ⟨t, eq, -, -, set, -⟩ := fsUnlink_some h named found
    rw [eq]
    exact Or.inl ⟨rfl, _, set.entries h.books.cons live⟩

theorem takeDescriptor_view (s : WitFs) (n : Nat) (flags : Word) : (takeDescriptor s n flags).1.view = s.view := by
  rw [takeDescriptor]
  split <;> rfl

theorem fsOpen_entries (h : Sound s leaked) (path : CStr) (flags : Word) :
    EntryLaw s (.fsOpen path flags) := by
  have made := fsCreate_entries h path FS_TYPE_FILE
  rcases fsOpen_cases h path flags with ⟨n, -, eq⟩ | ⟨-, eq | ⟨create, eq | ⟨t, n, done, -, eq⟩⟩⟩
  · refine Or.inl ?_
    rw [eq, takeDescriptor_view]
  · refine Or.inl ?_
    rw [eq]
  · simp only [EntryLaw]
    rw [eq]
    rcases made with ⟨done, adds⟩ | ⟨-, same⟩
    · exact Or.inr ⟨create, done, adds⟩
    · exact Or.inl same
  · simp only [EntryLaw, Adds]
    rw [eq, takeDescriptor_view]
    rw [done] at made ⊢
    rcases made with ⟨-, adds⟩ | ⟨failed, -⟩
    · exact Or.inr ⟨create, rfl, adds⟩
    · exact absurd failed (show ¬(0 : Int) = -1 by decide)

end

/-- Nothing is unlinked while it is open. -/
def ShutUnlinks (s : WitFs) : FsOp → Prop
  | .fsUnlink path => NotOpen s path
  | .fsRmdir path => NotOpen s path
  | _ => True

/-- The root is not unlinked, and nothing is written into it. -/
def SparesRoot (s : WitFs) : FsOp → Prop
  | .fsUnlink path => NonRoot path
  | .fsRmdir path => NonRoot path
  | .fsWrite fd _ size => Usable s fd FS_OPEN_WRITE → (s.openFiles fd.toNat).inode ≠ 0 ∨ size = 0
  | _ => True

def Sparing (s : WitFs) (op : FsOp) : Prop := ShutUnlinks s op ∧ SparesRoot s op

/-- The root inode and its blocks are allocated, and every call that `ok` allows changes
the live entries as it should. -/
structure RootLaw (ok : WitFs → FsOp → Prop) (s : WitFs) : Prop where
  inode : bitmapTest s.inodeBitmap.bytes 0 = true
  blocks : ∀ k, s.view.blk 0 k ≠ 0 → bitmapTest s.dataBitmap.bytes (s.view.blk 0 k) = true
  entries : ∀ op, ok s op → EntryLaw s op

section

variable {s : WitFs}

theorem Sparing.harmless {op : FsOp} (ok : Sparing s op) : Harmless s (fun _ => False) op := by
  cases op with
  | fsUnlink path => exact ok.2
  | fsRmdir path => exact ok.2
  | fsWrite fd buf size => exact fun usable => ⟨id, ok.2 usable⟩
  | _ => trivial

theorem Tidy.sparing_step (h : Tidy s) {op : FsOp} (ok : Sparing s op) : Tidy (s.step op) := by
  refine h.step ok.harmless ?_
  rintro path (rfl | rfl)
  · exact ok.1
  · exact ok.1

theorem Inv.write_entries {leaked stale : Nat → Prop} (h : Inv s leaked stale) {fd : Int} {buf : Buffer}
    {size : Nat} (ok : Harmless s stale (.fsWrite fd buf size)) :
    (fsWrite s fd buf size).1.view.entries = s.view.entries := by
  by_cases usable : Usable s fd FS_OPEN_WRITE
  · obtain ⟨lt, used⟩ := validFd_spec usable.1
    obtain ⟨fresh, root | empty⟩ := ok usable
    all_goals obtain ⟨own, covers⟩ := h.handles _ lt used fresh
    · obtain ⟨t, len, eq, -, -, wrote, -⟩ := fsWrite_spec h.sound usable rfl rfl own root covers buf size
      rw [eq]
      exact (wrote.others 0 (owner_root _) (Ne.symm root)).entries
    · subst empty
      obtain ⟨t, eq, -, view⟩ := fsWrite_zero h.sound.ready usable rfl (h.sound.books.cons.owner_lt own) buf
      rw [eq, view]
      exact entries_congr fun e => ⟨(ent_setTime ..).1, fun _ => (ent_setTime ..).2⟩
  · rw [fsWrite_unusable usable]

theorem Tidy.entryLaw (h : Tidy s) {op : FsOp} (ok : Sparing s op) : EntryLaw s op := by
  cases op with
  | fsCreate path type => exact fsCreate_entries h.sound path type
  | fsMkdir path => exact fsCreate_entries h.sound path FS_TYPE_DIR
  | fsOpen path flags => exact fsOpen_entries h.sound path flags
  | fsUnlink path => exact fsUnlink_entries h.sound ok.2
  | fsRmdir path => exact fsUnlink_entries h.sound ok.2
  | fsClose fd =>
    simp only [EntryLaw, WitFs.step, fsClose]
    split <;> rfl
  | fsRead fd size => simp only [EntryLaw, WitFs.step, Inv.read_view h]
  | fsWrite fd buf size => exact Inv.write_entries h ok.harmless
  | fsReaddir path max => simp only [EntryLaw, WitFs.step, fsReaddir_state h.sound]
  | fsStat path => simp only [EntryLaw, WitFs.step, fsStat_state h.sound]
  | fsExists path => simp only [EntryLaw, WitFs.step, fsExists_state h.sound]
  | timer ticks => rfl

theorem Tidy.rootLaw (h : Tidy s) : RootLaw Sparing s := by
  have c := h.sound.books.cons
  refine ⟨?_, fun k used => ?_, fun op ok => h.entryLaw ok⟩
  · rw [c.inodes.iff 0 (by decide)]
    exact Or.inl (owner_root _)
  · rw [c.blocks.iff _ (c.taken_lt (owner_root _) used)]
    exact Or.inl ⟨0, k, owner_root _, rfl⟩

end

/-- In every state of a run that spares the root, the root directory is intact. -/
theorem sparing_runs_keep_root (s0 s : WitFs) (ops : List FsOp) (ready : Ready s0)
    (run : Exec Sparing WitFs.step (mounted s0) ops s) : RootLaw Sparing s :=
  (run.invariant (fun _ _ h ok => h.sparing_step ok) (mounted_tidy ready)).rootLaw

theorem sparing_runs_keep_root_small :
    RootLaw Sparing (((mounted powerOn).step (.fsOpen pathRoot 3)).step (.fsCreate pathRoot FS_TYPE_FILE)) :=
  sparing_runs_keep_root powerOn _ [.fsOpen pathRoot 3, .fsCreate pathRoot FS_TYPE_FILE] ⟨rfl, rfl⟩
    (.cons ⟨trivial, trivial⟩ (.cons ⟨trivial, trivial⟩ (.nil _)))

/-- `fs_unlink("/")` frees inode 0. -/
theorem unlink_root_frees_inode :
    ¬∀ s0 s ops, Ready s0 → Exec ShutUnlinks WitFs.step (mounted s0) ops s → RootLaw ShutUnlinks s := by
  intro law
  have shut : NotOpen (mounted powerOn) pathRoot := by
    intro fd lt used
    rw [mounted, (mount_blank ⟨rfl, rfl⟩).shut fd lt] at used
    exact Bool.noConfusion used
  have bit := (law powerOn _ [.fsUnlink pathRoot] ⟨rfl, rfl⟩ (.cons shut (.nil _))).inode
  exact absurd bit (by decide +kernel)

end Wittche.Fs
