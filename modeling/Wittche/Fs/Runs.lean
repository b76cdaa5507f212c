import Wittche.Lib.Execution
import Wittche.Fs.Invariant

/-! Runs of WitFS: any sequence of calls to the public functions of `fs.c`, with the
timer moving between them, after `fs_format` and `fs_init`. -/

namespace Wittche.Fs
open Bytes CString Execution

inductive FsOp
  | fsCreate (path : CStr) (type : Word)
  | fsMkdir (path : CStr)
  | fsOpen (path : CStr) (flags : Word)
  | fsClose (fd : Int)
  | fsRead (fd : Int) (size : Nat)
  | fsWrite (fd : Int) (buf : Buffer) (size : Nat)
  | fsUnlink (path : CStr)
  | fsRmdir (path : CStr)
  | fsReaddir (path : CStr) (max : Int)
  | fsStat (path : CStr)
  | fsExists (path : CStr)
  | timer (ticks : Word)

def WitFs.step (s : WitFs) : FsOp → WitFs
  | .fsCreate path type => (fsCreate s path type).1
  | .fsMkdir path => (fsMkdir s path).1
  | .fsOpen path flags => (fsOpen s path flags).1
  | .fsClose fd => (fsClose s fd).1
  | .fsRead fd size => (fsRead s fd size).1
  | .fsWrite fd buf size => (fsWrite s fd buf size).1
  | .fsUnlink path => (fsUnlink s path).1
  | .fsRmdir path => (fsRmdir s path).1
  | .fsReaddir path max => (fsReaddir s path max).1
  | .fsStat path => (fsStat s path).1
  | .fsExists path => (fsExists s path).1
  | .timer ticks => { s with ticks := ticks }

def NonRoot (path : CStr) : Prop := (pathName path).get 0 ≠ 0

instance (path : CStr) : Decidable (NonRoot path) := inferInstanceAs (Decidable (_ ≠ _))

def NotOpen (s : WitFs) (path : CStr) : Prop :=
  ∀ fd < FS_MAX_OPEN_FILES, (s.openFiles fd).inUse = true → ¬Names s path fd

def staleAfter (s : WitFs) (stale : Nat → Prop) : FsOp → Nat → Prop
  | .fsUnlink path => fun fd => stale fd ∨ Names s path fd
  | .fsRmdir path => fun fd => stale fd ∨ Names s path fd
  | .fsOpen _ _ => StillOpen s stale
  | _ => stale

/-- Calls that neither unlink the root, nor write into it, nor write through a stale
descriptor. -/
def Harmless (s : WitFs) (stale : Nat → Prop) : FsOp → Prop
  | .fsUnlink path => NonRoot path
  | .fsRmdir path => NonRoot path
  | .fsWrite fd _ size => Usable s fd FS_OPEN_WRITE →
      ¬stale fd.toNat ∧ ((s.openFiles fd.toNat).inode ≠ 0 ∨ size = 0)
  | _ => True

theorem Inv.step {s : WitFs} {leaked stale : Nat → Prop} (h : Inv s leaked stale) {op : FsOp}
    (ok : Harmless s stale op) : Inv (s.step op) leaked (staleAfter s stale op) := by
  cases op with
  | fsCreate path type => exact h.create path type
  | fsMkdir path => exact h.create path FS_TYPE_DIR
  | fsOpen path flags => exact h.open path flags
  | fsClose fd => exact h.close fd
  | fsRead fd size => exact h.read fd size
  | fsWrite fd buf size =>
    by_cases usable : Usable s fd FS_OPEN_WRITE
    · obtain ⟨fresh, root | empty⟩ := ok usable
      · exact h.write fresh root buf size
      · subst empty
        exact h.write_zero fresh buf
    · rw [WitFs.step, fsWrite_unusable usable]
      exact h
  | fsUnlink path => exact h.unlink ok
  | fsRmdir path => exact h.unlink ok
  | fsReaddir path max =>
    rw [WitFs.step, fsReaddir_state h.sound]
    exact h
  | fsStat path =>
    rw [WitFs.step, fsStat_state h.sound]
    exact h
  | fsExists path =>
    rw [WitFs.step, fsExists_state h.sound]
    exact h
  | timer ticks => exact ⟨⟨⟨h.sound.ready.disk, h.sound.ready.heap⟩, h.sound.on,
      ⟨h.sound.books.cons, h.sound.books.freeInodes, h.sound.books.freeBlocks⟩, h.sound.sized⟩,
      h.handles, h.slots⟩

/-- The calls of a client that keeps off the root and off files that are open: what it
creates, opens and unlinks has a name, and nothing is unlinked while it is open. -/
def Separate (s : WitFs) : FsOp → Prop
  | .fsCreate path _ => NonRoot path
  | .fsMkdir path => NonRoot path
  | .fsOpen path _ => NonRoot path
  | .fsUnlink path => NonRoot path ∧ NotOpen s path
  | .fsRmdir path => NonRoot path ∧ NotOpen s path
  | _ => True

def mounted (s : WitFs) : WitFs := fsInit (fsFormat s)

/-- Right books, nothing leaked, and every descriptor in use refers to a file. -/
def Tidy (s : WitFs) : Prop := Inv s (fun _ => False) fun _ => False

theorem Blank.tidy {s : WitFs} (h : Blank s) : Tidy s := by
  have unused : ∀ fd < FS_MAX_OPEN_FILES, ¬(s.openFiles fd).inUse = true := by
    intro fd lt used
    rw [h.shut fd lt] at used
    exact Bool.noConfusion used
  exact ⟨h.sound, fun fd lt used => absurd used (unused fd lt), fun fd lt used => absurd used (unused fd lt)⟩

theorem mounted_tidy {s : WitFs} (ready : Ready s) : Tidy (mounted s) := (mount_blank ready).tidy

/-- No descriptor in use refers to the root directory. -/
def RootClosed (s : WitFs) : Prop :=
  ∀ fd < FS_MAX_OPEN_FILES, (s.openFiles fd).inUse = true → (s.openFiles fd).inode ≠ 0

theorem fsUnlink_files {s : WitFs} {leaked : Nat → Prop} (h : Sound s leaked) {path : CStr}
    (named : NonRoot path) : (fsUnlink s path).1.openFiles = s.openFiles := by
  cases found : s.view.find (pathName path) with
  | none => rw [fsUnlink_none h named found]
  | some e =>
    obtain ⟨t, eq, keeps, -⟩ := fsUnlink_some h named found
    rw [eq]
    exact keeps.openFiles

theorem RootClosed.of_files {s t : WitFs} (closed : RootClosed s) (files : t.openFiles = s.openFiles) :
    RootClosed t := by
  rw [RootClosed, files]
  exact closed

theorem RootClosed.setFile {s : WitFs} (closed : RootClosed s) (fd : Nat) {f : OpenFile}
    (ok : f.inUse = true → f.inode ≠ 0) :
    RootClosed { s with openFiles := Function.update s.openFiles fd f } := by
  intro i lt used
  by_cases here : i = fd
  · subst here
    simp only [Function.update_self] at used ⊢
    exact ok used
  · simp only [Function.update_of_ne here] at used ⊢
    exact closed i lt used

theorem RootClosed.takeDescriptor {s : WitFs} (closed : RootClosed s) {n : Nat} (root : n ≠ 0) (flags : Word) :
    RootClosed (takeDescriptor s n flags).1 := by
  rw [Fs.takeDescriptor]
  split
  next => exact closed
  next => exact closed.setFile _ fun _ => root

section

variable {s : WitFs} {leaked stale : Nat → Prop}

theorem RootClosed.open (closed : RootClosed s) (h : Sound s leaked) {path : CStr} (named : NonRoot path)
    (flags : Word) : RootClosed (fsOpen s path flags).1 := by
  have files := fsCreate_files h path FS_TYPE_FILE
  rcases fsOpen_cases h path flags with ⟨n, looked, eq⟩ | ⟨-, eq | ⟨-, eq | ⟨t, n, made, looked, eq⟩⟩⟩
  · rw [eq]
    exact closed.takeDescriptor ((h.lookup_owner looked).2 named) flags
  · rw [eq]
    exact closed
  · rw [eq]
    exact closed.of_files files
  · rcases fsCreate_spec h path FS_TYPE_FILE with ⟨t', eq', -⟩ | ⟨t', e, m, eq', -, sound, -⟩
    · rw [made] at eq'
      exact absurd (Prod.mk.inj eq').2 (by decide)
    · rw [made] at eq' files
      obtain ⟨rfl, -⟩ := Prod.mk.inj eq'
      rw [eq]
      exact (closed.of_files files).takeDescriptor ((sound.lookup_owner looked).2 named) flags

theorem RootClosed.read (closed : RootClosed s) (h : Inv s leaked stale) (fd : Int) (size : Nat) :
    RootClosed (fsRead s fd size).1 := by
  rcases h.read_cases fd size with same | ⟨len, lt, used, -, moved⟩
  · rw [same]
    exact closed
  · rw [moved]
    exact closed.setFile _ fun _ => closed _ lt used

theorem RootClosed.write (closed : RootClosed s) (h : Inv s leaked stale) {fd : Int}
    (fresh : Usable s fd FS_OPEN_WRITE → ¬stale fd.toNat) (buf : Buffer) (size : Nat) :
    RootClosed (fsWrite s fd buf size).1 := by
  by_cases usable : Usable s fd FS_OPEN_WRITE
  · obtain ⟨lt, used⟩ := validFd_spec usable.1
    obtain ⟨own, covers⟩ := h.handles _ lt used (fresh usable)
    obtain ⟨t, len, eq, -, -, wrote, -⟩ :=
      fsWrite_spec h.sound usable rfl rfl own (closed _ lt used) covers buf size
    rw [eq]
    have moved : RootClosed (s.moved fd.toNat ((s.openFiles fd.toNat).position + len)) :=
      closed.setFile _ fun _ => closed _ lt used
    exact moved.of_files wrote.files
  · rw [fsWrite_unusable usable]
    exact closed

/-- Only opening the root opens the root. -/
theorem RootClosed.step (closed : RootClosed s) (h : Inv s leaked stale) {op : FsOp}
    (ok : Harmless s stale op) (named : ∀ path flags, op = .fsOpen path flags → NonRoot path) :
    RootClosed (s.step op) := by
  cases op with
  | fsCreate path type => exact closed.of_files (fsCreate_files h.sound path type)
  | fsMkdir path => exact closed.of_files (fsCreate_files h.sound path FS_TYPE_DIR)
  | fsOpen path flags => exact closed.open h.sound (named path flags rfl) flags
  | fsClose fd =>
    rw [WitFs.step, fsClose]
    split
    next => exact closed
    next => exact closed.setFile _ fun used => absurd used Bool.false_ne_true
  | fsRead fd size => exact closed.read h fd size
  | fsWrite fd buf size => exact closed.write h (fun usable => (ok usable).1) buf size
  | fsUnlink path => exact closed.of_files (fsUnlink_files h.sound ok)
  | fsRmdir path => exact closed.of_files (fsUnlink_files h.sound ok)
  | fsReaddir path max =>
    rw [WitFs.step, fsReaddir_state h.sound]
    exact closed
  | fsStat path =>
    rw [WitFs.step, fsStat_state h.sound]
    exact closed
  | fsExists path =>
    rw [WitFs.step, fsExists_state h.sound]
    exact closed
  | timer ticks => exact closed

end

theorem Separate.harmless {s : WitFs} {op : FsOp} (ok : Separate s op) (closed : RootClosed s) :
    Harmless s (fun _ => False) op := by
  cases op with
  | fsUnlink path => exact ok.1
  | fsRmdir path => exact ok.1
  | fsWrite fd buf size =>
    intro usable
    obtain ⟨lt, used⟩ := validFd_spec usable.1
    exact ⟨id, Or.inl (closed _ lt used)⟩
  | _ => trivial

theorem Tidy.unlink {s : WitFs} (h : Tidy s) {path : CStr} (named : NonRoot path) (shut : NotOpen s path) :
    Tidy (fsUnlink s path).1 := by
  have files := fsUnlink_files h.sound named
  have next := Inv.unlink h named
  refine ⟨next.sound, fun fd lt used _ => next.handles fd lt used ?_, next.slots⟩
  rintro (stale | names)
  · exact stale
  · rw [files] at used
    exact shut fd lt used names

/-- With nothing unlinked while it is open, no descriptor becomes stale. -/
theorem Tidy.step {s : WitFs} (h : Tidy s) {op : FsOp} (ok : Harmless s (fun _ => False) op)
    (shut : ∀ path, op = .fsUnlink path ∨ op = .fsRmdir path → NotOpen s path) : Tidy (s.step op) := by
  have next := Inv.step h ok
  cases op with
  | fsUnlink path => exact h.unlink ok (shut path (Or.inl rfl))
  | fsRmdir path => exact h.unlink ok (shut path (Or.inr rfl))
  | fsOpen path flags => exact next.mono fun _ _ _ still => still.1
  | _ => exact next

theorem separate_step {s : WitFs} {op : FsOp} (h : Tidy s ∧ RootClosed s) (ok : Separate s op) :
    Tidy (s.step op) ∧ RootClosed (s.step op) := by
  have harmless := ok.harmless h.2
  refine ⟨h.1.step harmless ?_, h.2.step h.1 harmless ?_⟩
  · rintro path (rfl | rfl)
    · exact ok.2
    · exact ok.2
  · rintro path flags rfl
    exact ok

theorem Blank.rootClosed {s : WitFs} (h : Blank s) : RootClosed s := by
  intro fd lt used
  rw [h.shut fd lt] at used
  exact Bool.noConfusion used

theorem mounted_rootClosed {s : WitFs} (ready : Ready s) : RootClosed (mounted s) :=
  (mount_blank ready).rootClosed

/-- The two bitmaps, the two counters, the inodes and the directory agree. -/
structure AllocationLaw (s : WitFs) : Prop where
  dataBits : ∀ b < FS_MAX_DATA_BLOCKS, bitmapTest s.dataBitmap.bytes b = true ↔
    b = 0 ∨ b ≠ 0 ∧ ∃ n k, s.view.Owner n ∧ s.view.blk n k = b
  blocksOnce : ∀ n m j k, s.view.Owner n → s.view.Owner m → s.view.blk n j ≠ 0 →
    s.view.blk n j = s.view.blk m k → n = m ∧ j = k
  inodeBits : ∀ n < FS_MAX_INODES, bitmapTest s.inodeBitmap.bytes n = true ↔
    n = 0 ∨ n ≠ 0 ∧ ∃ e, s.view.ent e = n
  inodesOnce : ∀ e e', s.view.ent e ≠ 0 → s.view.ent e = s.view.ent e' → e = e'
  inodesInRange : ∀ e, s.view.ent e < TABLE_INODES
  freeInodes : s.superblock.freeInodes.toNat = clearBits s.inodeBitmap.bytes FS_MAX_INODES
  freeBlocks : s.superblock.freeBlocks.toNat = clearBits s.dataBitmap.bytes FS_MAX_DATA_BLOCKS
  prefixes : ∀ n j k, s.view.Owner n → s.view.blk n k ≠ 0 → j < k → s.view.blk n j ≠ 0

theorem Tidy.allocationLaw {s : WitFs} (h : Tidy s) : AllocationLaw s := by
  have books := h.sound.books
  have c := books.cons
  refine ⟨?_, c.excl, ?_, c.entInj, c.entLt, books.freeInodes, books.freeBlocks, c.shape⟩
  · intro b lt
    by_cases zero : b = 0
    · subst zero
      simp [c.block0]
    · rw [c.blocks.iff b ⟨zero, lt⟩, or_false]
      simp [zero, View.Taken]
  · intro n lt
    rw [c.inodes.iff n (inode_bit lt), or_false, View.Owner]
    by_cases zero : n = 0
    · simp [zero]
    · simp [zero]

/-- Separate calls that create files and directories only. -/
def Orderly (s : WitFs) (op : FsOp) : Prop :=
  Separate s op ∧ ∀ path type, op = .fsCreate path type → type = FS_TYPE_FILE ∨ type = FS_TYPE_DIR

/-- In every state of an orderly run the allocation is consistent. -/
theorem orderly_runs_consistent (s0 s : WitFs) (ops : List FsOp) (ready : Ready s0)
    (run : Exec Orderly WitFs.step (mounted s0) ops s) : AllocationLaw s := by
  have keep : ∀ s op, Tidy s ∧ RootClosed s → Orderly s op → Tidy (s.step op) ∧ RootClosed (s.step op) :=
    fun _ _ h ok => separate_step h ok.1
  exact (run.invariant keep ⟨mounted_tidy ready, mounted_rootClosed ready⟩).1.allocationLaw

/-- The globals of `fs.c` at boot and the RAM disk as `ramdisk_init` leaves it. -/
def powerOn : WitFs where
  disk := blankDisk
  superblock := Superblock.ofBytes fun _ => 0
  inodeBitmap := ⟨none, fun _ => 0⟩
  dataBitmap := ⟨none, fun _ => 0⟩
  openFiles := fun _ => ⟨0, 0, 0, false⟩
  initialized := false
  ticks := 0
  heap := ⟨[], [], fun _ => 0⟩

def pathA : CStr := ⟨[0x2F, 0x61], by decide⟩
def pathB : CStr := ⟨[0x2F, 0x62], by decide⟩
def pathRoot : CStr := ⟨[0x2F], by decide⟩

def smallOps : List FsOp :=
  [.fsCreate pathA FS_TYPE_FILE, .fsMkdir pathB, .fsOpen pathA 3, .fsWrite 0 (fun _ => 0x41) 700, .fsClose 0,
    .fsUnlink pathA]

theorem smallOps_run {s : WitFs} (shut : ∀ fd < FS_MAX_OPEN_FILES,
    (((smallOps.take 5).foldl WitFs.step s).openFiles fd).inUse = false) :
    Exec Orderly WitFs.step s smallOps (smallOps.foldl WitFs.step s) := by
  refine .cons ⟨show NonRoot pathA by decide, fun _ _ same => by cases same; exact Or.inl rfl⟩
    (.cons ⟨show NonRoot pathB by decide, nofun⟩ (.cons ⟨show NonRoot pathA by decide, nofun⟩
      (.cons ⟨trivial, nofun⟩ (.cons ⟨trivial, nofun⟩ (.cons ⟨⟨by decide, fun fd lt used => ?_⟩, nofun⟩ (.nil _))))))
  exact absurd ((shut fd lt).symm.trans used) Bool.false_ne_true

theorem orderly_runs_consistent_small : AllocationLaw (smallOps.foldl WitFs.step (mounted powerOn)) :=
  orderly_runs_consistent powerOn _ smallOps ⟨rfl, rfl⟩ (smallOps_run (by decide +kernel))

/-- The calls of `FsOp`, and formatting and mounting between them. -/
inductive VolumeOp
  | call (op : FsOp)
  | fsFormat
  | fsInit

def WitFs.volumeStep (s : WitFs) : VolumeOp → WitFs
  | .call op => s.step op
  | .fsFormat => fsFormat s
  | .fsInit => fsInit s

def WitFs.volumeRun (s : WitFs) (ops : List VolumeOp) : WitFs := ops.foldl WitFs.volumeStep s

end Wittche.Fs
