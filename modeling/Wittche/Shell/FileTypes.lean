import Wittche.Fs.Namespace
import Wittche.Fs.Isolation
import Wittche.Fs.Remount
import Wittche.Shell.Files

/-! The type a file was created with, and who finds it again. The type and the permissions
share one mode word, and `FS_PERM_WRITE` is the bit of `FS_TYPE_DIR`. `fs.c` tests that
bit; the shell compares the low byte of the word with the type. -/

namespace Wittche.Shell
open Bytes CString Fs Execution

/-- A file system with its stale descriptors, and the live names with the types they were
created with. -/
structure Typed where
  fs : WitFs
  stale : Nat → Prop
  types : List Byte → Option Word

/-- The live names after a call. `fs_open` creates through `fs_create`. -/
def typesAfter (s : WitFs) (types : List Byte → Option Word) : FsOp → List Byte → Option Word
  | .fsCreate path type =>
    if (fsCreate s path type).2 = 0 then Function.update types (pathName path).chars (some type) else types
  | .fsMkdir path =>
    if (fsMkdir s path).2 = 0 then Function.update types (pathName path).chars (some FS_TYPE_DIR) else types
  | .fsOpen path flags =>
    if flags &&& FS_OPEN_CREATE ≠ 0 ∧ (fsCreate s path FS_TYPE_FILE).2 = 0 then
      Function.update types (pathName path).chars (some FS_TYPE_FILE)
    else types
  | .fsUnlink path =>
    if (fsUnlink s path).2 = 0 then Function.update types (pathName path).chars none else types
  | .fsRmdir path =>
    if (fsRmdir s path).2 = 0 then Function.update types (pathName path).chars none else types
  | _ => types

def Typed.step (x : Typed) : VolumeOp → Typed
  | .call op => ⟨x.fs.step op, staleAfter x.fs x.stale op, typesAfter x.fs x.types op⟩
  | .fsFormat => ⟨fsFormat x.fs, fun _ => True, fun _ => none⟩
  | .fsInit => ⟨fsInit x.fs, fun _ => False, x.types⟩

def Typed.mounted (s : WitFs) : Typed := ⟨Fs.mounted s, fun _ => False, fun _ => none⟩

def OnShortNames : FsOp → Prop
  | .fsCreate path _ => ShortName path
  | .fsMkdir path => ShortName path
  | .fsOpen path _ => ShortName path
  | .fsUnlink path => ShortName path
  | .fsRmdir path => ShortName path
  | _ => True

/-- Formatting, mounting, and calls on short names. -/
def ShortNamed (_ : Typed) : VolumeOp → Prop
  | .call op => OnShortNames op
  | .fsFormat => True
  | .fsInit => True

/-- Calls on short names, and stale descriptors used before the reuse of what they refer to. -/
def ShortTimely (x : Typed) : VolumeOp → Prop
  | .call op => OnShortNames op ∧ BeforeReuse ⟨x.fs, x.stale⟩ op
  | .fsFormat => True
  | .fsInit => True

/-- Every name with a type is in the directory, and the mode word of its inode is the type
with the default permissions. -/
def Moded (s : WitFs) (M : List Byte → Option Nat) (types : List Byte → Option Word) : Prop :=
  ∀ name type, types name = some type → ∃ n, M name = some n ∧ modeOf s n = type ||| FS_PERM_DEFAULT

structure Registered (x : Typed) (M : List Byte → Option Nat) : Prop where
  watched : Watched ⟨x.fs, x.stale⟩
  synced : Synced x.fs
  names : Represents x.fs.view M
  moded : Moded x.fs M x.types

section Calls

variable {s t : WitFs} {M : List Byte → Option Nat} {types : List Byte → Option Word} {leaked stale : Nat → Prop}

theorem moded_none : Moded s M fun _ => none := by
  rintro name type ⟨⟩

theorem Moded.keep (h : Moded s M types) (m : Represents s.view M)
    (same : ∀ n, s.view.Owner n → modeOf t n = modeOf s n) : Moded t M types := by
  intro name type live
  obtain ⟨n, key, mode⟩ := h name type live
  exact ⟨n, key, (same n (m.owner key)).trans mode⟩

theorem Moded.steady (h : Moded s M types) (same : Steady s t) : Moded t M types := by
  intro name type live
  obtain ⟨n, key, mode⟩ := h name type live
  exact ⟨n, key, (same.modes n).trans mode⟩

theorem Moded.create (h : Moded s M types) (m : Represents s.view M) (synced : Synced s)
    (sound : Sound s leaked) {path : CStr} (named : ShortName path) (type : Word) :
    ∃ M', Represents (fsCreate s path type).1.view M' ∧
      Moded (fsCreate s path type).1 M' (if (fsCreate s path type).2 = 0 then
        Function.update types (pathName path).chars (some type) else types) := by
  have code := m.create sound named type
  rcases synced.create sound path type with
    ⟨t, eq, same, -, -, modes⟩ | ⟨t, e, n, eq, -, -, -, made, off, mode⟩
  · rw [eq]
    exact ⟨M, m.unchanged (same.same 0 (owner_root _)), h.keep m modes⟩
  · rw [eq] at code ⊢
    rcases code with ⟨failed, -⟩ | ⟨-, absent, -⟩
    · exact absurd failed (show (0 : Int) ≠ -1 by decide)
    · obtain ⟨fresh, added⟩ := m.created made named.2 absent
      refine ⟨_, added, fun name type' live => ?_⟩
      rw [if_pos rfl, Function.update_apply] at live
      rw [Function.update_apply]
      split at live
      next here =>
        obtain rfl := Option.some.inj live
        exact ⟨n, if_pos here, mode⟩
      next other =>
        obtain ⟨n', key, mode'⟩ := h name type' live
        refine ⟨n', (if_neg other).trans key, (off n' ?_).trans mode'⟩
        rintro rfl
        exact fresh name key

theorem Moded.unlink (h : Moded s M types) (m : Represents s.view M) (synced : Synced s)
    (sound : Sound s leaked) {path : CStr} (named : NonRoot path) :
    ∃ M', Represents (fsUnlink s path).1.view M' ∧
      Moded (fsUnlink s path).1 M' (if (fsUnlink s path).2 = 0 then
        Function.update types (pathName path).chars none else types) := by
  obtain ⟨done, removed⟩ := m.unlink sound named
  refine ⟨_, removed, fun name type live => ?_⟩
  have steady := synced.unlink sound path
  have old : types name = some type ∧ name ≠ (pathName path).chars := by
    split at live
    next =>
      rw [Function.update_apply] at live
      split at live
      next => cases live
      next other => exact ⟨live, other⟩
    next failed =>
      refine ⟨live, ?_⟩
      rintro rfl
      obtain ⟨n, key, -⟩ := h _ type live
      exact failed (done.mpr (by rw [key]; simp))
  obtain ⟨n, key, mode⟩ := h name type old.1
  rw [Function.update_of_ne old.2]
  exact ⟨n, key, (steady.modes n).trans mode⟩

theorem fsOpen_view (sound : Sound s leaked) (path : CStr) (flags : Word) : (fsOpen s path flags).1.view =
    if flags &&& FS_OPEN_CREATE ≠ 0 then (fsCreate s path FS_TYPE_FILE).1.view else s.view := by
  obtain ⟨found, looked⟩ := sound.pathLookup path
  have on := sound.on
  rw [fsOpen, on, Bool.not_true, if_neg Bool.false_ne_true, looked]
  cases found with
  | some n =>
    have there : fsCreate s path FS_TYPE_FILE = (s, -1) := by
      rw [fsCreate, on, Bool.not_true, if_neg Bool.false_ne_true, looked]
    rw [there, ite_self]
    exact takeDescriptor_view s n flags
  | none =>
    dsimp only
    split
    next =>
      split
      next => rfl
      next =>
        rcases fsCreate_spec sound path FS_TYPE_FILE with ⟨t, eq, -, made⟩ | ⟨t, e, n, eq, -, made, -⟩
        all_goals
          obtain ⟨again, looked'⟩ := made.pathLookup path
          rw [eq]
          dsimp only
          rw [looked']
          cases again with
          | none => rfl
          | some n => exact takeDescriptor_view t n flags
    next => rfl

theorem Moded.of_view (h : Moded s M types) (view : t.view = s.view) : Moded t M types := by
  intro name type live
  obtain ⟨n, key, mode⟩ := h name type live
  refine ⟨n, key, ?_⟩
  rw [modeOf, view]
  exact mode

theorem Moded.open (h : Moded s M types) (m : Represents s.view M) (synced : Synced s)
    (sound : Sound s leaked) {path : CStr} (named : ShortName path) (flags : Word) :
    ∃ M', Represents (fsOpen s path flags).1.view M' ∧
      Moded (fsOpen s path flags).1 M' (typesAfter s types (.fsOpen path flags)) := by
  have view := fsOpen_view sound path flags
  rw [typesAfter]
  by_cases creates : flags &&& FS_OPEN_CREATE ≠ 0
  · rw [if_pos creates] at view
    obtain ⟨M', names, moded⟩ := h.create m synced sound named FS_TYPE_FILE
    refine ⟨M', view ▸ names, ?_⟩
    simp only [creates, ne_eq, not_false_eq_true, true_and]
    exact moded.of_view view
  · rw [if_neg creates] at view
    refine ⟨M, view ▸ m, ?_⟩
    rw [if_neg fun both => creates both.1]
    exact h.of_view view

end Calls

section Steps

variable {x : Typed} {M M' : List Byte → Option Nat} {d : Word × Word}

theorem OnShortNames.onNames {y : Tracked} {op : FsOp} (ok : OnShortNames op) : OnNames y op := by
  cases op with
  | fsCreate path type => exact ok.1
  | fsMkdir path => exact ok.1
  | fsOpen path flags => exact ok.1
  | fsUnlink path => exact ok.1
  | fsRmdir path => exact ok.1
  | _ => trivial

theorem Registered.write (h : Registered x M) {fd : Int} {buf : Buffer} {size : Nat}
    (early : BeforeReuse ⟨x.fs, x.stale⟩ (.fsWrite fd buf size)) :
    Represents (fsWrite x.fs fd buf size).1.view M := by
  obtain ⟨⟨leaked, inv⟩, closed⟩ := h.watched
  by_cases old : Usable x.fs fd FS_OPEN_WRITE ∧ x.stale fd.toNat
  · have apart := h.watched.isolated (.fsWrite fd buf size) ⟨trivial, early⟩ old.1 old.2
    exact h.names.unchanged (apart.1 0 (owner_root _))
  · by_cases usable : Usable x.fs fd FS_OPEN_WRITE
    · exact h.names.write inv closed (fun stale => old ⟨usable, stale⟩) buf size
    · rw [fsWrite_unusable usable]
      exact h.names

theorem Registered.next (h : Registered x M) {op : FsOp} (named : OnShortNames op)
    (early : BeforeReuse ⟨x.fs, x.stale⟩ op) (names : Represents (x.fs.step op).view M')
    (moded : Moded (x.fs.step op) M' (typesAfter x.fs x.types op)) :
    ∃ M', Registered (x.step (.call op)) M' := by
  have watched := h.watched.step ⟨named.onNames, early⟩
  obtain ⟨⟨leaked, inv⟩, -⟩ := h.watched
  exact ⟨M', watched, h.synced.step inv op, names, moded⟩

/-- Every call keeps the live names registered with their types. -/
theorem Registered.call (h : Registered x M) {op : FsOp} (named : OnShortNames op)
    (early : BeforeReuse ⟨x.fs, x.stale⟩ op) : ∃ M', Registered (x.step (.call op)) M' := by
  obtain ⟨⟨leaked, inv⟩, closed⟩ := h.watched
  have sound := inv.sound
  cases op with
  | fsCreate path type =>
    obtain ⟨M', names, moded⟩ := h.moded.create h.names h.synced sound named type
    exact h.next named early names moded
  | fsMkdir path =>
    obtain ⟨M', names, moded⟩ := h.moded.create h.names h.synced sound named FS_TYPE_DIR
    exact h.next named early names moded
  | fsOpen path flags =>
    obtain ⟨M', names, moded⟩ := h.moded.open h.names h.synced sound named flags
    exact h.next named early names moded
  | fsUnlink path =>
    obtain ⟨M', names, moded⟩ := h.moded.unlink h.names h.synced sound named.1
    exact h.next named early names moded
  | fsRmdir path =>
    obtain ⟨M', names, moded⟩ := h.moded.unlink h.names h.synced sound named.1
    exact h.next named early names moded
  | fsClose fd => exact h.next named early (h.names.close fd) (h.moded.steady (h.synced.close fd))
  | fsRead fd size =>
    exact h.next named early (h.names.read inv fd size) (h.moded.steady (h.synced.read inv.slot size))
  | fsWrite fd buf size =>
    exact h.next named early (h.write early) (h.moded.steady (h.synced.write inv.slot buf size))
  | fsReaddir path max =>
    have state : x.fs.step (.fsReaddir path max) = x.fs := fsReaddir_state sound path max
    exact h.next named early (state ▸ h.names) (state.symm ▸ h.moded)
  | fsStat path =>
    have state : x.fs.step (.fsStat path) = x.fs := fsStat_state sound path
    exact h.next named early (state ▸ h.names) (state.symm ▸ h.moded)
  | fsExists path =>
    have state : x.fs.step (.fsExists path) = x.fs := fsExists_state sound path
    exact h.next named early (state ▸ h.names) (state.symm ▸ h.moded)
  | timer ticks => exact h.next named early h.names h.moded

/-- The same with other free counters, which no call looks at. -/
def Typed.recount (d : Word × Word) (x : Typed) : Typed := ⟨Fs.recount d x.fs, x.stale, x.types⟩

theorem staleAfter_recount (d : Word × Word) (s : WitFs) (stale : Nat → Prop) (op : FsOp) :
    staleAfter (Fs.recount d s) stale op = staleAfter s stale op := by
  have names : ∀ path, Names (Fs.recount d s) path = Names s path := by
    intro path
    funext fd
    rw [Names, Names, pathLookup_recount]
    rfl
  cases op with
  | fsUnlink path => rw [staleAfter, staleAfter, names]
  | fsRmdir path => rw [staleAfter, staleAfter, names]
  | _ => rfl

theorem typesAfter_recount (d : Word × Word) (s : WitFs) (types : List Byte → Option Word) (op : FsOp) :
    typesAfter (Fs.recount d s) types op = typesAfter s types op := by
  cases op with
  | fsCreate path type => rw [typesAfter, typesAfter, fsCreate_recount]
  | fsMkdir path => rw [typesAfter, typesAfter, fsMkdir, fsMkdir, fsCreate_recount]
  | fsOpen path flags => rw [typesAfter, typesAfter, fsCreate_recount]
  | fsUnlink path => rw [typesAfter, typesAfter, fsUnlink_recount]
  | fsRmdir path => rw [typesAfter, typesAfter, fsRmdir, fsRmdir, fsUnlink_recount]
  | _ => rfl

theorem call_recount (d : Word × Word) (x : Typed) (op : FsOp) :
    (x.recount d).step (.call op) = (x.step (.call op)).recount d := by
  simp only [Typed.step, Typed.recount, step_recount, staleAfter_recount, typesAfter_recount]

theorem Registered.remount (h : Registered (x.recount d) M) :
    Registered ((x.step .fsInit).recount (mountGap d x.fs)) M := by
  obtain ⟨⟨leaked, inv⟩, -⟩ := h.watched
  have synced : Synced x.fs := (synced_recount d x.fs).mp h.synced
  have mounts := synced.mounts
  have view : (Fs.recount (mountGap d x.fs) (fsInit x.fs)).view = (Fs.recount d x.fs).view := mounts.view_eq
  refine ⟨⟨⟨leaked, synced.remount inv⟩, mounts.rootClosed⟩, ?_, ?_, h.moded.of_view view⟩
  · exact (synced_recount _ _).mpr (mounts.synced synced)
  · exact view ▸ h.names

theorem Registered.format (h : Registered (x.recount d) M) : Registered (x.step .fsFormat) fun _ => none := by
  obtain ⟨⟨leaked, inv⟩, closed⟩ := h.watched
  have ready : Ready x.fs := ((synced_recount d x.fs).mp h.synced).ready
  have formatted := fsFormat_formatted ready
  obtain ⟨on, superblock, files, inodes, blocks⟩ := fsFormat_memory ready
  obtain ⟨sound, free⟩ := formatted.sound rfl formatted.ready.heap on superblock inodes blocks
  have rootClosed : RootClosed (fsFormat x.fs) := RootClosed.of_files closed files
  refine ⟨⟨⟨_, sound, fun fd lt used fresh => absurd trivial fresh, fun fd lt used => ?_⟩, rootClosed⟩, ?_,
    represents_none free, moded_none⟩
  · obtain ⟨inside, low⟩ := inv.slots fd lt (files ▸ used)
    refine ⟨files ▸ inside, fun k => ?_⟩
    have same : (fsFormat x.fs).view.blk ((fsFormat x.fs).openFiles fd).inode k =
        x.fs.view.blk (x.fs.openFiles fd).inode k := by
      rw [View.blk, fsFormat_inode ready (rootClosed fd lt used), files]
      rfl
    exact same ▸ low k
  · exact formatted.synced rfl formatted.ready.heap superblock inodes blocks

/-- What is kept along a run: up to the free counters, the live names are registered. -/
def Registry (x : Typed) : Prop := ∃ d M, Registered (x.recount d) M

theorem Registered.registry (h : Registered x M) : Registry x :=
  ⟨(0, 0), M, by rw [Typed.recount, recount_zero]; exact h⟩

theorem Registry.step (h : Registry x) {op : VolumeOp} (ok : ShortTimely x op) : Registry (x.step op) := by
  obtain ⟨d, M, registered⟩ := h
  cases op with
  | call op =>
    have early : BeforeReuse ⟨Fs.recount d x.fs, x.stale⟩ op := by
      cases op with
      | fsRead fd size => exact ok.2
      | fsWrite fd buf size => exact ok.2
      | _ => trivial
    obtain ⟨M', next⟩ := registered.call ok.1 early
    exact ⟨d, M', call_recount d x op ▸ next⟩
  | fsFormat => exact registered.format.registry
  | fsInit => exact ⟨mountGap d x.fs, M, registered.remount⟩

theorem mounted_registry {s : WitFs} (ready : Ready s) : Registry (Typed.mounted s) := by
  have intact := mounted_intact ready
  have tidy := intact.tidy
  rw [recount_zero] at tidy
  have start : Registered (Typed.mounted s) fun _ => none :=
    ⟨⟨⟨_, tidy⟩, intact.closed⟩, intact.synced, mounted_represents ready, moded_none⟩
  exact start.registry

end Steps

/-- The readers of a mode word find `type` in it: the test of `fs.c`, and the mark and the
size of a line of `ls`. -/
structure ReadAs (x : Inode) (type : Word) : Prop where
  dirTest : x.mode &&& FS_TYPE_DIR ≠ 0 ↔ type = FS_TYPE_DIR
  lsDir : ∀ name, (lsLine name x).mark = .dir ↔ type = FS_TYPE_DIR
  lsFile : ∀ name, (lsLine name x).mark = .file ↔ type = FS_TYPE_FILE
  lsSize : ∀ name, (lsLine name x).size ≠ none ↔ type = FS_TYPE_FILE

/-- Every consumer finds the type of the entry. -/
structure TypeKept (s : WitFs) (path : CStr) (type : Word) : Prop where
  stat : ∃ x, (fsStat s path).2 = some x ∧ ReadAs x type
  readdir : type = FS_TYPE_FILE → ∀ max, (fsReaddir s path max).2.1 = -1
  cat : (cmdCat s path).2 = .isDirectory ↔ type = FS_TYPE_DIR

/-- A directory for `fs.c` and for `cat`, and a file without a size for `ls`. -/
structure Misread (s : WitFs) (path : CStr) : Prop where
  stat : ∃ x, (fsStat s path).2 = some x ∧ x.mode &&& FS_TYPE_DIR ≠ 0 ∧
    ∀ name, lsLine name x = ⟨.file, name, none⟩
  readdir : ∀ max, 0 ≤ (fsReaddir s path max).2.1
  cat : (cmdCat s path).2 = .isDirectory

section Consumers

variable {s : WitFs} {path : CStr} {x : Inode} {type : Word}

theorem readInode_state (ready : Ready s) (n : Nat) : (readInode s n).1 = s := by
  by_cases inside : n < FS_MAX_INODES
  · rw [readInode_of_ready ready inside]
  · rw [readInode, if_pos (Nat.le_of_not_lt inside)]

theorem pathLookup_state (ready : Ready s) (path : CStr) : (pathLookup s path).1 = s := by
  obtain ⟨heap, p, grant, -, -, back⟩ := kmalloc_of_ready ready
  rw [pathLookup, readInode_of_ready ready (by decide)]
  dsimp only
  rw [grant]
  split
  next => rfl
  next =>
    split
    next => rfl
    next => exact back _ rfl

theorem fsStat_found (ready : Ready s) (stat : (fsStat s path).2 = some x) :
    s.initialized = true ∧ ∃ n, pathLookup s path = (s, some n) ∧ readInode s n = (s, some x) := by
  have state := pathLookup_state ready path
  rw [fsStat] at stat
  split at stat
  next => cases stat
  next on =>
    refine ⟨by simpa using on, ?_⟩
    cases look : pathLookup s path with
    | mk t found =>
      rw [look] at state stat
      obtain rfl : t = s := state
      cases found with
      | none => cases stat
      | some n => exact ⟨n, rfl, Prod.ext (readInode_state ready n) stat⟩

theorem catContents_isFile (s : WitFs) (path : CStr) (size : Word) :
    (catContents s path size).2 ≠ .isDirectory := by
  rw [catContents]
  dsimp only
  split
  next => exact CatOutput.noConfusion
  next =>
    split
    next => exact CatOutput.noConfusion
    next =>
      split
      next => exact CatOutput.noConfusion
      next => exact CatOutput.noConfusion

theorem cmdCat_isDirectory (ready : Ready s) (named : NonRoot path) (stat : (fsStat s path).2 = some x) :
    (cmdCat s path).2 = .isDirectory ↔ lowByte x.mode ≠ FS_TYPE_FILE := by
  obtain ⟨on, n, look, read⟩ := fsStat_found ready stat
  have args : path.length ≠ 0 := by
    intro empty
    refine named ?_
    obtain ⟨chars, noNul⟩ := path
    obtain rfl : chars = [] := List.length_eq_zero_iff.mp empty
    rfl
  rw [cmdCat, on, Bool.not_true, if_neg Bool.false_ne_true, if_neg args, fsExists, look]
  dsimp only
  rw [if_neg (show (1 : Int) ≠ 0 by decide), fsStat, on, Bool.not_true, if_neg Bool.false_ne_true, look]
  dsimp only
  rw [read]
  dsimp only
  split
  next other => exact ⟨fun _ => other, fun _ => rfl⟩
  next file =>
    refine ⟨fun out => ?_, fun other => absurd other file⟩
    split at out
    next => cases out
    next => exact absurd out (catContents_isFile s path x.size)

theorem fsReaddir_dirTest (ready : Ready s) (stat : (fsStat s path).2 = some x) (max : Int) :
    if x.mode &&& FS_TYPE_DIR = 0 then (fsReaddir s path max).2.1 = -1 else 0 ≤ (fsReaddir s path max).2.1 := by
  obtain ⟨on, n, look, read⟩ := fsStat_found ready stat
  obtain ⟨heap, p, grant, -⟩ := kmalloc_of_ready ready
  rw [fsReaddir, on, Bool.not_true, if_neg Bool.false_ne_true, look]
  dsimp only
  rw [read]
  dsimp only
  split
  next => rfl
  next =>
    rw [grant]
    exact Int.natCast_nonneg _

theorem dirTest_lowByte (mode : Word) : mode &&& FS_TYPE_DIR = lowByte mode &&& FS_TYPE_DIR := by
  rw [lowByte, BitVec.and_assoc]
  rfl

theorem readAs_lowByte (kind : type = FS_TYPE_FILE ∨ type = FS_TYPE_DIR) (low : lowByte x.mode = type) :
    ReadAs x type := by
  have test := dirTest_lowByte x.mode
  rw [low] at test
  refine ⟨?_, fun name => ?_, fun name => ?_, fun name => ?_⟩
  · rw [test]
    rcases kind with rfl | rfl <;> decide
  · rw [lsLine, low]
    dsimp only
    rcases kind with rfl | rfl <;> decide
  · rw [lsLine, low]
    dsimp only
    rcases kind with rfl | rfl <;> decide
  · rw [lsLine, low, ite_ne_right_iff]
    exact and_iff_left (Option.some_ne_none _)

/-- All consumers agree exactly when the low byte of the stored mode is the type alone. -/
theorem typeKept_iff (ready : Ready s) (named : NonRoot path) (kind : type = FS_TYPE_FILE ∨ type = FS_TYPE_DIR)
    (stat : (fsStat s path).2 = some x) : TypeKept s path type ↔ lowByte x.mode = type := by
  constructor
  · rintro ⟨⟨x', stat', kept⟩, -, -⟩
    obtain rfl : x' = x := Option.some.inj (stat'.symm.trans stat)
    rcases kind with rfl | rfl
    · have shown := (kept.lsSize path).mpr rfl
      by_contra other
      exact shown (if_neg other)
    · have marked := (kept.lsDir path).mpr rfl
      by_contra other
      rw [lsLine, if_neg other] at marked
      cases marked
  · intro low
    have kept := readAs_lowByte kind low
    refine ⟨⟨x, stat, kept⟩, fun file max => ?_, ?_⟩
    · have readdir := fsReaddir_dirTest ready stat max
      rw [if_pos] at readdir
      · exact readdir
      · by_contra dir
        have same := kept.dirTest.mp dir
        rw [file] at same
        exact absurd same (by decide)
    · rw [cmdCat_isDirectory ready named stat, low]
      rcases kind with rfl | rfl <;> decide

theorem createMode_spec (kind : type = FS_TYPE_FILE ∨ type = FS_TYPE_DIR) :
    (type ||| FS_PERM_DEFAULT) &&& FS_TYPE_DIR ≠ 0 ∧ lowByte (type ||| FS_PERM_DEFAULT) ≠ FS_TYPE_FILE ∧
      lowByte (type ||| FS_PERM_DEFAULT) ≠ FS_TYPE_DIR := by
  rcases kind with rfl | rfl <;> decide

theorem misread_of_mode (ready : Ready s) (named : NonRoot path) (kind : type = FS_TYPE_FILE ∨ type = FS_TYPE_DIR)
    (stat : (fsStat s path).2 = some x) (mode : x.mode = type ||| FS_PERM_DEFAULT) : Misread s path := by
  obtain ⟨test, file, dir⟩ := createMode_spec kind
  rw [← mode] at test file dir
  refine ⟨⟨x, stat, test, fun name => ?_⟩, fun max => ?_, ?_⟩
  · rw [lsLine, if_neg file, if_neg dir]
  · have readdir := fsReaddir_dirTest ready stat max
    rw [if_neg test] at readdir
    exact readdir
  · exact (cmdCat_isDirectory ready named stat).mpr file

end Consumers

theorem Registry.stat {x : Typed} (h : Registry x) {path : CStr} (named : NonRoot path) {type : Word}
    (live : x.types (pathName path).chars = some type) :
    Ready x.fs ∧ ∃ stat, (fsStat x.fs path).2 = some stat ∧ stat.mode = type ||| FS_PERM_DEFAULT := by
  obtain ⟨d, M, registered⟩ := h
  obtain ⟨⟨leaked, inv⟩, -⟩ := registered.watched
  obtain ⟨n, key, mode⟩ := registered.moded _ type live
  have found := inv.sound.stat_view path
  rw [registered.names.lookup inv.sound named, key] at found
  change (fsStat (Fs.recount d x.fs) path).2 = _ at found
  rw [fsStat_recount] at found
  exact ⟨((synced_recount d x.fs).mp registered.synced).ready, _, found, mode⟩

/-- The consumers of an entry find its type exactly when the low byte of the stored mode is
the type. `fs_create` stores the type with the default permissions, so in no state of a run
does any live file or directory have its type found. -/
theorem type_kept_iff (path : CStr) (type : Word) (named : NonRoot path)
    (kind : type = FS_TYPE_FILE ∨ type = FS_TYPE_DIR) :
    (∀ s stat, Ready s → (fsStat s path).2 = some stat → (TypeKept s path type ↔ lowByte stat.mode = type)) ∧
      ∀ s0 x ops, Ready s0 → Exec ShortTimely Typed.step (Typed.mounted s0) ops x →
        x.types (pathName path).chars = some type → Misread x.fs path ∧ ¬TypeKept x.fs path type := by
  refine ⟨fun s stat ready found => typeKept_iff ready named kind found, fun s0 x ops ready run live => ?_⟩
  have registry := run.invariant (fun _ _ h ok => h.step ok) (mounted_registry ready)
  obtain ⟨ready', stat, found, mode⟩ := registry.stat named live
  refine ⟨misread_of_mode ready' named kind found mode, ?_⟩
  rw [typeKept_iff ready' named kind found, mode]
  obtain ⟨-, file, dir⟩ := createMode_spec kind
  rcases kind with rfl | rfl
  · exact file
  · exact dir

def newFile : Typed := (Typed.mounted powerOn).step (.call (.fsCreate pathA FS_TYPE_FILE))

theorem newFile_types : newFile.types (pathName pathA).chars = some FS_TYPE_FILE := by
  have made : (fsCreate (mounted powerOn) pathA FS_TYPE_FILE).2 = 0 := by decide +kernel
  rw [newFile, Typed.step, Typed.mounted]
  dsimp only [typesAfter]
  rw [if_pos made, Function.update_self]

theorem type_kept_iff_newFile : Misread newFile.fs pathA :=
  ((type_kept_iff pathA FS_TYPE_FILE (by decide) (Or.inl rfl)).2 powerOn newFile
    [.call (.fsCreate pathA FS_TYPE_FILE)] ⟨rfl, rfl⟩ (.cons ⟨show ShortName pathA by decide, trivial⟩ (.nil _))
    newFile_types).1

/-- The new file `/a` can be listed as a directory. -/
theorem new_file_is_a_directory :
    ¬∀ s0 x ops path type, Ready s0 → Exec ShortNamed Typed.step (Typed.mounted s0) ops x → NonRoot path →
      type = FS_TYPE_FILE ∨ type = FS_TYPE_DIR → x.types (pathName path).chars = some type →
      TypeKept x.fs path type := by
  intro law
  have run : Exec ShortNamed Typed.step (Typed.mounted powerOn) [.call (.fsCreate pathA FS_TYPE_FILE)] newFile :=
    .cons (show ShortName pathA by decide) (.nil _)
  have kept := law powerOn newFile _ pathA FS_TYPE_FILE ⟨rfl, rfl⟩ run (by decide) (Or.inl rfl) newFile_types
  have listed : (fsReaddir newFile.fs pathA 64).2.1 = 0 := by decide +kernel
  exact absurd (listed.symm.trans (kept.readdir rfl 64)) (by decide)

end Wittche.Shell
