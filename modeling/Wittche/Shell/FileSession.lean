import Wittche.Fs.Listing
import Wittche.Shell.FileCommands

/-! Sessions of file commands. The file system holds the table of named files, and each command
answers as the table says; between two commands no descriptor is in use. -/

namespace Wittche.Shell
open Bytes CString Fs Execution

/-- Inode `n` is what the table has. -/
structure Stands (s : WitFs) (n : Nat) (node : Node) : Prop where
  mode : modeOf s n = node.kind.type ||| FS_PERM_DEFAULT
  bytes : content s n = node.bytes

/-- The name is not empty and does not begin with a slash. -/
def Proper (name : List Byte) : Prop := name ≠ [] ∧ name.head? ≠ some 0x2F

structure Holds (s : WitFs) (F : Files) : Prop where
  sound : Sound s fun _ => False
  synced : Synced s
  shut : NoneOpen s
  proper : ∀ name ∈ F.names, Proper name
  table : ∃ M, Represents s.view M ∧ ∀ name, Option.Rel (Stands s) (M name) (F name)

section Tables

variable {s t : WitFs} {F : Files} {M : List Byte → Option Nat} {n : Nat} {node : Node} {key : List Byte}

theorem Stands.keep (h : Stands s n node) (own : s.view.Owner n) (root : n ≠ 0) (sized : Sized s.view)
    (same : SameFile s.view t.view n) (mode : modeOf t n = modeOf s n) : Stands t n node :=
  ⟨mode.trans h.mode, (same.content (sized n own root)).trans h.bytes⟩

theorem rel_none_iff {a : Option Nat} {b : Option Node} (rel : Option.Rel (Stands s) a b) : a = none ↔ b = none := by
  cases rel with
  | some _ => simp
  | none => simp

theorem rel_update {a : Option Nat} {b : Option Node} (new : Option.Rel (Stands t) a b)
    (old : ∀ name, name ≠ key → Option.Rel (Stands t) (M name) (F name)) (name : List Byte) :
    Option.Rel (Stands t) (Function.update M key a name) (Function.update F key b name) := by
  by_cases here : name = key
  · rw [here, Function.update_self, Function.update_self]
    exact new
  · rw [Function.update_of_ne here, Function.update_of_ne here]
    exact old name here

theorem rel_keep (names : Represents s.view M) (rel : ∀ name, Option.Rel (Stands s) (M name) (F name)) (sized : Sized s.view)
    {name : List Byte} (same : ∀ n, M name = some n → s.view.Owner n → n ≠ 0 →
      SameFile s.view t.view n ∧ modeOf t n = modeOf s n) : Option.Rel (Stands t) (M name) (F name) := by
  have stood := rel name
  cases here : M name with
  | none =>
    rw [here] at stood
    rw [(rel_none_iff stood).mp rfl]
    exact .none
  | some n =>
    rw [here] at stood
    have own := names.owner here
    have root : n ≠ 0 := ((names name n).mp here).1
    obtain ⟨file, mode⟩ := same n here own root
    generalize F name = there at stood
    cases stood with
    | some stands => exact .some (stands.keep own root sized file mode)

theorem ncard_names (names : Represents s.view M) (rel : ∀ name, Option.Rel (Stands s) (M name) (F name))
    (c : Consistent s.view s.inodeBitmap.bytes s.dataBitmap.bytes (fun _ => False) fun _ => False) :
    F.names.ncard = s.view.live.card := by
  have image : F.names = s.view.entChars '' (s.view.live : Set Nat) := by
    ext name
    rw [Files.names, Set.mem_ofPred_eq, ne_eq, ← rel_none_iff (rel name), Set.mem_image]
    constructor
    · intro key
      obtain ⟨n, here⟩ := Option.ne_none_iff_exists'.mp key
      obtain ⟨nonzero, e, entry, chars⟩ := (names name n).mp here
      exact ⟨e, Finset.mem_coe.mpr (mem_live.mpr (entry ▸ nonzero)), chars⟩
    · rintro ⟨e, live, rfl⟩
      rw [names.live (mem_live.mp (Finset.mem_coe.mp live))]
      exact Option.some_ne_none _
  have injective : Set.InjOn s.view.entChars (s.view.live : Set Nat) := by
    intro a live b live' same
    have here := names.live (mem_live.mp (Finset.mem_coe.mp live))
    rw [same, names.live (mem_live.mp (Finset.mem_coe.mp live'))] at here
    exact (c.entInj a b (mem_live.mp (Finset.mem_coe.mp live)) (Option.some.inj here).symm)
  rw [image, injective.ncard_image, Set.ncard_coe_finset]

theorem Holds.full_iff (h : Holds s F) : F.Full ↔ s.view.live.card = 160 := by
  obtain ⟨M, names, rel⟩ := h.table
  rw [Files.Full, ncard_names names rel h.sound.books.cons]

theorem Holds.lookup (h : Holds s F) {path : CStr} (named : NonRoot path) :
    ∃ found, pathLookup s path = (s, found) ∧ Option.Rel (Stands s) found (F (nameIn path)) := by
  obtain ⟨M, names, rel⟩ := h.table
  exact ⟨_, names.lookup h.sound named, rel _⟩

theorem PlainName.proper {name : CStr} (plain : PlainName name) : Proper (nameIn name) := by
  obtain ⟨⟨named, -⟩, slash⟩ := plain
  rw [NonRoot, CStr.get] at named
  rw [CStr.get] at slash
  rw [Proper, nameIn]
  cases chars : (pathName name).chars with
  | nil =>
    rw [chars] at named
    exact absurd rfl named
  | cons c rest =>
    rw [chars] at slash
    exact ⟨List.cons_ne_nil _ _, fun same => slash (Option.some.inj same)⟩

theorem proper_update (proper : ∀ name ∈ F.names, Proper name) {b : Option Node} (new : b ≠ none → Proper key) :
    ∀ name ∈ Files.names (Function.update F key b), Proper name := by
  intro name there
  rw [Files.names, Set.mem_ofPred_eq, Function.update_apply] at there
  split at there
  next here => exact here ▸ new there
  next => exact proper name there

end Tables

section Making

variable {s : WitFs} {F : Files} {path : CStr} {kind : Kind}

theorem Holds.create (h : Holds s F) (plain : PlainName path) (absent : F (nameIn path) = none) (kind : Kind) :
    (F.Full ∧ (fsCreate s path kind.type).2 = -1 ∧ Holds (fsCreate s path kind.type).1 F) ∨
      ¬F.Full ∧ (fsCreate s path kind.type).2 = 0 ∧
        Holds (fsCreate s path kind.type).1 (Function.update F (nameIn path) (some ⟨kind, []⟩)) := by
  obtain ⟨M, names, rel⟩ := h.table
  have missing : M (nameIn path) = none := (rel_none_iff (rel _)).mpr absent
  have looked := names.lookup h.sound plain.1.1
  rcases h.synced.create h.sound path kind.type with
    ⟨t, eq, same, sound, synced, modes⟩ | ⟨t, e, n, eq, keeps, sound, synced, made, off, mode⟩
  · rw [eq]
    have unfound : (pathLookup s path).2 = none := by
      rw [looked]
      exact missing
    have failed : (fsCreate s path kind.type).2 ≠ 0 := by
      rw [eq]
      exact show (-1 : Int) ≠ 0 by decide
    have full := fsCreate_full h.sound unfound failed
    refine Or.inl ⟨h.full_iff.mpr (rootFull_iff.mp full), rfl, sound, synced, ?_, h.proper, M,
      names.unchanged (same.same 0 (owner_root _)), fun name => ?_⟩
    · rw [NoneOpen, same.openFiles]
      exact h.shut
    · exact rel_keep names rel h.sound.sized fun n _ own _ => ⟨same.same n own, modes n own⟩
  · rw [eq]
    obtain ⟨fresh, added⟩ := names.created made plain.1.2 missing
    have room : ¬F.Full := fun full => by
      rw [h.full_iff, ← rootFull_iff] at full
      exact full e made.index made.unused
    refine Or.inr ⟨room, rfl, sound, synced, ?_, proper_update h.proper fun _ => plain.proper, _, added, ?_⟩
    · rw [NoneOpen, keeps.openFiles]
      exact h.shut
    · refine rel_update (.some ⟨mode, ?_⟩) fun name _ => rel_keep names rel h.sound.sized fun m here own root => ?_
      · rw [content_eq, made.empty]
        rfl
      · exact ⟨made.same m own root, off m fun same => fresh name (same ▸ here)⟩

theorem Holds.exists (h : Holds s F) (named : NonRoot path) :
    fsExists s path = (s, if F (nameIn path) = none then 0 else 1) := by
  obtain ⟨found, looked, rel⟩ := h.lookup named
  rw [fsExists, looked]
  generalize F (nameIn path) = there at rel ⊢
  cases rel with
  | some _ => rfl
  | none => rfl

theorem Holds.make (h : Holds s F) (plain : path.length = 0 ∨ PlainName path) (kind : Kind) :
    ∃ G, Makes F kind path (makeCommand (fun s args => fsCreate s args kind.type) s path).2 G ∧
      Holds (makeCommand (fun s args => fsCreate s args kind.type) s path).1 G := by
  rw [makeCommand, h.sound.on, Bool.not_true, if_neg Bool.false_ne_true]
  by_cases empty : path.length = 0
  · rw [if_pos empty]
    exact ⟨F, .usage empty, h⟩
  · have name := plain.resolve_left empty
    rw [if_neg empty, h.exists name.1.1]
    dsimp only
    by_cases absent : F (nameIn path) = none
    · rw [if_pos absent, if_neg (by decide)]
      rcases h.create name absent kind with ⟨full, code, kept⟩ | ⟨room, code, added⟩
      · rw [code]
        exact ⟨F, .failed empty absent full, kept⟩
      · rw [code]
        exact ⟨_, .created empty absent room, added⟩
    · rw [if_neg absent, if_pos (by decide)]
      exact ⟨F, .alreadyExists empty absent, h⟩

end Making

section Removing

variable {s : WitFs} {F : Files} {path : CStr}

theorem setEntry_sameFile {V W : View} {ib db : Buffer} {hi hb : Nat → Prop} {e n : Nat} (set : SetEntry V W e 0)
    (c : Consistent V ib db hi hb) (own : V.Owner n) (root : n ≠ 0) : SameFile V W n := by
  refine ⟨set.inodes n root, fun k used => set.blocks _ fun same => root ?_⟩
  exact (c.excl n 0 k (e / 16) own (owner_root V) used same).1

theorem Holds.unlink (h : Holds s F) (plain : PlainName path) (there : F (nameIn path) ≠ none) :
    (fsUnlink s path).2 = 0 ∧ Holds (fsUnlink s path).1 (Function.update F (nameIn path) none) := by
  obtain ⟨M, names, rel⟩ := h.table
  have c := h.sound.books.cons
  obtain ⟨done, removed⟩ := names.unlink h.sound plain.1.1
  have steady := h.synced.unlink h.sound path
  have key : M (pathName path).chars ≠ none := mt (rel_none_iff (rel _)).mp there
  cases entry : s.view.find (pathName path) with
  | none =>
    have missing := names.find c (pathName path)
    rw [entry, Option.map_none] at missing
    exact absurd missing.symm key
  | some e =>
    obtain ⟨t, eq, keeps, sound, set, -⟩ := fsUnlink_some h.sound plain.1.1 entry
    rw [eq] at removed steady ⊢
    refine ⟨rfl, sound, steady.synced, ?_, proper_update h.proper fun some => absurd rfl some, _, removed, ?_⟩
    · rw [NoneOpen, keeps.openFiles]
      exact h.shut
    · refine rel_update .none fun name _ => rel_keep names rel h.sound.sized fun n _ own root => ?_
      exact ⟨setEntry_sameFile set c own root, steady.modes n⟩

theorem Holds.rm (h : Holds s F) (plain : path.length = 0 ∨ PlainName path) :
    ∃ G, Removes F path (cmdRm s path).2 G ∧ Holds (cmdRm s path).1 G := by
  rw [cmdRm, h.sound.on, Bool.not_true, if_neg Bool.false_ne_true]
  by_cases empty : path.length = 0
  · rw [if_pos empty]
    exact ⟨F, .usage empty, h⟩
  · have name := plain.resolve_left empty
    rw [if_neg empty, h.exists name.1.1]
    dsimp only
    by_cases absent : F (nameIn path) = none
    · rw [if_pos absent, if_pos rfl]
      exact ⟨F, .notFound empty absent, h⟩
    · obtain ⟨code, removed⟩ := h.unlink name absent
      rw [if_neg absent, if_neg (by decide), code]
      exact ⟨_, .deleted empty absent, removed⟩

end Removing

section Reading

variable {s : WitFs} {F : Files} {path : CStr}

theorem Holds.stat (h : Holds s F) (named : NonRoot path) (there : F (nameIn path) ≠ none) :
    ∃ stat, fsStat s path = (s, some stat) ∧ lowByte stat.mode ≠ FS_TYPE_FILE ∧ lowByte stat.mode ≠ FS_TYPE_DIR := by
  obtain ⟨found, looked, rel⟩ := h.lookup named
  have view := h.sound.stat_view path
  rw [looked] at view
  generalize F (nameIn path) = node at rel there
  cases rel with
  | none => exact absurd rfl there
  | @some n node stands =>
    have kind : node.kind.type = FS_TYPE_FILE ∨ node.kind.type = FS_TYPE_DIR := by
      cases node.kind
      · exact Or.inl rfl
      · exact Or.inr rfl
    obtain ⟨-, file, dir⟩ := createMode_spec kind
    have mode : (s.view.inode n).mode = node.kind.type ||| FS_PERM_DEFAULT := stands.mode
    refine ⟨s.view.inode n, Prod.ext (fsStat_state h.sound path) view, ?_, ?_⟩
    · rw [mode]
      exact file
    · rw [mode]
      exact dir

theorem Holds.cat (h : Holds s F) (plain : path.length = 0 ∨ PlainName path) :
    Shows F path (cmdCat s path).2 ∧ (cmdCat s path).1 = s := by
  rw [cmdCat, h.sound.on, Bool.not_true, if_neg Bool.false_ne_true]
  by_cases empty : path.length = 0
  · rw [if_pos empty]
    exact ⟨.usage empty, rfl⟩
  · have name := plain.resolve_left empty
    rw [if_neg empty, h.exists name.1.1]
    dsimp only
    by_cases absent : F (nameIn path) = none
    · rw [if_pos absent, if_pos rfl]
      exact ⟨.notFound empty absent, rfl⟩
    · obtain ⟨stat, eq, file, -⟩ := h.stat name.1.1 absent
      rw [if_neg absent, if_neg (by decide), eq]
      dsimp only
      rw [if_pos file]
      exact ⟨.isDirectory empty absent, rfl⟩

end Reading

section Listing

variable {s : WitFs} {F : Files}

theorem nameFrom_noNul (p : Buffer) (n k : Nat) : 0 ∉ nameFrom p n k := by
  induction n generalizing k with
  | zero => exact List.not_mem_nil
  | succ n ih =>
    rw [nameFrom]
    split
    next => exact List.not_mem_nil
    next some => exact List.not_mem_cons_of_ne_of_not_mem (Ne.symm some) (ih (k + 1))

theorem nameFrom_length_le (p : Buffer) (n k : Nat) : (nameFrom p n k).length ≤ n := by
  induction n generalizing k with
  | zero => exact Nat.le_refl 0
  | succ n ih =>
    rw [nameFrom]
    split
    next => exact Nat.zero_le _
    next => exact Nat.succ_le_succ (ih (k + 1))

theorem direntStr_chars {V : View} {e : Nat} (stop : V.entName e FS_MAX_FILENAME = 0) :
    (direntStr (V.dirent e)).chars = V.entChars e := by
  have reads : Reads (V.entName e) 0 (V.entChars e) := by
    intro i le
    rw [Nat.zero_add]
    exact (nameOf_eq_iff stop ⟨V.entChars e, nameFrom_noNul _ _ _⟩).mp rfl i le
  have bytes : List.ofFn (V.dirent e).name = (List.range 28).map fun j => V.entName e (0 + j) := by
    refine List.ext_getElem (by simp) fun i _ _ => ?_
    rw [List.getElem_ofFn, List.getElem_map, List.getElem_range, Nat.zero_add]
    rfl
  change (List.ofFn (V.dirent e).name).takeWhile (· ≠ 0) = _
  rw [bytes]
  exact reads.takeWhile_eq (nameFrom_noNul _ _ _) (Nat.lt_succ_of_le (nameFrom_length_le _ _ _))

theorem pathName_proper {path : CStr} (proper : Proper path.chars) : pathName path = path ∧ NonRoot path := by
  obtain ⟨chars, noNul⟩ := path
  obtain ⟨nonempty, slash⟩ := proper
  cases chars with
  | nil => exact absurd rfl nonempty
  | cons c rest =>
    have same : pathName ⟨c :: rest, noNul⟩ = ⟨c :: rest, noNul⟩ := if_neg fun first => slash (congrArg some first)
    refine ⟨same, ?_⟩
    rw [NonRoot, same]
    exact fun zero => noNul (List.mem_cons.mpr (Or.inl zero.symm))

theorem Holds.withHeap (h : Holds s F) {heap : FsHeap} (pending : heap.pending = []) : Holds { s with heap := heap } F := by
  obtain ⟨M, names, rel⟩ := h.table
  refine ⟨⟨⟨h.sound.ready.disk, pending⟩, h.sound.on, h.sound.books.withHeap heap, h.sound.sized⟩,
    (h.synced.memory (t := { s with heap := heap }) rfl rfl rfl rfl pending).synced, h.shut, h.proper, M, names,
    fun name => ?_⟩
  exact rel_keep names rel h.sound.sized fun n _ _ _ => ⟨SameFile.refl _ n, rfl⟩

theorem Holds.lsLines (h : Holds s F) {found : List Dirent} (live : ∀ d ∈ found, (direntStr d).chars ∈ F.names) :
    Shell.lsLines s found = (s, found.map fun d => ⟨.file, direntStr d, none⟩) := by
  induction found with
  | nil => rfl
  | cons d rest ih =>
    have there := live d List.mem_cons_self
    obtain ⟨same, named⟩ := pathName_proper (h.proper _ there)
    have key : F (nameIn (direntStr d)) ≠ none := by
      rw [nameIn, same]
      exact there
    obtain ⟨stat, eq, file, dir⟩ := h.stat named key
    rw [Shell.lsLines, eq]
    dsimp only
    rw [ih fun d mem => live d (List.mem_cons_of_mem _ mem), lsLine, if_neg file, if_neg dir]
    rfl

theorem Holds.dirents (h : Holds s F) : ((s.view.dirents 160 0).map fun d => (direntStr d).chars).Nodup ∧
    ∀ name, name ∈ (s.view.dirents 160 0).map (fun d => (direntStr d).chars) ↔ name ∈ F.names := by
  obtain ⟨M, names, rel⟩ := h.table
  have c := h.sound.books.cons
  have chars : (s.view.dirents 160 0).map (fun d => (direntStr d).chars) =
      ((List.range' 0 160).filter fun e => decide (s.view.ent e ≠ 0)).map s.view.entChars := by
    rw [View.dirents, List.map_map]
    refine List.map_congr_left fun e mem => direntStr_chars (c.named e ?_)
    simpa using (List.mem_filter.mp mem).2
  rw [chars]
  constructor
  · refine List.Nodup.map_on ?_ (List.Nodup.filter _ List.nodup_range')
    intro a mem b mem' same
    have live : s.view.ent a ≠ 0 := by simpa using (List.mem_filter.mp mem).2
    have live' : s.view.ent b ≠ 0 := by simpa using (List.mem_filter.mp mem').2
    have here := names.live live
    rw [same, names.live live'] at here
    exact c.entInj a b live (Option.some.inj here).symm
  · intro name
    rw [Files.names, Set.mem_ofPred_eq, ne_eq, ← rel_none_iff (rel name), List.mem_map]
    constructor
    · rintro ⟨e, mem, rfl⟩
      have live : s.view.ent e ≠ 0 := by simpa using (List.mem_filter.mp mem).2
      rw [names.live live]
      exact Option.some_ne_none _
    · intro key
      obtain ⟨n, here⟩ := Option.ne_none_iff_exists'.mp key
      obtain ⟨nonzero, e, entry, same⟩ := (names name n).mp here
      have live : s.view.ent e ≠ 0 := entry ▸ nonzero
      have lt := ent_lt live
      exact ⟨e, List.mem_filter.mpr ⟨List.mem_range'_1.mpr ⟨Nat.zero_le e, by omega⟩, decide_eq_true live⟩, same⟩

/-- What `cmd_ls` does with the entries it gets. -/
theorem Holds.cmdLs_eq (h : Holds s F) {found : List Dirent} (front : found = (s.view.dirents 160 0).take 64) :
    cmdLs s = (s, if found = [] then .empty else .files (found.map fun d => ⟨.file, direntStr d, none⟩) found.length) := by
  obtain ⟨heap, p, grant, pending, -, back⟩ := kmalloc_of_ready h.sound.ready
  have lent := h.withHeap pending
  have restored := back { s with heap := heap } rfl
  have read : fsReaddir { s with heap := heap } rootPath 64 = ({ s with heap := heap }, (found.length : Int), found) := by
    rw [front]
    exact fsReaddir_take lent.sound (show ¬NonRoot rootPath by decide) 64
  have listed : ∀ d ∈ found, (direntStr d).chars ∈ F.names := by
    intro d mem
    rw [front] at mem
    exact (h.dirents.2 _).mp (List.mem_map_of_mem (List.mem_of_mem_take mem))
  have lines := lent.lsLines listed
  rw [cmdLs, h.sound.on, Bool.not_true, if_neg Bool.false_ne_true, grant]
  dsimp only
  rw [read]
  dsimp only
  rw [if_neg (by omega)]
  by_cases none : found = []
  · rw [if_pos none, none, List.length_nil, if_pos Int.natCast_zero, restored]
  · have some : found.length ≠ 0 := mt List.length_eq_zero_iff.mp none
    rw [if_neg none, if_neg (by omega), lines]
    dsimp only
    rw [restored]

theorem Holds.ls (h : Holds s F) : Lists F (cmdLs s).2 ∧ (cmdLs s).1 = s := by
  obtain ⟨nodup, all⟩ := h.dirents
  rw [h.cmdLs_eq rfl]
  refine ⟨?_, rfl⟩
  by_cases none : s.view.dirents 160 0 = []
  · rw [none, List.take_nil, if_pos rfl]
    refine .empty (Set.eq_empty_iff_forall_notMem.mpr fun name there => ?_)
    rw [← all, none] at there
    exact List.not_mem_nil there
  · have some : (s.view.dirents 160 0).take 64 ≠ [] := fun nil => none ((List.take_eq_nil_iff.mp nil).resolve_left (by decide))
    have files := Lists.files ((s.view.dirents 160 0).map fun d => (direntStr d).chars)
      (((s.view.dirents 160 0).take 64).map fun d => ⟨.file, direntStr d, .none⟩) nodup all (mt List.map_eq_nil_iff.mp none)
      (by rw [List.map_map, ← List.map_take]; rfl) fun line mem => by
        obtain ⟨d, -, rfl⟩ := List.mem_map.mp mem
        exact ⟨rfl, rfl⟩
    rw [List.length_map] at files
    dsimp only
    rw [if_neg some]
    exact files

end Listing

section Writing

variable {s : WitFs} {F : Files} {M : List Byte → Option Nat} {name text : CStr} {node : Node} {n : Nat}

theorem represents_inj {V : View} {ib db : Buffer} {hi hb : Nat → Prop} (names : Represents V M)
    (c : Consistent V ib db hi hb) {a b : List Byte} (here : M a = some n) (there : M b = some n) : a = b := by
  obtain ⟨nonzero, e, entry, rfl⟩ := (names a n).mp here
  obtain ⟨-, e', entry', rfl⟩ := (names b n).mp there
  rw [c.entInj e e' (entry ▸ nonzero) (entry.trans entry'.symm)]

theorem Holds.writeContents_eq (h : Holds s F) (looked : pathLookup s name = (s, some n)) (root : n ≠ 0)
    (short : text.length ≤ FS_MAX_FILE_SIZE) (fileExists : Int) : ∃ t, writeContents s name text fileExists =
      (t, if fileExists ≠ 0 then .updated name text.length else .created name text.length) ∧ Steady s t := by
  have own := (h.sound.lookup_owner looked).1
  have c := h.sound.books.cons
  have taken : Sound (firstTaken s n) fun _ => False := h.sound.withFiles _
  have usable : Usable (firstTaken s n) 0 FS_OPEN_WRITE := ⟨rfl, show FS_OPEN_WRITE &&& FS_OPEN_WRITE ≠ 0 by decide⟩
  have count := Sound.write_count taken usable own root (fun k low => absurd low (Nat.not_lt_zero _))
    text.get text.length
  have opened : Steady s (firstTaken s n) := h.synced.memory rfl rfl rfl rfl h.sound.ready.heap
  have slot : Usable (firstTaken s n) 0 FS_OPEN_WRITE → n < TABLE_INODES ∧ ∀ k, s.view.blk n k < FS_MAX_DATA_BLOCKS :=
    fun _ => ⟨c.owner_lt own, fun k => c.blkLt n k own⟩
  have written := opened.synced.write slot text.get text.length
  have closed := written.synced.close 0
  refine ⟨_, ?_, (opened.trans written).trans closed⟩
  have all : (fsWrite (firstTaken s n) 0 text.get text.length).2 = (text.length : Int) := by
    rw [count]
    congr 1
    exact Nat.min_eq_left short
  rw [writeContents, h.shut.open h.sound looked]
  dsimp only
  rw [if_neg (by decide), all, if_neg (by omega)]

theorem Holds.writeContents (h : Holds s F) (plain : PlainName name) (there : F (nameIn name) = some node)
    (short : text.length ≤ FS_MAX_FILE_SIZE) (fileExists : Int) : ∃ t, Shell.writeContents s name text fileExists =
      (t, if fileExists ≠ 0 then .updated name text.length else .created name text.length) ∧
      Holds t (Function.update F (nameIn name) (some ⟨node.kind, text.chars ++ node.bytes.drop text.length⟩)) := by
  obtain ⟨M, names, rel⟩ := h.table
  have looked := names.lookup h.sound plain.1.1
  have stood := rel (nameIn name)
  rw [there] at stood
  obtain ⟨n, key, stands⟩ : ∃ n, M (nameIn name) = some n ∧ Stands s n node := by
    generalize M (nameIn name) = found at stood
    cases stood with
    | some stands => exact ⟨_, rfl, stands⟩
  have root := ((names _ _).mp key).1
  have found : pathLookup s name = (s, some n) := looked.trans (congrArg (Prod.mk s) key)
  obtain ⟨u, len, eq, sound, written⟩ :=
    writeContents_spec h.sound h.shut found (names.owner key) root text fileExists
  obtain ⟨t, eq', steady⟩ := h.writeContents_eq found root short fileExists
  obtain ⟨rfl, same⟩ := Prod.mk.inj (eq.symm.trans eq')
  have all : len = text.length := by
    split at same
    next => exact Int.ofNat.inj (WriteOutput.updated.inj same).2
    next => exact Int.ofNat.inj (WriteOutput.created.inj same).2
  subst all
  refine ⟨u, eq', sound, steady.synced, written.closed, proper_update h.proper fun _ => plain.proper, M,
    names.unchanged (written.others 0 (owner_root _) root.symm), ?_⟩
  have moved : Option.Rel (Stands u) (some n) (some ⟨node.kind, text.chars ++ node.bytes.drop text.length⟩) := by
    refine .some ⟨(steady.modes n).trans stands.mode, ?_⟩
    rw [written.content, stands.bytes, CStr.length, List.take_length]
  have others : ∀ other, other ≠ nameIn name → Option.Rel (Stands u) (M other) (F other) := fun other ne =>
    rel_keep names rel h.sound.sized fun m here own _ =>
      ⟨written.others m own fun same => ne (represents_inj names h.sound.books.cons (same ▸ here) key), steady.modes m⟩
  have updated := rel_update moved others
  rw [← key, Function.update_eq_self] at updated
  exact updated

theorem Holds.writeFile (h : Holds s F) (plain : PlainName name) (short : text.length ≤ FS_MAX_FILE_SIZE) :
    ∃ G, Writes F name text (Shell.writeFile s name text).2 G ∧ Holds (Shell.writeFile s name text).1 G := by
  rw [Shell.writeFile, h.exists plain.1.1]
  dsimp only
  cases there : F (nameIn name) with
  | some node =>
    obtain ⟨t, eq, held⟩ := h.writeContents plain there short 1
    rw [if_neg (Option.some_ne_none node), if_pos (by decide), eq]
    exact ⟨_, .updated node there, held⟩
  | none =>
    rw [if_pos rfl, if_neg (by decide)]
    rcases h.create plain there .file with ⟨full, code, kept⟩ | ⟨room, code, added⟩
    · have failed : (fsCreate s name FS_TYPE_FILE).2 < 0 := by
        rw [show (fsCreate s name FS_TYPE_FILE).2 = -1 from code]
        decide
      rw [if_pos failed]
      exact ⟨F, .failed there full, kept⟩
    · have made : ¬(fsCreate s name FS_TYPE_FILE).2 < 0 := by
        rw [show (fsCreate s name FS_TYPE_FILE).2 = 0 from code]
        decide
      obtain ⟨t, eq, held⟩ := added.writeContents plain (Function.update_self ..) short 0
      rw [Function.update_idem, List.drop_nil, List.append_nil] at held
      rw [if_neg made]
      rw [show Shell.writeContents (fsCreate s name FS_TYPE_FILE).1 name text 0 = (t, .created name text.length) from eq]
      exact ⟨_, .created there room, held⟩

theorem strchr_split (args : CStr) : (strchr args.chars 0x20 = none ∧ 0x20 ∉ args.chars) ∨
    ∃ space, strchr args.chars 0x20 = some space ∧ 0x20 ∉ (args.take space).chars ∧
      args = writeArgs (args.take space) (args.drop (space + 1)) := by
  by_cases inside : 0x20 ∈ args.chars
  · obtain ⟨u, v, split, none⟩ := List.eq_append_cons_of_mem inside
    have here : strchr args.chars 0x20 = some u.length := split ▸ strchr_append none v
    have front : (args.take u.length).chars = u := by
      change args.chars.take u.length = u
      rw [split, List.take_left]
    have behind : (args.drop (u.length + 1)).chars = v := by
      change args.chars.drop (u.length + 1) = v
      rw [split, ← List.drop_drop, List.drop_left, List.drop_one, List.tail_cons]
    refine Or.inr ⟨u.length, here, front.symm ▸ none, ?_⟩
    ext1
    change args.chars = (args.take u.length).chars ++ 0x20 :: (args.drop (u.length + 1)).chars
    rw [front, behind, split]
  · refine Or.inl ⟨?_, inside⟩
    rw [strchr, List.findIdx?_eq_none_iff]
    exact fun c mem => decide_eq_false fun same => inside (same ▸ mem)

theorem Holds.write (h : Holds s F) {args : CStr} (plain : (FileCommand.write args).Plain) :
    ∃ G, WritesArgs F args (cmdWrite s (some args)).2 G ∧ Holds (cmdWrite s (some args)).1 G := by
  rw [cmdWrite, h.sound.on, Bool.not_true, if_neg Bool.false_ne_true]
  dsimp only
  by_cases empty : args.length = 0
  · rw [if_pos empty]
    exact ⟨F, .usage empty, h⟩
  · rw [if_neg empty]
    rcases strchr_split (args.take 255) with ⟨cut, none⟩ | ⟨space, cut, none, split⟩
    · rw [cut]
      exact ⟨F, .missingText empty none, h⟩
    · rw [cut]
      have short : ((args.take 255).drop (space + 1)).length ≤ FS_MAX_FILE_SIZE := by
        have most : (args.take 255).length ≤ 255 := List.length_take_le ..
        have less : ((args.take 255).drop (space + 1)).length ≤ (args.take 255).length :=
          (List.drop_sublist ..).length_le
        exact less.trans (most.trans (by decide))
      obtain ⟨G, done, held⟩ := h.writeFile (plain _ _ none split) short
      exact ⟨G, .writes _ _ none split done, held⟩

end Writing

section Session

variable {s : WitFs} {F : Files}

theorem mounted_holds (ready : Ready s) : Holds (mounted s) fun _ => none := by
  have blank := mount_blank ready
  exact ⟨blank.sound, (mounted_intact ready).synced, blank.shut, fun name there => absurd rfl there, fun _ => none,
    mounted_represents ready, fun _ => .none⟩

theorem Holds.withTicks (h : Holds s F) (ticks : Word) : Holds { s with ticks := ticks } F := by
  obtain ⟨M, names, rel⟩ := h.table
  have books := h.sound.books
  refine ⟨⟨⟨h.sound.ready.disk, h.sound.ready.heap⟩, h.sound.on, ⟨books.cons, books.freeInodes, books.freeBlocks⟩,
      h.sound.sized⟩,
    (h.synced.memory (t := { s with ticks := ticks }) rfl rfl rfl rfl h.sound.ready.heap).synced, h.shut, h.proper, M,
    names, fun name => ?_⟩
  exact rel_keep names rel h.sound.sized fun n _ _ _ => ⟨SameFile.refl _ n, rfl⟩

theorem Holds.command (h : Holds s F) {command : FileCommand} (plain : command.Plain) :
    ∃ G, Answers F command (runCommand s command).2 G ∧ Holds (runCommand s command).1 G := by
  cases command with
  | fsformat => exact ⟨_, rfl, mounted_holds h.sound.ready⟩
  | ls =>
    obtain ⟨lists, same⟩ := h.ls
    exact ⟨F, ⟨lists, rfl⟩, same.symm ▸ h⟩
  | touch args => exact h.make plain .file
  | cat args =>
    obtain ⟨shows, same⟩ := h.cat plain
    exact ⟨F, ⟨shows, rfl⟩, same.symm ▸ h⟩
  | rm args => exact h.rm plain
  | mkdir args => exact h.make plain .dir
  | write args => exact h.write plain

def sessionStep (s : WitFs) (input : Word × FileCommand) : WitFs := (runCommand { s with ticks := input.1 } input.2).1

def outputOf (s : WitFs) (input : Word × FileCommand) : FileOutput :=
  (runCommand { s with ticks := input.1 } input.2).2

/-- What a session of file commands prints is what the table of named files says, command after
command, and the file system holds that table in the end. -/
theorem session_refines_files (s0 : WitFs) (inputs : List (Word × FileCommand)) (ready : Ready s0)
    (plain : ∀ input ∈ inputs, input.2.Plain) : ∃ F,
      Explained (fun F input => Answers F input.2) (fun _ => none) inputs (seen outputOf sessionStep (mounted s0) inputs) F ∧
      Holds (inputs.foldl sessionStep (mounted s0)) F := by
  have run : Exec (fun _ input => input.2.Plain) sessionStep (mounted s0) inputs (inputs.foldl sessionStep (mounted s0)) :=
    exec_foldl (fun input inside _ => plain input inside) _
  exact run.explained (fun s F input held allowed => (held.withTicks input.1).command allowed) (mounted_holds ready)

theorem plain_write {name : CStr} (text : CStr) (noSpace : 0x20 ∉ name.chars) (plain : PlainName name)
    (short : (writeArgs name text).length ≤ 255) : (FileCommand.write (writeArgs name text)).Plain := by
  intro name' text' none split
  have chars : name.chars ++ 0x20 :: text.chars = name'.chars ++ 0x20 :: text'.chars := by
    have whole : ((writeArgs name text).take 255).chars = name.chars ++ 0x20 :: text.chars := List.take_of_length_le short
    rw [← whole, split]
    rfl
  have cut := strchr_append noSpace text.chars
  rw [chars, strchr_append none] at cut
  have same : name = name' := by
    ext1
    exact (List.append_inj chars (Option.some.inj cut).symm).1
  exact same ▸ plain

/-- A file is made, written, shown and listed, and removed. -/
theorem session_refines_files_small :
    let inputs : List (Word × FileCommand) := [(1, .touch nameA), (2, .write (writeArgs nameA hello)), (3, .cat nameA),
      (4, .ls), (5, .rm nameA)]
    ∃ F, Explained (fun F input => Answers F input.2) (fun _ => none) inputs
        (seen outputOf sessionStep (mounted powerOn) inputs) F ∧ Holds (inputs.foldl sessionStep (mounted powerOn)) F := by
  refine session_refines_files powerOn _ ⟨rfl, rfl⟩ fun input inside => ?_
  simp only [List.mem_cons, List.not_mem_nil, or_false] at inside
  rcases inside with rfl | rfl | rfl | rfl | rfl
  · exact Or.inr (show PlainName nameA by decide)
  · exact plain_write hello (by decide) (by decide) (by decide)
  · exact Or.inr (show PlainName nameA by decide)
  · exact trivial
  · exact Or.inr (show PlainName nameA by decide)

end Session

end Wittche.Shell
