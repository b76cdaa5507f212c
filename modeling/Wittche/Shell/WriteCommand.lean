import Wittche.Fs.Contents
import Wittche.Fs.CreatedNames

/-! The command `write` of `kernel/shell.c`. A file that is there is opened with
`FS_OPEN_WRITE` and written from its start on; nothing cuts it off behind the text. Colours,
headings and debug lines are left out. -/

namespace Wittche.Shell
open Bytes CString Fs Execution

inductive WriteOutput
  | notInitialized
  | usage
  | missingText
  | createFailed (filename : CStr)
  | openFailed (fd : Int)
  | writeFailed
  | updated (filename : CStr) (bytes : Int)
  | created (filename : CStr) (bytes : Int)
deriving DecidableEq

/-- `cmd_write` from the opening of the file on. -/
def writeContents (s : WitFs) (filename text : CStr) (fileExists : Int) : WitFs × WriteOutput :=
  match fsOpen s filename FS_OPEN_WRITE with
  | (s, fd) =>
    if fd < 0 then (s, .openFailed fd)
    else
      match fsWrite s fd text.get text.length with
      | (s, bytesWritten) =>
        let s := (fsClose s fd).1
        (s, if bytesWritten < 0 then .writeFailed
          else if fileExists ≠ 0 then .updated filename bytesWritten
          else .created filename bytesWritten)

/-- `cmd_write` once its arguments are split. -/
def writeFile (s : WitFs) (filename text : CStr) : WitFs × WriteOutput :=
  match fsExists s filename with
  | (s, fileExists) =>
    if fileExists ≠ 0 then writeContents s filename text fileExists
    else
      match fsCreate s filename FS_TYPE_FILE with
      | (s, made) =>
        if made < 0 then (s, .createFailed filename)
        else writeContents s filename text fileExists

def cmdWrite (s : WitFs) (args : Option CStr) : WitFs × WriteOutput :=
  if !s.initialized then (s, .notInitialized)
  else
    match args with
    | none => (s, .usage)
    | some args =>
      if args.length = 0 then (s, .usage)
      else
        let argsCopy := args.take 255
        match strchr argsCopy.chars 0x20 with
        | none => (s, .missingText)
        | some space => writeFile s (argsCopy.take space) (argsCopy.drop (space + 1))

/-- The argument string `NAME TEXT`. -/
def writeArgs (name text : CStr) : CStr where
  chars := name.chars ++ 0x20 :: text.chars
  noNul h := by
    rcases List.mem_append.mp h with inside | behind
    · exact name.noNul inside
    · rcases List.mem_cons.mp behind with zero | inside
      · exact absurd zero (by decide)
      · exact text.noNul inside

def Reported (name text : CStr) (output : WriteOutput) : Prop :=
  output = .updated name text.length ∨ output = .created name text.length

instance (name text : CStr) (output : WriteOutput) : Decidable (Reported name text output) :=
  inferInstanceAs (Decidable (_ ∨ _))

def NoneOpen (s : WitFs) : Prop := ∀ fd < FS_MAX_OPEN_FILES, (s.openFiles fd).inUse = false

def sizeBefore (s : WitFs) (name : CStr) : Nat :=
  match (pathLookup s name).2 with
  | none => 0
  | some n => (s.view.inode n).size.toNat

/-- Behind the command the name leads to inode `n` with the text for its content; the other
files and entries are those of before, and no descriptor is in use. -/
structure Replaced (s t : WitFs) (name text : CStr) (n : Nat) : Prop where
  found : (pathLookup t name).2 = some n
  content : content t n = text.chars
  size : (t.view.inode n).size.toNat = text.length
  others : ∀ m, s.view.Owner m → m ≠ 0 → m ≠ n →
    SameFile s.view t.view m ∧ Fs.content t m = Fs.content s m
  entries : t.view.entries = insert ((pathName name).chars, n) s.view.entries
  closed : NoneOpen t

section Descriptor

variable {s t : WitFs} {leaked : Nat → Prop}

/-- Descriptor 0 opened for writing, at the start of inode `n`. -/
def firstTaken (s : WitFs) (n : Nat) : WitFs :=
  { s with openFiles := Function.update s.openFiles 0 ⟨n, 0, FS_OPEN_WRITE, true⟩ }

theorem NoneOpen.open (shut : NoneOpen s) (h : Sound s leaked) {name : CStr} {n : Nat}
    (looked : pathLookup s name = (s, some n)) : fsOpen s name FS_OPEN_WRITE = (firstTaken s n, 0) := by
  have first : Scan.firstFrom (fun i => !(s.openFiles i).inUse) FS_MAX_OPEN_FILES 0 = some 0 := by
    rw [show FS_MAX_OPEN_FILES = 15 + 1 from rfl, Scan.firstFrom, shut 0 (by decide)]
    rfl
  rcases fsOpen_cases h name FS_OPEN_WRITE with ⟨m, found, eq⟩ | ⟨missing, -⟩
  · rw [looked, Prod.mk.injEq, Option.some.injEq] at found
    rw [eq, takeDescriptor, first, ← found.2]
    rfl
  · rw [looked, Prod.mk.injEq] at missing
    exact absurd missing.2 (Option.some_ne_none n)

theorem NoneOpen.close (shut : NoneOpen s) {n p : Nat} (files : t.openFiles = movedTo (firstTaken s n) 0 p) :
    ∃ table, (fsClose t 0).1 = { t with openFiles := table } ∧ NoneOpen (fsClose t 0).1 := by
  have used : t.openFiles 0 = ⟨n, p, FS_OPEN_WRITE, true⟩ := by
    rw [files, movedTo_self]
    rfl
  have valid : validFd t 0 = true := by
    rw [validFd, Int.toNat_zero, used]
    rfl
  rw [fsClose, valid, Bool.not_true, if_neg Bool.false_ne_true]
  refine ⟨_, rfl, fun fd lt => ?_⟩
  by_cases here : fd = 0
  · subst here
    rfl
  · change (Function.update t.openFiles 0 _ fd).inUse = false
    rw [Function.update_of_ne here, files, movedTo_other _ here]
    change (Function.update s.openFiles 0 _ fd).inUse = false
    rw [Function.update_of_ne here]
    exact shut fd lt

theorem find_congr {V W : View} (same : SameFile V W 0) (name : CStr) : W.find name = V.find name := by
  refine Scan.firstFrom_congr fun e _ _ => decide_eq_decide.mpr ?_
  obtain ⟨ent, names⟩ := same.ents e
  rw [View.Match, View.Match, ent]
  refine and_congr_right fun live => ?_
  rw [names live]

/-- The state behind `fs_open`, `fs_write` and `fs_close` of inode `n`, with `len` bytes of the
text written. -/
structure Overwritten (s t : WitFs) (text : CStr) (n len : Nat) : Prop where
  content : content t n = text.chars.take len ++ (Fs.content s n).drop len
  others : ∀ m, s.view.Owner m → m ≠ n → SameFile s.view t.view m
  closed : NoneOpen t

theorem map_get (text : CStr) {len : Nat} (le : len ≤ text.length) :
    (List.range len).map text.get = text.chars.take len := by
  refine List.ext_getElem ?_ fun i hi _ => ?_
  · rw [List.length_map, List.length_range, List.length_take]
    exact (Nat.min_eq_left le).symm
  · rw [List.getElem_map, List.getElem_range, List.getElem_take]
    exact (List.getElem_eq_getD 0).symm

/-- `cmd_write` from the opening of the file on: what is written from the start of the file
stands in front of the rest of it. -/
theorem writeContents_spec (h : Sound s leaked) (shut : NoneOpen s) {name : CStr} {n : Nat}
    (looked : pathLookup s name = (s, some n)) (own : s.view.Owner n) (root : n ≠ 0) (text : CStr)
    (fileExists : Int) : ∃ t len, writeContents s name text fileExists = (t,
        if fileExists ≠ 0 then .updated name ((len : Nat) : Int) else .created name ((len : Nat) : Int)) ∧
      Sound t leaked ∧ Overwritten s t text n len := by
  have start : Sound (firstTaken s n) leaked := h.withFiles _
  have usable : Usable (firstTaken s n) 0 FS_OPEN_WRITE :=
    ⟨rfl, show FS_OPEN_WRITE &&& FS_OPEN_WRITE ≠ 0 by decide⟩
  have front : Covers (firstTaken s n).view n 0 := fun k low => absurd low (Nat.not_lt_zero _)
  obtain ⟨t, len, eq, le, sound, wrote, -⟩ :=
    fsWrite_spec start usable rfl rfl own root front text.get text.length
  have wrote : Wrote (firstTaken s n) t 0 n 0 len text.get := wrote
  obtain ⟨table, state, closed⟩ := shut.close wrote.files
  refine ⟨(fsClose t 0).1, len, ?_, ?_, ?_, fun m ownm other => ?_, closed⟩
  · rw [writeContents, shut.open h looked]
    dsimp only
    rw [if_neg (by decide), eq]
    dsimp only
    rw [if_neg (by omega)]
  · rw [state]
    exact sound.withFiles _
  · have behind := wrote.content (Nat.zero_le _) (start.sized n own root)
    rw [List.take_zero, List.nil_append, Nat.zero_add, map_get text le] at behind
    rw [state]
    exact behind
  · rw [state]
    exact wrote.others m ownm other

end Descriptor

section Replacement

variable {s t u : WitFs} {leaked : Nat → Prop} {name text : CStr} {n : Nat}

theorem lookup_mem_entries (h : Sound s leaked) (named : NonRoot name)
    (looked : pathLookup s name = (s, some n)) : ((pathName name).chars, n) ∈ s.view.entries := by
  have c := h.books.cons
  rw [pathLookup_eq h.ready c named, Prod.mk.injEq] at looked
  obtain ⟨e, found, rfl⟩ := Option.map_eq_some_iff.mp looked.2
  obtain ⟨live, chars⟩ := (match_iff c (pathName name) e).mp (of_decide_eq_true (Scan.firstFrom_some found).2.2.1)
  rw [← chars]
  exact mem_entries live

theorem Overwritten.replaced_iff (written : Overwritten u t text n text.length) (h : Sound s leaked)
    (sound : Sound u leaked) (sound' : Sound t leaked) (named : NonRoot name)
    (looked : pathLookup u name = (u, some n)) (others : ∀ m, s.view.Owner m → m ≠ 0 → SameFile s.view u.view m)
    (entries : u.view.entries = insert ((pathName name).chars, n) s.view.entries) :
    (∃ m, Replaced s t name text m) ↔ (u.view.inode n).size.toNat ≤ text.length := by
  have root := (sound.lookup_owner looked).2 named
  have same := written.others 0 (owner_root _) (Ne.symm root)
  have found : (pathLookup t name).2 = some n := by
    rw [pathLookup_eq sound.ready sound.books.cons named, Prod.mk.injEq] at looked
    rw [pathLookup_eq sound'.ready sound'.books.cons named, find_congr same, ← looked.2]
    exact congrArg (Option.map · _) (funext fun e => (same.ents e).1)
  have total := congrArg List.length written.content
  rw [content_length, List.length_append, List.length_drop, List.length_take, content_length] at total
  constructor
  · rintro ⟨m, replaced⟩
    obtain rfl : n = m := Option.some.inj (found.symm.trans replaced.found)
    have size := replaced.size
    rw [CStr.length] at *
    omega
  · intro short
    refine ⟨n, found, ?_, ?_, fun m own nonroot other => ?_, ?_, written.closed⟩
    · rw [written.content, List.drop_eq_nil_of_le (by rw [content_length]; exact short), List.append_nil]
      exact List.take_length
    · rw [CStr.length] at *
      omega
    · have mine : u.view.Owner m := by
        rcases own with zero | ⟨e, rfl⟩
        · exact absurd zero nonroot
        · have kept : (s.view.entChars e, s.view.ent e) ∈ u.view.entries := by
            rw [entries]
            exact Set.mem_insert_of_mem _ (mem_entries nonroot)
          obtain ⟨-, a, ent, -⟩ := kept
          exact Or.inr ⟨a, ent⟩
      have file := (others m own nonroot).trans (written.others m mine other)
      exact ⟨file, file.content (h.sized m own nonroot)⟩
    · rw [same.entries, entries]

theorem writeFile_found (h : Sound s leaked) (shut : NoneOpen s) (named : NonRoot name)
    (looked : pathLookup s name = (s, some n)) (full : Reported name text (writeFile s name text).2) :
    (∃ m, Replaced s (writeFile s name text).1 name text m) ↔ sizeBefore s name ≤ text.length := by
  have there : fsExists s name = (s, 1) := by rw [fsExists, looked]
  obtain ⟨own, nonroot⟩ := h.lookup_owner looked
  obtain ⟨t, len, eq, sound, written⟩ := writeContents_spec h shut looked own (nonroot named) text 1
  have all : writeFile s name text = (t, .updated name len) := by
    rw [writeFile, there]
    exact eq
  rw [all] at full ⊢
  have whole : len = text.length := by
    rcases full with same | other
    · have bytes := (WriteOutput.updated.inj same).2
      omega
    · exact WriteOutput.noConfusion other
  subst whole
  rw [sizeBefore, looked]
  refine written.replaced_iff h h sound named looked (fun m _ _ => SameFile.refl _ m) ?_
  exact (Set.insert_eq_of_mem (lookup_mem_entries h named looked)).symm

theorem writeFile_new (h : Sound s leaked) (shut : NoneOpen s) (named : NonRoot name)
    (short : (pathName name).length ≤ FS_MAX_FILENAME) (looked : pathLookup s name = (s, none))
    (full : Reported name text (writeFile s name text).2) :
    (∃ m, Replaced s (writeFile s name text).1 name text m) ↔ sizeBefore s name ≤ text.length := by
  have missing : fsExists s name = (s, 0) := by rw [fsExists, looked]
  rcases fsCreate_spec h name FS_TYPE_FILE with
    ⟨u, eq, -⟩ | ⟨u, e, n, eq, keeps, sound, made, -, -, absent⟩
  · have all : writeFile s name text = (u, .createFailed name) := by
      rw [writeFile, missing]
      dsimp only
      rw [if_neg (by decide), eq]
      rfl
    rw [all] at full
    rcases full with other | other
    · exact WriteOutput.noConfusion other
    · exact WriteOutput.noConfusion other
  · have found : pathLookup u name = (u, some n) := by
      rw [pathLookup_eq sound.ready sound.books.cons named, made.find h.books.cons sound.books.cons short absent,
        Option.map_some, made.live.1]
    have shut' : NoneOpen u := by
      rw [NoneOpen, keeps.openFiles]
      exact shut
    obtain ⟨t, len, done, sound', written⟩ :=
      writeContents_spec sound shut' found (sound.lookup_owner found).1 made.live.2 text 0
    have all : writeFile s name text = (t, .created name len) := by
      rw [writeFile, missing]
      dsimp only
      rw [if_neg (by decide), eq]
      exact done
    rw [all] at full ⊢
    have whole : len = text.length := by
      rcases full with other | same
      · exact WriteOutput.noConfusion other
      · have bytes := (WriteOutput.created.inj same).2
        omega
    subst whole
    rw [sizeBefore, looked]
    have entries := made.entries.2
    rw [made.chars short] at entries
    have empty : (u.view.inode n).size.toNat = 0 := by rw [made.empty]; rfl
    have iff := written.replaced_iff h sound sound' named found made.same entries
    rw [empty] at iff
    exact iff

theorem cmdWrite_eq (on : s.initialized = true) (noSpace : 0x20 ∉ name.chars)
    (short : (writeArgs name text).length ≤ 255) :
    cmdWrite s (some (writeArgs name text)) = writeFile s name text := by
  have chars : ((writeArgs name text).take 255).chars = name.chars ++ 0x20 :: text.chars :=
    List.take_of_length_le short
  have nonempty : (writeArgs name text).length ≠ 0 := by
    rw [CStr.length, writeArgs, List.length_append, List.length_cons]
    omega
  have front : ((writeArgs name text).take 255).take name.chars.length = name := by
    ext1
    change List.take _ ((writeArgs name text).take 255).chars = _
    rw [chars, List.take_left]
  have behind : ((writeArgs name text).take 255).drop (name.chars.length + 1) = text := by
    ext1
    change List.drop _ ((writeArgs name text).take 255).chars = _
    rw [chars, List.drop_append, List.drop_eq_nil_of_le (Nat.le_succ _), List.nil_append,
      Nat.add_sub_cancel_left, List.drop_one, List.tail_cons]
  rw [cmdWrite, on, Bool.not_true, if_neg Bool.false_ne_true]
  dsimp only
  rw [if_neg nonempty, chars, strchr_append noSpace]
  dsimp only
  rw [front, behind]

end Replacement

section Counters

variable (d : Word × Word) (s : WitFs) (name text : CStr)

theorem writeContents_recount (fileExists : Int) : writeContents (recount d s) name text fileExists =
    (recount d (writeContents s name text fileExists).1, (writeContents s name text fileExists).2) := by
  rw [writeContents, writeContents, fsOpen_recount]
  generalize fsOpen s name FS_OPEN_WRITE = r
  obtain ⟨u, fd⟩ := r
  dsimp only
  split
  next => rfl
  next =>
    rw [fsWrite_recount]
    dsimp only
    rw [fsClose_recount]

theorem writeFile_recount : writeFile (recount d s) name text =
    (recount d (writeFile s name text).1, (writeFile s name text).2) := by
  rw [writeFile, writeFile, fsExists_recount]
  generalize fsExists s name = r
  obtain ⟨u, there⟩ := r
  dsimp only
  split
  next => exact writeContents_recount ..
  next =>
    rw [fsCreate_recount]
    generalize fsCreate u name FS_TYPE_FILE = r
    obtain ⟨v, made⟩ := r
    dsimp only
    split
    next => rfl
    next => exact writeContents_recount ..

theorem sizeBefore_recount : sizeBefore (recount d s) name = sizeBefore s name := by
  rw [sizeBefore, sizeBefore, pathLookup_recount]
  rfl

theorem replaced_recount (t : WitFs) (n : Nat) :
    Replaced (recount d s) (recount d t) name text n ↔ Replaced s t name text n := by
  have looked : (pathLookup (recount d t) name).2 = (pathLookup t name).2 := by rw [pathLookup_recount]
  constructor
  · rintro ⟨found, content, size, others, entries, closed⟩
    exact ⟨looked ▸ found, content, size, others, entries, closed⟩
  · rintro ⟨found, content, size, others, entries, closed⟩
    exact ⟨looked ▸ found, content, size, others, entries, closed⟩

end Counters

theorem pathName_length_le (path : CStr) : (pathName path).length ≤ path.length := by
  rw [pathName]
  split
  next =>
    rw [CStr.tail, CStr.length, CStr.length, List.length_tail]
    exact Nat.sub_le ..
  next => exact Nat.le_refl _

/-- In every state of a run in which no descriptor is in use, a `write` that reports the whole
text written has replaced the content of the file, and changed nothing else, exactly when the
file was not longer than the text before. -/
theorem cmdWrite_replaces_iff (s0 : WitFs) (x : Tracked) (ops : List VolumeOp) (name text : CStr)
    (ready : Ready s0) (run : Exec CarefulVolume Tracked.volumeStep (Tracked.mounted s0) ops x)
    (shut : NoneOpen x.fs) (named : NonRoot name) (most : name.length ≤ 27)
    (noSpace : 0x20 ∉ name.chars) (short : (writeArgs name text).length ≤ 255)
    (full : Reported name text (cmdWrite x.fs (some (writeArgs name text))).2) :
    (∃ n, Replaced x.fs (cmdWrite x.fs (some (writeArgs name text))).1 name text n) ↔
      sizeBefore x.fs name ≤ text.length := by
  obtain ⟨d, settled⟩ := careful_run_settled ready run
  obtain ⟨leaked, sound⟩ := settled.sound
  have on : x.fs.initialized = true := sound.on
  have fits : (pathName name).length ≤ FS_MAX_FILENAME := (pathName_length_le name).trans most
  rw [cmdWrite_eq on noSpace short] at full ⊢
  have full' : Reported name text (writeFile (recount d x.fs) name text).2 := by
    rw [writeFile_recount]
    exact full
  have iff : (∃ n, Replaced (recount d x.fs) (writeFile (recount d x.fs) name text).1 name text n) ↔
      sizeBefore (recount d x.fs) name ≤ text.length := by
    obtain ⟨found, looked⟩ := sound.pathLookup name
    cases found with
    | none => exact writeFile_new sound shut named fits looked full'
    | some n => exact writeFile_found sound shut named looked full'
  rw [sizeBefore_recount, writeFile_recount] at iff
  simp only [replaced_recount] at iff
  exact iff

theorem nameA_noNul : (0 : Byte) ∉ [0x61] := by decide

def nameA : CStr := ⟨[0x61], nameA_noNul⟩
def hello : CStr := ⟨[0x68, 0x65, 0x6C, 0x6C, 0x6F], by decide⟩
def helloWorld : CStr := ⟨[0x68, 0x65, 0x6C, 0x6C, 0x6F, 0x2C, 0x20, 0x77, 0x6F, 0x72, 0x6C, 0x64], by decide⟩
def letterX : CStr := ⟨[0x78], by decide⟩

def helloOps : List VolumeOp := [.call (.fsExists nameA), .call (.fsCreate nameA FS_TYPE_FILE),
  .call (.fsOpen nameA FS_OPEN_WRITE), .call (.fsWrite 0 hello.get 5), .call (.fsClose 0)]

def helloWritten : Tracked := helloOps.foldl Tracked.volumeStep (Tracked.mounted powerOn)

example : (helloWritten.fs.view.inode 1).size = 5 := by decide +kernel

theorem hello_run : Exec CarefulVolume Tracked.volumeStep (Tracked.mounted powerOn) helloOps helloWritten :=
  .cons (show CarefulVolume _ (.call (.fsExists nameA)) from trivial)
    (.cons (show CarefulVolume _ (.call (.fsCreate nameA FS_TYPE_FILE)) from trivial)
      (.cons (show CarefulVolume _ (.call (.fsOpen nameA FS_OPEN_WRITE)) from trivial)
        (.cons (show CarefulVolume _ (.call (.fsWrite 0 hello.get 5)) from
            fun _ => ⟨fun old => absurd old.1 id, Or.inl (by decide +kernel)⟩)
          (.cons (show CarefulVolume _ (.call (.fsClose 0)) from trivial) (.nil _)))))

theorem hello_closed : NoneOpen helloWritten.fs := by
  unfold NoneOpen
  decide +kernel

/-- A longer text takes the place of `hello`. -/
theorem cmdWrite_replaces_iff_longer :
    ∃ n, Replaced helloWritten.fs (cmdWrite helloWritten.fs (some (writeArgs nameA helloWorld))).1 nameA helloWorld n :=
  (cmdWrite_replaces_iff powerOn helloWritten helloOps nameA helloWorld ⟨rfl, rfl⟩ hello_run hello_closed (by decide)
    (by decide) (by decide) (by decide) (by decide +kernel)).mpr (by decide +kernel)

/-- `write a x` reports one byte written into the file with `hello`, which then has five: `xello`. -/
theorem short_text_leaves_rest :
    Reported nameA letterX (cmdWrite helloWritten.fs (some (writeArgs nameA letterX))).2 ∧
      content (cmdWrite helloWritten.fs (some (writeArgs nameA letterX))).1 1 = [0x78, 0x65, 0x6C, 0x6C, 0x6F] ∧
      ¬∀ s0 x ops name text, Ready s0 → Exec CarefulVolume Tracked.volumeStep (Tracked.mounted s0) ops x →
        NoneOpen x.fs → NonRoot name → name.length ≤ 27 → 0x20 ∉ name.chars →
        (writeArgs name text).length ≤ 255 → Reported name text (cmdWrite x.fs (some (writeArgs name text))).2 →
        ∃ n, Replaced x.fs (cmdWrite x.fs (some (writeArgs name text))).1 name text n := by
  have full : Reported nameA letterX (cmdWrite helloWritten.fs (some (writeArgs nameA letterX))).2 := by decide +kernel
  have left : content (cmdWrite helloWritten.fs (some (writeArgs nameA letterX))).1 1 =
      [0x78, 0x65, 0x6C, 0x6C, 0x6F] := by decide +kernel
  have found : (pathLookup (cmdWrite helloWritten.fs (some (writeArgs nameA letterX))).1 nameA).2 = some 1 := by
    decide +kernel
  refine ⟨full, left, fun law => ?_⟩
  obtain ⟨n, replaced⟩ := law powerOn helloWritten helloOps nameA letterX ⟨rfl, rfl⟩ hello_run hello_closed
    (by decide) (by decide) (by decide) (by decide) full
  obtain rfl : 1 = n := Option.some.inj (found.symm.trans replaced.found)
  exact absurd (left.symm.trans replaced.content) (by decide)

end Wittche.Shell
