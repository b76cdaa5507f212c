import Wittche.Fs.Volumes

/-! The names that `fs_create` enters. A directory entry keeps the first 27 characters of a
name, and `path_lookup` compares the entry with the whole name of the path. -/

namespace Wittche.Fs
open Bytes CString Execution

def DistinctNames (V : View) : Prop :=
  ∀ e e', V.ent e ≠ 0 → V.ent e' ≠ 0 → V.entChars e = V.entChars e' → e = e'

/-- What was created is found under its path, with an inode number that was free, cannot be
created again, and shares its name with no other entry. -/
structure Resolves (s : WitFs) (path : CStr) (type : Word) : Prop where
  lookup : ∃ n < FS_MAX_INODES, (pathLookup (fsCreate s path type).1 path).2 = some n ∧
    bitmapTest s.inodeBitmap.bytes n = false ∧ bitmapTest (fsCreate s path type).1.inodeBitmap.bytes n = true
  again : ∀ type', (fsCreate (fsCreate s path type).1 path type').2 = -1
  distinct : DistinctNames (fsCreate s path type).1.view

section Views

variable {V W : View} {ib db ib' db' : Buffer} {hi hb hi' hb' : Nat → Prop}

theorem distinctNames_iff (c : Consistent V ib db hi hb) : DistinctNames V ↔
    ∀ name n m, (name, n) ∈ V.entries → (name, m) ∈ V.entries → n = m := by
  constructor
  · rintro distinct name n m ⟨live, e, rfl, rfl⟩ ⟨live', e', rfl, same⟩
    rw [distinct e e' live live' same.symm]
  · intro once e e' live live' same
    have mem := mem_entries live'
    rw [← same] at mem
    exact c.entInj e e' live (once _ _ _ (mem_entries live) mem)

theorem DistinctNames.mono (distinct : DistinctNames V) (c : Consistent V ib db hi hb)
    (c' : Consistent W ib' db' hi' hb') (fewer : W.entries ⊆ V.entries) : DistinctNames W := by
  rw [distinctNames_iff c']
  intro name n m one two
  exact (distinctNames_iff c).mp distinct name n m (fewer one) (fewer two)

variable {e n : Nat} {name : CStr}

theorem Created.live (made : Created V W e name n) : W.ent e = n ∧ n ≠ 0 :=
  ⟨by rw [made.ents, if_pos rfl], fun zero => made.fresh (Or.inl zero)⟩

theorem Created.distinct_before (made : Created V W e name n) (distinct : DistinctNames W) :
    DistinctNames V := by
  have old : ∀ a, V.ent a ≠ 0 → a ≠ e := by
    rintro a live rfl
    exact live made.unused
  intro a b live live' same
  obtain ⟨ent, chars⟩ := made.others (old a live)
  obtain ⟨ent', chars'⟩ := made.others (old b live')
  refine distinct a b (by rw [ent]; exact live) (by rw [ent']; exact live') ?_
  rw [chars live, chars' live', same]

theorem find_none_iff (c : Consistent V ib db hi hb) :
    V.find name = none ↔ ∀ a, V.ent a ≠ 0 → V.entChars a ≠ name.chars := by
  constructor
  · intro absent a live same
    have miss := Scan.firstFrom_none.mp absent a (Nat.zero_le a) (by have := ent_lt live; omega)
    exact of_decide_eq_false miss ((match_iff c name a).mpr ⟨live, same⟩)
  · intro absent
    refine Scan.firstFrom_none.mpr fun a _ _ => decide_eq_false fun found => ?_
    obtain ⟨live, same⟩ := (match_iff c name a).mp found
    exact absent a live same

theorem Created.distinct (made : Created V W e name n) (c : Consistent V ib db hi hb)
    (short : name.length ≤ FS_MAX_FILENAME) (absent : V.find name = none) (distinct : DistinctNames V) :
    DistinctNames W := by
  have here := made.chars short
  have new : ∀ a, a ≠ e → W.ent a ≠ 0 → W.entChars a ≠ W.entChars e := by
    intro a ne live
    obtain ⟨ent, chars⟩ := made.others ne
    rw [ent] at live
    rw [chars live, here]
    exact (find_none_iff c).mp absent a live
  intro a b live live' same
  by_cases one : a = e
  · by_cases two : b = e
    · rw [one, two]
    · rw [one] at same
      exact absurd same.symm (new b two live')
  · by_cases two : b = e
    · rw [two] at same
      exact absurd same (new a one live)
    · obtain ⟨ent, chars⟩ := made.others one
      obtain ⟨ent', chars'⟩ := made.others two
      rw [ent] at live
      rw [ent'] at live'
      rw [chars live, chars' live'] at same
      exact distinct a b live live' same

theorem Created.find (made : Created V W e name n) (c : Consistent V ib db hi hb)
    (c' : Consistent W ib' db' hi' hb') (short : name.length ≤ FS_MAX_FILENAME) (absent : V.find name = none) :
    W.find name = some e := by
  have live := made.live
  cases found : W.find name with
  | none =>
    refine absurd (made.chars short) ((find_none_iff c').mp found e ?_)
    rw [live.1]
    exact live.2
  | some a =>
    obtain ⟨used, chars⟩ := (match_iff c' name a).mp (of_decide_eq_true (Scan.firstFrom_some found).2.2.1)
    by_contra other
    have ne : a ≠ e := fun same => other (congrArg some same)
    obtain ⟨ent, same⟩ := made.others ne
    rw [ent] at used
    exact (find_none_iff c).mp absent a used ((same used).symm.trans chars)

/-- A name that does not fit is never found: the entry ends where the name goes on. -/
theorem find_long (c : Consistent V ib db hi hb) (long : FS_MAX_FILENAME < name.length) : V.find name = none := by
  refine (find_none_iff c).mpr fun a live same => ?_
  have stored := (match_iff c name a).mpr ⟨live, same⟩
  have zero := stored.2 FS_MAX_FILENAME (Nat.le_of_lt long)
  rw [c.named a live] at zero
  have inside : FS_MAX_FILENAME < name.chars.length := long
  rw [CStr.get, List.getD_eq_getElem?_getD, List.getElem?_eq_getElem inside, Option.getD_some] at zero
  exact name.noNul (zero ▸ List.getElem_mem inside)

end Views

section Create

variable {s t : WitFs} {leaked stale : Nat → Prop} {path : CStr} {type : Word}

theorem Created.resolves {e n : Nat} (sound : Sound s leaked) (sound' : Sound t leaked)
    (eq : fsCreate s path type = (t, 0)) (made : Created s.view t.view e (pathName path) n)
    (named : NonRoot path) (absent : s.view.find (pathName path) = none)
    (short : (pathName path).length ≤ FS_MAX_FILENAME) (distinct : DistinctNames s.view) :
    Resolves s path type := by
  have c := sound.books.cons
  have c' := sound'.books.cons
  obtain ⟨ent, nonzero⟩ := made.live
  have found := made.find c c' short absent
  have lt : n < FS_MAX_INODES := by
    have inside := c'.entLt e
    rw [ent, table_inodes] at inside
    simp only [FS_MAX_INODES]
    omega
  refine ⟨⟨n, lt, ?_, ?_, ?_⟩, fun type' => ?_, ?_⟩
  · rw [eq, pathLookup_eq sound'.ready c' named, found, Option.map_some, ent]
  · rw [← Bool.not_eq_true, c.inodes.iff n (inode_bit lt), or_false]
    exact made.fresh
  · rw [eq, c'.inodes.iff n (inode_bit lt), or_false]
    exact Or.inr ⟨e, ent⟩
  · rw [eq]
    rcases fsCreate_spec sound' path type' with ⟨u, failed, -⟩ | ⟨u, a, m, -, -, -, -, -, -, missing⟩
    · rw [failed]
    · rw [found] at missing
      exact absurd missing (Option.some_ne_none e)
  · rw [eq]
    exact made.distinct c short absent distinct

/-- A file that was created is found as it should, exactly when its name fits and the names
were distinct before. -/
theorem Sound.resolves_iff (sound : Sound s leaked) (done : (fsCreate s path type).2 = 0) :
    Resolves s path type ↔ (pathName path).length ≤ FS_MAX_FILENAME ∧ DistinctNames s.view := by
  rcases fsCreate_spec sound path type with
    ⟨t, eq, -⟩ | ⟨t, e, n, eq, -, sound', made, -, named, absent⟩
  · rw [eq] at done
    exact absurd done (show (-1 : Int) ≠ 0 by decide)
  · constructor
    · rintro ⟨⟨m, -, looked, -⟩, -, distinct⟩
      rw [eq] at looked distinct
      refine ⟨?_, made.distinct_before distinct⟩
      by_contra long
      rw [pathLookup_eq sound'.ready sound'.books.cons named,
        find_long sound'.books.cons (Nat.lt_of_not_le long)] at looked
      exact absurd looked.symm (Option.some_ne_none m)
    · rintro ⟨short, distinct⟩
      exact made.resolves sound sound' eq named absent short distinct

theorem resolves_recount (d : Word × Word) (s : WitFs) (path : CStr) (type : Word) :
    Resolves (recount d s) path type ↔ Resolves s path type := by
  constructor
  · rintro ⟨lookup, again, distinct⟩
    simp only [fsCreate_recount, pathLookup_recount] at lookup again
    rw [fsCreate_recount] at distinct
    exact ⟨lookup, again, distinct⟩
  · rintro ⟨lookup, again, distinct⟩
    refine ⟨?_, ?_, ?_⟩
    · simp only [fsCreate_recount, pathLookup_recount]
      exact lookup
    · simp only [fsCreate_recount]
      exact again
    · rw [fsCreate_recount]
      exact distinct

end Create

def ShortCreation : VolumeOp → Prop
  | .call (.fsCreate path _) => (pathName path).length ≤ FS_MAX_FILENAME
  | .call (.fsMkdir path) => (pathName path).length ≤ FS_MAX_FILENAME
  | .call (.fsOpen path flags) => flags &&& FS_OPEN_CREATE ≠ 0 → (pathName path).length ≤ FS_MAX_FILENAME
  | _ => True

section Runs

variable {s : WitFs} {leaked stale : Nat → Prop}

theorem DistinctNames.create (distinct : DistinctNames s.view) (sound : Sound s leaked) {path : CStr}
    (short : (pathName path).length ≤ FS_MAX_FILENAME) (type : Word) :
    DistinctNames (fsCreate s path type).1.view := by
  rcases fsCreate_spec sound path type with
    ⟨t, eq, same, sound'⟩ | ⟨t, e, n, eq, -, sound', made, -, -, absent⟩
  · rw [eq]
    exact distinct.mono sound.books.cons sound'.books.cons (same.same 0 (owner_root _)).entries.subset
  · rw [eq]
    exact made.distinct sound.books.cons short absent distinct

theorem DistinctNames.open (distinct : DistinctNames s.view) (sound : Sound s leaked) {path : CStr} {flags : Word}
    (short : flags &&& FS_OPEN_CREATE ≠ 0 → (pathName path).length ≤ FS_MAX_FILENAME) :
    DistinctNames (fsOpen s path flags).1.view := by
  rcases fsOpen_cases sound path flags with ⟨n, -, eq⟩ | ⟨-, eq | ⟨create, made⟩⟩
  · rw [eq, takeDescriptor_view]
    exact distinct
  · rw [eq]
    exact distinct
  · have created := distinct.create sound (short create) FS_TYPE_FILE
    rcases made with eq | ⟨t, n, done, -, eq⟩
    · rw [eq]
      exact created
    · rw [done] at created
      rw [eq, takeDescriptor_view]
      exact created

theorem fsUnlink_subset (sound : Sound s leaked) {path : CStr} (named : NonRoot path) :
    (fsUnlink s path).1.view.entries ⊆ s.view.entries := by
  rcases fsUnlink_entries sound named with ⟨-, entry, -, eq⟩ | ⟨-, eq⟩
  · rw [eq]
    exact Set.sdiff_subset
  · exact eq.subset

theorem Inv.write_careful (h : Inv s leaked stale) {fd : Int} {buf : Buffer} {size : Nat}
    (ok : Careful s stale (.fsWrite fd buf size)) : (fsWrite s fd buf size).1.view.entries = s.view.entries := by
  rcases ok.cases with harmless | ⟨_, _, _, ⟨⟩, usable, -, apart⟩
  · exact h.write_entries harmless
  · obtain ⟨lt, used⟩ := validFd_spec usable.1
    obtain ⟨inside, low⟩ := h.slots _ lt used
    obtain ⟨t, len, -, eq, -, -, -, others⟩ := fsWrite_apart h.sound usable rfl rfl inside low apart buf size
    rw [eq]
    exact (others 0 (owner_root _)).entries

theorem Inv.distinct_step (h : Inv s leaked stale) {op : FsOp} (ok : Careful s stale op)
    (short : ShortCreation (.call op)) (distinct : DistinctNames s.view) : DistinctNames (s.step op).view := by
  obtain ⟨leaked', next⟩ := h.careful_step ok
  have fewer := distinct.mono h.sound.books.cons next.sound.books.cons
  cases op with
  | fsCreate path type => exact distinct.create h.sound short type
  | fsMkdir path => exact distinct.create h.sound short FS_TYPE_DIR
  | fsOpen path flags => exact distinct.open h.sound short
  | fsClose fd =>
    refine fewer ?_
    rw [WitFs.step, fsClose]
    split <;> exact subset_rfl
  | fsRead fd size =>
    rw [WitFs.step, h.read_view]
    exact distinct
  | fsWrite fd buf size => exact fewer (h.write_careful ok).subset
  | fsUnlink path => exact fewer (fsUnlink_subset h.sound ok)
  | fsRmdir path => exact fewer (fsUnlink_subset h.sound ok)
  | fsReaddir path max =>
    rw [WitFs.step, fsReaddir_state h.sound]
    exact distinct
  | fsStat path =>
    rw [WitFs.step, fsStat_state h.sound]
    exact distinct
  | fsExists path =>
    rw [WitFs.step, fsExists_state h.sound]
    exact distinct
  | timer ticks => exact distinct

theorem distinctNames_none {V : View} (none : ∀ e, V.ent e = 0) : DistinctNames V :=
  fun e _ live => absurd (none e) live

theorem Settled.distinct_step {d : Word × Word} {x : Tracked} (h : Settled d x) {op : VolumeOp}
    (ok : CarefulVolume x op) (short : ShortCreation op) (distinct : DistinctNames x.fs.view) :
    DistinctNames (x.volumeStep op).fs.view := by
  cases op with
  | call op =>
    obtain ⟨leaked, inv⟩ := h.inv
    have next := inv.distinct_step (ok.recount d) short distinct
    rw [step_recount] at next
    exact next
  | fsFormat =>
    have formatted := fsFormat_formatted h.synced.ready
    obtain ⟨on, superblock, -, inodes, blocks⟩ := fsFormat_memory h.synced.ready
    exact distinctNames_none (formatted.sound rfl formatted.ready.heap on superblock inodes blocks).2
  | fsInit =>
    change DistinctNames (fsInit x.fs).view
    rw [h.synced.mounts.view_eq]
    exact distinct

theorem short_run_distinct {d : Word × Word} {x y : Tracked} {ops : List VolumeOp} (h : Settled d x)
    (run : Exec CarefulVolume Tracked.volumeStep x ops y) (short : ∀ op ∈ ops, ShortCreation op)
    (distinct : DistinctNames x.fs.view) : DistinctNames y.fs.view := by
  induction run generalizing d with
  | nil x => exact distinct
  | cons allowed rest ih =>
    obtain ⟨d', next⟩ := h.step allowed
    exact ih next (fun op inside => short op (List.mem_cons_of_mem _ inside))
      (h.distinct_step allowed (short _ List.mem_cons_self) distinct)

end Runs

/-- In every state of a run, what `fs_create` has made is found, cannot be made again and has a
name of its own, exactly when its name has at most 27 characters and no two entries had the
same name before; and two entries have the same name only after a longer one was created. -/
theorem created_names_resolve_iff (s0 : WitFs) (x : Tracked) (ops : List VolumeOp) (ready : Ready s0)
    (run : Exec CarefulVolume Tracked.volumeStep (Tracked.mounted s0) ops x) :
    (∀ path type, NonRoot path → (fsCreate x.fs path type).2 = 0 →
      (Resolves x.fs path type ↔ (pathName path).length ≤ FS_MAX_FILENAME ∧ DistinctNames x.fs.view)) ∧
      ((∀ op ∈ ops, ShortCreation op) → DistinctNames x.fs.view) := by
  refine ⟨fun path type _ done => ?_, fun short => ?_⟩
  · obtain ⟨d, settled⟩ := careful_run_settled ready run
    obtain ⟨leaked, sound⟩ := settled.sound
    have done' : (fsCreate (recount d x.fs) path type).2 = 0 := by
      rw [fsCreate_recount]
      exact done
    rw [← resolves_recount d]
    exact sound.resolves_iff done'
  · exact short_run_distinct (mounted_settled ready) run short (distinctNames_none (mount_blank ready).noEntry)

/-- `/b` beside `/a`. -/
theorem created_names_resolve_iff_second :
    Resolves ((Tracked.mounted powerOn).volumeStep (.call (.fsCreate pathA FS_TYPE_FILE))).fs pathB FS_TYPE_DIR := by
  obtain ⟨resolves, distinct⟩ := created_names_resolve_iff powerOn _ [.call (.fsCreate pathA FS_TYPE_FILE)]
    ⟨rfl, rfl⟩ (.cons (show CarefulVolume _ (.call (.fsCreate pathA FS_TYPE_FILE)) from trivial) (.nil _))
  refine (resolves pathB FS_TYPE_DIR (by decide) (by decide +kernel)).mpr ⟨by decide, distinct ?_⟩
  simp only [List.forall_mem_singleton]
  exact (by decide : (pathName pathA).length ≤ FS_MAX_FILENAME)

def longName : CStr := ⟨List.replicate 28 0x61, by decide⟩

def longOnce : WitFs := (fsCreate (mounted powerOn) longName FS_TYPE_FILE).1

example : longOnce.view.ent 0 = 1 := by decide +kernel

/-- A name of 28 characters is not found behind its creation, and is created a second time
under the same 27 characters. -/
theorem long_name_created_twice : NonRoot longName ∧ (fsCreate (mounted powerOn) longName FS_TYPE_FILE).2 = 0 ∧
    (pathLookup longOnce longName).2 = none ∧ (fsCreate longOnce longName FS_TYPE_FILE).2 = 0 ∧
    ¬DistinctNames (fsCreate longOnce longName FS_TYPE_FILE).1.view ∧
    ¬Resolves (mounted powerOn) longName FS_TYPE_FILE := by
  have looked : (pathLookup longOnce longName).2 = none := by decide +kernel
  have first : (fsCreate longOnce longName FS_TYPE_FILE).1.view.ent 0 = 1 := by decide +kernel
  have second : (fsCreate longOnce longName FS_TYPE_FILE).1.view.ent 1 = 2 := by decide +kernel
  have chars : (fsCreate longOnce longName FS_TYPE_FILE).1.view.entChars 0 =
      (fsCreate longOnce longName FS_TYPE_FILE).1.view.entChars 1 := by decide +kernel
  refine ⟨by decide, by decide +kernel, looked, by decide +kernel, fun distinct => ?_, fun resolves => ?_⟩
  · exact absurd (distinct 0 1 (by rw [first]; decide) (by rw [second]; decide) chars) (by decide)
  · obtain ⟨n, -, found, -⟩ := resolves.lookup
    exact absurd (looked.symm.trans found) (Option.some_ne_none n).symm

end Wittche.Fs
