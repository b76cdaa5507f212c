import Wittche.Fs.HeapUse

/-! `fs_init` on a file system that is mounted already. It takes new buffers for the bitmaps
before it looks at the disk, and its error exits free what the pointers name. -/

namespace Wittche.Fs
open Bytes CString Execution

/-- The mount fails: there is no RAM disk, one of the three requests to the heap is refused, or
the disk has another magic number. -/
def ErrorExit (s : WitFs) : Prop :=
  s.disk.initialized = false ∨ false ∈ s.heap.pending.take 3 ∨
    (Superblock.ofBytes (readBlock s FS_SUPERBLOCK_BLOCK s.heap.junk)).magic ≠ FS_MAGIC

def BitmapsLive (s : WitFs) : Prop :=
  (∃ p ∈ s.heap.live, s.inodeBitmap.ptr = some p) ∧ ∃ p ∈ s.heap.live, s.dataBitmap.ptr = some p

/-- No half-mounted file system is left: `fs_is_initialized` says 0, or superblock and bitmaps
are there and as before. -/
def MountSafe (s : WitFs) : Prop :=
  ErrorExit s → (fsInit s).initialized = false ∨
    (fsInit s).superblock = s.superblock ∧ (fsInit s).inodeBitmap = s.inodeBitmap ∧
      (fsInit s).dataBitmap = s.dataBitmap ∧ BitmapsLive (fsInit s)

section Exits

variable {s t : WitFs}

theorem kmalloc_none_iff (s : WitFs) : (kmalloc s).2 = none ↔ s.heap.pending.head? = some false := by
  rw [kmalloc]
  split
  next empty => simp [empty, FsHeap.grant]
  next rest next => simp [next, FsHeap.grant]
  next rest next => simp [next]

theorem kmalloc_leaves (s : WitFs) : (kmalloc s).1.heap.pending = s.heap.pending.tail ∧
    (kmalloc s).1.heap.junk = s.heap.junk ∧ (kmalloc s).1.disk = s.disk ∧
    (kmalloc s).1.initialized = s.initialized := by
  rw [kmalloc]
  split
  next empty => simp [empty, FsHeap.grant]
  next rest next => simp [next, FsHeap.grant]
  next rest next => simp [next]

theorem mem_take_three {l : List Bool} : false ∈ l.take 3 ↔
    l.head? = some false ∨ l.tail.head? = some false ∨ l.tail.tail.head? = some false := by
  rcases l with _ | ⟨a, _ | ⟨b, _ | ⟨c, l⟩⟩⟩
  all_goals simp [eq_comm]

theorem kfreeBitmap_initialized (s : WitFs) (b : BitmapBuffer) : (kfreeBitmap s b).initialized = s.initialized := by
  rw [kfreeBitmap]
  split <;> rfl

theorem dropBitmaps_same (s : WitFs) : (dropBitmaps s).initialized = s.initialized ∧
    (dropBitmaps s).inodeBitmap = s.inodeBitmap ∧ (dropBitmaps s).dataBitmap = s.dataBitmap := by
  rw [dropBitmaps]
  refine ⟨?_, ?_, ?_⟩
  · rw [kfreeBitmap_initialized, kfreeBitmap_initialized]
  · rw [(kfreeBitmap_bitmaps _ _).1, (kfreeBitmap_bitmaps _ _).1]
  · rw [(kfreeBitmap_bitmaps _ _).2, (kfreeBitmap_bitmaps _ _).2]

structure Supplied (s : WitFs) (old : List Nat) (p q : Nat) : Prop where
  inodePtr : s.inodeBitmap.ptr = some p
  dataPtr : s.dataBitmap.ptr = some q
  live : s.heap.live = q :: p :: old
  fresh : p ∉ old ∧ q ∉ p :: old

theorem Supplied.dropped {old : List Nat} {p q : Nat} (h : Supplied s old p q) : ¬BitmapsLive (dropBitmaps s) := by
  obtain ⟨-, inode, data⟩ := dropBitmaps_same s
  have apart : q ≠ p := fun same => h.fresh.2 (same ▸ List.mem_cons_self ..)
  have live : (dropBitmaps s).heap.live = old := by
    rw [dropBitmaps, kfreeBitmap_live, kfreeBitmap_live, h.live, h.inodePtr, h.dataPtr]
    simp [List.erase_cons_tail, apart]
  rintro ⟨⟨b, used, named⟩, -⟩
  rw [inode, h.inodePtr] at named
  rw [live] at used
  exact h.fresh.1 (Option.some.inj named ▸ used)

theorem Supplied.balanced {old : List Nat} {p q : Nat} (h : Supplied s old p q) (same : Balanced s t) :
    Supplied t old p q :=
  ⟨same.inodePtr.trans h.inodePtr, same.dataPtr.trans h.dataPtr, same.live.trans h.live, h.fresh⟩

theorem Supplied.bitmapsLive {old : List Nat} {p q : Nat} (h : Supplied s old p q) : BitmapsLive s := by
  refine ⟨⟨p, ?_, h.inodePtr⟩, q, ?_, h.dataPtr⟩
  · rw [h.live]
    exact List.mem_cons_of_mem _ (List.mem_cons_self ..)
  · rw [h.live]
    exact List.mem_cons_self ..

theorem Supplied.load {old : List Nat} {p q : Nat} (h : Supplied s old p q) :
    (s.heap.pending.head? = some false ∨
        (Superblock.ofBytes (readBlock s FS_SUPERBLOCK_BLOCK s.heap.junk)).magic ≠ FS_MAGIC) ∧
      (loadSuperblock s).initialized = s.initialized ∧ ¬BitmapsLive (loadSuperblock s) ∨
    ¬(s.heap.pending.head? = some false ∨
        (Superblock.ofBytes (readBlock s FS_SUPERBLOCK_BLOCK s.heap.junk)).magic ≠ FS_MAGIC) ∧
      (loadSuperblock s).initialized = true ∧ BitmapsLive (loadSuperblock s) := by
  have refused := kmalloc_none_iff s
  obtain ⟨-, junk, disk, initialized⟩ := kmalloc_leaves s
  rw [loadSuperblock]
  rcases kmalloc_cases s with ⟨t, eq, same⟩ | ⟨t, temp, eq, grant⟩
  · rw [eq] at refused initialized ⊢
    exact Or.inl ⟨Or.inl (refused.mp rfl), (dropBitmaps_same t).1.trans initialized, (h.balanced same).dropped⟩
  · rw [eq] at refused junk disk initialized ⊢
    have granted : ¬s.heap.pending.head? = some false := fun none => Option.some_ne_none _ (refused.mpr none)
    have read : readBlock t FS_SUPERBLOCK_BLOCK t.heap.junk = readBlock s FS_SUPERBLOCK_BLOCK s.heap.junk := by
      have junk' : t.heap.junk = s.heap.junk := junk
      have disk' : t.disk = s.disk := disk
      rw [readBlock, readBlock, junk', disk']
    have freed := grant.free (Balanced.refl t)
    have supplied : ∀ superblock, Supplied (kfree { t with superblock := superblock } temp) old p q :=
      fun superblock => h.balanced ⟨freed.live, freed.inodePtr, freed.dataPtr, freed.disk⟩
    dsimp only
    rw [read]
    generalize Superblock.ofBytes (readBlock s FS_SUPERBLOCK_BLOCK s.heap.junk) = superblock
    by_cases magic : superblock.magic ≠ FS_MAGIC
    · refine Or.inl ⟨Or.inr magic, ?_⟩
      rw [if_pos (show (kfree { t with superblock := superblock } temp).superblock.magic ≠ FS_MAGIC from magic)]
      exact ⟨(dropBitmaps_same _).1.trans initialized, (supplied _).dropped⟩
    · refine Or.inr ⟨not_or.mpr ⟨granted, magic⟩, ?_⟩
      rw [if_neg (show ¬(kfree { t with superblock := superblock } temp).superblock.magic ≠ FS_MAGIC from magic)]
      exact ⟨rfl, (supplied _).bitmapsLive⟩

theorem secondRequest {old : List Nat} {p : Nat} (inodePtr : s.inodeBitmap.ptr = some p)
    (live : s.heap.live = p :: old) (fresh : p ∉ old) :
    let t := { (allocBitmap s).1 with dataBitmap := (allocBitmap s).2 }
    let u := if t.inodeBitmap.ptr.isNone ∨ t.dataBitmap.ptr.isNone then dropBitmaps t else loadSuperblock t
    let failed := s.heap.pending.head? = some false ∨ s.heap.pending.tail.head? = some false ∨
      (Superblock.ofBytes (readBlock s FS_SUPERBLOCK_BLOCK s.heap.junk)).magic ≠ FS_MAGIC
    failed ∧ u.initialized = s.initialized ∧ ¬BitmapsLive u ∨ ¬failed ∧ u.initialized = true ∧ BitmapsLive u := by
  intro t u failed
  obtain ⟨pending, junk, disk, initialized⟩ := kmalloc_leaves s
  have refused := kmalloc_none_iff s
  rcases kmalloc_cases s with ⟨s1, eq, same⟩ | ⟨s1, q, eq, grant⟩
  · rw [eq] at refused initialized
    have state : t = { s1 with dataBitmap := ⟨none, s1.heap.junk⟩ } := by
      simp only [t, allocBitmap, eq]
    have result : u = dropBitmaps t := if_pos (Or.inr (by rw [state]; rfl))
    refine Or.inl ⟨Or.inl (refused.mp rfl), ?_, ?_⟩
    · rw [result, (dropBitmaps_same t).1, state]
      exact initialized
    · rintro ⟨-, b, -, named⟩
      rw [result, (dropBitmaps_same t).2.2, state] at named
      exact absurd named (Option.some_ne_none b).symm
  · rw [eq] at refused pending junk disk initialized
    have state : t = { s1 with dataBitmap := ⟨some q, s1.heap.junk⟩ } := by
      simp only [t, allocBitmap, eq]
    have ptr : s1.inodeBitmap.ptr = some p := (congrArg _ grant.inodeBitmap).trans inodePtr
    have result : u = loadSuperblock t := if_neg (by rw [state]; simp [ptr])
    have granted : ¬s.heap.pending.head? = some false := fun none => Option.some_ne_none _ (refused.mpr none)
    have supplied : Supplied t old p q := by
      rw [state]
      exact ⟨ptr, rfl, grant.live.trans (by rw [live]), fresh, live ▸ grant.fresh⟩
    have rest : t.heap.pending = s.heap.pending.tail := by
      rw [state]
      exact pending
    have read : readBlock t FS_SUPERBLOCK_BLOCK t.heap.junk = readBlock s FS_SUPERBLOCK_BLOCK s.heap.junk := by
      have junk' : s1.heap.junk = s.heap.junk := junk
      have disk' : s1.disk = s.disk := disk
      rw [state, readBlock, readBlock, junk', disk']
    have same : t.initialized = s.initialized := by
      rw [state]
      exact initialized
    have load := supplied.load
    rw [rest, read, same] at load
    have failed_iff : failed ↔ s.heap.pending.tail.head? = some false ∨
        (Superblock.ofBytes (readBlock s FS_SUPERBLOCK_BLOCK s.heap.junk)).magic ≠ FS_MAGIC :=
      or_iff_right granted
    rw [result, failed_iff]
    exact load

/-- With a RAM disk, `fs_init` mounts or leaves the bitmap pointers without their blocks; then
`fs_initialized` is what it was. -/
theorem fsInit_exits (on : s.disk.initialized = true) :
    ErrorExit s ∧ (fsInit s).initialized = s.initialized ∧ ¬BitmapsLive (fsInit s) ∨
      ¬ErrorExit s ∧ (fsInit s).initialized = true ∧ BitmapsLive (fsInit s) := by
  obtain ⟨pending1, junk1, disk1, initialized1⟩ := kmalloc_leaves s
  have refused1 := kmalloc_none_iff s
  rw [ErrorExit, mem_take_three, fsInit, on, Bool.not_true, if_neg Bool.false_ne_true]
  dsimp only [allocBitmap]
  rcases kmalloc_cases s with ⟨s1, eq1, same1⟩ | ⟨s1, p, eq1, grant1⟩
  · -- no buffer for the inodes: the pointer is null
    rw [eq1] at refused1 initialized1 ⊢
    obtain ⟨-, -, -, initialized2⟩ := kmalloc_leaves { s1 with inodeBitmap := ⟨none, s1.heap.junk⟩ }
    have bitmap2 : (kmalloc { s1 with inodeBitmap := ⟨none, s1.heap.junk⟩ }).1.inodeBitmap.ptr = none := by
      rw [kmalloc]
      split <;> rfl
    revert initialized2 bitmap2
    dsimp only
    generalize kmalloc { s1 with inodeBitmap := ⟨none, s1.heap.junk⟩ } = r
    intro initialized2 bitmap2
    rw [if_pos (Or.inl (by rw [bitmap2]; rfl))]
    refine Or.inl ⟨Or.inr (Or.inl (Or.inl (refused1.mp rfl))), ?_, ?_⟩
    · exact (dropBitmaps_same _).1.trans (initialized2.trans initialized1)
    · rintro ⟨⟨b, -, named⟩, -⟩
      rw [(dropBitmaps_same _).2.1] at named
      exact absurd (bitmap2.symm.trans named) (Option.some_ne_none b).symm
  · rw [eq1] at refused1 pending1 junk1 disk1 initialized1 ⊢
    have granted : ¬s.heap.pending.head? = some false := fun none => Option.some_ne_none _ (refused1.mpr none)
    have second := secondRequest (s := { s1 with inodeBitmap := ⟨some p, s1.heap.junk⟩ }) rfl grant1.live grant1.fresh
    have pending : s1.heap.pending = s.heap.pending.tail := pending1
    have junk' : s1.heap.junk = s.heap.junk := junk1
    have disk' : s1.disk = s.disk := disk1
    have read : readBlock { s1 with inodeBitmap := ⟨some p, s1.heap.junk⟩ } FS_SUPERBLOCK_BLOCK s1.heap.junk =
        readBlock s FS_SUPERBLOCK_BLOCK s.heap.junk := by
      rw [readBlock, readBlock, junk', disk']
    have initialized : s1.initialized = s.initialized := initialized1
    simp only [Bool.true_eq_false, false_or, granted]
    dsimp only [allocBitmap] at second
    rw [pending, read] at second
    rw [or_assoc, ← initialized]
    exact second

end Exits

/-- A failed mount leaves no half-mounted file system, unless one was mounted before and there
is a RAM disk: then the new buffers are freed under a file system that still says it is
mounted. -/
theorem failed_mount_safe_iff (s : WitFs) : MountSafe s ↔
    ¬ErrorExit s ∨ s.initialized = false ∨ s.disk.initialized = false ∧ BitmapsLive s := by
  by_cases on : s.disk.initialized = true
  · have there : ¬s.disk.initialized = false := by rw [on]; decide
    rcases fsInit_exits on with ⟨exit, same, gone⟩ | ⟨mounts, -, -⟩
    · constructor
      · intro safe
        rcases safe exit with off | ⟨-, -, -, live⟩
        · exact Or.inr (Or.inl (same.symm.trans off))
        · exact absurd live gone
      · rintro (ok | off | ⟨missing, -⟩)
        · exact absurd exit ok
        · exact fun _ => Or.inl (same.trans off)
        · exact absurd missing there
    · exact iff_of_true (fun exit => absurd exit mounts) (Or.inl mounts)
  · have off : s.disk.initialized = false := Bool.eq_false_of_not_eq_true on
    have same : fsInit s = s := by
      rw [fsInit, off]
      rfl
    rw [MountSafe, same]
    constructor
    · intro safe
      rcases safe (Or.inl off) with shut | ⟨-, -, -, live⟩
      · exact Or.inr (Or.inl shut)
      · exact Or.inr (Or.inr ⟨off, live⟩)
    · rintro (ok | shut | ⟨-, live⟩) exit
      · exact absurd exit ok
      · exact Or.inl shut
      · exact Or.inr ⟨rfl, rfl, rfl, live⟩

def heapFull : WitFs := { mounted powerOn with heap := { (mounted powerOn).heap with pending := [false] } }

/-- Mounting again then fails, and leaves the file system mounted with a null bitmap. -/
theorem remount_without_bitmap : ErrorExit heapFull ∧ (fsInit heapFull).initialized = true ∧
    (fsInit heapFull).inodeBitmap.ptr = none ∧ ¬MountSafe heapFull := by
  have exit : ErrorExit heapFull := Or.inr (Or.inl (by decide))
  have initialized : (fsInit heapFull).initialized = true := by decide +kernel
  have ptr : (fsInit heapFull).inodeBitmap.ptr = none := by decide +kernel
  refine ⟨exit, initialized, ptr, fun safe => ?_⟩
  rcases safe exit with off | ⟨-, -, -, ⟨b, -, named⟩, -⟩
  · exact Bool.noConfusion (initialized.symm.trans off)
  · exact absurd (ptr.symm.trans named) (Option.some_ne_none b).symm

end Wittche.Fs
