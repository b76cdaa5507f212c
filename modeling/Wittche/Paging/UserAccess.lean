import Wittche.Paging.UserPages

/-! What user mode may use of the pages that are mapped for it. The processor asks for the
user bit in the entry of the directory and in that of the table; `paging_map_page` sets it
in the second one only, so that no page of any directory is open to user mode. -/

namespace Wittche.Paging
open Pmm Tables Execution

def UserWrite (s : PageTables) (dir virtual : Nat) : Prop :=
  let pde := s.entries dir (getPageDirIndex virtual)
  let pte := s.entries (pde &&& 0xFFFFF000) (getPageTableIndex virtual)
  UserAccess s dir virtual ∧ pde &&& PAGE_WRITE ≠ 0 ∧ pte &&& PAGE_WRITE ≠ 0

structure Mapping where
  virtual : Nat
  physical : Nat
  size : Nat

def Mapping.numPages (c : Mapping) : Nat := (c.size + PAGE_SIZE - 1) % 2 ^ 32 / PAGE_SIZE

def Mapping.Maps (c : Mapping) (virtual : Nat) : Prop :=
  ∃ i < c.numPages, virtual = (c.virtual + i * PAGE_SIZE) % 2 ^ 32

def mapAll (s : PageTables) (dir : Nat) (calls : List Mapping) : PageTables :=
  calls.foldl (fun s c => pagingMapUserCode s dir c.virtual c.physical c.size) s

/-- User mode may use and write what was mapped for it, and nothing below 16 MB. -/
structure Usable (s : PageTables) (dir : Nat) (calls : List Mapping) : Prop where
  mapped : ∀ c ∈ calls, ∀ virtual, c.Maps virtual → UserWrite s dir virtual
  kernel : ∀ virtual < AddressSpaces.USER_START, ¬UserAccess s dir virtual

/-- No entry of a directory has the user bit, and no directory is a table of another one. -/
structure Closed (s : PageTables) (dirs : Set Nat) : Prop where
  kept : Kept s.pmm
  held : ∀ d ∈ dirs, d < KERNEL_END ∨ Taken s.pmm d
  apart : ∀ d ∈ dirs, ∀ i t, follow (s.entries d i) = some t → t ∉ dirs
  shut : ∀ d ∈ dirs, ∀ i, s.entries d i &&& PAGE_USER = 0

theorem Closed.no_access {s : PageTables} {dirs : Set Nat} (h : Closed s dirs) {d : Nat} (dir : d ∈ dirs)
    (virtual : Nat) : ¬UserAccess s d virtual := fun access => access.1.2 (h.shut d dir _)

theorem makePde_user {flags : Nat} (closed : flags &&& PAGE_USER = 0) (addr : Nat) :
    makePde addr flags &&& PAGE_USER = 0 := by
  have frame : 0xFFFFF000 &&& PAGE_USER = 0 := by decide
  have bits : 0xFFF &&& PAGE_USER = PAGE_USER := by decide
  rw [makePde, Nat.and_or_distrib_right, Nat.and_assoc, frame, Nat.and_zero, Nat.zero_or, Nat.and_assoc, bits, closed]

section Map

variable {s : PageTables} {dirs : Set Nat} {t : Nat}

theorem Closed.fresh (h : Closed s dirs) (there : s.allocPage.2 ≠ 0) : s.allocPage.2 ∉ dirs := by
  obtain ⟨ok, -, clear, -⟩ := allocPage_given h.kept there
  intro dir
  rcases h.held _ dir with low | ⟨-, bit⟩
  · exact absurd ok.1 (Nat.not_le.mpr low)
  · exact Bool.noConfusion (bit.symm.trans clear)

theorem Closed.allocPage (h : Closed s dirs) : Closed s.allocPage.1 dirs := by
  refine ⟨h.kept.allocPage.2, fun d dir => (h.held d dir).imp_right ?_, h.apart, h.shut⟩
  rintro ⟨ok, bit⟩
  refine ⟨ok, ?_⟩
  by_cases none : s.allocPage.2 = 0
  · rw [allocPage_refused h.kept none]
    exact bit
  · rw [(allocPage_given h.kept none).2.2.2, bit, Bool.or_true]

theorem Closed.setEntry (h : Closed s dirs) (away : t ∉ dirs) (j e : Nat) : Closed (s.setEntry t j e) dirs := by
  have same : ∀ d ∈ dirs, (s.setEntry t j e).entries d = s.entries d := by
    intro d dir
    have other : d ≠ t := fun clash => away (clash ▸ dir)
    exact put_other other j e
  refine ⟨h.kept, h.held, fun d dir => ?_, fun d dir => ?_⟩
  · rw [same d dir]
    exact h.apart d dir
  · rw [same d dir]
    exact h.shut d dir

theorem Closed.graft (h : Closed s dirs) (there : s.allocPage.2 ≠ 0) (i : Nat) :
    Closed (grafted s i) dirs := by
  have fresh := h.fresh there
  have more := h.allocPage
  have ok := (allocPage_given h.kept there).1
  have entries : ∀ d ∈ dirs, ∀ k, (grafted s i).entries d k =
      if d = s.current ∧ k = i then makePde s.allocPage.2 (PAGE_PRESENT ||| PAGE_WRITE) else s.entries d k := by
    intro d dir k
    have other : d ≠ s.allocPage.2 := fun clash => fresh (clash ▸ dir)
    rw [grafted, PageTables.entries_setEntry, put_apply, PageTables.entries_clearPage, Function.update_of_ne other]
    rfl
  refine ⟨more.kept, more.held, fun d dir k t leads => ?_, fun d dir k => ?_⟩
  · rw [entries d dir] at leads
    split at leads
    next =>
      obtain rfl := Option.some.inj ((follow_newTable ok).symm.trans leads)
      exact fresh
    next => exact h.apart d dir k t leads
  · rw [entries d dir]
    split
    next => exact makePde_user (by decide) _
    next => exact h.shut d dir k

theorem Closed.mapPage (h : Closed s dirs) (current : s.current ∈ dirs) (v p flags : Nat) :
    Closed (pagingMapPage s v p flags) dirs ∧ (pagingMapPage s v p flags).current = s.current := by
  rw [pagingMapPage, pageTable]
  by_cases absent : s.entries s.current (getPageDirIndex v) &&& PAGE_PRESENT = 0
  · simp only [if_pos absent]
    by_cases none : s.allocPage.2 = 0
    · simp only [if_pos none]
      exact ⟨h.allocPage, rfl⟩
    · simp only [if_neg none]
      exact ⟨(h.graft none _).setEntry (h.fresh none) _ _, rfl⟩
  · simp only [if_neg absent]
    have table : follow (s.entries s.current (getPageDirIndex v)) =
        some (s.entries s.current (getPageDirIndex v) &&& 0xFFFFF000) := if_neg absent
    exact ⟨h.setEntry (h.apart s.current current _ _ table) _ _, rfl⟩

theorem Closed.mapPages (h : Closed s dirs) (current : s.current ∈ dirs) (v p n i : Nat) :
    Closed (mapPagesFrom s v p n i) dirs := by
  induction n generalizing s i with
  | zero => exact h
  | succ n ih =>
    obtain ⟨next, same⟩ := h.mapPage current ((v + i * PAGE_SIZE) % 2 ^ 32) ((p + i * PAGE_SIZE) % 2 ^ 32)
      PAGE_USER_MODE
    exact ih next (by rw [same]; exact current) (i + 1)

theorem Closed.mapUserCode (h : Closed s dirs) {dir : Nat} (mine : dir ∈ dirs) (v p size : Nat) :
    Closed (pagingMapUserCode s dir v p size) dirs := by
  have switched : Closed { s with current := dir } dirs := ⟨h.kept, h.held, h.apart, h.shut⟩
  obtain ⟨kept, held, apart, shut⟩ := switched.mapPages mine v p ((size + PAGE_SIZE - 1) % 2 ^ 32 / PAGE_SIZE) 0
  exact ⟨kept, held, apart, shut⟩

theorem Closed.mapAll (h : Closed s dirs) {dir : Nat} (mine : dir ∈ dirs) (calls : List Mapping) :
    Closed (mapAll s dir calls) dirs := by
  induction calls generalizing s with
  | nil => exact h
  | cons c calls ih => exact ih (h.mapUserCode mine c.virtual c.physical c.size)

theorem Closed.usable_iff (h : Closed s dirs) {dir : Nat} (mine : dir ∈ dirs) (calls : List Mapping) :
    Usable s dir calls ↔ ∀ c ∈ calls, c.numPages = 0 := by
  constructor
  · intro usable c inside
    by_contra some
    have first : c.Maps ((c.virtual + 0 * PAGE_SIZE) % 2 ^ 32) := ⟨0, Nat.pos_of_ne_zero some, rfl⟩
    exact h.no_access mine _ (usable.mapped c inside _ first).1
  · intro none
    refine ⟨fun c inside virtual mapped => ?_, fun virtual _ => h.no_access mine virtual⟩
    obtain ⟨i, below, -⟩ := mapped
    rw [none c inside] at below
    exact absurd below (Nat.not_lt_zero i)

end Map

section Runs

variable {img : Image} {s : AddressSpaces}

/-- The directories of a run, none of them open to user mode. -/
def AddressSpaces.Shut (s : AddressSpaces) : Prop :=
  ∀ d ∈ s.directories, ∀ i, s.tables.entries d i &&& PAGE_USER = 0

theorem Spaces.closed {t : PageTables} {dirs : Set Nat} (h : Spaces img t dirs)
    (shut : ∀ d ∈ dirs, ∀ i, t.entries d i &&& PAGE_USER = 0) : Closed t dirs := by
  refine ⟨h.kept, fun d dir => (h.held d dir).imp_left ?_, h.owned.apart, shut⟩
  rintro rfl
  have below := img.directoryBelow
  simp only [PAGE_SIZE] at below
  omega

theorem Shut.create (h : s.Sound img) (shut : s.Shut) : (s.step img .pagingCreateUserDirectory).Shut := by
  by_cases none : s.tables.allocPage.2 = 0
  · simp only [AddressSpaces.step, pagingCreateUserDirectory, if_pos none]
    exact shut
  · have fresh := (Spaces.closed h shut).fresh none
    have other : img.kernelDirectory ≠ s.tables.allocPage.2 := fun same => fresh (same ▸ h.kernel)
    rw [AddressSpaces.step, createUserDirectory_eq none other]
    simp only [if_neg none]
    intro d dir i
    by_cases new : d = s.tables.allocPage.2
    · simp only [new, Function.update_self, userDirectory]
      split
      next => exact shut _ h.kernel i
      next => exact Nat.zero_and _
    · simp only [Function.update_of_ne new]
      exact shut d ((List.mem_cons.mp dir).resolve_left new) i

theorem closed_create (h : s.Sound img) (shut : s.Shut) (made : (pagingCreateUserDirectory img s.tables).2 ≠ 0) :
    Closed (pagingCreateUserDirectory img s.tables).1 { d | d ∈ (s.step img .pagingCreateUserDirectory).directories } ∧
      (pagingCreateUserDirectory img s.tables).2 ∈ (s.step img .pagingCreateUserDirectory).directories := by
  have given : (pagingCreateUserDirectory img s.tables).1.refused = s.tables.refused := by
    rw [refused_createUserDirectory]
    refine if_neg fun none => made ?_
    exact congrArg Prod.snd (if_pos none)
  have next := create_law h ⟨trivial, given⟩
  refine ⟨Spaces.closed next.1 (Shut.create h shut), ?_⟩
  simp only [AddressSpaces.step, if_neg made]
  exact List.mem_cons_self

theorem Shut.step (h : s.Sound img) (shut : s.Shut) {op : PagingOp} (ok : s.allowed img op) : (s.step img op).Shut := by
  have closed := Spaces.closed h shut
  cases op with
  | pagingCreateUserDirectory => exact Shut.create h shut
  | pagingMapUserCode dir v p size => exact (closed.mapUserCode ok.1.1 v p size).shut
  | pagingUnmapPage v =>
    intro d dir i
    simp only [AddressSpaces.step, pagingUnmapPage]
    split
    next => exact shut d dir i
    next there =>
      exact (closed.setEntry (closed.apart _ h.current _ _ (if_neg there)) _ 0).shut d dir i
  | pagingSwitchDirectory dir => exact shut
  | pmmAllocPage => exact shut

theorem init_shut (img : Image) (s : PageTables) : (AddressSpaces.init img s).Shut := by
  obtain ⟨r, mapped, result⟩ := pagingInit_mapped img s
  intro d dir i
  obtain rfl := List.mem_singleton.mp dir
  rw [AddressSpaces.init, result]
  change r.1.entries img.kernelDirectory i &&& PAGE_USER = 0
  rw [mapped.directory]
  split
  next => exact makePde_user (by decide) _
  next => exact Nat.zero_and _

/-- In every run no directory is open to user mode. -/
theorem run_closed {p0 : PageMap} {s0 : PageTables} {boot : List PageOp} {ops : List PagingOp}
    (pages : Exec PageMap.allowed PageMap.step (pmmInit p0) boot s0.pmm)
    (run : Exec (AddressSpaces.allowed img) (AddressSpaces.step img) (AddressSpaces.init img s0) ops s) :
    s.Sound img ∧ s.Shut := by
  have kept := pages.invariant (fun _ _ kept ok => Kept.step kept ok) (pmmInit_kept p0)
  have keep : ∀ (s : AddressSpaces) (op : PagingOp), s.Sound img ∧ s.Shut → s.allowed img op →
      (s.step img op).Sound img ∧ (s.step img op).Shut := by
    rintro s op ⟨sound, shut⟩ ok
    exact ⟨Sound.step sound ok, Shut.step sound shut ok⟩
  exact run.invariant keep ⟨init_sound img kept, init_shut img s0⟩

end Runs

/-- In a directory of `paging_create_user_directory` what `paging_map_user_code` maps is usable
in user mode if and only if it maps nothing. -/
theorem user_mappings_usable_iff (img : Image) (p0 : PageMap) (s0 : PageTables) (boot : List PageOp) (ops : List PagingOp)
    (s : AddressSpaces) (calls : List Mapping) (pages : Exec PageMap.allowed PageMap.step (pmmInit p0) boot s0.pmm)
    (run : Exec (AddressSpaces.allowed img) (AddressSpaces.step img) (AddressSpaces.init img s0) ops s)
    (made : (pagingCreateUserDirectory img s.tables).2 ≠ 0) :
    Usable (mapAll (pagingCreateUserDirectory img s.tables).1 (pagingCreateUserDirectory img s.tables).2 calls)
      (pagingCreateUserDirectory img s.tables).2 calls ↔ ∀ c ∈ calls, c.numPages = 0 := by
  obtain ⟨sound, shut⟩ := run_closed pages run
  obtain ⟨closed, mine⟩ := closed_create sound shut made
  exact (closed.mapAll mine calls).usable_iff mine calls

/-- A page for the directory and one for the table: the page is mapped, and user mode cannot
use it. -/
theorem mapped_not_usable {img : Image} {s : AddressSpaces} (sound : s.Sound img) (shut : s.Shut) (room : Room 2 s.tables)
    (v p : Nat) (ok : v % PAGE_SIZE = 0 ∧ p % PAGE_SIZE = 0 ∧ AddressSpaces.USER_START ≤ v ∧ v + PAGE_SIZE ≤ 2 ^ 32 - 4096 ∧
      p + PAGE_SIZE ≤ 2 ^ 32 - 4096) :
    let r := pagingCreateUserDirectory img s.tables
    let t := mapAll r.1 r.2 [⟨v, p, PAGE_SIZE⟩]
    r.2 ≠ 0 ∧ t.refused = s.tables.refused ∧ translate t r.2 v = p ∧ ¬UserAccess t r.2 v ∧
      ¬Usable t r.2 [⟨v, p, PAGE_SIZE⟩] := by
  intro r t
  obtain ⟨there, given, left⟩ := room.create img
  obtain ⟨given', -⟩ := left.mapUserCode r.2 v p
  obtain ⟨closed, mine⟩ := closed_create sound shut there
  have next := (create_law sound ⟨trivial, given⟩).1
  have mapped := (map_law next ⟨⟨mine, ok⟩, given'⟩).2.1 0 (by decide)
  have all := closed.mapAll mine [⟨v, p, PAGE_SIZE⟩]
  refine ⟨there, given'.trans given, mapped, all.no_access mine v, fun usable => ?_⟩
  have none := (all.usable_iff mine _).mp usable _ (List.mem_singleton_self _)
  have one : (PAGE_SIZE + PAGE_SIZE - 1) % 2 ^ 32 / PAGE_SIZE = 1 := by decide
  rw [Mapping.numPages, one] at none
  exact absurd none (by decide)

theorem user_mappings_usable_iff_none :
    let r := pagingCreateUserDirectory placedImage (AddressSpaces.init placedImage blankTables).tables
    Usable (mapAll r.1 r.2 [⟨0x40000000, 0x300000, 0⟩]) r.2 [⟨0x40000000, 0x300000, 0⟩] := by
  refine (user_mappings_usable_iff placedImage ⟨fun _ => 0, 0⟩ blankTables [] [] _ _ (.nil _) (.nil _)
    (blank_room.create placedImage).1).mpr ?_
  decide

/-- The first user directory after boot, with one page at `USER_CODE_BASE`. -/
theorem user_page_closed :
    let r := pagingCreateUserDirectory placedImage (AddressSpaces.init placedImage blankTables).tables
    let t := mapAll r.1 r.2 [⟨0x40000000, 0x300000, PAGE_SIZE⟩]
    r.2 ≠ 0 ∧ t.refused = (AddressSpaces.init placedImage blankTables).tables.refused ∧
      translate t r.2 0x40000000 = 0x300000 ∧ ¬UserAccess t r.2 0x40000000 ∧
      ¬Usable t r.2 [⟨0x40000000, 0x300000, PAGE_SIZE⟩] :=
  mapped_not_usable (init_sound placedImage (pmmInit_kept _)) (init_shut placedImage blankTables) blank_room
    0x40000000 0x300000 (by decide)

end Wittche.Paging
