import Wittche.Lib.Execution
import Wittche.Paging.Spaces

/-! Runs of the paging calls from `paging_init` on. The directories are partial maps from
pages to frames with a common part below 16 MB; a call changes the pages it is about
in one of them. -/

namespace Wittche.Paging
open Pmm Tables Execution

section Create

variable {img : Image} {s : PageTables} {dirs : Set Nat}

/-- A new directory has the first four entries of the kernel's. -/
def userDirectory (img : Image) (s : PageTables) (i : Nat) : Nat :=
  if i < 4 then s.entries img.kernelDirectory i else 0

theorem copyEntries (s : PageTables) {dir : Nat} (other : img.kernelDirectory ≠ dir) (n : Nat) :
    (List.range n).foldl (fun s i => s.setEntry dir i (s.entries img.kernelDirectory i)) (s.clearPage dir) =
      { s with entries := Function.update s.entries dir fun i =>
          if i < n then s.entries img.kernelDirectory i else 0 } := by
  induction n with
  | zero => rfl
  | succ n ih =>
    rw [List.range_succ, List.foldl_append, ih, List.foldl_cons, List.foldl_nil, PageTables.setEntry]
    congr 1
    funext page i
    rw [put_apply]
    dsimp only
    rw [Function.update_of_ne other]
    by_cases here : page = dir
    · subst here
      rw [Function.update_self, Function.update_self]
      by_cases last : i = n
      · simp [last]
      · have range : i < n + 1 ↔ i < n := by omega
        simp only [last, and_false, if_false, range]
    · simp [here]

theorem createUserDirectory_eq (there : s.allocPage.2 ≠ 0) (other : img.kernelDirectory ≠ s.allocPage.2) :
    pagingCreateUserDirectory img s =
      ({ s.allocPage.1 with entries := Function.update s.entries s.allocPage.2 (userDirectory img s) },
        s.allocPage.2) := by
  simp only [pagingCreateUserDirectory, if_neg there]
  rw [copyEntries _ other]
  rfl

theorem refused_createUserDirectory (img : Image) (s : PageTables) :
    (pagingCreateUserDirectory img s).1.refused = s.allocPage.1.refused := by
  by_cases zero : s.allocPage.2 = 0
  · simp only [pagingCreateUserDirectory, if_pos zero]
  · simp only [pagingCreateUserDirectory, if_neg zero]
    rfl

/-- A new directory maps the memory below 16 MB to itself and nothing else. -/
theorem Spaces.create (h : Spaces img s dirs) (given : (pagingCreateUserDirectory img s).1.refused = s.refused) :
    let r := pagingCreateUserDirectory img s
    r.2 ∉ dirs ∧ Taken r.1.pmm r.2 ∧ Spaces img r.1 (insert r.2 dirs) ∧ r.1.current = s.current ∧
      (∀ d ∈ dirs, ∀ n, frameAt r.1 d n = frameAt s d n) ∧ ∀ n, 4096 ≤ n → frameAt r.1 r.2 n = none := by
  rw [refused_createUserDirectory] at given
  obtain ⟨there, ok, more, fresh, bits⟩ := h.allocPage given
  have taken : Taken s.allocPage.1.pmm s.allocPage.2 := ⟨ok, by rw [bits]; simp⟩
  have other : img.kernelDirectory ≠ s.allocPage.2 := fun same => fresh.1 (same ▸ h.kernel)
  rw [createUserDirectory_eq there other]
  have user : ∀ i ∈ userEntries, userDirectory img s i = 0 := fun i user => if_neg (Nat.not_lt.mpr user)
  have low : ∀ i, i ∉ userEntries → userDirectory img s i = s.entries img.kernelDirectory i :=
    fun i shared => if_pos (Nat.not_le.mp shared)
  have old : ∀ {d}, d ∈ dirs →
      Function.update s.entries s.allocPage.2 (userDirectory img s) d = s.entries d := by
    intro d dir
    have away : d ≠ s.allocPage.2 := fun same => fresh.1 (same ▸ dir)
    exact Function.update_of_ne away ..
  refine ⟨fresh.1, taken, ⟨more.kept, Or.inr more.current, Or.inr more.kernel, ?_, ?_, ?_, ?_, ?_⟩, rfl, ?_, ?_⟩
  · exact h.owned.add fresh h.kernel (fun i mine => by rw [user i mine, follow_zero]) low
  · rintro d (rfl | dir)
    · exact Or.inr taken
    · exact more.held d dir
  · rintro d (rfl | dir) i mine t leads
    · simp only [Function.update_self, user i mine, follow_zero] at leads
      exact absurd leads.symm (Option.some_ne_none t)
    · simp only [old dir] at leads
      exact more.tables d dir i mine t leads
  · rintro d (rfl | dir) i small
    · simp only [Function.update_self, low i (Nat.not_le.mpr small)]
      exact h.shared _ h.kernel i small
    · simp only [old dir]
      exact h.shared d dir i small
  · intro i small
    have away := (taken.ne_early (s := s.allocPage.1) img small).symm
    simp only [Function.update_of_ne away]
    exact h.identity i small
  · exact fun d dir n => fresh.walk_update dir _ _
  · intro n high
    have mine : n / 1024 ∈ userEntries := by
      change 4 ≤ n / 1024
      omega
    simp only [frameAt, walk, Function.update_self, user _ mine, follow_zero, Option.bind_none]

theorem Spaces.frameAt_low (h : Spaces img s dirs) {d n : Nat} (dir : d ∈ dirs) (low : n < 4096) :
    frameAt s d n = some (n * PAGE_SIZE) := by
  rw [frameAt, walk, h.shared d dir _ (by omega), Option.bind_some,
    h.identity _ (by omega) _ (Nat.mod_lt _ (by decide))]
  congr 2
  omega

end Create

section Init

variable {img : Image} {s : PageTables}

theorem Image.table_ne (img : Image) {i : Nat} (small : i < 16) :
    img.earlyPageTables + i * PAGE_SIZE ≠ img.kernelDirectory := by
  have apart := img.apart
  simp only [PAGE_SIZE] at *
  omega

theorem Image.table_frame (img : Image) {i : Nat} (small : i < 16) :
    (img.earlyPageTables + i * PAGE_SIZE) &&& 0xFFFFF000 = img.earlyPageTables + i * PAGE_SIZE := by
  have below := img.tablesBelow
  have aligned := img.tablesAligned
  refine and_frame_aligned ?_ (by rw [Nat.add_mul_mod_self_right, aligned])
  simp only [PAGE_SIZE, KERNEL_END] at *
  omega

theorem clearTables_entries (img : Image) (s : PageTables) {page : Nat}
    (static : page = img.kernelDirectory ∨ ∃ i < 16, page = img.earlyPageTables + i * PAGE_SIZE) (j : Nat) :
    (clearTables img s).entries page j = 0 := by
  have loop : ∀ n, (page = img.kernelDirectory ∨ ∃ i < n, page = img.earlyPageTables + i * PAGE_SIZE) →
      ((List.range n).foldl (fun s k => s.clearPage (img.earlyPageTables + k * PAGE_SIZE))
        (s.clearPage img.kernelDirectory)).entries page j = 0 := by
    intro n
    induction n with
    | zero =>
      rintro (rfl | ⟨i, small, -⟩)
      · simp
      · exact absurd small (Nat.not_lt_zero i)
    | succ n ih =>
      intro static
      rw [List.range_succ, List.foldl_append, List.foldl_cons, List.foldl_nil, PageTables.entries_clearPage]
      by_cases last : page = img.earlyPageTables + n * PAGE_SIZE
      · rw [last, Function.update_self]
      · rw [Function.update_of_ne last]
        refine ih (static.imp_right ?_)
        rintro ⟨i, small, same⟩
        have ne : i ≠ n := fun eq => last (eq ▸ same)
        exact ⟨i, by omega, same⟩
  exact loop 16 static

/-- The tables with the first `k` pages mapped to themselves. -/
structure Mapped (img : Image) (s : PageTables) (k : Nat) (r : PageTables × Nat) : Prop where
  pmm : r.1.pmm = s.pmm
  refused : r.1.refused = s.refused
  count : r.2 = (k + 1023) / 1024
  directory : ∀ i, r.1.entries img.kernelDirectory i =
    if i < (k + 1023) / 1024 then makePde (img.earlyPageTables + i * PAGE_SIZE) PAGE_KERNEL else 0
  tables : ∀ i < 16, ∀ j < 1024, r.1.entries (img.earlyPageTables + i * PAGE_SIZE) j =
    if i * 1024 + j < k then makePte ((i * 1024 + j) * PAGE_SIZE) PAGE_KERNEL else 0

theorem clearTables_same (img : Image) (s : PageTables) :
    (clearTables img s).pmm = s.pmm ∧ (clearTables img s).refused = s.refused := by
  have loop : ∀ n, ((List.range n).foldl (fun s k => s.clearPage (img.earlyPageTables + k * PAGE_SIZE))
      (s.clearPage img.kernelDirectory)).pmm = s.pmm ∧
      ((List.range n).foldl (fun s k => s.clearPage (img.earlyPageTables + k * PAGE_SIZE))
      (s.clearPage img.kernelDirectory)).refused = s.refused := by
    intro n
    induction n with
    | zero => exact ⟨rfl, rfl⟩
    | succ n ih =>
      rw [List.range_succ, List.foldl_append, List.foldl_cons, List.foldl_nil]
      exact ih
  exact loop 16

theorem clearTables_mapped (img : Image) (s : PageTables) : Mapped img s 0 (clearTables img s, 0) := by
  obtain ⟨pmm, refused⟩ := clearTables_same img s
  refine ⟨pmm, refused, rfl, fun i => ?_, fun i small j _ => ?_⟩
  · rw [if_neg (by omega)]
    exact clearTables_entries img s (Or.inl rfl) i
  · rw [if_neg (by omega)]
    exact clearTables_entries img s (Or.inr ⟨i, small, rfl⟩) j

theorem Mapped.directoryEntry {k : Nat} {r : PageTables × Nat} (h : Mapped img s k r) :
    let r' := if r.1.entries img.kernelDirectory (k / 1024) &&& PAGE_PRESENT = 0 then
        (r.1.setEntry img.kernelDirectory (k / 1024)
          (makePde (img.earlyPageTables + r.2 * PAGE_SIZE) PAGE_KERNEL), r.2 + 1)
      else r
    r'.1.pmm = s.pmm ∧ r'.1.refused = s.refused ∧ r'.2 = (k + 1 + 1023) / 1024 ∧
      (∀ i, r'.1.entries img.kernelDirectory i =
        if i < (k + 1 + 1023) / 1024 then makePde (img.earlyPageTables + i * PAGE_SIZE) PAGE_KERNEL else 0) ∧
      ∀ i < 16, r'.1.entries (img.earlyPageTables + i * PAGE_SIZE) =
        r.1.entries (img.earlyPageTables + i * PAGE_SIZE) := by
  have bit : ∀ addr, makePde addr PAGE_KERNEL &&& PAGE_PRESENT ≠ 0 := by
    intro addr zero
    have there := follow_makePde (show PAGE_KERNEL &&& PAGE_PRESENT ≠ 0 by decide) addr
    rw [follow, if_pos zero] at there
    exact absurd there.symm (Option.some_ne_none _)
  by_cases first : k % 1024 = 0
  · have absent : r.1.entries img.kernelDirectory (k / 1024) &&& PAGE_PRESENT = 0 := by
      rw [h.directory, if_neg (by omega)]
      rfl
    rw [if_pos absent]
    refine ⟨h.pmm, h.refused, by rw [h.count]; omega, fun i => ?_, fun i small => ?_⟩
    · rw [PageTables.entries_setEntry, put_apply, h.directory, h.count]
      by_cases here : i = k / 1024
      · rw [if_pos ⟨rfl, here⟩, if_pos (by omega), show (k + 1023) / 1024 = i by omega]
      · rw [if_neg (by tauto)]
        have range : i < (k + 1 + 1023) / 1024 ↔ i < (k + 1023) / 1024 := by omega
        simp only [range]
    · exact put_other (img.table_ne small) ..
  · have present : ¬r.1.entries img.kernelDirectory (k / 1024) &&& PAGE_PRESENT = 0 := by
      rw [h.directory, if_pos (by omega)]
      exact bit _
    have range : (k + 1 + 1023) / 1024 = (k + 1023) / 1024 := by omega
    rw [if_neg present, range]
    exact ⟨h.pmm, h.refused, h.count, h.directory, fun _ _ => rfl⟩

theorem Mapped.step {k : Nat} {r : PageTables × Nat} (h : Mapped img s k r) (small : k < 4096) :
    Mapped img s (k + 1) (identityMapPage img r (k * PAGE_SIZE)) := by
  have page : k * PAGE_SIZE / PAGE_SIZE = k := Nat.mul_div_cancel _ (by decide)
  obtain ⟨pmm, refused, count, directory, same⟩ := h.directoryEntry
  rw [identityMapPage]
  simp only [getPageDirIndex_eq, getPageTableIndex_eq, page]
  revert pmm refused count directory same
  generalize (if r.1.entries img.kernelDirectory (k / 1024) &&& PAGE_PRESENT = 0 then
        (r.1.setEntry img.kernelDirectory (k / 1024)
          (makePde (img.earlyPageTables + r.2 * PAGE_SIZE) PAGE_KERNEL), r.2 + 1)
      else r) = r'
  intro pmm refused count directory same
  have table : r'.1.entries img.kernelDirectory (k / 1024) &&& 0xFFFFF000 =
      img.earlyPageTables + k / 1024 * PAGE_SIZE := by
    have there := follow_makePde (show PAGE_KERNEL &&& PAGE_PRESENT ≠ 0 by decide) (img.earlyPageTables + k / 1024 * PAGE_SIZE)
    rw [directory, if_pos (by omega), ← follow_frame there, img.table_frame (by omega)]
  rw [table]
  refine ⟨pmm, refused, count, fun i => ?_, fun i small' j inside => ?_⟩
  · rw [PageTables.entries_setEntry, put_other (img.table_ne (by omega)).symm]
    exact directory i
  · rw [PageTables.entries_setEntry, put_apply, same i small', h.tables i small' j inside]
    by_cases here : i * 1024 + j = k
    · have index : i = k / 1024 ∧ j = k % 1024 := by omega
      rw [index.1, index.2, if_pos ⟨rfl, rfl⟩, if_pos (by omega)]
      congr 2
      omega
    · have away : ¬(img.earlyPageTables + i * PAGE_SIZE = img.earlyPageTables + k / 1024 * PAGE_SIZE ∧
          j = k % 1024) := by
        simp only [PAGE_SIZE]
        omega
      have range : i * 1024 + j < k + 1 ↔ i * 1024 + j < k := by omega
      simp only [if_neg away, range]

theorem Mapped.run (img : Image) (s : PageTables) {n : Nat} (small : n ≤ 4096) :
    Mapped img s n ((List.range n).foldl (fun r k => identityMapPage img r (k * PAGE_SIZE)) (clearTables img s, 0)) := by
  induction n with
  | zero => exact clearTables_mapped img s
  | succ n ih =>
    rw [List.range_succ, List.foldl_append, List.foldl_cons, List.foldl_nil]
    exact (ih (by omega)).step (by omega)

theorem pagingInit_mapped (img : Image) (s : PageTables) :
    ∃ r, Mapped img s 4096 r ∧ pagingInit img s = { r.1 with current := img.kernelDirectory } := by
  have mapped := Mapped.run img s (n := 16 * 1024 * 1024 / PAGE_SIZE) (by decide)
  unfold pagingInit
  revert mapped
  generalize (List.range (16 * 1024 * 1024 / PAGE_SIZE)).foldl (fun r k => identityMapPage img r (k * PAGE_SIZE))
    (clearTables img s, 0) = r
  intro mapped
  exact ⟨r, mapped, rfl⟩

theorem pagingInit_spaces (img : Image) {s : PageTables} (kept : Kept s.pmm) :
    Spaces img (pagingInit img s) {img.kernelDirectory} := by
  obtain ⟨r, mapped, result⟩ := pagingInit_mapped img s
  rw [result]
  have entries : ∀ i, r.1.entries img.kernelDirectory i =
      if i < 4 then makePde (img.earlyPageTables + i * PAGE_SIZE) PAGE_KERNEL else 0 := mapped.directory
  have user : ∀ i ∈ userEntries, follow (r.1.entries img.kernelDirectory i) = none := by
    intro i mine
    rw [entries, if_neg (Nat.not_lt.mpr mine), follow_zero]
  have shared : ∀ i < 4, follow (r.1.entries img.kernelDirectory i) = some (img.earlyPageTables + i * PAGE_SIZE) := by
    intro i small
    rw [entries, if_pos small, follow_makePde (by decide), img.table_frame (by omega)]
  refine ⟨mapped.pmm ▸ kept, rfl, rfl, ⟨?_, ?_⟩, fun d dir => Or.inl dir, ?_, ?_, fun i small j inside => ?_⟩
  · rintro d rfl d' - i mine i' t there -
    exact absurd ((user i mine).symm.trans there) (Option.some_ne_none t).symm
  · rintro d rfl i t there same
    by_cases small : i < 4
    · exact img.table_ne (by omega) ((Option.some.inj ((shared i small).symm.trans there)).trans same)
    · exact absurd ((user i (Nat.not_lt.mp small)).symm.trans there) (Option.some_ne_none t).symm
  · rintro d rfl i mine t there
    exact absurd ((user i mine).symm.trans there) (Option.some_ne_none t).symm
  · rintro d rfl
    exact shared
  · have page := mapped.tables i (by omega) j inside
    rw [if_pos (by omega)] at page
    change follow (r.1.entries _ j) = _
    rw [page, follow_makePte (by decide), and_frame_aligned _ (Nat.mul_mod_left _ _)]
    simp only [PAGE_SIZE]
    omega

end Init

inductive PagingOp
  | pagingCreateUserDirectory
  | pagingMapUserCode (dir virtual physical size : Nat)
  | pagingUnmapPage (virtual : Nat)
  | pagingSwitchDirectory (dir : Nat)
  | pmmAllocPage

/-- The page tables, and the directories made so far. -/
structure AddressSpaces where
  tables : PageTables
  directories : List Nat

namespace AddressSpaces

def init (img : Image) (s : PageTables) : AddressSpaces := ⟨pagingInit img s, [img.kernelDirectory]⟩

def step (img : Image) (s : AddressSpaces) : PagingOp → AddressSpaces
  | .pagingCreateUserDirectory =>
    let r := Paging.pagingCreateUserDirectory img s.tables
    ⟨r.1, if r.2 = 0 then s.directories else r.2 :: s.directories⟩
  | .pagingMapUserCode dir v p size => { s with tables := Paging.pagingMapUserCode s.tables dir v p size }
  | .pagingUnmapPage v => { s with tables := Paging.pagingUnmapPage s.tables v }
  | .pagingSwitchDirectory dir => { s with tables := Paging.pagingSwitchDirectory s.tables dir }
  | .pmmAllocPage => { s with tables := s.tables.allocPage.1 }

def USER_START : Nat := 16 * 1024 * 1024

/-- Directories are ones that were made; addresses are aligned, inside memory and not below
16 MB. -/
def proper (s : AddressSpaces) : PagingOp → Prop
  | .pagingMapUserCode dir v p size => dir ∈ s.directories ∧ v % PAGE_SIZE = 0 ∧ p % PAGE_SIZE = 0 ∧
    USER_START ≤ v ∧ v + size ≤ 2 ^ 32 - 4096 ∧ p + size ≤ 2 ^ 32 - 4096
  | .pagingUnmapPage v => USER_START ≤ v
  | .pagingSwitchDirectory dir => dir ∈ s.directories
  | _ => True

/-- No allocation fails. -/
def allowed (img : Image) (s : AddressSpaces) (op : PagingOp) : Prop :=
  s.proper op ∧ (s.step img op).tables.refused = s.tables.refused

end AddressSpaces

def rounded (size : Nat) : Nat := (size + PAGE_SIZE - 1) / PAGE_SIZE * PAGE_SIZE

/-- What the next call does to the translations. -/
structure SpaceLaw (img : Image) (s : AddressSpaces) : Prop where
  kernel : ∀ d ∈ s.directories, ∀ a < AddressSpaces.USER_START, translate s.tables d a = a
  map : ∀ dir v p size, s.allowed img (.pagingMapUserCode dir v p size) →
    let t := (s.step img (.pagingMapUserCode dir v p size)).tables
    t.current = s.tables.current ∧ (∀ k < rounded size, translate t dir (v + k) = p + k) ∧
      (∀ a, a < v ∨ v + rounded size ≤ a → translate t dir a = translate s.tables dir a) ∧
      ∀ d ∈ s.directories, d ≠ dir → ∀ a, translate t d a = translate s.tables d a
  unmap : ∀ v, s.allowed img (.pagingUnmapPage v) →
    let t := (s.step img (.pagingUnmapPage v)).tables
    t.current = s.tables.current ∧ (∀ a, a / PAGE_SIZE = v / PAGE_SIZE → translate t s.tables.current a = 0) ∧
      (∀ a, a / PAGE_SIZE ≠ v / PAGE_SIZE →
        translate t s.tables.current a = translate s.tables s.tables.current a) ∧
      ∀ d ∈ s.directories, d ≠ s.tables.current → ∀ a, translate t d a = translate s.tables d a
  create : s.allowed img .pagingCreateUserDirectory →
    let t := s.step img .pagingCreateUserDirectory
    t.tables.current = s.tables.current ∧
      (∀ d ∈ s.directories, ∀ a, translate t.tables d a = translate s.tables d a) ∧
      ∃ d, d ∉ s.directories ∧ t.directories = d :: s.directories ∧
        ∀ a, AddressSpaces.USER_START ≤ a → translate t.tables d a = 0

section Runs

variable {img : Image} {s : AddressSpaces}

theorem translate_congr {t t' : PageTables} {d d' a : Nat}
    (same : frameAt t d (a / PAGE_SIZE) = frameAt t' d' (a / PAGE_SIZE)) : translate t d a = translate t' d' a := by
  rw [translate_eq, translate_eq, same]

theorem translate_of_frame {t : PageTables} {d a f : Nat} (frame : frameAt t d (a / PAGE_SIZE) = some f) :
    translate t d a = f + a % PAGE_SIZE := by
  rw [translate_eq, frame]
  rfl

theorem translate_of_none {t : PageTables} {d a : Nat} (frame : frameAt t d (a / PAGE_SIZE) = none) :
    translate t d a = 0 := by
  rw [translate_eq, frame]
  rfl

def AddressSpaces.Sound (img : Image) (s : AddressSpaces) : Prop := Spaces img s.tables { d | d ∈ s.directories }

theorem map_law (h : s.Sound img) {dir v p size : Nat} (ok : s.allowed img (.pagingMapUserCode dir v p size)) :
    let t := (s.step img (.pagingMapUserCode dir v p size)).tables
    t.current = s.tables.current ∧ (∀ k < rounded size, translate t dir (v + k) = p + k) ∧
      (∀ a, a < v ∨ v + rounded size ≤ a → translate t dir a = translate s.tables dir a) ∧
      ∀ d ∈ s.directories, d ≠ dir → ∀ a, translate t d a = translate s.tables d a := by
  obtain ⟨⟨made, alignedV, alignedP, high, smallV, smallP⟩, given⟩ := ok
  have user : 4096 ≤ v / PAGE_SIZE := by
    simp only [AddressSpaces.USER_START, PAGE_SIZE] at *
    omega
  obtain ⟨-, current, frames⟩ := h.mapUserCode made user alignedV alignedP smallV smallP given
  refine ⟨current, fun k inside => ?_, fun a outside => ?_, fun d dir other a => ?_⟩
  · have page : (v + k) / PAGE_SIZE = v / PAGE_SIZE + k / PAGE_SIZE := by
      simp only [PAGE_SIZE] at *
      omega
    have offset : (v + k) % PAGE_SIZE = k % PAGE_SIZE := by
      simp only [PAGE_SIZE] at *
      omega
    have mine : dir = dir ∧ v / PAGE_SIZE ≤ (v + k) / PAGE_SIZE ∧
        (v + k) / PAGE_SIZE < v / PAGE_SIZE + (size + PAGE_SIZE - 1) / PAGE_SIZE := by
      rw [page]
      refine ⟨rfl, Nat.le_add_right _ _, ?_⟩
      simp only [rounded, PAGE_SIZE] at inside ⊢
      omega
    have frame := frames dir made ((v + k) / PAGE_SIZE)
    rw [if_pos mine] at frame
    refine (translate_of_frame frame).trans ?_
    rw [page, offset, Nat.add_sub_cancel_left]
    simp only [PAGE_SIZE]
    omega
  · have away : ¬(dir = dir ∧ v / PAGE_SIZE ≤ a / PAGE_SIZE ∧
        a / PAGE_SIZE < v / PAGE_SIZE + (size + PAGE_SIZE - 1) / PAGE_SIZE) := by
      simp only [rounded, PAGE_SIZE] at *
      omega
    have frame := frames dir made (a / PAGE_SIZE)
    rw [if_neg away] at frame
    exact translate_congr frame
  · have frame := frames d dir (a / PAGE_SIZE)
    rw [if_neg fun here => other here.1] at frame
    exact translate_congr frame

theorem unmap_law (h : s.Sound img) {v : Nat} (ok : s.allowed img (.pagingUnmapPage v)) :
    let t := (s.step img (.pagingUnmapPage v)).tables
    t.current = s.tables.current ∧ (∀ a, a / PAGE_SIZE = v / PAGE_SIZE → translate t s.tables.current a = 0) ∧
      (∀ a, a / PAGE_SIZE ≠ v / PAGE_SIZE →
        translate t s.tables.current a = translate s.tables s.tables.current a) ∧
      ∀ d ∈ s.directories, d ≠ s.tables.current → ∀ a, translate t d a = translate s.tables d a := by
  have high : AddressSpaces.USER_START ≤ v := ok.1
  obtain ⟨-, current, frames⟩ := h.unmapPage (v := v) (by
    simp only [AddressSpaces.USER_START, PAGE_SIZE] at *
    omega)
  refine ⟨current, fun a here => ?_, fun a other => ?_, fun d dir other a => ?_⟩
  · have frame := frames _ h.current (a / PAGE_SIZE)
    rw [if_pos ⟨rfl, here⟩] at frame
    exact translate_of_none frame
  · have frame := frames _ h.current (a / PAGE_SIZE)
    rw [if_neg fun both => other both.2] at frame
    exact translate_congr frame
  · have frame := frames d dir (a / PAGE_SIZE)
    rw [if_neg fun both => other both.1] at frame
    exact translate_congr frame

theorem create_law (h : s.Sound img) (ok : s.allowed img .pagingCreateUserDirectory) :
    let t := s.step img .pagingCreateUserDirectory
    t.Sound img ∧ t.tables.current = s.tables.current ∧
      (∀ d ∈ s.directories, ∀ a, translate t.tables d a = translate s.tables d a) ∧
      ∃ d, d ∉ s.directories ∧ t.directories = d :: s.directories ∧
        ∀ a, AddressSpaces.USER_START ≤ a → translate t.tables d a = 0 := by
  obtain ⟨new, taken, spaces, current, old, empty⟩ := h.create ok.2
  have there : (pagingCreateUserDirectory img s.tables).2 ≠ 0 := by
    intro zero
    have high := taken.1.1
    rw [zero] at high
    exact absurd high (by decide)
  have dirs : (s.step img .pagingCreateUserDirectory).directories =
      (pagingCreateUserDirectory img s.tables).2 :: s.directories := if_neg there
  have set : { d | d ∈ (s.step img .pagingCreateUserDirectory).directories } =
      insert (pagingCreateUserDirectory img s.tables).2 { d | d ∈ s.directories } := by
    ext d
    rw [Set.mem_ofPred_eq, dirs, List.mem_cons]
    rfl
  refine ⟨?_, current, fun d dir a => translate_congr (old d dir _), _, new, dirs, fun a high => ?_⟩
  · rw [AddressSpaces.Sound, set]
    exact spaces
  · refine translate_of_none (empty _ ?_)
    simp only [AddressSpaces.USER_START, PAGE_SIZE] at *
    omega

theorem Sound.law (h : s.Sound img) : SpaceLaw img s where
  kernel := by
    intro d dir a low
    have page : a / PAGE_SIZE < 4096 := by
      simp only [AddressSpaces.USER_START, PAGE_SIZE] at *
      omega
    rw [translate_of_frame (h.frameAt_low dir page), Nat.div_add_mod']
  map := fun _ _ _ _ ok => map_law h ok
  unmap := fun _ ok => unmap_law h ok
  create := fun ok => (create_law h ok).2

theorem Sound.step (h : s.Sound img) {op : PagingOp} (ok : s.allowed img op) : (s.step img op).Sound img := by
  cases op with
  | pagingCreateUserDirectory => exact (create_law h ok).1
  | pagingMapUserCode dir v p size =>
    obtain ⟨⟨made, alignedV, alignedP, high, smallV, smallP⟩, given⟩ := ok
    refine (h.mapUserCode made ?_ alignedV alignedP smallV smallP given).1
    simp only [AddressSpaces.USER_START, PAGE_SIZE] at *
    omega
  | pagingUnmapPage v =>
    have high : AddressSpaces.USER_START ≤ v := ok.1
    refine (h.unmapPage ?_).1
    simp only [AddressSpaces.USER_START, PAGE_SIZE] at *
    omega
  | pagingSwitchDirectory dir => exact h.switch ok.1
  | pmmAllocPage => exact (h.allocPage ok.2).2.2.1

theorem init_sound (img : Image) {s : PageTables} (kept : Kept s.pmm) : (AddressSpaces.init img s).Sound img := by
  have only : { d | d ∈ (AddressSpaces.init img s).directories } = {img.kernelDirectory} := by
    ext d
    exact List.mem_singleton
  rw [AddressSpaces.Sound, only]
  exact pagingInit_spaces img kept

end Runs

section Room

def Room (n : Nat) (s : PageTables) : Prop := Kept s.pmm ∧ n ≤ Bitmap.clearCount s.pmm.pageBitmap TOTAL_PAGES

variable {s : PageTables} {n : Nat}

theorem Room.allocPage (h : Room (n + 1) s) :
    s.allocPage.2 ≠ 0 ∧ s.allocPage.1.refused = s.refused ∧ Room n s.allocPage.1 := by
  obtain ⟨there, left⟩ := h.1.allocPage_room h.2
  exact ⟨there, if_neg there, h.1.allocPage.2, left⟩

theorem Room.create (img : Image) (h : Room (n + 1) s) :
    (pagingCreateUserDirectory img s).2 ≠ 0 ∧ (pagingCreateUserDirectory img s).1.refused = s.refused ∧
      Room n (pagingCreateUserDirectory img s).1 := by
  obtain ⟨there, given, left⟩ := h.allocPage
  have result : ∃ entries, pagingCreateUserDirectory img s =
      ({ s.allocPage.1 with entries := entries }, s.allocPage.2) := ⟨_, if_neg there⟩
  obtain ⟨entries, result⟩ := result
  rw [result]
  exact ⟨there, given, left⟩

theorem Room.mapPage (h : Room (n + 1) s) (v p flags : Nat) :
    (pagingMapPage s v p flags).refused = s.refused ∧ Room n (pagingMapPage s v p flags) := by
  obtain ⟨there, given, left⟩ := h.allocPage
  rw [pagingMapPage, Paging.pageTable]
  by_cases absent : s.entries s.current (getPageDirIndex v) &&& PAGE_PRESENT = 0
  · simp only [if_pos absent, if_neg there]
    exact ⟨given, left⟩
  · simp only [if_neg absent]
    exact ⟨rfl, h.1, Nat.le_of_succ_le h.2⟩

theorem Room.mapUserCode (h : Room (n + 1) s) (d v p : Nat) :
    (pagingMapUserCode s d v p PAGE_SIZE).refused = s.refused ∧ Room n (pagingMapUserCode s d v p PAGE_SIZE) :=
  Room.mapPage (s := pagingSwitchDirectory s d) h _ _ _

end Room

/-- In every run the directories are independent maps with a common kernel part. -/
theorem paging_runs_isolated (img : Image) (p0 : PageMap) (s0 : PageTables) (boot : List PageOp)
    (ops : List PagingOp) (s : AddressSpaces)
    (pages : Exec PageMap.allowed PageMap.step (pmmInit p0) boot s0.pmm)
    (run : Exec (AddressSpaces.allowed img) (AddressSpaces.step img) (AddressSpaces.init img s0) ops s) :
    SpaceLaw img s := by
  have kept := pages.invariant (fun _ _ kept ok => Kept.step kept ok) (pmmInit_kept p0)
  exact Sound.law (run.invariant (fun _ _ h ok => Sound.step h ok) (init_sound img kept))

theorem AddressSpaces.init_pmm (img : Image) (s : PageTables) : (AddressSpaces.init img s).tables.pmm = s.pmm := by
  obtain ⟨r, mapped, result⟩ := pagingInit_mapped img s
  rw [AddressSpaces.init, result]
  exact mapped.pmm

def placedImage : Image := ⟨0x20000, 0x21000, by decide, by decide, by decide, by decide, by decide, by decide⟩

def blankTables : PageTables := ⟨pmmInit ⟨fun _ => 0, 0⟩, fun _ _ => 0, 0, 0⟩

theorem blank_room : Room 2 (AddressSpaces.init placedImage blankTables).tables := by
  rw [Room, AddressSpaces.init_pmm]
  refine ⟨pmmInit_kept _, ?_⟩
  rw [← freePages, blankTables, pmmInit_freePages]
  decide

theorem pagingUnmapPage_refused (s : PageTables) (v : Nat) : (pagingUnmapPage s v).refused = s.refused := by
  rw [pagingUnmapPage]
  split <;> rfl

/-- A new directory, with a page that is mapped in it and taken out again. -/
def mapOnce (dir : Nat) : List PagingOp :=
  [.pagingCreateUserDirectory, .pagingMapUserCode dir 0x40000000 0x300000 PAGE_SIZE, .pagingSwitchDirectory dir,
    .pagingUnmapPage 0x40000000]

theorem mapOnce_run {img : Image} {s : AddressSpaces} (room : Room 2 s.tables) :
    let ops := mapOnce (pagingCreateUserDirectory img s.tables).2
    Exec (AddressSpaces.allowed img) (AddressSpaces.step img) s ops (ops.foldl (AddressSpaces.step img) s) := by
  intro ops
  obtain ⟨there, given, left⟩ := room.create img
  obtain ⟨given', -⟩ := left.mapUserCode (pagingCreateUserDirectory img s.tables).2 0x40000000 0x300000
  have made : (pagingCreateUserDirectory img s.tables).2 ∈ (s.step img .pagingCreateUserDirectory).directories := by
    rw [AddressSpaces.step]
    dsimp only
    rw [if_neg there]
    exact List.mem_cons_self
  refine .cons ⟨trivial, given⟩ (.cons ⟨⟨made, by decide⟩, given'⟩ (.cons ⟨made, rfl⟩ (.cons ⟨?_, ?_⟩ (.nil _))))
  · exact (by decide : AddressSpaces.USER_START ≤ 0x40000000)
  · exact pagingUnmapPage_refused ..

theorem paging_runs_isolated_first :
    let s0 := AddressSpaces.init placedImage blankTables
    SpaceLaw placedImage
      ((mapOnce (pagingCreateUserDirectory placedImage s0.tables).2).foldl (AddressSpaces.step placedImage) s0) := by
  exact paging_runs_isolated placedImage ⟨fun _ => 0, 0⟩ blankTables [] _ _ (.nil _) (mapOnce_run blank_room)

end Wittche.Paging
