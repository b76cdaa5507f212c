import Wittche.Paging.Scarcity
import Wittche.Paging.UserAccess
import Wittche.Process.UserRuns

/-! User mode when pages run short. `paging_map_page` needs a page for a table now and then,
and returns without a word if there is none; `page_fault_handler` and
`process_create_user_mode` go on as if the page were mapped. -/

namespace Wittche.Process
open Bytes CString Heap Pmm Paging Tables Execution

def Demanded (s : Kernel) (cr2 errorCode : Nat) : Prop :=
  errorCode &&& 0x1 = 0 ∧ (errorCode &&& 0x8) >>> 3 = 0 ∧ s.processes.current ≠ 0 ∧
    (s.processes.pcb s.processes.current).isUserMode ≠ 0 ∧
    (USER_STACK_BASE - 1024 * 1024 ≤ cr2 ∧ cr2 < USER_STACK_BASE ∨
      USER_CODE_BASE + 256 * 1024 ≤ cr2 ∧ cr2 < USER_STACK_BASE)

/-- `page_fault_handler` returns; otherwise it halts. -/
def Returns (s : Kernel) (cr2 errorCode : Nat) : Prop := Demanded s cr2 errorCode ∧ s.tables.allocPage.2 ≠ 0

def faultDirectory (s : Kernel) : Nat := (s.processes.pcb s.processes.current).pageDirectory

/-- The fault at `cr2` is resolved with the page `f`, which was free, and with a new table if
there was none. -/
structure Resolved (s t : PageTables) (dirs : Set Nat) (d cr2 f : Nat) : Prop where
  page : translate t d cr2 = f + cr2 % PAGE_SIZE
  free : Freeable f ∧ bitmapTest s.pmm (f / PAGE_SIZE) = false
  others : ∀ d' ∈ dirs, ∀ a, ¬(d' = d ∧ a / PAGE_SIZE = cr2 / PAGE_SIZE) → translate t d' a = translate s d' a
  taken : ∀ k, bitmapTest s.pmm k = false ∧ bitmapTest t.pmm k = true ↔ k = f / PAGE_SIZE ∨
    follow (s.entries d (getPageDirIndex cr2)) = none ∧
      ∃ table, follow (t.entries d (getPageDirIndex cr2)) = some table ∧ k = table / PAGE_SIZE

/-- The page table work of `page_fault_handler`. -/
def demandPage (s : PageTables) (d cr2 : Nat) : PageTables :=
  pagingMapUserCode s.allocPage.1 d (cr2 &&& 0xFFFFF000) s.allocPage.2 PAGE_SIZE

theorem page_aligned {a : Nat} (small : a < 2 ^ 32) : (a &&& 0xFFFFF000) < 2 ^ 32 ∧ (a &&& 0xFFFFF000) % PAGE_SIZE = 0 ∧
    (a &&& 0xFFFFF000) / PAGE_SIZE = a / PAGE_SIZE ∧ getPageDirIndex (a &&& 0xFFFFF000) = getPageDirIndex a := by
  have eq := and_frame a
  rw [Nat.mod_eq_of_lt small] at eq
  have page : (a &&& 0xFFFFF000) / PAGE_SIZE = a / PAGE_SIZE := by
    rw [eq]
    exact Nat.mul_div_cancel _ (by decide)
  refine ⟨?_, ?_, page, ?_⟩
  · rw [eq]
    omega
  · rw [eq]
    exact Nat.mul_mod_left _ _
  · rw [getPageDirIndex_eq, getPageDirIndex_eq, page]

theorem newly_taken {p q : PageMap} {page : Nat} (clear : bitmapTest p page = false)
    (bits : ∀ k, bitmapTest q k = (decide (k = page) || bitmapTest p k)) (k : Nat) :
    bitmapTest p k = false ∧ bitmapTest q k = true ↔ k = page := by
  rw [bits, Bool.or_eq_true, decide_eq_true_eq]
  constructor
  · rintro ⟨free, here | taken⟩
    · exact here
    · exact Bool.noConfusion (free.symm.trans taken)
  · rintro rfl
    exact ⟨clear, Or.inl rfl⟩

section Demand

variable {img : Image} {s : PageTables} {dirs : Set Nat} {d cr2 : Nat} (spaces : Spaces img s dirs) (mine : d ∈ dirs)
  (low : USER_CODE_BASE ≤ cr2) (high : cr2 < USER_STACK_BASE) (there : s.allocPage.2 ≠ 0)

include spaces mine low high there

theorem demandPage_frames (given : (demandPage s d cr2).refused = s.refused) {d' : Nat} (dir' : d' ∈ dirs) (m : Nat) :
    frameAt (demandPage s d cr2) d' m =
      if d' = d ∧ m = cr2 / PAGE_SIZE then some s.allocPage.2 else frameAt s d' m := by
  obtain ⟨-, alignedV, page, -⟩ := page_aligned (high.trans (by decide))
  obtain ⟨ok, granted, -, -⟩ := allocPage_given spaces.kept there
  obtain ⟨-, -, more, -, -⟩ := spaces.allocPage granted
  have user : 4096 ≤ (cr2 &&& 0xFFFFF000) / PAGE_SIZE := by
    rw [page]
    simp only [USER_CODE_BASE, PAGE_SIZE] at *
    omega
  have smallV : (cr2 &&& 0xFFFFF000) + PAGE_SIZE ≤ 2 ^ 32 - PAGE_SIZE := by
    simp only [USER_STACK_BASE, PAGE_SIZE] at *
    omega
  obtain ⟨-, -, frames⟩ := more.mapUserCode mine user alignedV ok.2.2 smallV (freeable_fits ok) (given.trans granted.symm)
  have one : (PAGE_SIZE + PAGE_SIZE - 1) / PAGE_SIZE = 1 := by decide
  have range : cr2 / PAGE_SIZE ≤ m ∧ m < cr2 / PAGE_SIZE + 1 ↔ m = cr2 / PAGE_SIZE := by omega
  rw [demandPage, frames d' dir' m, page, one]
  simp only [range]
  split
  next here => rw [here.2, Nat.sub_self, Nat.zero_mul, Nat.add_zero]
  next => rfl

omit low in
/-- The three ends of demand paging: the table is there, it is new, or there is no page for it. -/
theorem demandPage_cases :
    (∃ t, follow (s.entries d (getPageDirIndex cr2)) = some t ∧ (demandPage s d cr2).refused = s.refused ∧
      (demandPage s d cr2).pmm = s.allocPage.1.pmm) ∨
    follow (s.entries d (getPageDirIndex cr2)) = none ∧
      (freePages s.pmm ≠ 1 ∧ (demandPage s d cr2).refused = s.refused ∧ s.allocPage.1.allocPage.2 ≠ 0 ∧
        (demandPage s d cr2).pmm = s.allocPage.1.allocPage.1.pmm ∧
        follow ((demandPage s d cr2).entries d (getPageDirIndex cr2)) = some s.allocPage.1.allocPage.2 ∨
      freePages s.pmm = 1 ∧ (demandPage s d cr2).entries = s.entries) := by
  obtain ⟨smallV, -, -, index⟩ := page_aligned (high.trans (by decide))
  obtain ⟨ok, granted, -, -⟩ := allocPage_given spaces.kept there
  obtain ⟨-, -, more, -, -⟩ := spaces.allocPage granted
  have smallP : s.allocPage.2 < 2 ^ 32 := ok.2.1.trans (by decide)
  have first := allocPage_free spaces.kept
  have second := allocPage_free more.kept
  cases table : follow (s.entries d (getPageDirIndex cr2)) with
  | some t =>
    have result : demandPage s d cr2 = s.allocPage.1.setEntry t _ _ :=
      mapUserCode_present smallV smallP (by rw [index]; exact table)
    rw [result]
    exact Or.inl ⟨t, rfl, granted, rfl⟩
  | none =>
    have absent : follow (s.allocPage.1.entries d (getPageDirIndex (cr2 &&& 0xFFFFF000))) = none := by
      rw [index]
      exact table
    refine Or.inr ⟨rfl, ?_⟩
    by_cases none : s.allocPage.1.allocPage.2 = 0
    · have result : demandPage s d cr2 = s.allocPage.1.allocPage.1 := mapUserCode_refused smallV smallP absent none
      rw [result]
      refine Or.inr ⟨?_, rfl⟩
      rw [second.1] at none
      have some : freePages s.pmm ≠ 0 := fun zero => there (first.1.mpr zero)
      omega
    · have result : demandPage s d cr2 = _ := mapUserCode_absent smallV smallP absent none
      obtain ⟨ok', granted', -, -⟩ := allocPage_given more.kept none
      obtain ⟨-, -, -, fresh, -⟩ := more.allocPage granted'
      have away : d ≠ s.allocPage.1.allocPage.2 := fun same => fresh.1 (same ▸ mine)
      rw [result]
      refine Or.inl ⟨fun one => none (second.1.mpr ?_), granted'.trans granted, none, rfl, ?_⟩
      · omega
      · dsimp only
        rw [put_other away, graft_dir fresh mine, index, if_pos ⟨rfl, rfl⟩, follow_newTable ok']

theorem demandPage_resolved_iff : (∃ f, Resolved s (demandPage s d cr2) dirs d cr2 f) ↔
    ¬(freePages s.pmm = 1 ∧ follow (s.entries d (getPageDirIndex cr2)) = none) := by
  obtain ⟨ok, granted, clear, bits⟩ := allocPage_given spaces.kept there
  have new : ∀ k, bitmapTest s.pmm k = false ∧ bitmapTest s.allocPage.1.pmm k = true ↔ k = s.allocPage.2 / PAGE_SIZE :=
    newly_taken clear bits
  have resolved : (demandPage s d cr2).refused = s.refused → (∀ k, bitmapTest s.pmm k = false ∧
      bitmapTest (demandPage s d cr2).pmm k = true ↔ k = s.allocPage.2 / PAGE_SIZE ∨
        follow (s.entries d (getPageDirIndex cr2)) = none ∧ ∃ table,
          follow ((demandPage s d cr2).entries d (getPageDirIndex cr2)) = some table ∧ k = table / PAGE_SIZE) →
      ∃ f, Resolved s (demandPage s d cr2) dirs d cr2 f := by
    intro given taken
    refine ⟨s.allocPage.2, translate_of_frame ?_, ⟨ok, clear⟩, fun d' dir' a other => translate_congr ?_, taken⟩
    · rw [demandPage_frames spaces mine low high there given mine, if_pos ⟨rfl, rfl⟩]
    · rw [demandPage_frames spaces mine low high there given dir', if_neg other]
  rcases demandPage_cases spaces mine high there with
    ⟨t, table, given, pmm⟩ | ⟨table, ⟨more, given, some, pmm, leads⟩ | ⟨last, entries⟩⟩
  · refine iff_of_true (resolved given fun k => ?_) (by simp [table])
    rw [pmm, new]
    simp [table]
  · refine iff_of_true (resolved given fun k => ?_) fun h => more h.1
    obtain ⟨-, -, clear', bits'⟩ := allocPage_given (s := s.allocPage.1) spaces.kept.allocPage.2 some
    simp only [pmm, table, leads, true_and, Option.some.injEq, exists_eq_left']
    rw [← newly_taken clear' bits' k, ← new k, bits' k, bits k]
    -- a page was free before and is taken in the end, so it was taken in the first step or in the second
    cases bitmapTest s.pmm k with
    | true => simp
    | false => by_cases here : k = s.allocPage.2 / PAGE_SIZE <;> simp [here]
  · refine iff_of_false ?_ (not_not.mpr ⟨last, table⟩)
    rintro ⟨f, page, free, -⟩
    have none : frameAt (demandPage s d cr2) d (cr2 / PAGE_SIZE) = none := by
      rw [frameAt, walk, entries, ← getPageDirIndex_eq, table]
      rfl
    rw [translate_of_none none] at page
    have high := free.1.1
    simp only [KERNEL_END] at high
    omega

end Demand

section Fault

variable {img : Image} {s : Kernel} {dirs : Set Nat} {cr2 errorCode : Nat}

theorem Demanded.range (h : Demanded s cr2 errorCode) : USER_CODE_BASE ≤ cr2 ∧ cr2 < USER_STACK_BASE := by
  obtain ⟨-, -, -, -, ⟨low, high⟩ | ⟨low, high⟩⟩ := h
  · simp only [USER_STACK_BASE, USER_CODE_BASE] at *
    omega
  · simp only [USER_STACK_BASE, USER_CODE_BASE] at *
    omega

theorem Returns.result (h : Returns s cr2 errorCode) :
    (s.pageFaultHandler cr2 errorCode).tables = demandPage s.tables (faultDirectory s) cr2 := by
  have result : s.pageFaultHandler cr2 errorCode =
      { s with tables := demandPage s.tables (faultDirectory s) cr2 } := (if_pos h.1).trans (if_neg h.2)
  rw [result]

end Fault

/-- A page fault for which the handler returns is resolved, unless the page for it was the last
one and the directory has no table for the address. -/
theorem returned_fault_resolved_iff (img : Image) (s : Kernel) (dirs : Set Nat) (cr2 errorCode : Nat)
    (spaces : Spaces img s.tables dirs)
    (mine : (s.processes.pcb s.processes.current).isUserMode ≠ 0 → faultDirectory s ∈ dirs) :
    (Returns s cr2 errorCode →
      ∃ f, Resolved s.tables (s.pageFaultHandler cr2 errorCode).tables dirs (faultDirectory s) cr2 f) ↔
    ¬(Demanded s cr2 errorCode ∧ freePages s.tables.pmm = 1 ∧
      follow (s.tables.entries (faultDirectory s) (getPageDirIndex cr2)) = none) := by
  by_cases returns : Returns s cr2 errorCode
  · obtain ⟨low, high⟩ := returns.1.range
    rw [returns.result, demandPage_resolved_iff spaces (mine returns.1.2.2.2.1) low high returns.2]
    simp only [returns, returns.1, true_imp_iff, true_and]
  · refine iff_of_true (fun yes => absurd yes returns) ?_
    rintro ⟨demanded, one, -⟩
    refine returns ⟨demanded, fun none => ?_⟩
    rw [(allocPage_free spaces.kept).1.mp none] at one
    exact absurd one (by decide)

def userTables : PageTables × Nat := pagingCreateUserDirectory placedImage (pagingInit placedImage blankTables)

theorem userTables_spaces : Spaces placedImage userTables.1 {userTables.2, placedImage.kernelDirectory} ∧
    freePages userTables.1.pmm = 3583 ∧ ∀ i ∈ userEntries, follow (userTables.1.entries userTables.2 i) = none := by
  have spaces := pagingInit_spaces placedImage (s := blankTables) (pmmInit_kept _)
  have free : freePages (pagingInit placedImage blankTables).pmm = 3584 := by
    obtain ⟨r, mapped, result⟩ := pagingInit_mapped placedImage blankTables
    have pmm : r.1.pmm = pmmInit ⟨fun _ => 0, 0⟩ := mapped.pmm
    rw [result, pmm, pmmInit_freePages]
    decide
  obtain ⟨-, created, left, empty⟩ := created_spaces spaces (by omega)
  exact ⟨created, left.trans (by omega), empty⟩

def faulting (dir : Nat) (tables : PageTables) : Kernel where
  processes := { powerOn with
    current := 0x300000
    pcb := fun p => { powerOn.pcb p with pid := 1, isUserMode := 1, pageDirectory := dir } }
  tables := tables

theorem faulting_demanded (dir : Nat) (tables : PageTables) : Demanded (faulting dir tables) 0x50000000 6 := by
  rw [Demanded]
  exact ⟨by decide, by decide, Nat.succ_ne_zero _, Nat.one_ne_zero, Or.inr (by decide)⟩

theorem faulting_returns {img : Image} {dir : Nat} {tables : PageTables} {dirs : Set Nat}
    (spaces : Spaces img tables dirs) (some : freePages tables.pmm ≠ 0) : Returns (faulting dir tables) 0x50000000 6 :=
  ⟨faulting_demanded dir tables, fun none => some ((allocPage_free spaces.kept).1.mp none)⟩

theorem faulting_refaults {img : Image} {dir : Nat} {tables : PageTables} {dirs : Set Nat}
    (spaces : Spaces img tables dirs) (mine : dir ∈ dirs) (last : freePages tables.pmm = 1)
    (empty : follow (tables.entries dir (getPageDirIndex 0x50000000)) = none) :
    Returns (faulting dir tables) 0x50000000 6 ∧
      ¬∃ f, Resolved tables ((faulting dir tables).pageFaultHandler 0x50000000 6).tables dirs dir 0x50000000 f := by
  have returns : Returns (faulting dir tables) 0x50000000 6 := faulting_returns spaces (by omega)
  refine ⟨returns, ?_⟩
  rw [returns.result]
  exact fun resolved => (demandPage_resolved_iff spaces mine (by decide) (by decide) returns.2).mp resolved ⟨last, empty⟩

theorem faulting_spaces {img : Image} {tables : PageTables} {dirs : Set Nat} (h : Spaces img tables dirs) (dir : Nat) :
    Spaces img (faulting dir tables).tables dirs := h

theorem faulting_directory (dir : Nat) (tables : PageTables) (dirs : Set Nat) :
    faultDirectory (faulting dir tables) ∈ insert dir dirs := Or.inl rfl

theorem faulting_free {dir : Nat} {tables : PageTables} {cr2 errorCode : Nat} {P : Prop} (many : freePages tables.pmm ≠ 1) :
    ¬(Demanded (faulting dir tables) cr2 errorCode ∧ freePages (faulting dir tables).tables.pmm = 1 ∧ P) :=
  fun h => many h.2.1

theorem returned_fault_resolved_iff_heap :
    let s := faulting userTables.2 userTables.1
    Returns s 0x50000000 6 ∧ ∃ f, Resolved s.tables (s.pageFaultHandler 0x50000000 6).tables
      {userTables.2, placedImage.kernelDirectory} (faultDirectory s) 0x50000000 f := by
  intro s
  obtain ⟨spaces, free, -⟩ := userTables_spaces
  have returns : Returns s 0x50000000 6 := faulting_returns spaces (by omega)
  exact ⟨returns, (returned_fault_resolved_iff placedImage s _ 0x50000000 6 (faulting_spaces spaces _)
    (fun _ => faulting_directory ..)).mpr (faulting_free (by omega)) returns⟩

/-- With one page left the handler takes it and returns, and the address is still not mapped. -/
theorem last_page_faults_again :
    Spaces placedImage (drained userTables.1 3582) {userTables.2, placedImage.kernelDirectory} ∧
      freePages (drained userTables.1 3582).pmm = 1 ∧
      Returns (faulting userTables.2 (drained userTables.1 3582)) 0x50000000 6 ∧
      ¬∃ f, Resolved (drained userTables.1 3582)
        ((faulting userTables.2 (drained userTables.1 3582)).pageFaultHandler 0x50000000 6).tables
        {userTables.2, placedImage.kernelDirectory} userTables.2 0x50000000 f := by
  obtain ⟨spaces, free, empty⟩ := userTables_spaces
  obtain ⟨spaces', free', entries⟩ := drained_spaces spaces (n := 3582) (by omega)
  have last : freePages (drained userTables.1 3582).pmm = 1 := by omega
  refine ⟨spaces', last, faulting_refaults spaces' (Or.inl rfl) last ?_⟩
  rw [entries]
  exact empty _ (getPageDirIndex_user (by decide))

end Wittche.Process
