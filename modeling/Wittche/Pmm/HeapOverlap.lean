import Wittche.Lib.Execution
import Wittche.Heap.Model
import Wittche.Pmm.Search

/-! The page allocator and the kernel heap over one physical address space.
`pmm_init` reserves the memory below `KERNEL_END` and nothing else, and the heap
starts there: the first allocation that can be met is served from the heap area. -/

namespace Wittche.Pmm
open Bytes Heap Execution

inductive MemoryOp where
  | pmmAllocPage
  | pmmAllocPages (count : Nat)
  | pmmFreePage (addr : Nat)
  | pmmFreePages (addr count : Nat)
  | kmalloc (size : Word)
  | kfree (ptr : Nat)

/-- Both allocators, and every range of pages the first has handed out so far. -/
structure MemoryState where
  pmm : PageMap
  heap : KernelHeap
  handed : List (Nat × Nat)

def MemoryState.init (p : PageMap) (m : Buffer) : MemoryState := ⟨pmmInit p, heapInit m, []⟩

/-- The state after an allocation of `count` pages that returned the address `r.2`. -/
def MemoryState.hand (s : MemoryState) (count : Nat) (r : PageMap × Nat) : MemoryState :=
  { s with pmm := r.1, handed := if r.2 = 0 then s.handed else (r.2, count) :: s.handed }

def MemoryState.step (s : MemoryState) : MemoryOp → MemoryState
  | .pmmAllocPage => s.hand 1 (Pmm.pmmAllocPage s.pmm)
  | .pmmAllocPages count => s.hand count ((Pmm.pmmAllocPages s.pmm count).getD (s.pmm, 0))
  | .pmmFreePage addr => { s with pmm := Pmm.pmmFreePage s.pmm addr }
  | .pmmFreePages addr count => { s with pmm := Pmm.pmmFreePages s.pmm addr count }
  | .kmalloc size => { s with heap := (Heap.kmalloc s.heap size).1 }
  | .kfree ptr => { s with heap := Heap.kfree s.heap ptr }

def MemoryState.allowed (_ : MemoryState) : MemoryOp → Prop
  | .pmmAllocPages count => count ≤ TOTAL_PAGES
  | _ => True

def ClearOfHeap (range : Nat × Nat) : Prop :=
  range.1 + range.2 * PAGE_SIZE ≤ HEAP_START ∨ HEAP_END ≤ range.1

/-- A request for pages that the memory behind the kernel can hold. -/
def MemoryOp.canBeMet : MemoryOp → Prop
  | .pmmAllocPage => True
  | .pmmAllocPages count => 1 ≤ count ∧ count ≤ TOTAL_PAGES - KERNEL_END / PAGE_SIZE
  | _ => False

def OnlyKernel (p : PageMap) : Prop :=
  ∀ k < TOTAL_PAGES, bitmapTest p k = decide (k < KERNEL_END / PAGE_SIZE)

theorem OnlyKernel.freePage {p : PageMap} (h : OnlyKernel p) (addr : Nat) :
    Pmm.pmmFreePage p addr = p := by
  unfold Pmm.pmmFreePage
  split
  · rfl
  next inside =>
    split
    · rfl
    next high =>
      have page := h (addr / PAGE_SIZE) (by
        simp only [TOTAL_PAGES, MEMORY_SIZE, PAGE_SIZE] at *
        omega)
      have free : ¬addr / PAGE_SIZE < KERNEL_END / PAGE_SIZE := by
        simp only [KERNEL_END, PAGE_SIZE] at *
        omega
      simp [page, free]

theorem OnlyKernel.freePages {p : PageMap} (h : OnlyKernel p) (addr n i : Nat) :
    freePagesFrom p addr n i = p := by
  induction n generalizing i with
  | zero => rfl
  | succ n ih => rw [freePagesFrom, h.freePage, ih]

theorem OnlyKernel.freeRun {p : PageMap} (h : OnlyKernel p) {count i : Nat} (pos : 1 ≤ count)
    (inside : i + count ≤ TOTAL_PAGES) : FreeRun p count i ↔ KERNEL_END / PAGE_SIZE ≤ i := by
  constructor
  · intro run
    have free := run i (le_refl _) (by omega)
    rw [h i (by omega)] at free
    simpa using free
  · intro high k lo hi
    rw [h k (by omega)]
    simp only [decide_eq_false_iff_not]
    omega

theorem OnlyKernel.allocPage {p : PageMap} (h : OnlyKernel p) :
    (Pmm.pmmAllocPage p).2 = HEAP_START := by
  have pages : TOTAL_PAGES = 4096 := by decide
  have kernel : KERNEL_END / PAGE_SIZE = 512 := by decide
  have found : Bitmap.findClear p.pageBitmap TOTAL_PAGES = some 512 := by
    cases search : Bitmap.findClear p.pageBitmap TOTAL_PAGES with
    | none =>
      have taken := Bitmap.findClear_none.mp search 512 (by omega)
      have free := h 512 (by omega)
      rw [bitmapTest, taken, kernel] at free
      exact absurd free (by decide)
    | some k =>
      obtain ⟨lt, clear, below⟩ := Bitmap.findClear_some search
      have bit : ∀ j < TOTAL_PAGES, Bitmap.test p.pageBitmap j = decide (j < 512) := h
      have high : ¬k < 512 := by
        intro low
        rw [bit k lt] at clear
        simp [low] at clear
      have low : ¬512 < k := by
        intro high'
        have taken := below 512 high'
        rw [bit 512 (by omega)] at taken
        exact absurd taken (by decide)
      rw [show k = 512 by omega]
  simp [Pmm.pmmAllocPage, findFreePage, found, NO_PAGE, PAGE_SIZE, HEAP_START]

theorem OnlyKernel.allocPages {p : PageMap} (h : OnlyKernel p) {count : Nat} (pos : 1 ≤ count)
    (le : count ≤ TOTAL_PAGES) :
    ∃ q, Pmm.pmmAllocPages p count = some (q,
      if count ≤ TOTAL_PAGES - KERNEL_END / PAGE_SIZE then HEAP_START else 0) ∧
      (¬count ≤ TOTAL_PAGES - KERNEL_END / PAGE_SIZE → q = p) := by
  have pages : TOTAL_PAGES = 4096 := by decide
  have kernel : KERNEL_END / PAGE_SIZE = 512 := by decide
  obtain ⟨r, search, found⟩ := findFreePages_least (p := p) pos le
  rw [Pmm.pmmAllocPages, if_neg (by omega), search, Option.map_some]
  rcases found with ⟨inside, run, least⟩ | ⟨rfl, none⟩
  · have high := (h.freeRun pos (by omega)).mp run
    have first : r = 512 := by
      by_contra ne
      refine least 512 (by omega) ((h.freeRun pos (by omega)).mpr (by omega))
    have fits : count ≤ TOTAL_PAGES - KERNEL_END / PAGE_SIZE := by omega
    subst first
    rw [if_pos fits]
    exact ⟨takePages p 512 count 0, by simp [NO_PAGE, PAGE_SIZE, HEAP_START],
      fun no => absurd fits no⟩
  · have large : ¬count ≤ TOTAL_PAGES - KERNEL_END / PAGE_SIZE := by
      intro fits
      exact none 512 (by omega) ((h.freeRun pos (by omega)).mpr (by omega))
    exact ⟨p, by simp [large], fun _ => rfl⟩

theorem step_of_not_canBeMet {s : MemoryState} (h : OnlyKernel s.pmm) {op : MemoryOp}
    (ok : s.allowed op) (no : ¬op.canBeMet) :
    (s.step op).pmm = s.pmm ∧ (s.step op).handed = s.handed := by
  cases op with
  | pmmAllocPage => exact absurd trivial no
  | pmmAllocPages count =>
    by_cases zero : count = 0
    · simp [MemoryState.step, MemoryState.hand, Pmm.pmmAllocPages, zero]
    · simp only [MemoryOp.canBeMet, not_and] at no
      obtain ⟨q, result, same⟩ := h.allocPages (by omega) ok
      have large := no (by omega)
      rw [if_neg large] at result
      simp [MemoryState.step, MemoryState.hand, result, same large]
  | pmmFreePage addr => exact ⟨h.freePage addr, rfl⟩
  | pmmFreePages addr count => exact ⟨h.freePages addr count 0, rfl⟩
  | kmalloc size => exact ⟨rfl, rfl⟩
  | kfree ptr => exact ⟨rfl, rfl⟩

theorem step_of_canBeMet {s : MemoryState} (h : OnlyKernel s.pmm) {op : MemoryOp}
    (can : op.canBeMet) : ∃ count, 1 ≤ count ∧ (HEAP_START, count) ∈ (s.step op).handed := by
  cases op with
  | pmmAllocPage =>
    have result := h.allocPage
    have high : HEAP_START ≠ 0 := by decide
    exact ⟨1, le_refl _, by simp [MemoryState.step, MemoryState.hand, result, high]⟩
  | pmmAllocPages count =>
    obtain ⟨pos, fits⟩ := can
    obtain ⟨q, result, -⟩ := h.allocPages pos (fits.trans (Nat.sub_le _ _))
    have high : HEAP_START ≠ 0 := by decide
    rw [if_pos fits] at result
    exact ⟨count, pos, by simp [MemoryState.step, MemoryState.hand, result, high]⟩
  | pmmFreePage addr => exact absurd can id
  | pmmFreePages addr count => exact absurd can id
  | kmalloc size => exact absurd can id
  | kfree ptr => exact absurd can id

theorem handed_grows {s t : MemoryState} {ops : List MemoryOp}
    (run : Exec MemoryState.allowed MemoryState.step s ops t) {range : Nat × Nat}
    (mem : range ∈ s.handed) : range ∈ t.handed := by
  have keep : ∀ (s : MemoryState) op, range ∈ s.handed → s.allowed op → range ∈ (s.step op).handed := by
    intro s op mem _
    cases op <;> simp only [MemoryState.step, MemoryState.hand] <;> try exact mem
    all_goals
      split
      · exact mem
      · exact List.mem_cons_of_mem _ mem
  exact run.invariant keep mem

theorem start_not_clear {count : Nat} (pos : 1 ≤ count) : ¬ClearOfHeap (HEAP_START, count) := by
  simp only [ClearOfHeap, HEAP_START, HEAP_END, HEAP_SIZE, PAGE_SIZE]
  omega

theorem runs_clear_iff {s t : MemoryState} {ops : List MemoryOp} (h : OnlyKernel s.pmm)
    (clear : ∀ range ∈ s.handed, ClearOfHeap range)
    (run : Exec MemoryState.allowed MemoryState.step s ops t) :
    (∀ range ∈ t.handed, ClearOfHeap range) ↔ ∀ op ∈ ops, ¬op.canBeMet := by
  induction run with
  | nil s => simpa using clear
  | @cons s op ops t ok rest ih =>
    by_cases can : op.canBeMet
    · obtain ⟨count, pos, mem⟩ := step_of_canBeMet h can
      constructor
      · intro all
        exact absurd (all _ (handed_grows rest mem)) (start_not_clear pos)
      · intro none
        exact absurd can (none op (by simp))
    · obtain ⟨samePmm, sameHanded⟩ := step_of_not_canBeMet h ok can
      rw [ih (samePmm ▸ h) (sameHanded ▸ clear)]
      simp [can]

/-- Pages stay clear of the heap exactly in the runs that never ask for pages the
memory behind the kernel can hold. -/
theorem pmm_pages_clear_of_heap_iff (p : PageMap) (m : Buffer) (ops : List MemoryOp)
    (s : MemoryState)
    (run : Exec MemoryState.allowed MemoryState.step (MemoryState.init p m) ops s) :
    (∀ range ∈ s.handed, ClearOfHeap range) ↔ ∀ op ∈ ops, ¬op.canBeMet := by
  have kernel : OnlyKernel (pmmInit p) := fun _ hk => pmmInit_test p hk
  exact runs_clear_iff (s := MemoryState.init p m) kernel (by simp [MemoryState.init]) run

/-- A run that asks for too much, and so hands out nothing. -/
theorem pmm_pages_clear_of_heap_oversized :
    (∀ op ∈ [MemoryOp.pmmAllocPages 4000], ¬op.canBeMet) ∧
      ∀ range ∈ ((MemoryState.init ⟨fun _ => 0, 0⟩ fun _ => 0).step (.pmmAllocPages 4000)).handed,
        ClearOfHeap range := by
  have none : ∀ op ∈ [MemoryOp.pmmAllocPages 4000], ¬op.canBeMet := by
    simp [MemoryOp.canBeMet, TOTAL_PAGES, KERNEL_END, MEMORY_SIZE, PAGE_SIZE]
  exact ⟨none, (pmm_pages_clear_of_heap_iff ⟨fun _ => 0, 0⟩ (fun _ => 0) [.pmmAllocPages 4000] _
    (.cons (show 4000 ≤ TOTAL_PAGES by decide) (.nil _))).mpr none⟩

theorem first_page (p : PageMap) (m : Buffer) :
    (HEAP_START, 1) ∈ ((MemoryState.init p m).step .pmmAllocPage).handed := by
  have kernel : OnlyKernel (pmmInit p) := fun _ hk => pmmInit_test p hk
  have result := kernel.allocPage
  have high : HEAP_START ≠ 0 := by decide
  simp [MemoryState.step, MemoryState.hand, MemoryState.init, result, high]

/-- One `pmm_alloc_page` after boot returns the page of the first heap header. -/
theorem first_page_is_heap_start :
    ∃ s, Exec MemoryState.allowed MemoryState.step (MemoryState.init ⟨fun _ => 0, 0⟩ fun _ => 0)
      [.pmmAllocPage] s ∧ (HEAP_START, 1) ∈ s.handed ∧ s.heap.head = HEAP_START ∧
      ¬ClearOfHeap (HEAP_START, 1) :=
  ⟨_, .cons trivial (.nil _), first_page _ _, rfl, start_not_clear (le_refl _)⟩

end Wittche.Pmm
