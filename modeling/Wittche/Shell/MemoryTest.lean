import Wittche.Heap.Canonical
import Wittche.Heap.Realloc
import Wittche.Pmm.Bookkeeping

/-! `cmd_memtest` of `kernel/shell.c`: it takes pages and blocks, writes to one of them, and gives
them back. The heap does not notice; of the pages some may stay behind. -/

namespace Wittche.Shell
open Bytes CString Heap Pmm Segments Execution

def pmmGetFreePages (p : PageMap) : Word := BitVec.ofNat 32 TOTAL_PAGES - p.usedPages

structure Memory where
  heap : KernelHeap
  pmm : PageMap

/-- The numbers of a report. The first one shows the free memory only. -/
structure Statistics where
  freePages : Word
  heapFree : Option Nat
  blocks : Option Nat
  freeBlocks : Option Nat

def Memory.statistics (s : Memory) : Statistics :=
  ⟨pmmGetFreePages s.pmm, heapGetFreeSize s.heap, heapGetBlockCount s.heap, heapGetFreeBlockCount s.heap⟩

inductive MemtestOutput
  | pageFailed (start : Statistics) (got : List Nat)
  | tested (start : Statistics) (pages pointers : List Nat) (during freed : Statistics)

/-- The loop that takes pages, `n` turns of it. It ends at the first page there is not. -/
def takeTestPages : (n : Nat) → PageMap → List Nat → PageMap × List Nat
  | 0, p, pages => (p, pages)
  | n + 1, p, pages =>
    let r := pmmAllocPage p
    if r.2 = 0 then (r.1, pages) else takeTestPages n r.1 (pages ++ [r.2])

/-- What the write test leaves behind `ptr1`: a hundred letters and a NUL. -/
def testPattern : Buffer := fun i => if i < 100 then BitVec.ofNat 8 (0x41 + i % 26) else 0

def writePattern (h : KernelHeap) (ptr : Nat) : KernelHeap :=
  if ptr ≠ 0 then { h with mem := copy h.mem ptr testPattern 101 } else h

def freeTest (h : KernelHeap) (ptr : Nat) : KernelHeap := if ptr ≠ 0 then kfree h ptr else h

def cmdMemtest (s : Memory) : Memory × MemtestOutput :=
  let start := s.statistics
  let (pmm, pages) := takeTestPages 5 s.pmm []
  if pages.length < 5 then (⟨s.heap, pmm⟩, .pageFailed start pages)
  else
    let (heap, ptr1) := kmalloc s.heap 1024
    let (heap, ptr2) := kmalloc heap 2048
    let (heap, ptr3) := kmalloc heap 4096
    let during := Memory.statistics ⟨heap, pmm⟩
    let heap := writePattern heap ptr1
    let heap := freeTest (freeTest (freeTest heap ptr1) ptr2) ptr3
    let pmm := pages.foldl pmmFreePage pmm
    (⟨heap, pmm⟩, .tested start pages [ptr1, ptr2, ptr3] during (Memory.statistics ⟨heap, pmm⟩))

section Pages

variable {p q : PageMap} {pages : List Nat}

structure Took (p q : PageMap) (pages : List Nat) : Prop where
  kept : Pmm.Kept q
  bits : ∀ k, bitmapTest q k = true ↔ bitmapTest p k = true ∨ ∃ a ∈ pages, k = a / PAGE_SIZE
  free : ∀ a ∈ pages, Freeable a ∧ bitmapTest p (a / PAGE_SIZE) = false
  count : freePages q + pages.length = freePages p

theorem Took.none (kept : Pmm.Kept p) : Took p p [] := ⟨kept, fun k => by simp, nofun, Nat.add_zero _⟩

theorem pmmAllocPage_bits (kept : Pmm.Kept p) (some : (pmmAllocPage p).2 ≠ 0) : Freeable (pmmAllocPage p).2 ∧
    bitmapTest p ((pmmAllocPage p).2 / PAGE_SIZE) = false ∧ ∀ k, bitmapTest (pmmAllocPage p).1 k = true ↔
      bitmapTest p k = true ∨ k = (pmmAllocPage p).2 / PAGE_SIZE := by
  have served := kept.allocPage.1
  obtain ⟨high, inside⟩ := served.inside some
  have free := served.free some _ (Nat.le_refl _) (Nat.lt_succ_self _)
  refine ⟨⟨high, by simp only [PAGE_SIZE] at inside; omega, served.aligned⟩, free, fun k => ?_⟩
  rw [served.taken some, Bool.or_eq_true, decide_eq_true_iff, or_comm]
  exact or_congr_right (by omega)

theorem Took.next (took : Took p q pages) (some : (pmmAllocPage q).2 ≠ 0) :
    Took p (pmmAllocPage q).1 (pages ++ [(pmmAllocPage q).2]) := by
  obtain ⟨ok, free, bits⟩ := pmmAllocPage_bits took.kept some
  obtain ⟨given, left⟩ := took.kept.freePages_allocPage
  have pos : freePages q ≠ 0 := mt given.mpr some
  refine ⟨took.kept.allocPage.2, fun k => ?_, fun a mem => ?_, ?_⟩
  · rw [bits, took.bits]
    simp only [List.mem_append, List.mem_singleton, or_and_right, exists_or, exists_eq_left, or_assoc]
  · rcases List.mem_append.mp mem with old | new
    · exact took.free a old
    · rw [List.mem_singleton.mp new]
      refine ⟨ok, Bool.eq_false_iff.mpr fun there => ?_⟩
      exact Bool.noConfusion (free.symm.trans ((took.bits _).mpr (Or.inl there)))
  · rw [left, List.length_append, List.length_singleton]
    have count := took.count
    omega

theorem Took.loop (took : Took p q pages) (n : Nat) : Took p (takeTestPages n q pages).1 (takeTestPages n q pages).2 ∧
    ((takeTestPages n q pages).2.length = pages.length + n ∨
      (takeTestPages n q pages).2.length < pages.length + n ∧ freePages (takeTestPages n q pages).1 = 0) := by
  induction n generalizing q pages with
  | zero => exact ⟨took, Or.inl rfl⟩
  | succ n ih =>
    rw [takeTestPages]
    split
    next none =>
      have full := took.kept.freePages_allocPage.1.mp none
      obtain ⟨same, -⟩ := took.kept.allocPage.1.refused none (Nat.le_refl _)
      rw [same]
      exact ⟨took, Or.inr ⟨Nat.lt_add_of_pos_right (Nat.succ_pos n), full⟩⟩
    next some =>
      obtain ⟨done, length⟩ := ih (took.next some)
      rw [List.length_append, List.length_singleton] at length
      exact ⟨done, length.imp (fun full => by omega) fun short => ⟨by omega, short.2⟩⟩

theorem Took.back (took : Took p q pages) (kept : Pmm.Kept p) : pages.foldl pmmFreePage q = p := by
  have frees := Frees.pages pages q
  refine (frees.kept took.kept).counted.ext kept.counted fun k => Bool.eq_iff_iff.mpr ?_
  rw [frees.bits, took.bits]
  constructor
  · rintro ⟨old | ⟨a, mem, rfl⟩, left⟩
    · exact old
    · exact absurd ⟨a, mem, (took.free a mem).1, rfl⟩ left
  · intro old
    refine ⟨Or.inl old, ?_⟩
    rintro ⟨a, mem, -, rfl⟩
    exact Bool.noConfusion (old.symm.trans (took.free a mem).2)

end Pages

section Blocks

variable {h h' : KernelHeap} {l : List Seg} {ps : List Nat}

/-- Behind `h` the blocks at `ps` were allocated, and the others are untouched. -/
def Lent (h h' : KernelHeap) (l : List Seg) (ps : List Nat) : Prop :=
  ∃ l', Tiled h' l' ∧ (pointers l').Perm (ps ++ pointers l) ∧ ∀ q ∈ pointers l, SameBlock h h' q

def got (p : Nat) : List Nat := if p = 0 then [] else [p]

theorem Lent.refl (t : Tiled h l) : Lent h h l [] := ⟨l, t, .refl _, fun _ _ => ⟨rfl, fun _ _ => rfl⟩⟩

theorem Lent.perm {ps' : List Nat} (lent : Lent h h' l ps) (same : ps.Perm ps') : Lent h h' l ps' := by
  obtain ⟨l', t, perm, others⟩ := lent
  exact ⟨l', t, perm.trans (same.append_right _), others⟩

theorem Lent.kmalloc (lent : Lent h h' l ps) (size : Word) :
    Lent h (Heap.kmalloc h' size).1 l (got (Heap.kmalloc h' size).2 ++ ps) := by
  obtain ⟨l', t, perm, others⟩ := lent
  rcases kmalloc_pointers t size with failed | ⟨l'', t', perm', -⟩
  · rw [failed]
    exact ⟨l', t, perm, others⟩
  · have some : (Heap.kmalloc h' size).2 ≠ 0 := pointers_pos (perm'.mem_iff.mpr List.mem_cons_self)
    have served := (Tiled.kmalloc_served (s := ⟨h', pointers l'⟩) t (.refl _) some).others
    refine ⟨l'', t', ?_, fun q mine => (others q mine).trans (served q ?_)⟩
    · rw [got, if_neg some]
      exact perm'.trans (perm.cons _)
    · exact perm.mem_iff.mpr (List.mem_append_right _ mine)

theorem Lent.write {p : Nat} (lent : Lent h h' l (got p ++ ps)) (fits : p ≠ 0 → 101 ≤ payloadSize h' p) :
    Lent h (writePattern h' p) l (got p ++ ps) := by
  obtain ⟨l', t, perm, others⟩ := lent
  by_cases none : p = 0
  · rw [writePattern, if_neg (not_not_intro none)]
    exact ⟨l', t, perm, others⟩
  · rw [writePattern, if_pos none]
    rw [got, if_neg none] at perm ⊢
    have live : p ∈ pointers l' := perm.mem_iff.mpr List.mem_cons_self
    have nodup := perm.nodup_iff.mp (pointers_nodup t.sizes)
    obtain ⟨filled, -, kept⟩ := t.fill live (fits none) testPattern
    refine ⟨l', filled, perm, fun q mine => (others q mine).trans (kept q ?_ ?_)⟩
    · exact perm.mem_iff.mpr (List.mem_append_right _ mine)
    · rintro rfl
      exact (List.nodup_cons.mp nodup).1 (List.mem_append_right _ mine)

theorem Lent.free {p : Nat} (lent : Lent h h' l (got p ++ ps)) : Lent h (freeTest h' p) l ps := by
  obtain ⟨l', t, perm, others⟩ := lent
  by_cases none : p = 0
  · rw [freeTest, if_neg (not_not_intro none)]
    rw [got, if_pos none] at perm
    exact ⟨l', t, perm, others⟩
  · rw [freeTest, if_pos none]
    rw [got, if_neg none] at perm
    have nodup := perm.nodup_iff.mp (pointers_nodup t.sizes)
    obtain ⟨l'', t', left, kept, -⟩ := t.kfree_spec (perm.mem_iff.mpr List.mem_cons_self)
    refine ⟨l'', t', (left.symm.trans perm).cons_inv, fun q mine => (others q mine).trans (kept q ?_ ?_)⟩
    · exact perm.mem_iff.mpr (List.mem_append_right _ mine)
    · rintro rfl
      exact (List.nodup_cons.mp nodup).1 (List.mem_append_right _ mine)

theorem testBlocks (t : Tiled h l) {h1 h2 h3 : KernelHeap} {p1 p2 p3 : Nat} (call1 : kmalloc h 1024 = (h1, p1))
    (call2 : kmalloc h1 2048 = (h2, p2)) (call3 : kmalloc h2 4096 = (h3, p3)) :
    Lent h (freeTest (freeTest (freeTest (writePattern h3 p1) p1) p2) p3) l [] := by
  have lent1 := (Lent.refl t).kmalloc 1024
  rw [call1] at lent1
  have lent2 := lent1.kmalloc 2048
  rw [call2] at lent2
  have lent3 := lent2.kmalloc 4096
  rw [call3] at lent3
  have fits : p1 ≠ 0 → 101 ≤ payloadSize h3 p1 := by
    intro some
    have enough : LargeEnough h 1024 := Tiled.largeEnough (s := ⟨h, pointers l⟩) t (.refl _) (by decide)
    rw [LargeEnough, call1] at enough
    obtain ⟨l1, t1, perm1, -⟩ := lent1
    have later := (Lent.refl t1).kmalloc 2048
    rw [call2] at later
    have last := later.kmalloc 4096
    rw [call3] at last
    obtain ⟨-, -, -, others⟩ := last
    have live : p1 ∈ pointers l1 := perm1.mem_iff.mpr (by rw [got, if_neg some]; exact List.mem_cons_self)
    rw [(others p1 live).size]
    exact Nat.le_trans (by decide) (enough some)
  have order : (got p3 ++ (got p2 ++ (got p1 ++ []))).Perm (got p1 ++ (got p2 ++ (got p3 ++ []))) := by
    rw [List.perm_iff_count]
    intro q
    simp only [List.count_append]
    omega
  exact ((((lent3.perm order).write fits).free).free).free

theorem Lent.returned (lent : Lent h h' l []) (t : Tiled h l) : heapBlocks h' = heapBlocks h ∧
    heapGetFreeSize h' = heapGetFreeSize h ∧ heapGetBlockCount h' = heapGetBlockCount h ∧
    heapGetFreeBlockCount h' = heapGetFreeBlockCount h := by
  obtain ⟨l', t', perm, others⟩ := lent
  have same : heapBlocks h' = heapBlocks h := by
    ext b
    change Allocated h' b.1 ∧ _ ↔ Allocated h b.1 ∧ _
    rw [t'.allocated_iff, t.allocated_iff, perm.mem_iff]
    exact and_congr_right fun live => by rw [(others _ live).size]
  obtain rfl := t'.eq_of_blocks t same
  have alike : Alike ⟨h', pointers l'⟩ ⟨h, pointers l'⟩ := ⟨l', t', t, .refl _, .refl _⟩
  exact ⟨same, alike.statistics.2, t'.counts.2.trans t.counts.2.symm, t'.counts.1.trans t.counts.1.symm⟩

theorem statistics_congr {p p' : PageMap} (free : heapGetFreeSize h' = heapGetFreeSize h)
    (all : heapGetBlockCount h' = heapGetBlockCount h) (loose : heapGetFreeBlockCount h' = heapGetFreeBlockCount h)
    (pages : p' = p) : Memory.statistics ⟨h', p'⟩ = Memory.statistics ⟨h, p⟩ := by
  rw [Memory.statistics, Memory.statistics, free, all, loose, pages]

end Blocks

/-- memtest leaves the heap as it was: the same blocks with the same bytes in them. Its pages all
come back if there are five of them; if there are fewer, they are lost. -/
theorem memtest_neutral_iff (m : Buffer) (ops : List HeapOp) (s : HeapState) (p0 p : PageMap) (ops' : List PageOp)
    (run : Exec HeapState.allowed HeapState.step (HeapState.init m) ops s)
    (run' : Exec PageMap.allowed PageMap.step (pmmInit p0) ops' p) :
    heapBlocks (cmdMemtest ⟨s.heap, p⟩).1.heap = heapBlocks s.heap ∧
      (∀ q ∈ s.live, SameBlock s.heap (cmdMemtest ⟨s.heap, p⟩).1.heap q) ∧
      ((cmdMemtest ⟨s.heap, p⟩).1.pmm = p ↔ 5 ≤ freePages p ∨ freePages p = 0) ∧
      (freePages p < 5 → freePages (cmdMemtest ⟨s.heap, p⟩).1.pmm = 0) ∧
      ∀ start pages pointers during freed, (cmdMemtest ⟨s.heap, p⟩).2 = .tested start pages pointers during freed →
        freed = start := by
  obtain ⟨l, t, perm⟩ := run.invariant HeapState.step_inv (HeapState.init_inv m)
  have kept : Pmm.Kept p := run'.invariant (fun _ _ kept ok => kept.step ok) (pmmInit_kept p0)
  obtain ⟨took, length⟩ := (Took.none kept).loop 5
  have count := took.count
  rw [List.length_nil, Nat.zero_add] at length
  rw [cmdMemtest]
  dsimp only
  split
  next few =>
    have left : freePages (takeTestPages 5 p []).1 = 0 := (length.resolve_left (Nat.ne_of_lt few)).2
    refine ⟨rfl, fun _ _ => ⟨rfl, fun _ _ => rfl⟩, ⟨fun same => Or.inr (same ▸ left), fun room => ?_⟩, fun _ => left, nofun⟩
    have none : (takeTestPages 5 p []).2 = [] := List.length_eq_zero_iff.mp (by omega)
    have took' := took
    rw [none] at took'
    exact took'.back kept
  next enough =>
    have full : (takeTestPages 5 p []).2.length = 5 := length.resolve_right fun short => enough short.1
    have lent := testBlocks t rfl rfl rfl
    obtain ⟨blocks, free, all, loose⟩ := lent.returned t
    obtain ⟨-, -, -, others⟩ := lent
    refine ⟨blocks, fun q live => others q (perm.mem_iff.mp live), ?_, fun few => absurd few (by omega), ?_⟩
    · exact iff_of_true (took.back kept) (Or.inl (by omega))
    · intro start pages pointers during freed same
      obtain ⟨start_eq, -, -, -, freed_eq⟩ := MemtestOutput.tested.inj same
      exact freed_eq.symm.trans ((statistics_congr free all loose (took.back kept)).trans start_eq)

theorem memtest_neutral_iff_start :
    (cmdMemtest ⟨(HeapState.init fun _ => 0).heap, pmmInit ⟨fun _ => 0, 0⟩⟩).1.pmm = pmmInit ⟨fun _ => 0, 0⟩ := by
  have room : 5 ≤ freePages (pmmInit ⟨fun _ => 0, 0⟩) := by
    rw [pmmInit_freePages]
    decide
  exact (memtest_neutral_iff (fun _ => 0) [] _ ⟨fun _ => 0, 0⟩ _ [] (.nil _) (.nil _)).2.2.1.mpr (Or.inl room)

end Wittche.Shell
