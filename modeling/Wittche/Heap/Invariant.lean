import Mathlib.Data.List.Pairwise
import Wittche.Lib.Execution
import Wittche.Heap.Refinement

/-! The representation invariant of the kernel heap, over whole runs.
A run interleaves `kmalloc`, `kfree` of `NULL` or a live pointer, and stores into
live payloads. The invariant is that the block list tiles the heap area; what is
live is exactly what the list marks as taken. -/

namespace Wittche.Heap
open Bytes Segments Execution

/-- The block list of `h` is the segment list `l`, and `l` tiles the heap area. -/
structure Tiled (h : KernelHeap) (l : List Seg) : Prop where
  head : h.head = HEAP_START
  rep : Rep h.mem HEAP_START l
  covers : total l = HEAP_SIZE
  sizes : SizesOk l
  separated : Separated l

theorem length_le_total {l : List Seg} (sizes : SizesOk l) :
    MIN_BLOCK_SIZE * l.length ≤ total l := by
  induction l with
  | nil => simp [total]
  | cons s rest ih =>
    have own := (sizes s (by simp)).1
    have tail := ih sizes.tail
    rw [List.length_cons, total, Nat.mul_add]
    omega

theorem Tiled.length_lt {h : KernelHeap} {l : List Seg} (t : Tiled h l) : l.length < WALK_FUEL := by
  have bound := length_le_total t.sizes
  rw [t.covers] at bound
  simp only [MIN_BLOCK_SIZE, HEAP_SIZE, WALK_FUEL] at *
  omega

theorem Tiled.ne_nil {h : KernelHeap} {l : List Seg} (t : Tiled h l) : l ≠ [] := by
  rintro rfl
  exact absurd t.covers (by decide)

theorem Tiled.linkTo {h : KernelHeap} {l : List Seg} (t : Tiled h l) :
    linkTo HEAP_START l = h.head := by
  rw [t.head]
  cases l with
  | nil => exact absurd rfl t.ne_nil
  | cons s rest => rfl

theorem Tiled.bound {h : KernelHeap} {l : List Seg} (t : Tiled h l) :
    HEAP_START + total l + MIN_BLOCK_SIZE < 2 ^ 32 := by
  rw [t.covers]
  decide

theorem heapInit_tiled (m : Buffer) : Tiled (heapInit m) [⟨HEAP_SIZE, true⟩] where
  head := rfl
  rep := by
    refine ⟨⟨?_, ?_, ?_, ?_⟩, trivial⟩
    · simp [heapInit, HEAP_SIZE]
    · simp [heapInit]
    · simp [heapInit, HEAP_MAGIC]
    · simp [heapInit, Heap.linkTo]
  covers := rfl
  sizes := by
    intro s hs
    obtain rfl : s = ⟨HEAP_SIZE, true⟩ := by simpa using hs
    exact ⟨by decide, by decide⟩
  separated := List.isChain_singleton _

/-- Memory determines the block list. -/
theorem Rep.unique {m : Buffer} {a : Nat} {l l' : List Seg} (rep : Rep m a l) (rep' : Rep m a l')
    (sizes : SizesOk l) (sizes' : SizesOk l') (same : total l = total l') : l = l' := by
  induction l generalizing a l' with
  | nil =>
    cases l' with
    | nil => rfl
    | cons s rest =>
      have own := (sizes' s (by simp)).1
      simp only [total, MIN_BLOCK_SIZE] at same own
      omega
  | cons s rest ih =>
    cases l' with
    | nil =>
      have own := (sizes s (by simp)).1
      simp only [total, MIN_BLOCK_SIZE] at same own
      omega
    | cons s' rest' =>
      obtain ⟨header, tail⟩ := rep
      obtain ⟨header', tail'⟩ := rep'
      obtain ⟨size, free⟩ := s
      obtain ⟨size', free'⟩ := s'
      obtain rfl : size = size' := header.1.symm.trans header'.1
      obtain rfl : free = free' := by
        have tag := header.2.1.symm.trans header'.2.1
        cases free <;> cases free' <;> simp_all
      rw [ih tail tail' sizes.tail sizes'.tail (by simpa only [total, Nat.add_left_cancel_iff] using same)]

theorem Tiled.unique {h : KernelHeap} {l l' : List Seg} (t : Tiled h l) (t' : Tiled h l') : l = l' :=
  t.rep.unique t'.rep t.sizes t'.sizes (t.covers.trans t'.covers.symm)

/-- The search loop always comes to an end, with the outcome of first fit. -/
theorem Tiled.search {h : KernelHeap} {l : List Seg} (t : Tiled h l) (size : Word) :
    ∃ m' p, kmallocFrom (totalSize size) WALK_FUEL h.mem h.head = some (m', p) ∧
      Searched (totalSize size) h.mem HEAP_START l m' p := by
  rw [← t.linkTo]
  exact kmallocFrom_searched (totalSize_spec size).1 t.rep t.sizes (by decide) t.bound t.length_lt

theorem firstFit_sizesOk {need : Nat} {l l' : List Seg} {o : Nat} (low : MIN_BLOCK_SIZE ≤ need)
    (aligned : need % 4 = 0) (sizes : SizesOk l)
    (h : firstFit need MIN_BLOCK_SIZE l = some (o, l')) : SizesOk l' := by
  refine firstFit_size (P := fun n => MIN_BLOCK_SIZE ≤ n ∧ n % 4 = 0) ⟨low, aligned⟩ ?_ sizes h
  intro x hx room
  omega

/-- `kmalloc` is first fit on the segments: it fails without effect, or takes one. -/
theorem kmalloc_cases {h : KernelHeap} {l : List Seg} (t : Tiled h l) (size : Word) :
    kmalloc h size = (h, 0) ∧ (size = 0 ∨ firstFit (totalSize size) MIN_BLOCK_SIZE l = none) ∨
    ∃ o l', size ≠ 0 ∧ firstFit (totalSize size) MIN_BLOCK_SIZE l = some (o, l') ∧
      (kmalloc h size).2 = HEAP_START + o + HEADER_SIZE ∧ Tiled (kmalloc h size).1 l' ∧
      ∀ x, ¬InHeader HEAP_START l' x → (kmalloc h size).1.mem x = h.mem x := by
  by_cases zero : size = 0
  · exact Or.inl ⟨by simp [kmalloc, zero], Or.inl zero⟩
  obtain ⟨low, aligned, -⟩ := totalSize_spec size
  obtain ⟨m', p, run, spec⟩ := t.search size
  have result : kmalloc h size = ({ h with mem := m' }, p) := by
    rw [kmalloc, if_neg zero, run]
    rfl
  unfold Searched at spec
  cases found : firstFit (totalSize size) MIN_BLOCK_SIZE l with
  | none =>
    rw [found] at spec
    obtain ⟨rfl, rfl⟩ := spec
    exact Or.inl ⟨result, Or.inr rfl⟩
  | some r =>
    obtain ⟨o, l'⟩ := r
    rw [found] at spec
    obtain ⟨ptr, rep, frame⟩ := spec
    rw [result]
    refine Or.inr ⟨o, l', zero, rfl, ptr, ?_, frame⟩
    exact ⟨t.head, rep, (firstFit_total found).trans t.covers,
      firstFit_sizesOk low aligned t.sizes found, firstFit_separated t.separated found⟩

theorem Tiled.coalesced {h : KernelHeap} {l : List Seg} (t : Tiled h l) {o : Nat} {s : Seg}
    (mem : (HEAP_START + o, s) ∈ place HEAP_START l) :
    ∃ m', coalesceFrom WALK_FUEL (setFree h.mem (HEAP_START + o) 1) h.head = some m' ∧
      Rep m' HEAP_START (coalesce (release o l)) ∧
      ∀ x, ¬InHeader HEAP_START (coalesce (release o l)) x →
        m' x = setFree h.mem (HEAP_START + o) 1 x := by
  have rep := setFree_release t.rep t.sizes mem
  have sizes : SizesOk (release o l) := release_size (P := fun n => MIN_BLOCK_SIZE ≤ n ∧ n % 4 = 0) t.sizes
  have covers := (total_release o l).trans t.covers
  have fuel : (release o l).length < WALK_FUEL := by
    have bound := length_le_total sizes
    rw [covers] at bound
    simp only [MIN_BLOCK_SIZE, HEAP_SIZE, WALK_FUEL] at *
    omega
  rw [t.head]
  cases eq : release o l with
  | nil => exact absurd eq (release_ne_nil t.ne_nil)
  | cons a rest =>
    rw [eq] at rep sizes covers fuel
    rw [total] at covers
    refine coalesceFrom_rep rep sizes (by decide) ?_ (by simp at fuel; omega)
    simp only [HEAP_START, HEAP_SIZE] at *
    omega

/-- `kfree` of a taken block sets its tag and coalesces; else only headers change. -/
theorem kfree_tiled {h : KernelHeap} {l : List Seg} (t : Tiled h l) {o : Nat} {s : Seg}
    (live : (HEAP_START + o, s) ∈ taken HEAP_START l) :
    Tiled (kfree h (HEAP_START + o + HEADER_SIZE)) (coalesce (release o l)) ∧
      ∀ x, ¬InHeader HEAP_START (coalesce (release o l)) x →
        (kfree h (HEAP_START + o + HEADER_SIZE)).mem x = setFree h.mem (HEAP_START + o) 1 x := by
  obtain ⟨mem, busy⟩ := mem_taken.mp live
  simp only at busy
  obtain ⟨-, hi, inside⟩ := place_bounds mem
  have big := (t.sizes s inside).1
  simp only [t.covers, MIN_BLOCK_SIZE] at hi big
  obtain ⟨next, -, free, magic, -⟩ := t.rep.header mem
  rw [busy] at free
  obtain ⟨m', run, rep, frame⟩ := t.coalesced mem
  have block : (HEAP_START + o + HEADER_SIZE + 2 ^ 32 - HEADER_SIZE) % 2 ^ 32 = HEAP_START + o := by
    simp only [HEAP_START, HEAP_SIZE, HEADER_SIZE] at *
    omega
  have bounds : ¬(HEAP_START + o < HEAP_START ∨ HEAP_END ≤ HEAP_START + o) := by
    simp only [HEAP_START, HEAP_SIZE, HEAP_END] at *
    omega
  have result : kfree h (HEAP_START + o + HEADER_SIZE) = { h with mem := m' } := by
    simp only [kfree, block, magic, bounds, free]
    simp [coalesceFreeBlocks, run, HEADER_SIZE]
  rw [result]
  have sizes : SizesOk (release o l) := release_size (P := fun n => MIN_BLOCK_SIZE ≤ n ∧ n % 4 = 0) t.sizes
  have covers := (total_release o l).trans t.covers
  have add : ∀ x y, (MIN_BLOCK_SIZE ≤ x ∧ x % 4 = 0) → (MIN_BLOCK_SIZE ≤ y ∧ y % 4 = 0) →
      MIN_BLOCK_SIZE ≤ x + y ∧ (x + y) % 4 = 0 := by
    intro x y hx hy
    omega
  refine ⟨?_, frame⟩
  cases eq : release o l with
  | nil => exact absurd eq (release_ne_nil t.ne_nil)
  | cons a rest =>
    rw [eq] at rep sizes covers
    exact ⟨t.head, rep, (total_mergeInto a rest).trans covers,
      mergeInto_size (P := fun n => MIN_BLOCK_SIZE ≤ n ∧ n % 4 = 0) add (sizes a (by simp))
        (fun u hu => sizes u (by simp [hu])),
      separated_mergeInto a rest⟩

def pointers (l : List Seg) : List Nat := (taken HEAP_START l).map (·.1 + HEADER_SIZE)

theorem mem_pointers {l : List Seg} {p : Nat} : p ∈ pointers l ↔
    ∃ o s, (HEAP_START + o, s) ∈ taken HEAP_START l ∧ p = HEAP_START + o + HEADER_SIZE := by
  constructor
  · intro h
    obtain ⟨⟨a, s⟩, mem, rfl⟩ := List.mem_map.mp h
    have lo := (place_bounds (mem_taken.mp mem).1).1
    simp only at lo
    refine ⟨a - HEAP_START, s, ?_, ?_⟩
    · rwa [Nat.add_sub_cancel' lo]
    · simp only
      omega
  · rintro ⟨o, s, mem, rfl⟩
    exact List.mem_map.mpr ⟨_, mem, rfl⟩

theorem pointers_pos {l : List Seg} {p : Nat} (h : p ∈ pointers l) : p ≠ 0 := by
  obtain ⟨o, s, -, rfl⟩ := mem_pointers.mp h
  simp only [HEAP_START, HEADER_SIZE]
  omega

theorem pointers_nodup {l : List Seg} (sizes : SizesOk l) : (pointers l).Nodup := by
  have increasing : (pointers l).Pairwise (· < ·) := by
    refine List.pairwise_map.mpr ((taken_apart HEAP_START l).imp_of_mem ?_)
    intro x y hx _ apart
    have big := (sizes x.2 (place_bounds (mem_taken.mp hx).1).2.2).1
    simp only [MIN_BLOCK_SIZE] at big
    omega
  exact increasing.imp Nat.ne_of_lt

theorem kmalloc_pointers {h : KernelHeap} {l : List Seg} (t : Tiled h l) (size : Word) :
    kmalloc h size = (h, 0) ∨ ∃ l', Tiled (kmalloc h size).1 l' ∧
      (pointers l').Perm ((kmalloc h size).2 :: pointers l) ∧
      ∀ x, ¬InHeader HEAP_START l' x → (kmalloc h size).1.mem x = h.mem x := by
  rcases kmalloc_cases t size with ⟨same, -⟩ | ⟨o, l', -, found, ptr, t', frame⟩
  · exact Or.inl same
  · refine Or.inr ⟨l', t', ?_, frame⟩
    obtain ⟨s, -, -, perm⟩ := firstFit_taken HEAP_START (by decide) found
    rw [ptr]
    exact perm.map _

theorem kfree_taken {h : KernelHeap} {l : List Seg} (t : Tiled h l) {o : Nat} {s : Seg}
    (mem : (HEAP_START + o, s) ∈ taken HEAP_START l) :
    ∃ l', Tiled (kfree h (HEAP_START + o + HEADER_SIZE)) l' ∧
      (taken HEAP_START l).Perm ((HEAP_START + o, s) :: taken HEAP_START l') ∧
      ∀ x, ¬InHeader HEAP_START l' x →
        (kfree h (HEAP_START + o + HEADER_SIZE)).mem x = setFree h.mem (HEAP_START + o) 1 x := by
  obtain ⟨tiled, frame⟩ := kfree_tiled t mem
  refine ⟨_, tiled, ?_, frame⟩
  have pos : ∀ s ∈ l, 0 < s.size := by
    intro s hs
    have big := (t.sizes s hs).1
    simp only [MIN_BLOCK_SIZE] at big
    omega
  have same : taken HEAP_START (coalesce (release o l)) = taken HEAP_START (release o l) := by
    cases eq : release o l with
    | nil => rfl
    | cons a rest => exact taken_mergeInto HEAP_START a rest
  rw [same]
  exact release_taken pos mem

theorem kfree_pointers {h : KernelHeap} {l : List Seg} (t : Tiled h l) {p : Nat}
    (live : p ∈ pointers l) :
    ∃ l', Tiled (kfree h p) l' ∧ (pointers l).Perm (p :: pointers l') ∧
      ∀ x, ¬InHeader HEAP_START l' x → (kfree h p).mem x = setFree h.mem (p - HEADER_SIZE) 1 x := by
  obtain ⟨o, s, mem, rfl⟩ := mem_pointers.mp live
  obtain ⟨l', tiled, perm, frame⟩ := kfree_taken t mem
  have live' := perm.map (·.1 + HEADER_SIZE)
  exact ⟨l', tiled, live', by rwa [Nat.add_sub_cancel]⟩

theorem kmalloc_live {h : KernelHeap} {l : List Seg} (t : Tiled h l) (size : Word) :
    kmalloc h size = (h, 0) ∨ ∃ h' p l', kmalloc h size = (h', p) ∧ p ≠ 0 ∧ Tiled h' l' ∧ p ∉ pointers l ∧
      ∀ q, q ∈ pointers l' ↔ q = p ∨ q ∈ pointers l := by
  rcases kmalloc_pointers t size with failed | ⟨l', t', perm, -⟩
  · exact Or.inl failed
  · have fresh := (List.nodup_cons.mp (perm.nodup_iff.mp (pointers_nodup t'.sizes))).1
    have members : ∀ q, q ∈ pointers l' ↔ q = (kmalloc h size).2 ∨ q ∈ pointers l := by
      intro q
      rw [perm.mem_iff, List.mem_cons]
    exact Or.inr ⟨_, _, l', rfl, pointers_pos ((members _).mpr (Or.inl rfl)), t', fresh, members⟩

theorem kfree_live {h : KernelHeap} {l : List Seg} (t : Tiled h l) {p : Nat} (live : p ∈ pointers l) :
    ∃ l', Tiled (kfree h p) l' ∧ ∀ q, q ∈ pointers l' ↔ q ∈ pointers l ∧ q ≠ p := by
  obtain ⟨l', t', perm, -⟩ := kfree_pointers t live
  have gone := (List.nodup_cons.mp (perm.nodup_iff.mp (pointers_nodup t.sizes))).1
  refine ⟨l', t', fun q => ?_⟩
  rw [perm.mem_iff, List.mem_cons]
  constructor
  · intro there
    exact ⟨Or.inr there, fun same => gone (same ▸ there)⟩
  · rintro ⟨same | there, other⟩
    · exact absurd same other
    · exact there

theorem kmalloc_congr {h h' : KernelHeap} {l : List Seg} (t : Tiled h l) (t' : Tiled h' l) (size : Word) :
    kmalloc h size = (h, 0) ∧ kmalloc h' size = (h', 0) ∨
      ∃ k k' p l', kmalloc h size = (k, p) ∧ kmalloc h' size = (k', p) ∧ p ≠ 0 ∧ Tiled k l' ∧ Tiled k' l' ∧
        p ∉ pointers l ∧ ∀ q, q ∈ pointers l' ↔ q = p ∨ q ∈ pointers l := by
  rcases kmalloc_cases t size with ⟨failed, none⟩ | ⟨o, l₁, some, found, ptr, tiled, -⟩
  · rcases kmalloc_cases t' size with ⟨failed', -⟩ | ⟨o, l₁, some, found, -⟩
    · exact Or.inl ⟨failed, failed'⟩
    · rw [found] at none
      exact absurd (none.resolve_left some) (by simp)
  · rcases kmalloc_cases t' size with ⟨-, none⟩ | ⟨o', l₂, -, found', ptr', tiled', -⟩
    · rw [found] at none
      exact absurd (none.resolve_left some) (by simp)
    · obtain ⟨rfl, rfl⟩ : o = o' ∧ l₁ = l₂ := by simpa [found] using found'
      rcases kmalloc_live t size with failed | ⟨k, p, l', got, there, granted, fresh, members⟩
      · rw [failed] at ptr
        exact absurd ptr (by simp only [HEAP_START]; omega)
      · rw [got] at ptr tiled
        obtain rfl := tiled.unique granted
        refine Or.inr ⟨k, (kmalloc h' size).1, p, l₁, got, ?_, there, tiled, tiled', fresh, members⟩
        exact Prod.ext rfl (ptr'.trans ptr.symm)

theorem kfree_congr {h h' : KernelHeap} {l : List Seg} (t : Tiled h l) (t' : Tiled h' l) {p : Nat}
    (live : p ∈ pointers l) :
    ∃ l', Tiled (kfree h p) l' ∧ Tiled (kfree h' p) l' ∧ ∀ q, q ∈ pointers l' ↔ q ∈ pointers l ∧ q ≠ p := by
  obtain ⟨l', tiled, members⟩ := kfree_live t live
  obtain ⟨o, s, mem, rfl⟩ := mem_pointers.mp live
  obtain rfl := tiled.unique (kfree_tiled t mem).1
  exact ⟨_, tiled, (kfree_tiled t' mem).1, members⟩

/-- The bytes a caller may use behind the pointer `p`. -/
def payloadSize (h : KernelHeap) (p : Nat) : Nat := blockSize h.mem (p - HEADER_SIZE) - HEADER_SIZE

/-- The block list has `p` as the payload of a taken block. -/
def Allocated (h : KernelHeap) (p : Nat) : Prop := ∃ l, Tiled h l ∧ p ∈ pointers l

theorem Tiled.payload {h : KernelHeap} {l : List Seg} (t : Tiled h l) {o : Nat} {s : Seg}
    (mem : (HEAP_START + o, s) ∈ place HEAP_START l) :
    payloadSize h (HEAP_START + o + HEADER_SIZE) = s.size - HEADER_SIZE := by
  obtain ⟨next, size, -⟩ := t.rep.header mem
  rw [payloadSize, Nat.add_sub_cancel, size]

theorem Tiled.write {h : KernelHeap} {l : List Seg} (t : Tiled h l) {p a : Nat} {v : Byte}
    (live : p ∈ pointers l) (inside : p ≤ a ∧ a < p + payloadSize h p) :
    Tiled { h with mem := Function.update h.mem a v } l := by
  obtain ⟨o, s, mem, rfl⟩ := mem_pointers.mp live
  have placed := (mem_taken.mp mem).1
  rw [t.payload placed] at inside
  refine ⟨t.head, t.rep.congr ?_, t.covers, t.sizes, t.separated⟩
  rintro x ⟨y, hy, lo, hi⟩
  have big := (t.sizes y.2 (place_bounds hy).2.2).1
  simp only [MIN_BLOCK_SIZE] at big
  refine Function.update_of_ne ?_ _ _
  rintro rfl
  simp only [HEADER_SIZE] at inside hi
  rcases place_eq_or_apart placed hy with rfl | before | behind
  · simp only at hi lo
    omega
  · simp only at before
    omega
  · simp only at behind
    omega

inductive HeapOp where
  | kmalloc (size : Word)
  | kfree (p : Nat)
  | write (a : Nat) (v : Byte)

/-- The heap together with the pointers handed out and not yet given back. -/
structure HeapState where
  heap : KernelHeap
  live : List Nat

def HeapState.step (s : HeapState) : HeapOp → HeapState
  | .kmalloc size =>
    let r := Heap.kmalloc s.heap size
    ⟨r.1, if r.2 = 0 then s.live else r.2 :: s.live⟩
  | .kfree p => ⟨Heap.kfree s.heap p, s.live.erase p⟩
  | .write a v => { s with heap := { s.heap with mem := Function.update s.heap.mem a v } }

def HeapState.allowed (s : HeapState) : HeapOp → Prop
  | .kmalloc _ => True
  | .kfree p => p = 0 ∨ p ∈ s.live
  | .write a _ => ∃ p ∈ s.live, p ≤ a ∧ a < p + payloadSize s.heap p

def HeapState.init (m : Buffer) : HeapState := ⟨heapInit m, []⟩

/-- The live pointers are the taken segments of a tiling. -/
def HeapState.Inv (s : HeapState) : Prop :=
  ∃ l, Tiled s.heap l ∧ s.live.Perm (pointers l)

theorem HeapState.init_inv (m : Buffer) : (HeapState.init m).Inv :=
  ⟨_, heapInit_tiled m, by simp [HeapState.init, pointers, taken_cons]⟩

theorem HeapState.step_inv (s : HeapState) (op : HeapOp) (inv : s.Inv) (ok : s.allowed op) :
    (s.step op).Inv := by
  obtain ⟨l, t, perm⟩ := inv
  cases op with
  | kmalloc size =>
    rcases kmalloc_pointers t size with same | ⟨l', t', perm', -⟩
    · exact ⟨l, by simpa [HeapState.step, same] using t, by simpa [HeapState.step, same] using perm⟩
    · have pos := pointers_pos (perm'.mem_iff.mpr (List.mem_cons_self ..))
      refine ⟨l', t', ?_⟩
      simp only [HeapState.step, pos, if_false]
      exact (perm.cons _).trans perm'.symm
  | kfree p =>
    rcases ok with rfl | live
    · have out : 0 ∉ s.live := fun mem => pointers_pos (perm.mem_iff.mp mem) rfl
      refine ⟨l, by simpa [HeapState.step, Heap.kfree] using t, ?_⟩
      simpa [HeapState.step, List.erase_of_not_mem out] using perm
    · obtain ⟨l', t', perm', -⟩ := kfree_pointers t (perm.mem_iff.mp live)
      refine ⟨l', t', ?_⟩
      have erased := (perm.trans perm').erase p
      simpa [HeapState.step] using erased
  | write a v =>
    obtain ⟨p, live, inside⟩ := ok
    exact ⟨l, t.write (perm.mem_iff.mp live) inside, perm⟩

theorem sumSizes_rep {p : Nat → Bool} {m : Buffer} {a acc fuel : Nat} {l : List Seg}
    (rep : Rep m a l) (sizes : SizesOk l) (start : 0 < a) (bound : acc + total l < 2 ^ 32)
    (enough : l.length < fuel) :
    sumSizes p m fuel (linkTo a l) acc =
      some (acc + total (l.filter fun s => p (if s.free then 1 else 0))) := by
  induction l generalizing a acc fuel with
  | nil =>
    obtain ⟨fuel, rfl⟩ : ∃ k, fuel = k + 1 := ⟨fuel - 1, by simp at enough; omega⟩
    simp [sumSizes, Heap.linkTo, total]
  | cons s rest ih =>
    obtain ⟨fuel, rfl⟩ : ∃ k, fuel = k + 1 := ⟨fuel - 1, by simp at enough; omega⟩
    obtain ⟨⟨size, free, -, link⟩, tail⟩ := rep
    have own := (sizes s (by simp)).1
    rw [total] at bound
    rw [Heap.linkTo, sumSizes, if_neg (by omega)]
    simp only [free, size, link]
    cases tag : p (if s.free = true then 1 else 0)
    · rw [if_neg (by simp), ih tail sizes.tail (by omega) (by omega) (by simpa using enough)]
      simp [tag]
    · have wrap : (acc + s.size) % 2 ^ 32 = acc + s.size := Nat.mod_eq_of_lt (by omega)
      rw [if_pos rfl, wrap, ih tail sizes.tail (by omega) (by omega) (by simpa using enough)]
      simp [tag, total, Nat.add_assoc]

theorem total_filter_split (q : Seg → Bool) (l : List Seg) :
    total (l.filter q) + total (l.filter fun s => !q s) = total l := by
  induction l with
  | nil => rfl
  | cons s rest ih =>
    cases h : q s <;> simp [h, total] <;> omega

theorem Tiled.statistics {h : KernelHeap} {l : List Seg} (t : Tiled h l) :
    ∃ used free, heapGetUsedSize h = some used ∧ heapGetFreeSize h = some free ∧
      used + free = HEAP_SIZE := by
  have small : 0 + total l < 2 ^ 32 := by
    rw [t.covers]
    decide
  have walk := fun p => sumSizes_rep (p := p) t.rep t.sizes (by decide) small t.length_lt
  refine ⟨_, _, by rw [heapGetUsedSize, ← t.linkTo]; exact walk _,
    by rw [heapGetFreeSize, ← t.linkTo]; exact walk _, ?_⟩
  rw [← t.covers, ← total_filter_split (fun s => (if s.free = true then 1 else 0) == 0) l]
  simp only [Nat.zero_add]
  rfl

theorem Tiled.pointer_bounds {h : KernelHeap} {l : List Seg} (t : Tiled h l) {p : Nat}
    (live : p ∈ pointers l) :
    p % 4 = 0 ∧ HEAP_START ≤ p ∧ p + payloadSize h p ≤ HEAP_END := by
  obtain ⟨o, s, mem, rfl⟩ := mem_pointers.mp live
  have placed := (mem_taken.mp mem).1
  obtain ⟨-, hi, inside⟩ := place_bounds placed
  have big := (t.sizes s inside).1
  have quarter : 4 ∣ HEAP_START + o :=
    place_dvd (by decide) (fun s hs => Nat.dvd_of_mod_eq_zero (t.sizes s hs).2) placed
  rw [t.payload placed]
  simp only [t.covers, MIN_BLOCK_SIZE, HEADER_SIZE, HEAP_END] at *
  omega

theorem Tiled.payload_clear_of_block {h : KernelHeap} {l : List Seg} (t : Tiled h l) {p : Nat}
    (live : p ∈ pointers l) {b : Nat × Seg} (hb : b ∈ place HEAP_START l) :
    p + payloadSize h p ≤ b.1 ∨ b.1 + HEADER_SIZE ≤ p := by
  obtain ⟨o, s, mem, rfl⟩ := mem_pointers.mp live
  have placed := (mem_taken.mp mem).1
  have big := (t.sizes s (place_bounds placed).2.2).1
  have big' := (t.sizes b.2 (place_bounds hb).2.2).1
  rw [t.payload placed]
  simp only [MIN_BLOCK_SIZE, HEADER_SIZE] at *
  rcases place_eq_or_apart placed hb with rfl | before | behind
  · exact Or.inr (le_refl _)
  · simp only at before
    omega
  · simp only at behind
    omega

theorem Tiled.patch {h : KernelHeap} {l : List Seg} {m : Buffer} (t : Tiled h l)
    (changes : ∀ x, m x ≠ h.mem x → (x < HEAP_START ∨ HEAP_END ≤ x) ∨
      ∃ p ∈ pointers l, p ≤ x ∧ x < p + payloadSize h p) :
    Tiled { h with mem := m } l ∧ ∀ p ∈ pointers l, payloadSize { h with mem := m } p = payloadSize h p := by
  have headers : ∀ x, InHeader HEAP_START l x → m x = h.mem x := by
    rintro x ⟨b, mem, low, high⟩
    by_contra other
    obtain ⟨start, stop, inside⟩ := place_bounds mem
    have big := (t.sizes b.2 inside).1
    rw [t.covers] at stop
    rcases changes x other with out | ⟨p, live, within⟩
    · simp only [HEAP_END, MIN_BLOCK_SIZE, HEADER_SIZE] at *
      omega
    · have clear := t.payload_clear_of_block live mem
      omega
  have filled : Tiled { h with mem := m } l := ⟨t.head, t.rep.congr headers, t.covers, t.sizes, t.separated⟩
  refine ⟨filled, fun p live => ?_⟩
  obtain ⟨o, seg, mem, rfl⟩ := mem_pointers.mp live
  rw [t.payload (mem_taken.mp mem).1, filled.payload (mem_taken.mp mem).1]

theorem Tiled.payloads_apart {h : KernelHeap} {l : List Seg} (t : Tiled h l) {p q : Nat}
    (hp : p ∈ pointers l) (hq : q ∈ pointers l) (ne : p ≠ q) :
    p + payloadSize h p ≤ q ∨ q + payloadSize h q ≤ p := by
  obtain ⟨o, s, mem, rfl⟩ := mem_pointers.mp hp
  obtain ⟨o', s', mem', rfl⟩ := mem_pointers.mp hq
  have placed := (mem_taken.mp mem).1
  have placed' := (mem_taken.mp mem').1
  have big := (t.sizes s (place_bounds placed).2.2).1
  have big' := (t.sizes s' (place_bounds placed').2.2).1
  rw [t.payload placed, t.payload placed']
  simp only [MIN_BLOCK_SIZE, HEADER_SIZE] at *
  rcases place_eq_or_apart placed placed' with same | before | behind
  · simp only [Prod.mk.injEq] at same
    omega
  · simp only at before
    omega
  · simp only at behind
    omega

/-- Every run keeps the block list a tiling of the heap area. Live payloads are
aligned, inside the heap, and apart from each other and from every header; the
statistics add up; nothing live means the initial block; every walk comes to an end. -/
theorem heap_runs_tile (m : Buffer) (ops : List HeapOp) (s : HeapState)
    (run : Exec HeapState.allowed HeapState.step (HeapState.init m) ops s) :
    ∃ l, Tiled s.heap l ∧ s.live.Nodup ∧ (∀ p, p ∈ s.live ↔ p ∈ pointers l) ∧
      (∀ p ∈ s.live, p % 4 = 0 ∧ HEAP_START ≤ p ∧ p + payloadSize s.heap p ≤ HEAP_END) ∧
      (∀ p ∈ s.live, ∀ q ∈ s.live, p ≠ q →
        p + payloadSize s.heap p ≤ q ∨ q + payloadSize s.heap q ≤ p) ∧
      (∀ p ∈ s.live, ∀ b ∈ place HEAP_START l,
        p + payloadSize s.heap p ≤ b.1 ∨ b.1 + HEADER_SIZE ≤ p) ∧
      (∃ used free, heapGetUsedSize s.heap = some used ∧ heapGetFreeSize s.heap = some free ∧
        used + free = HEAP_SIZE) ∧
      (s.live = [] → l = [⟨HEAP_SIZE, true⟩]) ∧
      (∀ size, ∃ r, kmallocFrom (totalSize size) WALK_FUEL s.heap.mem s.heap.head = some r) ∧
      (∀ p ∈ s.live, ∃ r, coalesceFrom WALK_FUEL (setFree s.heap.mem (p - HEADER_SIZE) 1)
        s.heap.head = some r) := by
  obtain ⟨l, t, perm⟩ := run.invariant HeapState.step_inv (HeapState.init_inv m)
  have live : ∀ {p}, p ∈ s.live → p ∈ pointers l := fun h => perm.mem_iff.mp h
  refine ⟨l, t, perm.nodup_iff.mpr (pointers_nodup t.sizes), fun p => perm.mem_iff,
    fun p hp => t.pointer_bounds (live hp),
    fun p hp q hq ne => t.payloads_apart (live hp) (live hq) ne,
    fun p hp b hb => t.payload_clear_of_block (live hp) hb, t.statistics, ?_, ?_, ?_⟩
  · intro empty
    have none : taken HEAP_START l = [] := by
      rw [empty] at perm
      exact List.map_eq_nil_iff.mp perm.nil_eq.symm
    rw [single_of_taken_nil t.separated t.ne_nil none, t.covers]
  · intro size
    obtain ⟨m', p, search, -⟩ := t.search size
    exact ⟨_, search⟩
  · intro p hp
    obtain ⟨o, s', mem, rfl⟩ := mem_pointers.mp (live hp)
    obtain ⟨m', walk, -⟩ := t.coalesced (mem_taken.mp mem).1
    rw [Nat.add_sub_cancel]
    exact ⟨m', walk⟩

/-- One allocation, a store into it, and its release. -/
theorem heap_runs_tile_alloc_free :
    ∃ s l, Exec HeapState.allowed HeapState.step (HeapState.init fun _ => 0)
      [.kmalloc 100, .write 0x200010 7, .kfree 0x200010] s ∧ Tiled s.heap l ∧
      l = [⟨HEAP_SIZE, true⟩] := by
  let s₁ := HeapState.step (HeapState.init fun _ => 0) (.kmalloc 100)
  let s₂ := s₁.step (.write 0x200010 7)
  have live₁ : s₁.live = [0x200010] := by decide
  have live₂ : s₂.live = [0x200010] := live₁
  have payload : payloadSize s₁.heap 0x200010 = 100 := by decide
  have run : Exec HeapState.allowed HeapState.step (HeapState.init fun _ => 0)
      [.kmalloc 100, .write 0x200010 7, .kfree 0x200010] (s₂.step (.kfree 0x200010)) := by
    have write : s₁.allowed (.write 0x200010 7) :=
      ⟨0x200010, by rw [live₁]; simp, by rw [payload]; decide⟩
    have free : s₂.allowed (.kfree 0x200010) := Or.inr (live₂ ▸ List.mem_singleton_self _)
    exact .cons trivial (.cons write (.cons free (.nil _)))
  obtain ⟨l, t, -, -, -, -, -, -, single, -⟩ := heap_runs_tile _ _ _ run
  refine ⟨_, l, run, t, single ?_⟩
  change s₂.live.erase 0x200010 = []
  rw [live₂]
  rfl

end Wittche.Heap
