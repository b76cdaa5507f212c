import Mathlib.Data.Set.Insert
import Wittche.Heap.FirstFit

/-! The allocated blocks of the kernel heap as a set of addresses with sizes. `kmalloc` adds
one, `kfree` removes one, and the set decides where every block is, the free ones too. -/

namespace Wittche.Heap
open Bytes CString Segments

def granted (x : Nat × Seg) : Nat × Nat := (x.1 + HEADER_SIZE, x.2.size - HEADER_SIZE)

def heapBlocks (h : KernelHeap) : Set (Nat × Nat) := {b | Allocated h b.1 ∧ b.2 = payloadSize h b.1}

section Blocks

variable {h h' : KernelHeap} {l l' : List Seg} {p base q : Nat}

theorem Tiled.mem_heapBlocks (t : Tiled h l) (b : Nat × Nat) :
    b ∈ heapBlocks h ↔ ∃ x ∈ taken HEAP_START l, b = granted x := by
  constructor
  · rintro ⟨⟨l', t', live⟩, size⟩
    obtain rfl := t'.unique t
    obtain ⟨o, seg, mem, ptr⟩ := mem_pointers.mp live
    refine ⟨_, mem, Prod.ext ptr ?_⟩
    rw [size, ptr, t'.payload (mem_taken.mp mem).1]
    rfl
  · rintro ⟨⟨a, seg⟩, mem, rfl⟩
    have low := taken_low mem
    obtain ⟨o, rfl⟩ := Nat.exists_eq_add_of_le low
    refine ⟨⟨l, t, mem_pointers.mpr ⟨o, seg, mem, rfl⟩⟩, ?_⟩
    rw [granted, t.payload (mem_taken.mp mem).1]

theorem Tiled.allocated_iff (t : Tiled h l) : Allocated h p ↔ p ∈ pointers l := by
  constructor
  · rintro ⟨l', t', live⟩
    rwa [t.unique t']
  · exact fun live => ⟨l, t, live⟩

theorem allocated_iff_block : Allocated h p ↔ ∃ n, (p, n) ∈ heapBlocks h := by
  constructor
  · exact fun live => ⟨payloadSize h p, live, rfl⟩
  · rintro ⟨n, live, -⟩
    exact live

theorem allocated_congr (same : heapBlocks h = heapBlocks h') : Allocated h p ↔ Allocated h' p := by
  rw [allocated_iff_block, allocated_iff_block, same]

theorem Tiled.heapBlocks_eq (t : Tiled h l) (t' : Tiled h' l) : heapBlocks h = heapBlocks h' :=
  Set.ext fun b => (t.mem_heapBlocks b).trans (t'.mem_heapBlocks b).symm

/-- A word that is stored in an allocated block, or in front of the heap. -/
theorem Tiled.store (t : Tiled h l) {a : Nat} (w : Word)
    (place : a + 4 ≤ HEAP_START ∨ ∃ p n, (p, n) ∈ heapBlocks h ∧ p ≤ a ∧ a + 4 ≤ p + n) : Tiled (h.store a w) l := by
  rw [KernelHeap.store]
  refine (t.patch fun x changed => ?_).1
  have range : a ≤ x ∧ x < a + 4 := by
    by_contra away
    exact changed (store_apart (by omega))
  rcases place with front | ⟨p, n, ⟨live, size⟩, low, high⟩
  · exact Or.inl (Or.inl (by omega))
  · have size' : n = payloadSize h p := size
    exact Or.inr ⟨p, t.allocated_iff.mp live, by omega, by omega⟩

/-- `kmalloc` adds a block that is large enough, or does nothing. -/
theorem Tiled.kmalloc_blocks (t : Tiled h l) (size : Word) :
    kmalloc h size = (h, 0) ∨ ∃ l' n, Tiled (kmalloc h size).1 l' ∧ (kmalloc h size).2 ≠ 0 ∧
      ¬Allocated h (kmalloc h size).2 ∧ (size.toNat ≤ MAX_REQUEST → size.toNat ≤ n) ∧
      heapBlocks (kmalloc h size).1 = insert ((kmalloc h size).2, n) (heapBlocks h) := by
  rcases kmalloc_live t size with failed | ⟨k, p, l₁, got, there, tiled, fresh, -⟩
  · exact Or.inl failed
  rcases kmalloc_cases t size with ⟨failed, -⟩ | ⟨o, l', -, found, ptr, t', -⟩
  · exact Or.inl failed
  right
  obtain ⟨z, large, -, perm⟩ := firstFit_taken HEAP_START (by decide) found
  refine ⟨l', z - HEADER_SIZE, t', ?_, ?_, fun small => ?_, ?_⟩
  · rw [got]
    exact there
  · rw [got, t.allocated_iff]
    exact fresh
  · rw [totalSize_eq small, neededSize] at large
    simp only [HEADER_SIZE] at *
    omega
  · ext b
    rw [t'.mem_heapBlocks, Set.mem_insert_iff, t.mem_heapBlocks, ptr]
    constructor
    · rintro ⟨x, mem, rfl⟩
      rcases List.mem_cons.mp (perm.mem_iff.mp mem) with rfl | old
      · exact Or.inl rfl
      · exact Or.inr ⟨x, old, rfl⟩
    · rintro (rfl | ⟨x, old, rfl⟩)
      · exact ⟨_, perm.mem_iff.mpr List.mem_cons_self, rfl⟩
      · exact ⟨x, perm.mem_iff.mpr (List.mem_cons_of_mem _ old), rfl⟩

theorem Tiled.kmalloc_large (t : Tiled h l) {size : Word} {k : KernelHeap} (got : kmalloc h size = (k, p)) (some : p ≠ 0)
    (small : size.toNat ≤ MAX_REQUEST) : ∃ n, (p, n) ∈ heapBlocks k ∧ size.toNat ≤ n := by
  rcases t.kmalloc_blocks size with failed | ⟨-, n, -, -, -, large, blocks⟩
  · exact absurd (congrArg Prod.snd (got.symm.trans failed)) some
  · rw [got] at blocks
    exact ⟨n, blocks ▸ Set.mem_insert .., large small⟩

theorem Tiled.kmalloc_keeps (t : Tiled h l) {size : Word} {k : KernelHeap} (got : kmalloc h size = (k, p)) :
    heapBlocks h ⊆ heapBlocks k := by
  rcases t.kmalloc_blocks size with failed | ⟨-, n, -, -, -, -, blocks⟩
  · rw [got] at failed
    rw [show k = h from congrArg Prod.fst failed]
  · rw [got] at blocks
    exact blocks ▸ Set.subset_insert ..

theorem Tiled.kfree_blocks (t : Tiled h l) (live : Allocated h p) :
    (∃ l', Tiled (kfree h p) l') ∧ heapBlocks (kfree h p) = heapBlocks h \ {b | b.1 = p} := by
  rw [t.allocated_iff] at live
  obtain ⟨l₁, tiled, members⟩ := kfree_live t live
  obtain ⟨o, seg, mem, rfl⟩ := mem_pointers.mp live
  obtain ⟨l', t', perm, -⟩ := kfree_taken t mem
  obtain rfl := tiled.unique t'
  refine ⟨⟨_, tiled⟩, ?_⟩
  ext b
  rw [tiled.mem_heapBlocks, Set.mem_sdiff, t.mem_heapBlocks, Set.mem_ofPred_eq]
  constructor
  · rintro ⟨x, old, rfl⟩
    refine ⟨⟨x, perm.mem_iff.mpr (List.mem_cons_of_mem _ old), rfl⟩, ?_⟩
    have there : (granted x).1 ∈ pointers _ := List.mem_map.mpr ⟨x, old, rfl⟩
    exact ((members _).mp there).2
  · rintro ⟨⟨x, there, rfl⟩, other⟩
    refine ⟨x, (List.mem_cons.mp (perm.mem_iff.mp there)).resolve_left ?_, rfl⟩
    rintro rfl
    exact other rfl

theorem Tiled.kfree_kmalloc (t : Tiled h l) {size : Word} (some : (kmalloc h size).2 ≠ 0) :
    heapBlocks (kfree (kmalloc h size).1 (kmalloc h size).2) = heapBlocks h := by
  rcases t.kmalloc_blocks size with failed | ⟨l', n, t', -, fresh, -, blocks⟩
  · exact absurd (congrArg Prod.snd failed) some
  · have live : Allocated (kmalloc h size).1 (kmalloc h size).2 := by
      rw [allocated_iff_block, blocks]
      exact ⟨n, Set.mem_insert ..⟩
    rw [(t'.kfree_blocks live).2, blocks]
    ext b
    rw [Set.mem_sdiff, Set.mem_insert_iff, Set.mem_ofPred_eq]
    constructor
    · rintro ⟨rfl | old, other⟩
      · exact absurd rfl other
      · exact old
    · exact fun old => ⟨Or.inr old, fun same => fresh (same ▸ old.1)⟩

theorem Tiled.kfree_same (t : Tiled h l) (t' : Tiled h' l') (same : heapBlocks h = heapBlocks h')
    (live : Allocated h p) : heapBlocks (kfree h p) = heapBlocks (kfree h' p) := by
  rw [(t.kfree_blocks live).2, (t'.kfree_blocks ((allocated_congr same).mp live)).2, same]

theorem Tiled.allocated_kfree (tiled : Tiled h l) (live : Allocated h p) :
    Allocated (kfree h p) q ↔ Allocated h q ∧ q ≠ p := by
  rw [allocated_iff_block, allocated_iff_block, (tiled.kfree_blocks live).2]
  simp

theorem Tiled.kfree_three (tiled : Tiled h l) (live : Allocated h p ∧ Allocated h base ∧ Allocated h q)
    (apart : base ≠ p ∧ q ≠ p ∧ q ≠ base) : heapBlocks (kfree (kfree (kfree h base) q) p) =
      heapBlocks h \ {b | b.1 = p ∨ b.1 = base ∨ b.1 = q} := by
  obtain ⟨pcb, stack, queue⟩ := live
  obtain ⟨⟨l1, tiled1⟩, blocks1⟩ := tiled.kfree_blocks stack
  have queue1 := (tiled.allocated_kfree stack).mpr ⟨queue, apart.2.2⟩
  have pcb1 := (tiled.allocated_kfree stack).mpr ⟨pcb, apart.1.symm⟩
  obtain ⟨⟨l2, tiled2⟩, blocks2⟩ := tiled1.kfree_blocks queue1
  have pcb2 := (tiled1.allocated_kfree queue1).mpr ⟨pcb1, apart.2.1.symm⟩
  rw [(tiled2.kfree_blocks pcb2).2, blocks2, blocks1]
  ext b
  simp only [Set.mem_sdiff, Set.mem_ofPred_eq]
  constructor
  · rintro ⟨⟨⟨old, stack⟩, queue⟩, pcb⟩
    refine ⟨old, ?_⟩
    rintro (hit | hit | hit)
    · exact pcb hit
    · exact stack hit
    · exact queue hit
  · rintro ⟨old, away⟩
    exact ⟨⟨⟨old, fun hit => away (Or.inr (Or.inl hit))⟩, fun hit => away (Or.inr (Or.inr hit))⟩,
      fun hit => away (Or.inl hit)⟩

theorem Tiled.eq_of_blocks (t : Tiled h l) (t' : Tiled h' l') (same : heapBlocks h = heapBlocks h') : l = l' := by
  have sub : ∀ {h h' : KernelHeap} {l l' : List Seg}, Tiled h l → Tiled h' l' → heapBlocks h = heapBlocks h' →
      ∀ x ∈ taken HEAP_START l, x ∈ taken HEAP_START l' := by
    intro h h' l l' t t' same x mem
    have there : granted x ∈ heapBlocks h' := same ▸ (t.mem_heapBlocks _).mpr ⟨x, mem, rfl⟩
    obtain ⟨y, mem', eq⟩ := (t'.mem_heapBlocks _).mp there
    have big := (t.sizes x.2 (place_bounds (mem_taken.mp mem).1).2.2).1
    have big' := (t'.sizes y.2 (place_bounds (mem_taken.mp mem').1).2.2).1
    obtain ⟨address, size⟩ := Prod.mk.inj eq
    have tags := (mem_taken.mp mem).2.trans (mem_taken.mp mem').2.symm
    have one : x = y := by
      obtain ⟨a, n, tag⟩ := x
      obtain ⟨a', n', tag'⟩ := y
      simp only [MIN_BLOCK_SIZE, HEADER_SIZE, Prod.mk.injEq, Seg.mk.injEq] at *
      exact ⟨by omega, by omega, tags⟩
    rw [one]
    exact mem'
  exact eq_of_taken t.separated t'.separated t.size_pos t'.size_pos
    (fun x => ⟨sub t t' same x, sub t' t same.symm x⟩) (t.covers.trans t'.covers.symm)

end Blocks

end Wittche.Heap
