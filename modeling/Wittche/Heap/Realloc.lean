import Wittche.Heap.FirstFit

/-! `krealloc` of a live pointer. It is `kmalloc`, a copy between two payloads that are apart,
and `kfree`; each of the three leaves the blocks it is not about as they are. -/

namespace Wittche.Heap
open Bytes CString Segments Execution

section Steps

variable {h h' h'' : KernelHeap} {l : List Seg} {p q : Nat}

theorem SameBlock.trans (first : SameBlock h h' p) (second : SameBlock h' h'' p) : SameBlock h h'' p := by
  refine ⟨second.size.trans first.size, fun x inside => ?_⟩
  have inside' : InBlock h' p x := by
    rw [InBlock, first.size]
    exact inside
  exact (second.bytes x inside').trans (first.bytes x inside)

theorem Tiled.blocks_apart (t : Tiled h l) (hp : p ∈ pointers l) (hq : q ∈ pointers l) (ne : p ≠ q) {x : Nat}
    (inside : InBlock h p x) : ¬InBlock h q x := by
  obtain ⟨o, seg, mem, rfl⟩ := mem_pointers.mp hp
  obtain ⟨o', seg', mem', rfl⟩ := mem_pointers.mp hq
  have placed := (mem_taken.mp mem).1
  have placed' := (mem_taken.mp mem').1
  rw [t.inBlock placed] at inside
  rw [t.inBlock placed']
  rcases place_eq_or_apart placed placed' with same | before | behind
  · rw [Prod.mk.injEq] at same
    omega
  · simp only at before
    omega
  · simp only at behind
    omega

theorem Tiled.fill (t : Tiled h l) (live : q ∈ pointers l) {n : Nat} (fits : n ≤ payloadSize h q) (src : Buffer) :
    Tiled { h with mem := copy h.mem q src n } l ∧
      payloadSize { h with mem := copy h.mem q src n } q = payloadSize h q ∧
      ∀ p ∈ pointers l, p ≠ q → SameBlock h { h with mem := copy h.mem q src n } p := by
  have changes : ∀ x, copy h.mem q src n x ≠ h.mem x → q ≤ x ∧ x < q + payloadSize h q := by
    intro x changed
    by_contra away
    exact changed (copy_outside (by omega))
  obtain ⟨filled, size⟩ := t.patch fun x changed => Or.inr ⟨q, live, changes x changed⟩
  refine ⟨filled, size q live, fun p mine other => ⟨size p mine, fun x inside => ?_⟩⟩
  have away := t.blocks_apart mine live other inside
  rw [InBlock] at away
  exact copy_outside (by omega)

theorem Tiled.kfree_spec (t : Tiled h l) (live : p ∈ pointers l) :
    ∃ l', Tiled (kfree h p) l' ∧ (pointers l).Perm (p :: pointers l') ∧
      (∀ q ∈ pointers l, q ≠ p → SameBlock h (kfree h p) q) ∧
      ∃ b n, (b, ⟨n, true⟩) ∈ place HEAP_START l' ∧ b ≤ p - HEADER_SIZE ∧ p + payloadSize h p ≤ b + n := by
  obtain ⟨o, seg, mem, rfl⟩ := mem_pointers.mp live
  obtain ⟨l', t', perm, frame⟩ := kfree_taken t mem
  have placed := (mem_taken.mp mem).1
  have big := (t.sizes seg (place_bounds placed).2.2).1
  have apart : ∀ y ∈ taken HEAP_START l, y ≠ (HEAP_START + o, seg) →
      HEAP_START + o + seg.size ≤ y.1 ∨ y.1 + y.2.size ≤ HEAP_START + o := by
    intro y there other
    rcases place_eq_or_apart placed (mem_taken.mp there).1 with same | before | behind
    · exact absurd same.symm other
    · exact Or.inl before
    · exact Or.inr behind
  have live' := perm.map (·.1 + HEADER_SIZE)
  refine ⟨l', t', live', ?_, ?_⟩
  · intro q mine other
    obtain ⟨o', seg', mem', rfl⟩ := mem_pointers.mp mine
    have away : (HEAP_START + o', seg') ≠ (HEAP_START + o, seg) := by
      intro same
      rw [(Prod.mk.inj same).1] at other
      exact other rfl
    have kept := (List.mem_cons.mp (perm.mem_iff.mp mem')).resolve_left away
    refine t.sameBlock t' (mem_taken.mp mem').1 (mem_taken.mp kept).1 fun x low high out => ?_
    have far := apart _ mem' away
    simp only at far
    rw [frame x out]
    refine setFree_only h.mem (HEAP_START + o) 1 x ?_
    simp only [MIN_BLOCK_SIZE, HEADER_SIZE] at *
    omega
  · -- No taken block of the new list meets the block that was freed.
    have clear : ∀ x, HEAP_START + o ≤ x → x < HEAP_START + o + seg.size → ¬Covered HEAP_START l' x := by
      rintro x low high ⟨y, there, low', high'⟩
      have nodup : (taken HEAP_START l).Nodup := by
        refine (taken_apart HEAP_START l).imp_of_mem ?_
        rintro a b first - before rfl
        have own := (t.sizes a.2 (place_bounds (mem_taken.mp first).1).2.2).1
        simp only [MIN_BLOCK_SIZE] at own
        omega
      have fresh := (List.nodup_cons.mp (perm.nodup_iff.mp nodup)).1
      have far := apart y (perm.mem_iff.mpr (List.mem_cons_of_mem _ there)) fun same => fresh (same ▸ there)
      omega
    have bounds := place_bounds placed
    obtain ⟨⟨b, n, tag⟩, free, rfl, low, high⟩ := free_cover t'.separated t'.size_pos
      (t.size_pos seg bounds.2.2) bounds.1 (by rw [t'.covers, ← t.covers]; exact bounds.2.1) clear
    refine ⟨b, n, free, by rw [Nat.add_sub_cancel]; exact low, ?_⟩
    rw [t.payload placed]
    simp only [MIN_BLOCK_SIZE, HEADER_SIZE] at *
    omega

end Steps

/-- The state when `krealloc` has replaced `p` by what it returned. -/
def reallocated (s : HeapState) (p : Nat) (newSize : Word) : HeapState :=
  ⟨(krealloc s.heap p newSize).1, (krealloc s.heap p newSize).2 :: s.live.erase p⟩

structure Relocated (s : HeapState) (p : Nat) (newSize : Word) : Prop where
  other : (krealloc s.heap p newSize).2 ≠ p
  inv : (reallocated s p newSize).Inv
  room : newSize.toNat ≤ payloadSize (krealloc s.heap p newSize).1 (krealloc s.heap p newSize).2
  contents : ∀ i < payloadSize s.heap p,
    (krealloc s.heap p newSize).1.mem ((krealloc s.heap p newSize).2 + i) = s.heap.mem (p + i)
  freed : ∃ l b n, Tiled (krealloc s.heap p newSize).1 l ∧ (b, ⟨n, true⟩) ∈ place HEAP_START l ∧
    FreeStretch (reallocated s p newSize) b n ∧ b ≤ p - HEADER_SIZE ∧ p + payloadSize s.heap p ≤ b + n
  others : ∀ r ∈ s.live, r ≠ p → SameBlock s.heap (krealloc s.heap p newSize).1 r

section Realloc

variable {s : HeapState} {l : List Seg} {p : Nat} {newSize : Word}

/-- `krealloc` of a live pointer past its checks: the header is sound and gives the size of
the payload. -/
theorem Tiled.krealloc_eq (t : Tiled s.heap l) (mine : p ∈ pointers l) (some : newSize ≠ 0) :
    krealloc s.heap p newSize =
      if newSize.toNat ≤ payloadSize s.heap p then (s.heap, p)
      else if (kmalloc s.heap newSize).2 = 0 then ((kmalloc s.heap newSize).1, 0)
      else (kfree { (kmalloc s.heap newSize).1 with
          mem := memcpy (kmalloc s.heap newSize).1.mem (kmalloc s.heap newSize).2 p (payloadSize s.heap p) } p,
        (kmalloc s.heap newSize).2) := by
  have pos := pointers_pos mine
  obtain ⟨o, seg, mem, rfl⟩ := mem_pointers.mp mine
  have placed := (mem_taken.mp mem).1
  obtain ⟨-, high, inside⟩ := place_bounds placed
  have big := (t.sizes seg inside).1
  rw [t.covers] at high
  obtain ⟨next, size, -, magic, -⟩ := t.rep.header placed
  have block : (HEAP_START + o + HEADER_SIZE + 2 ^ 32 - HEADER_SIZE) % 2 ^ 32 = HEAP_START + o := by
    simp only [HEAP_START, HEAP_SIZE, HEADER_SIZE, MIN_BLOCK_SIZE] at *
    omega
  have current : (seg.size + 2 ^ 32 - HEADER_SIZE) % 2 ^ 32 = seg.size - HEADER_SIZE := by
    simp only [HEAP_START, HEAP_SIZE, HEADER_SIZE, MIN_BLOCK_SIZE] at *
    omega
  simp only at size magic
  rw [t.payload placed, krealloc, if_neg pos, if_neg some]
  simp only [block, magic, size, current, ne_eq, not_true_eq_false, if_false]

theorem Tiled.krealloc_relocated (t : Tiled s.heap l) (live : s.live.Perm (pointers l)) (mine : p ∈ s.live)
    (small : newSize.toNat ≤ MAX_REQUEST) (large : ¬newSize.toNat ≤ payloadSize s.heap p)
    (given : (kmalloc s.heap newSize).2 ≠ 0) : Relocated s p newSize := by
  have hp := live.mem_iff.mp mine
  have some : newSize ≠ 0 := by
    rintro rfl
    exact large (Nat.zero_le _)
  have others1 := (t.kmalloc_served live given).others
  have room := t.largeEnough live small given
  rcases kmalloc_pointers t newSize with failed | ⟨l1, t1, perm1, -⟩
  · exact absurd (congrArg Prod.snd failed) given
  have eq := t.krealloc_eq hp some
  rw [if_neg large, if_neg given] at eq
  obtain ⟨h1, q, call⟩ : ∃ h1 q, kmalloc s.heap newSize = (h1, q) := ⟨_, _, rfl⟩
  rw [call] at others1 room t1 perm1 eq
  simp only at others1 room t1 perm1 eq
  have hq : q ∈ pointers l1 := perm1.mem_iff.mpr List.mem_cons_self
  have hp1 : p ∈ pointers l1 := perm1.mem_iff.mpr (List.mem_cons_of_mem _ hp)
  have fresh := (List.nodup_cons.mp (perm1.nodup_iff.mp (pointers_nodup t1.sizes))).1
  have ne : q ≠ p := fun same => fresh (same ▸ hp)
  have same := others1 p mine
  have highQ := (t1.pointer_bounds hq).2.2
  have highP := (t1.pointer_bounds hp1).2.2
  have apart := t1.payloads_apart hq hp1 ne
  rw [same.size] at highP apart
  have copied : memcpy h1.mem q p (payloadSize s.heap p) =
      copy h1.mem q (fun i => h1.mem (p + i)) (payloadSize s.heap p) := by
    simp only [HEAP_END, HEAP_START, HEAP_SIZE] at highQ highP
    exact memcpy_eq (by omega) (by omega) (by omega)
  rw [copied] at eq
  obtain ⟨t2, size2, others2⟩ := t1.fill hq (n := payloadSize s.heap p) (by omega) fun i => h1.mem (p + i)
  obtain ⟨l3, t3, perm3, others3, b, n, free, low, high⟩ := t2.kfree_spec hp1
  have live3 : (q :: s.live.erase p).Perm (pointers l3) := by
    have erased := (((live.cons q).trans perm1.symm).trans perm3).erase p
    rwa [List.erase_cons_tail (by simpa using ne), List.erase_cons_head] at erased
  have sameP := (others2 p hp1 (Ne.symm ne)).size.trans same.size
  have sameQ := others3 q hq ne
  refine ⟨?_, ?_, ?_, fun i hi => ?_, ?_, fun r other ne' => ?_⟩
  · rw [eq]
    exact ne
  · rw [reallocated, eq]
    exact ⟨l3, t3, live3⟩
  · rw [eq]
    exact room.trans (sameQ.size.trans size2).ge
  · rw [eq]
    have inside : InBlock { h1 with mem := copy h1.mem q (fun i => h1.mem (p + i)) (payloadSize s.heap p) } q
        (q + i) := by
      rw [InBlock, size2]
      omega
    rw [sameQ.bytes _ inside]
    dsimp only
    rw [copy_inside (by omega), Nat.add_sub_cancel_left]
    exact same.bytes _ (by rw [InBlock]; omega)
  · rw [reallocated, eq]
    exact ⟨l3, b, n, t3, free, Tiled.freeStretch_iff t3 live3 |>.mpr free, low, sameP ▸ high⟩
  · rw [eq]
    have hr : r ∈ pointers l1 := perm1.mem_iff.mpr (List.mem_cons_of_mem _ (live.mem_iff.mp other))
    have old : r ≠ q := fun same => fresh (same ▸ live.mem_iff.mp other)
    exact ((others1 r other).trans (others2 r hr old)).trans (others3 r hr ne')

end Realloc

/-- In every state of a run `krealloc` of a live pointer changes nothing when the new size
fits or no block can be had, and else moves the payload. -/
theorem krealloc_preserves (m : Buffer) (ops : List HeapOp) (s : HeapState) (p : Nat) (newSize : Word)
    (run : Exec HeapState.allowed HeapState.step (HeapState.init m) ops s) (mine : p ∈ s.live)
    (low : 1 ≤ newSize.toNat) (high : newSize.toNat ≤ MAX_REQUEST) :
    (newSize.toNat ≤ payloadSize s.heap p → krealloc s.heap p newSize = (s.heap, p)) ∧
      (payloadSize s.heap p < newSize.toNat →
        krealloc s.heap p newSize = (s.heap, 0) ∨
          (krealloc s.heap p newSize).2 ≠ 0 ∧ Relocated s p newSize) := by
  obtain ⟨l, t, live⟩ := run.invariant HeapState.step_inv (HeapState.init_inv m)
  have some : newSize ≠ 0 := by
    rintro rfl
    exact absurd low (by decide)
  have eq := t.krealloc_eq (live.mem_iff.mp mine) some
  refine ⟨fun fits => eq.trans (if_pos fits), fun large => ?_⟩
  rw [if_neg (Nat.not_le.mpr large)] at eq
  by_cases none : (kmalloc s.heap newSize).2 = 0
  · left
    rw [eq, if_pos none]
    rcases kmalloc_cases t newSize with ⟨same, -⟩ | ⟨o, l', -, -, ptr, -⟩
    · rw [same]
    · rw [ptr] at none
      simp only [HEADER_SIZE] at none
      omega
  · right
    refine ⟨?_, t.krealloc_relocated live mine high (Nat.not_le.mpr large) none⟩
    rw [eq, if_neg none]
    exact none

/-- The block of 24 bytes at the start of the heap is moved behind itself. -/
theorem krealloc_preserves_moved :
    Relocated ((HeapState.init fun _ => 0).step (.kmalloc 24)) 0x200010 100 := by
  have moved := (krealloc_preserves (fun _ => 0) [.kmalloc 24] _ 0x200010 100 (.cons trivial (.nil _)) (by decide)
    (by decide) (by decide)).2 (by decide)
  have some : (krealloc ((HeapState.init fun _ => 0).step (.kmalloc 24)).heap 0x200010 100).2 ≠ 0 := by decide
  exact (moved.resolve_left fun failed => some (congrArg Prod.snd failed)).2

end Wittche.Heap
