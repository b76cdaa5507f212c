import Wittche.Heap.Blocks
import Wittche.Lib.Execution

/-! The allocated blocks say all about the heap that a caller can ever find out. Then the
walks that count blocks. -/

namespace Wittche.Heap
open Bytes CString Segments Execution

section Answers

def answer (s : HeapState) (op : HeapOp) : Nat × Option Nat × Option Nat :=
  let pointer := match op with
    | .kmalloc size => (kmalloc s.heap size).2
    | .kfree _ => 0
    | .write _ _ => 0
  (pointer, heapGetUsedSize (s.step op).heap, heapGetFreeSize (s.step op).heap)

def Alike (s t : HeapState) : Prop :=
  ∃ l, Tiled s.heap l ∧ Tiled t.heap l ∧ s.live.Perm (pointers l) ∧ t.live.Perm (pointers l)

variable {s t : HeapState} {op : HeapOp}

theorem Alike.statistics (alike : Alike s t) :
    heapGetUsedSize s.heap = heapGetUsedSize t.heap ∧ heapGetFreeSize s.heap = heapGetFreeSize t.heap := by
  obtain ⟨l, here, there, -, -⟩ := alike
  have small : 0 + total l < 2 ^ 32 := by
    rw [here.covers]
    decide
  have walks : ∀ p : Nat → Bool, sumSizes p s.heap.mem WALK_FUEL s.heap.head 0 =
      sumSizes p t.heap.mem WALK_FUEL t.heap.head 0 := by
    intro p
    rw [← here.linkTo, ← there.linkTo, sumSizes_rep here.rep here.sizes (by decide) small here.length_lt,
      sumSizes_rep there.rep there.sizes (by decide) small there.length_lt]
  exact ⟨walks _, walks _⟩

theorem perm_pointers {live : List Nat} {l : List Seg} (sizes : SizesOk l) (nodup : live.Nodup)
    (members : ∀ q, q ∈ live ↔ q ∈ pointers l) : live.Perm (pointers l) :=
  (List.perm_ext_iff_of_nodup nodup (pointers_nodup sizes)).mpr members

theorem Alike.kmalloc (alike : Alike s t) (size : Word) :
    (Heap.kmalloc s.heap size).2 = (Heap.kmalloc t.heap size).2 ∧
      Alike (s.step (.kmalloc size)) (t.step (.kmalloc size)) := by
  obtain ⟨l, here, there, perm, perm'⟩ := alike
  rcases kmalloc_congr here there size with ⟨failed, failed'⟩ | ⟨k, k', p, l', got, got', ptr, tiled, tiled', fresh, members⟩
  · refine ⟨by rw [failed, failed'], l, ?_⟩
    simp only [HeapState.step, failed, failed', if_true]
    exact ⟨here, there, perm, perm'⟩
  · have granted : ∀ live : List Nat, live.Perm (pointers l) → (p :: live).Perm (pointers l') := by
      intro live same
      refine perm_pointers tiled.sizes ?_ fun q => ?_
      · exact List.nodup_cons.mpr ⟨fun old => fresh (same.mem_iff.mp old), same.nodup_iff.mpr (pointers_nodup here.sizes)⟩
      · rw [List.mem_cons, same.mem_iff, members]
    refine ⟨by rw [got, got'], l', ?_⟩
    simp only [HeapState.step, got, got', ptr, if_false]
    exact ⟨tiled, tiled', granted _ perm, granted _ perm'⟩

theorem Alike.kfree (alike : Alike s t) {p : Nat} (ok : s.allowed (.kfree p)) :
    Alike (s.step (.kfree p)) (t.step (.kfree p)) := by
  obtain ⟨l, here, there, perm, perm'⟩ := alike
  rcases ok with rfl | live
  · have erased : ∀ live : List Nat, live.Perm (pointers l) → live.erase 0 = live := fun live same =>
      List.erase_of_not_mem fun mem => pointers_pos (same.mem_iff.mp mem) rfl
    refine ⟨l, ?_⟩
    simp only [HeapState.step, Heap.kfree, if_true, erased _ perm, erased _ perm']
    exact ⟨here, there, perm, perm'⟩
  · obtain ⟨l', tiled, tiled', members⟩ := kfree_congr here there (perm.mem_iff.mp live)
    have left : ∀ live : List Nat, live.Perm (pointers l) → (live.erase p).Perm (pointers l') := by
      intro live same
      have nodup := same.nodup_iff.mpr (pointers_nodup here.sizes)
      refine perm_pointers tiled.sizes (nodup.erase p) fun q => ?_
      rw [nodup.mem_erase_iff, same.mem_iff, members, and_comm]
    exact ⟨l', tiled, tiled', left _ perm, left _ perm'⟩

theorem Alike.write (alike : Alike s t) {a : Nat} {v : Byte} (ok : s.allowed (.write a v)) :
    Alike (s.step (.write a v)) (t.step (.write a v)) := by
  obtain ⟨l, here, there, perm, perm'⟩ := alike
  obtain ⟨p, live, inside⟩ := ok
  have taken := perm.mem_iff.mp live
  obtain ⟨o, seg, mem, rfl⟩ := mem_pointers.mp taken
  have placed := (mem_taken.mp mem).1
  have size : payloadSize s.heap (HEAP_START + o + HEADER_SIZE) = payloadSize t.heap (HEAP_START + o + HEADER_SIZE) := by
    rw [here.payload placed, there.payload placed]
  exact ⟨l, here.write taken inside, there.write taken (size ▸ inside), perm, perm'⟩

theorem Alike.step (alike : Alike s t) (ok : s.allowed op) :
    answer s op = answer t op ∧ Alike (s.step op) (t.step op) := by
  have next : (∀ size, op = .kmalloc size → (Heap.kmalloc s.heap size).2 = (Heap.kmalloc t.heap size).2) ∧
      Alike (s.step op) (t.step op) := by
    cases op with
    | kmalloc size =>
      obtain ⟨same, next⟩ := alike.kmalloc size
      exact ⟨fun _ call => HeapOp.kmalloc.inj call ▸ same, next⟩
    | kfree p => exact ⟨nofun, alike.kfree ok⟩
    | write a v => exact ⟨nofun, alike.write ok⟩
  obtain ⟨pointer, next⟩ := next
  obtain ⟨used, free⟩ := next.statistics
  refine ⟨?_, next⟩
  cases op with
  | kmalloc size => rw [answer, answer, used, free, pointer size rfl]
  | kfree p => rw [answer, answer, used, free]
  | write a v => rw [answer, answer, used, free]

/-- Two histories that leave the same blocks allocated leave heaps that no further use tells
apart: each request gets the same pointer from then on, and the statistics agree. -/
theorem same_blocks_same_future (m m' : Buffer) (ops ops' : List HeapOp) (s t : HeapState)
    (run : Exec HeapState.allowed HeapState.step (HeapState.init m) ops s)
    (run' : Exec HeapState.allowed HeapState.step (HeapState.init m') ops' t)
    (same : heapBlocks s.heap = heapBlocks t.heap) (more : List HeapOp) (u : HeapState)
    (future : Exec HeapState.allowed HeapState.step s more u) :
    seen answer HeapState.step s more = seen answer HeapState.step t more := by
  obtain ⟨l, here, perm⟩ := run.invariant HeapState.step_inv (HeapState.init_inv m)
  obtain ⟨l', there, perm'⟩ := run'.invariant HeapState.step_inv (HeapState.init_inv m')
  obtain rfl := here.eq_of_blocks there same
  have start : Alike s t := ⟨l, here, there, perm, perm'⟩
  exact future.seen_eq (fun _ _ _ alike ok => alike.step ok) start

theorem HeapState.Inv.no_blocks (inv : s.Inv) (none : s.live = []) : heapBlocks s.heap = ∅ := by
  obtain ⟨l, t, perm⟩ := inv
  rw [none] at perm
  rw [Set.eq_empty_iff_forall_notMem]
  rintro b ⟨live, -⟩
  have member := perm.mem_iff.mpr (t.allocated_iff.mp live)
  exact List.not_mem_nil member

theorem same_blocks_same_future_freed :
    seen answer HeapState.step (HeapState.init fun _ => 0) [.kmalloc 8] =
      seen answer HeapState.step
        (((HeapState.init fun _ => 7).step (.kmalloc 100)).step (.kfree 0x200010)) [.kmalloc 8] := by
  have live : ((HeapState.init fun _ => 7).step (.kmalloc 100)).live = [0x200010] := by decide
  have run : Exec HeapState.allowed HeapState.step (HeapState.init fun _ => 7) [.kmalloc 100, .kfree 0x200010]
      (((HeapState.init fun _ => 7).step (.kmalloc 100)).step (.kfree 0x200010)) :=
    .cons trivial (.cons (Or.inr (live ▸ List.mem_singleton_self _)) (.nil _))
  have none : (((HeapState.init fun _ => 7).step (.kmalloc 100)).step (.kfree 0x200010)).live = [] := by
    change ((HeapState.init fun _ => 7).step (.kmalloc 100)).live.erase 0x200010 = []
    rw [live]
    rfl
  have left := (HeapState.init_inv fun _ => 0).no_blocks rfl
  have right := (run.invariant HeapState.step_inv (HeapState.init_inv _)).no_blocks none
  exact same_blocks_same_future _ _ [] _ _ _ (.nil _) run (left.trans right.symm) [.kmalloc 8] _ (.cons trivial (.nil _))

end Answers

section Counting

/-- The walks of `heap_get_block_count` and `heap_get_free_block_count`. -/
def countBlocks (p : Nat → Bool) (m : Buffer) : (fuel current count : Nat) → Option Nat
  | 0, _, _ => none
  | fuel + 1, current, count =>
    if current = 0 then some count
    else countBlocks p m fuel (blockNext m current) (if p (isFree m current) then (count + 1) % 2 ^ 32 else count)

def heapGetBlockCount (h : KernelHeap) : Option Nat := countBlocks (fun _ => true) h.mem WALK_FUEL h.head 0
def heapGetFreeBlockCount (h : KernelHeap) : Option Nat := countBlocks (· != 0) h.mem WALK_FUEL h.head 0

theorem countBlocks_rep {p : Nat → Bool} {m : Buffer} {a count fuel : Nat} {l : List Seg} (rep : Rep m a l)
    (sizes : SizesOk l) (start : 0 < a) (bound : count + l.length < 2 ^ 32) (enough : l.length < fuel) :
    countBlocks p m fuel (linkTo a l) count = some (count + l.countP fun s => p (if s.free then 1 else 0)) := by
  induction l generalizing a count fuel with
  | nil =>
    obtain ⟨fuel, rfl⟩ : ∃ k, fuel = k + 1 := ⟨fuel - 1, by simp at enough; omega⟩
    rw [Heap.linkTo, countBlocks, if_pos rfl]
    rfl
  | cons s rest ih =>
    obtain ⟨fuel, rfl⟩ : ∃ k, fuel = k + 1 := ⟨fuel - 1, by simp at enough; omega⟩
    obtain ⟨⟨size, free, -, link⟩, tail⟩ := rep
    have own := (sizes s List.mem_cons_self).1
    rw [List.length_cons] at bound enough
    rw [Heap.linkTo, countBlocks, if_neg (by omega), link, free, List.countP_cons]
    cases tag : p (if s.free = true then 1 else 0)
    · rw [if_neg (by simp), if_neg (by simp)]
      exact ih tail sizes.tail (by omega) (by omega) (by omega)
    · rw [if_pos rfl, if_pos rfl, Nat.mod_eq_of_lt (by omega), ih tail sizes.tail (by omega) (by omega) (by omega)]
      congr 1
      omega

theorem Tiled.counts {h : KernelHeap} {l : List Seg} (t : Tiled h l) :
    heapGetFreeBlockCount h = some (l.countP (·.free)) ∧ heapGetBlockCount h = some l.length := by
  have short := t.length_lt
  have small : 0 + l.length < 2 ^ 32 := by
    have fuel : WALK_FUEL < 2 ^ 32 := by decide
    omega
  have free := countBlocks_rep (p := (· != 0)) t.rep t.sizes (by decide) small short
  have all := countBlocks_rep (p := fun _ => true) t.rep t.sizes (by decide) small short
  rw [t.linkTo] at free all
  have tags : (l.countP fun s => (if s.free then 1 else 0) != 0) = l.countP (·.free) := by
    refine List.countP_congr fun s _ => ?_
    cases s.free <;> decide
  rw [heapGetFreeBlockCount, heapGetBlockCount, free, all, tags, List.countP_true, Nat.zero_add, Nat.zero_add]
  exact ⟨rfl, rfl⟩

theorem taken_length (base : Nat) (l : List Seg) : (taken base l).length = l.countP (!·.free) := by
  induction l generalizing base with
  | nil => rfl
  | cons a rest ih =>
    rw [taken_cons, List.countP_cons]
    cases a.free with
    | false =>
      simp only [Bool.false_eq_true, if_false, List.length_cons, ih, Bool.not_false, if_true]
    | true => simp only [if_true, ih, Bool.not_true, Bool.false_eq_true, if_false, Nat.add_zero]

theorem live_length {live : List Nat} {l : List Seg} (perm : live.Perm (pointers l)) : live.length = l.countP (!·.free) := by
  rw [perm.length_eq, pointers, List.length_map, taken_length]

theorem Tiled.free_le {h : KernelHeap} {l : List Seg} (t : Tiled h l) : l.countP (·.free) ≤ l.countP (!·.free) + 1 := by
  have few := free_le_taken t.separated
  split at few <;> omega

/-- The heap has one block for each live pointer and some free ones, of which there is at most
one more: however it is used, it does not crumble further. -/
theorem heap_runs_count (m : Buffer) (ops : List HeapOp) (s : HeapState)
    (run : Exec HeapState.allowed HeapState.step (HeapState.init m) ops s) :
    ∃ free, heapGetFreeBlockCount s.heap = some free ∧ heapGetBlockCount s.heap = some (s.live.length + free) ∧
      free ≤ s.live.length + 1 := by
  obtain ⟨l, t, perm⟩ := run.invariant HeapState.step_inv (HeapState.init_inv m)
  have live := live_length perm
  obtain ⟨free, all⟩ := t.counts
  refine ⟨l.countP (·.free), free, ?_, ?_⟩
  · have split := List.length_eq_countP_add_countP (·.free) (l := l)
    have taken : (l.countP fun s => decide ¬s.free = true) = l.countP (!·.free) := by
      refine List.countP_congr fun s _ => ?_
      cases s.free <;> decide
    rw [taken] at split
    rw [all, live]
    congr 1
    omega
  · exact live ▸ t.free_le

theorem heap_runs_count_one : ∃ free, heapGetFreeBlockCount ((HeapState.init fun _ => 0).step (.kmalloc 100)).heap = some free ∧
    free ≤ 2 := by
  obtain ⟨free, count, -, few⟩ := heap_runs_count (fun _ => 0) [.kmalloc 100] _ (.cons trivial (.nil _))
  have live : ((HeapState.init fun _ => 0).step (.kmalloc 100)).live = [0x200010] := by decide
  rw [live] at few
  exact ⟨free, count, few⟩

end Counting

end Wittche.Heap
