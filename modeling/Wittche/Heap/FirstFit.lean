import Wittche.Heap.Invariant

/-! What `kmalloc` hands out, in terms of the allocated blocks alone. Free neighbours are
always merged, so a maximal range of addresses outside the allocated blocks is one block of
the list, and the search for a block is the search for such a range. The arithmetic of the
request is done modulo 2^32 and is right up to `MAX_REQUEST`. -/

namespace Wittche.Heap
open Bytes CString Segments Execution

/-- The largest request whose block size does not wrap around. -/
def MAX_REQUEST : Nat := 0xFFFFFFEC

def neededSize (size : Nat) : Nat := max MIN_BLOCK_SIZE (HEADER_SIZE + (size + 3) / 4 * 4)

theorem totalSize_eq {size : Word} (small : size.toNat ≤ MAX_REQUEST) : totalSize size = neededSize size.toNat := by
  have aligned := alignSize_toNat size
  simp only [MAX_REQUEST] at small
  rw [Nat.mod_eq_of_lt (by omega)] at aligned
  simp only [totalSize, aligned, HEADER_SIZE]
  rw [Nat.mod_eq_of_lt (by omega), neededSize, HEADER_SIZE, Nat.add_comm 16]
  split
  next low => exact (Nat.max_eq_left (Nat.le_of_lt low)).symm
  next high => exact (Nat.max_eq_right (Nat.le_of_not_lt high)).symm

theorem totalSize_wrapped {size : Word} (large : MAX_REQUEST < size.toNat) : totalSize size = MIN_BLOCK_SIZE := by
  have aligned := alignSize_toNat size
  have bound := size.isLt
  simp only [MAX_REQUEST] at large
  have wraps : ((alignSize size).toNat + HEADER_SIZE) % 2 ^ 32 < MIN_BLOCK_SIZE := by
    rw [aligned]
    simp only [HEADER_SIZE, MIN_BLOCK_SIZE]
    omega
  simp only [totalSize]
  rw [if_pos wraps]

def InBlock (h : KernelHeap) (p x : Nat) : Prop := p - HEADER_SIZE ≤ x ∧ x < p + payloadSize h p

/-- The `n` addresses of the heap from `a` on are in no allocated block, and there are no
more of them on either side. -/
structure FreeStretch (s : HeapState) (a n : Nat) : Prop where
  pos : 0 < n
  low : HEAP_START ≤ a
  high : a + n ≤ HEAP_END
  clear : ∀ x, a ≤ x → x < a + n → ∀ p ∈ s.live, ¬InBlock s.heap p x
  left : a = HEAP_START ∨ ∃ p ∈ s.live, InBlock s.heap p (a - 1)
  right : a + n = HEAP_END ∨ ∃ p ∈ s.live, InBlock s.heap p (a + n)

section Blocks

variable {h h' : KernelHeap} {l l' : List Seg} {s : HeapState}

theorem Tiled.size_pos (t : Tiled h l) : ∀ s ∈ l, 0 < s.size := by
  intro s hs
  have big := (t.sizes s hs).1
  simp only [MIN_BLOCK_SIZE] at big
  omega

theorem Tiled.inBlock (t : Tiled h l) {o : Nat} {seg : Seg} (mem : (HEAP_START + o, seg) ∈ place HEAP_START l)
    (x : Nat) : InBlock h (HEAP_START + o + HEADER_SIZE) x ↔ HEAP_START + o ≤ x ∧ x < HEAP_START + o + seg.size := by
  have big := (t.sizes seg (place_bounds mem).2.2).1
  rw [InBlock, t.payload mem]
  simp only [HEADER_SIZE, MIN_BLOCK_SIZE] at *
  omega

theorem Tiled.covered_iff (t : Tiled s.heap l) (live : s.live.Perm (pointers l)) (x : Nat) :
    Covered HEAP_START l x ↔ ∃ p ∈ s.live, InBlock s.heap p x := by
  constructor
  · rintro ⟨⟨b, seg⟩, mem, bounds⟩
    obtain ⟨placed, -⟩ := mem_taken.mp mem
    obtain ⟨o, rfl⟩ := Nat.exists_eq_add_of_le (place_bounds placed).1
    refine ⟨HEAP_START + o + HEADER_SIZE, live.mem_iff.mpr (mem_pointers.mpr ⟨o, seg, mem, rfl⟩), ?_⟩
    exact (t.inBlock placed x).mpr bounds
  · rintro ⟨p, mine, inside⟩
    obtain ⟨o, seg, mem, rfl⟩ := mem_pointers.mp (live.mem_iff.mp mine)
    exact ⟨_, mem, (t.inBlock (mem_taken.mp mem).1 x).mp inside⟩

theorem Tiled.freeStretch_iff (t : Tiled s.heap l) (live : s.live.Perm (pointers l)) {a n : Nat} :
    FreeStretch s a n ↔ (a, ⟨n, true⟩) ∈ place HEAP_START l := by
  have covered := t.covered_iff live
  have ends : HEAP_START + total l = HEAP_END := by
    rw [t.covers, HEAP_END]
  rw [← stretch_iff t.separated t.size_pos]
  constructor
  · intro h
    refine ⟨h.pos, h.low, ends ▸ h.high, fun x low high there => ?_, ?_, ?_⟩
    · obtain ⟨p, mine, inside⟩ := (covered x).mp there
      exact h.clear x low high p mine inside
    · rw [covered]
      exact h.left
    · rw [covered, ends]
      exact h.right
  · intro h
    refine ⟨h.pos, h.low, ends ▸ h.high, fun x low high p mine inside => ?_, ?_, ?_⟩
    · exact h.clear x low high ((covered x).mpr ⟨p, mine, inside⟩)
    · rw [← covered]
      exact h.left
    · rw [← covered, ← ends]
      exact h.right

theorem Rep.header_link {m : Buffer} {a : Nat} {l : List Seg} (rep : Rep m a l) (pos : ∀ s ∈ l, 0 < s.size)
    {x : Nat × Seg} (mem : x ∈ place a l) :
    Header m x.1 x.2 (if x.1 + x.2.size = a + total l then 0 else x.1 + x.2.size) := by
  induction l generalizing a with
  | nil => simp [place] at mem
  | cons s rest ih =>
    have tail : ∀ s ∈ rest, 0 < s.size := fun s hs => pos s (by simp [hs])
    rw [total]
    rcases List.mem_cons.mp mem with rfl | mem
    · have link : linkTo (a + s.size) rest = if a + s.size = a + (s.size + total rest) then 0 else a + s.size := by
        cases rest with
        | nil => rw [total, if_pos (by omega), linkTo]
        | cons t rest =>
          have next := tail t (by simp)
          rw [total, if_neg (by omega), linkTo]
      exact link ▸ rep.1
    · rw [← Nat.add_assoc]
      exact ih rep.2 tail mem

theorem header_bytes {m m' : Buffer} {a next : Nat} {seg : Seg} (hd : Header m a seg next)
    (hd' : Header m' a seg next) {x : Nat} (low : a ≤ x) (high : x < a + HEADER_SIZE) : m' x = m x := by
  obtain ⟨size, free, magic, link⟩ := hd
  obtain ⟨size', free', magic', link'⟩ := hd'
  have word : ∀ k, k = 0 ∨ k = 4 ∨ k = 8 ∨ k = 12 → load m' (a + k) = load m (a + k) := by
    intro k hk
    apply BitVec.eq_of_toNat_eq
    rcases hk with rfl | rfl | rfl | rfl
    · exact size'.trans size.symm
    · exact free'.trans free.symm
    · exact magic'.trans magic.symm
    · exact link'.trans link.symm
  simp only [HEADER_SIZE] at high
  have byte := load_inj (word ((x - a) / 4 * 4) (by omega)) ((x - a) % 4) (by omega)
  rwa [show a + (x - a) / 4 * 4 + (x - a) % 4 = x by omega] at byte

theorem Tiled.block_bytes (t : Tiled h l) (t' : Tiled h' l') {b : Nat × Seg} (mem : b ∈ place HEAP_START l)
    (mem' : b ∈ place HEAP_START l') {x : Nat} (low : b.1 ≤ x) (high : x < b.1 + b.2.size)
    (frame : ¬InHeader HEAP_START l' x → h'.mem x = h.mem x) : h'.mem x = h.mem x := by
  by_cases header : x < b.1 + HEADER_SIZE
  · have hd := t.rep.header_link t.size_pos mem
    have hd' := t'.rep.header_link t'.size_pos mem'
    rw [t.covers] at hd
    rw [t'.covers] at hd'
    exact header_bytes hd hd' low header
  · refine frame fun inside => ?_
    obtain ⟨c, there, low', high'⟩ := inside
    have big := (t'.sizes c.2 (place_bounds there).2.2).1
    simp only [MIN_BLOCK_SIZE, HEADER_SIZE] at big header high'
    rcases place_eq_or_apart mem' there with rfl | before | behind <;> omega

/-- What holds of an allocated block before and after a call that leaves it alone. -/
structure SameBlock (h h' : KernelHeap) (p : Nat) : Prop where
  size : payloadSize h' p = payloadSize h p
  bytes : ∀ x, InBlock h p x → h'.mem x = h.mem x

theorem Tiled.sameBlock (t : Tiled h l) (t' : Tiled h' l') {o : Nat} {seg : Seg}
    (mem : (HEAP_START + o, seg) ∈ place HEAP_START l) (mem' : (HEAP_START + o, seg) ∈ place HEAP_START l')
    (frame : ∀ x, HEAP_START + o ≤ x → x < HEAP_START + o + seg.size → ¬InHeader HEAP_START l' x →
      h'.mem x = h.mem x) : SameBlock h h' (HEAP_START + o + HEADER_SIZE) := by
  refine ⟨(t'.payload mem').trans (t.payload mem).symm, fun x inside => ?_⟩
  obtain ⟨low, high⟩ := (t.inBlock mem x).mp inside
  exact t.block_bytes t' mem mem' low high (frame x low high)

end Blocks

section Requests

variable {s : HeapState} {l : List Seg} {size : Word}

/-- `kmalloc` fails exactly when no free stretch is long enough. -/
theorem Tiled.kmalloc_none_iff (t : Tiled s.heap l) (live : s.live.Perm (pointers l)) (some : size ≠ 0) :
    (kmalloc s.heap size).2 = 0 ↔ ∀ a n, FreeStretch s a n → n < totalSize size := by
  have none_iff : firstFit (totalSize size) MIN_BLOCK_SIZE l = none ↔
      ∀ a n, FreeStretch s a n → n < totalSize size := by
    rw [firstFit_none_iff]
    constructor
    · intro small a n stretch
      exact small _ (place_bounds ((t.freeStretch_iff live).mp stretch)).2.2 rfl
    · intro small seg mem free
      obtain ⟨b, there⟩ := exists_place HEAP_START mem
      obtain ⟨n, tag⟩ := seg
      simp only at free
      subst free
      exact small b n ((t.freeStretch_iff live).mpr there)
  rw [← none_iff]
  rcases kmalloc_cases t size with ⟨same, zero | none⟩ | ⟨o, l', -, found, ptr, -⟩
  · exact absurd zero some
  · rw [same]
    exact ⟨fun _ => none, fun _ => rfl⟩
  · rw [found, ptr]
    simp [HEADER_SIZE]

/-- A block handed out by `kmalloc`: it lies at the start of the lowest free stretch that is
long enough, and all other blocks stay as they are. -/
structure Served (s : HeapState) (size : Word) (need : Nat) : Prop where
  lowest : ∃ a n, FreeStretch s a n ∧ need ≤ n ∧ (∀ a' n', FreeStretch s a' n' → need ≤ n' → a ≤ a') ∧
    (kmalloc s.heap size).2 = a + HEADER_SIZE
  length : need ≤ payloadSize (kmalloc s.heap size).1 (kmalloc s.heap size).2 + HEADER_SIZE ∧
    payloadSize (kmalloc s.heap size).1 (kmalloc s.heap size).2 + HEADER_SIZE < need + MIN_BLOCK_SIZE
  others : ∀ p ∈ s.live, SameBlock s.heap (kmalloc s.heap size).1 p

theorem Tiled.kmalloc_served (t : Tiled s.heap l) (live : s.live.Perm (pointers l))
    (some : (kmalloc s.heap size).2 ≠ 0) : Served s size (totalSize size) := by
  rcases kmalloc_cases t size with ⟨same, -⟩ | ⟨o, l', -, found, ptr, t', frame⟩
  · exact absurd (congrArg Prod.snd same) some
  obtain ⟨seg, mem, free, enough, lowest⟩ := firstFit_lowest (b := HEAP_START) found
  obtain ⟨n, tag⟩ := seg
  simp only at free enough
  subst free
  obtain ⟨z, large, close, perm⟩ := firstFit_taken HEAP_START (by decide) found
  have new : (HEAP_START + o, ⟨z, false⟩) ∈ place HEAP_START l' :=
    (mem_taken.mp (perm.mem_iff.mpr List.mem_cons_self)).1
  refine ⟨⟨HEAP_START + o, n, (t.freeStretch_iff live).mpr mem, enough, fun a' n' stretch fits => ?_, ptr⟩, ?_, ?_⟩
  · exact lowest _ ((t.freeStretch_iff live).mp stretch) rfl fits
  · rw [ptr, t'.payload new]
    have big := (t'.sizes _ (place_bounds new).2.2).1
    simp only [MIN_BLOCK_SIZE, HEADER_SIZE] at *
    omega
  · intro p mine
    obtain ⟨o', seg', mem', rfl⟩ := mem_pointers.mp (live.mem_iff.mp mine)
    have there := perm.mem_iff.mpr (List.mem_cons_of_mem _ mem')
    exact t.sameBlock t' (mem_taken.mp mem').1 (mem_taken.mp there).1 fun x _ _ => frame x

end Requests

/-- In every state of a run `kmalloc` is first fit over the free stretches of the heap: it
fails, without effect, exactly when none is long enough, and else takes the start of the
lowest one, with less than a minimal block to spare. -/
theorem kmalloc_first_fit (m : Buffer) (ops : List HeapOp) (s : HeapState) (size : Word)
    (run : Exec HeapState.allowed HeapState.step (HeapState.init m) ops s) (low : 1 ≤ size.toNat)
    (high : size.toNat ≤ MAX_REQUEST) :
    ((kmalloc s.heap size).2 = 0 ↔ ∀ a n, FreeStretch s a n → n < neededSize size.toNat) ∧
      ((kmalloc s.heap size).2 = 0 → (kmalloc s.heap size).1 = s.heap) ∧
      ((kmalloc s.heap size).2 ≠ 0 → Served s size (neededSize size.toNat)) := by
  obtain ⟨l, t, live⟩ := run.invariant HeapState.step_inv (HeapState.init_inv m)
  have some : size ≠ 0 := by
    rintro rfl
    exact absurd low (by decide)
  rw [← totalSize_eq high]
  refine ⟨t.kmalloc_none_iff live some, fun none => ?_, t.kmalloc_served live⟩
  rcases kmalloc_cases t size with ⟨same, -⟩ | ⟨o, l', -, -, ptr, -⟩
  · rw [same]
  · rw [ptr] at none
    simp only [HEADER_SIZE] at none
    omega

/-- A request of 100 bytes on a new heap. -/
theorem kmalloc_first_fit_new :
    Served (HeapState.init fun _ => 0) 100 (neededSize 100) :=
  (kmalloc_first_fit (fun _ => 0) [] _ 100 (.nil _) (by decide) (by decide)).2.2 (by decide)

def LargeEnough (h : KernelHeap) (size : Word) : Prop :=
  (kmalloc h size).2 ≠ 0 → size.toNat ≤ payloadSize (kmalloc h size).1 (kmalloc h size).2

def LargeAndZero (h : KernelHeap) (num size : Word) : Prop :=
  (kcalloc h num size).2 ≠ 0 →
    num.toNat * size.toNat ≤ payloadSize (kcalloc h num size).1 (kcalloc h num size).2 ∧
      ∀ i < num.toNat * size.toNat, (kcalloc h num size).1.mem ((kcalloc h num size).2 + i) = 0

section Sizes

variable {s : HeapState} {l : List Seg} {size : Word}

theorem kmalloc_zero (h : KernelHeap) : kmalloc h 0 = (h, 0) := if_pos rfl

theorem Tiled.largeEnough (t : Tiled s.heap l) (live : s.live.Perm (pointers l)) (small : size.toNat ≤ MAX_REQUEST) :
    LargeEnough s.heap size := by
  intro some
  obtain ⟨enough, -⟩ := (t.kmalloc_served live some).length
  rw [totalSize_eq small] at enough
  have need := Nat.le_max_right MIN_BLOCK_SIZE (HEADER_SIZE + (size.toNat + 3) / 4 * 4)
  rw [← neededSize] at need
  omega

theorem Tiled.largeEnough_iff (t : Tiled s.heap l) (live : s.live.Perm (pointers l)) :
    LargeEnough s.heap size ↔ size.toNat ≤ MAX_REQUEST ∨ ∀ a n, FreeStretch s a n → n < MIN_BLOCK_SIZE := by
  by_cases small : size.toNat ≤ MAX_REQUEST
  · exact ⟨fun _ => Or.inl small, fun _ => t.largeEnough live small⟩
  · have wraps := totalSize_wrapped (Nat.lt_of_not_le small)
    have some : size ≠ 0 := by
      rintro rfl
      exact small (by decide)
    have none := t.kmalloc_none_iff live some
    rw [wraps] at none
    rw [← none]
    constructor
    · intro large
      by_contra other
      rw [not_or] at other
      have room := large other.2
      obtain ⟨-, close⟩ := (t.kmalloc_served live other.2).length
      simp only [wraps, MIN_BLOCK_SIZE, HEADER_SIZE, MAX_REQUEST] at *
      omega
    · rintro (low | fails) given
      · exact absurd low small
      · exact absurd fails given

theorem kcalloc_pointer (h : KernelHeap) (num size : Word) :
    (kcalloc h num size).2 = (kmalloc h (num * size)).2 := by
  simp only [kcalloc]
  split <;> rfl

theorem kcalloc_heap {h : KernelHeap} {num size : Word} (some : (kmalloc h (num * size)).2 ≠ 0) :
    (kcalloc h num size).1 = { (kmalloc h (num * size)).1 with
      mem := memset (kmalloc h (num * size)).1.mem (kmalloc h (num * size)).2 0 (num * size).toNat } := by
  simp only [kcalloc]
  rw [if_pos some]

theorem blockSize_memset_le (m : Buffer) (ptr num b : Nat) :
    blockSize (memset m ptr 0 num) b ≤ blockSize m b := by
  have byte : ∀ x, (memset m ptr 0 num x).toNat ≤ (m x).toNat := by
    intro x
    rcases memset_zero_or m ptr num x with zero | same
    · rw [zero]
      exact Nat.zero_le _
    · rw [same]
  have b0 := byte b
  have b1 := byte (b + 1)
  have b2 := byte (b + 2)
  have b3 := byte (b + 3)
  rw [blockSize, blockSize, load_toNat, load_toNat]
  omega

theorem Tiled.kmalloc_bounds (t : Tiled s.heap l) (some : (kmalloc s.heap size).2 ≠ 0) :
    HEAP_START + HEADER_SIZE ≤ (kmalloc s.heap size).2 ∧
      (kmalloc s.heap size).2 + payloadSize (kmalloc s.heap size).1 (kmalloc s.heap size).2 ≤ HEAP_END := by
  rcases kmalloc_pointers t size with same | ⟨l', t', perm, -⟩
  · exact absurd (congrArg Prod.snd same) some
  · have new := perm.mem_iff.mpr List.mem_cons_self
    refine ⟨?_, (t'.pointer_bounds new).2.2⟩
    obtain ⟨o, seg, -, ptr⟩ := mem_pointers.mp new
    omega

theorem Tiled.largeAndZero (t : Tiled s.heap l) (live : s.live.Perm (pointers l)) {num : Word}
    (small : num.toNat * size.toNat ≤ MAX_REQUEST) : LargeAndZero s.heap num size := by
  have exact_product : (num * size).toNat = num.toNat * size.toNat := by
    rw [BitVec.toNat_mul]
    refine Nat.mod_eq_of_lt ?_
    simp only [MAX_REQUEST] at small
    omega
  intro given
  rw [kcalloc_pointer] at given ⊢
  rw [kcalloc_heap given, exact_product]
  have room := t.largeEnough live (exact_product ▸ small) given
  obtain ⟨low, high⟩ := t.kmalloc_bounds given
  rw [exact_product] at room
  rw [memset_eq 0 (by simp only [HEAP_END, HEAP_START, HEAP_SIZE] at high; omega)]
  constructor
  · rw [payloadSize, (fields_congr fun x lo hi => copy_outside (by omega)).1]
    exact room
  · intro i hi
    dsimp only
    rw [copy_inside ⟨Nat.le_add_right _ _, Nat.add_lt_add_left hi _⟩]

theorem Tiled.largeAndZero_iff (t : Tiled s.heap l) (live : s.live.Perm (pointers l)) {num : Word} :
    LargeAndZero s.heap num size ↔ num.toNat * size.toNat ≤ MAX_REQUEST ∨ num * size = 0 ∨
      ∀ a n, FreeStretch s a n → n < totalSize (num * size) := by
  by_cases small : num.toNat * size.toNat ≤ MAX_REQUEST
  · exact ⟨fun _ => Or.inl small, fun _ => t.largeAndZero live small⟩
  have none : (kmalloc s.heap (num * size)).2 = 0 ↔
      num * size = 0 ∨ ∀ a n, FreeStretch s a n → n < totalSize (num * size) := by
    by_cases zero : num * size = 0
    · rw [zero, kmalloc_zero]
      exact ⟨fun _ => Or.inl rfl, fun _ => rfl⟩
    · rw [t.kmalloc_none_iff live zero]
      exact ⟨Or.inr, fun either => either.resolve_left zero⟩
  rw [← none]
  constructor
  · intro large
    by_contra other
    rw [not_or] at other
    obtain ⟨room, -⟩ := large (by rw [kcalloc_pointer]; exact other.2)
    obtain ⟨-, high⟩ := t.kmalloc_bounds other.2
    rw [kcalloc_pointer, kcalloc_heap other.2, payloadSize] at room
    have shrinks := blockSize_memset_le (kmalloc s.heap (num * size)).1.mem (kmalloc s.heap (num * size)).2
      (num * size).toNat ((kmalloc s.heap (num * size)).2 - HEADER_SIZE)
    rw [payloadSize] at high
    simp only [MAX_REQUEST, HEAP_END, HEAP_START, HEAP_SIZE] at *
    omega
  · rintro (low | fails) given
    · exact absurd low small
    · rw [kcalloc_pointer] at given
      exact absurd fails given

end Sizes

/-- In every state of a run, `kmalloc` and `kcalloc` hand out enough exactly when the size of
the request does not wrap around, or when they fail. -/
theorem large_enough_iff (m : Buffer) (ops : List HeapOp) (s : HeapState)
    (run : Exec HeapState.allowed HeapState.step (HeapState.init m) ops s) :
    (∀ size, LargeEnough s.heap size ↔
      size.toNat ≤ MAX_REQUEST ∨ ∀ a n, FreeStretch s a n → n < MIN_BLOCK_SIZE) ∧
    ∀ num size, LargeAndZero s.heap num size ↔ num.toNat * size.toNat ≤ MAX_REQUEST ∨ num * size = 0 ∨
      ∀ a n, FreeStretch s a n → n < totalSize (num * size) := by
  obtain ⟨l, t, live⟩ := run.invariant HeapState.step_inv (HeapState.init_inv m)
  exact ⟨fun size => t.largeEnough_iff live, fun num size => t.largeAndZero_iff live⟩

theorem large_enough_iff_new : LargeAndZero (HeapState.init fun _ => 0).heap 25 4 :=
  ((large_enough_iff (fun _ => 0) [] _ (.nil _)).2 25 4).mpr (Or.inl (by decide))

/-- The largest request gets 16 bytes. -/
theorem largest_request_gets_16_bytes :
    ¬∀ m ops s, Exec HeapState.allowed HeapState.step (HeapState.init m) ops s →
      (∀ size, LargeEnough s.heap size) ∧ ∀ num size, LargeAndZero s.heap num size := by
  intro law
  have large := (law (fun _ => 0) [] _ (.nil _)).1 0xFFFFFFFF (by decide)
  exact absurd large (by decide)

end Wittche.Heap
