import Wittche.Heap.Invariant

/-! `kfree` of a pointer that is not allocated any more. The check for a double free reads
the header that the block had when it was in the list; later headers may lie across
its words. Their sizes, magic numbers and links look like a set tag, and what they leave
of the old magic number is none. The one word that does not is the link of the last
block, which is `NULL`. -/

namespace Wittche.Heap
open Bytes Segments Execution

def lastFrom (m : Buffer) : (fuel current : Nat) → Nat
  | 0, current => current
  | fuel + 1, current => if blockNext m current = 0 then current else lastFrom m fuel (blockNext m current)

def lastBlock (h : KernelHeap) : Nat := lastFrom h.mem WALK_FUEL h.head

/-- The tests of `kfree` turn the block at `b` away. -/
def Dead (m : Buffer) (b : Nat) : Prop := blockMagic m b = HEAP_MAGIC → isFree m b ≠ 0

theorem Dead.kfree_eq {h : KernelHeap} {p : Nat} (dead : Dead h.mem (p - HEADER_SIZE)) (low : HEADER_SIZE ≤ p)
    (small : p < 2 ^ 32) : kfree h p = h := by
  have block : (p + 2 ^ 32 - HEADER_SIZE) % 2 ^ 32 = p - HEADER_SIZE := by
    simp only [HEADER_SIZE] at *
    omega
  rw [kfree]
  simp only [block]
  split
  · rfl
  split
  · rfl
  next magic =>
    split
    · rfl
    · rw [if_pos (dead (Decidable.not_not.mp magic))]

theorem Rep.lastFrom_eq {m : Buffer} {a fuel : Nat} {l : List Seg} {b : Nat × Seg} (rep : Rep m a l) (start : 0 < a)
    (mem : b ∈ place a l) (last : blockNext m b.1 = 0) (enough : l.length < fuel) : lastFrom m fuel a = b.1 := by
  induction l generalizing a fuel with
  | nil => simp [place] at mem
  | cons s rest ih =>
    obtain ⟨fuel, rfl⟩ : ∃ k, fuel = k + 1 := ⟨fuel - 1, by simp at enough; omega⟩
    rw [lastFrom]
    obtain ⟨⟨-, -, -, link⟩, tail⟩ := rep
    rcases List.mem_cons.mp mem with rfl | mem
    · rw [if_pos last]
    · cases rest with
      | nil => simp [place] at mem
      | cons t rest =>
        rw [linkTo] at link
        rw [link, if_neg (by omega)]
        exact ih tail (by omega) mem (by simpa using enough)

section Stale

variable {h : KernelHeap} {l : List Seg} {m : Buffer} {p : Nat}

theorem Tiled.header_aligned (t : Tiled h l) {b : Nat × Seg} (mem : b ∈ place HEAP_START l) : b.1 % 4 = 0 :=
  Nat.mod_eq_zero_of_dvd (place_dvd (by decide) (fun s hs => Nat.dvd_of_mod_eq_zero (t.sizes s hs).2) mem)

theorem Tiled.size_bounds (t : Tiled h l) {b : Nat × Seg} (mem : b ∈ place HEAP_START l) :
    MIN_BLOCK_SIZE ≤ b.2.size ∧ b.2.size ≤ HEAP_SIZE := by
  obtain ⟨low, high, inside⟩ := place_bounds mem
  rw [t.covers] at high
  exact ⟨(t.sizes b.2 inside).1, by omega⟩

theorem Tiled.dead_of_tag (t : Tiled h l) (aligned : p % 4 = 0) (low : HEAP_START + HEADER_SIZE ≤ p)
    (gone : p ∉ pointers l) {x : Nat} (lo : p - HEADER_SIZE + 4 ≤ x) (hi : x < p - HEADER_SIZE + 8)
    (inside : InHeader HEAP_START l x) : Dead h.mem (p - HEADER_SIZE) ∨ lastBlock h + 24 = p := by
  obtain ⟨⟨c, s⟩, mem, lo', hi'⟩ := inside
  have quarter := t.header_aligned mem
  obtain ⟨big, -⟩ := t.size_bounds mem
  obtain ⟨next, size, free, magic, link⟩ := t.rep.header mem
  have tag : isFree h.mem (p - HEADER_SIZE) = (Bytes.load h.mem (p - HEADER_SIZE + 4)).toNat := rfl
  simp only [HEADER_SIZE, HEAP_START, MIN_BLOCK_SIZE] at *
  have cases : p - 16 + 4 = c ∨ p - 16 = c ∨ p - 16 + 4 = c + 8 ∨ p - 16 + 4 = c + 12 := by omega
  rcases cases with same | same | same | same
  · left
    intro _
    rw [tag, same]
    change blockSize h.mem c ≠ 0
    omega
  · cases busy : s.free with
    | false =>
      refine absurd (mem_pointers.mpr ⟨c - HEAP_START, s, ?_, ?_⟩) gone
      · simp only [HEAP_START]
        rw [show 2097152 + (c - 2097152) = c by omega]
        exact mem_taken.mpr ⟨mem, busy⟩
      · simp only [HEAP_START, HEADER_SIZE]
        omega
    | true =>
      left
      intro _
      rw [same, free, busy]
      decide
  · left
    intro _
    rw [tag, same]
    change blockMagic h.mem c ≠ 0
    rw [magic]
    decide
  · by_cases last : next = 0
    · right
      rw [last] at link
      have found : lastBlock h = c := by
        rw [lastBlock, t.head]
        exact t.rep.lastFrom_eq (by decide) mem link t.length_lt
      omega
    · left
      intro _
      rw [tag, same]
      change blockNext h.mem c ≠ 0
      rwa [link]

theorem Tiled.dead_of_magic (t : Tiled h l) (aligned : p % 4 = 0) (low : HEAP_START + HEADER_SIZE ≤ p)
    (away : ¬InHeader HEAP_START l (p - HEADER_SIZE + 4)) {x : Nat} (lo : p - HEADER_SIZE + 8 ≤ x)
    (hi : x < p - HEADER_SIZE + 12) (inside : InHeader HEAP_START l x) : Dead h.mem (p - HEADER_SIZE) := by
  obtain ⟨⟨c, s⟩, mem, lo', hi'⟩ := inside
  have quarter := t.header_aligned mem
  obtain ⟨-, small⟩ := t.size_bounds mem
  obtain ⟨next, size, -⟩ := t.rep.header mem
  have behind : ¬(c ≤ p - HEADER_SIZE + 4 ∧ p - HEADER_SIZE + 4 < c + HEADER_SIZE) := fun both =>
    away ⟨(c, s), mem, both⟩
  simp only [HEADER_SIZE, HEAP_START, HEAP_SIZE] at *
  have same : p - 16 + 8 = c := by omega
  intro magic
  have word : blockMagic h.mem (p - 16) = blockSize h.mem c := by
    rw [← same]
    rfl
  rw [word, size, HEAP_MAGIC] at magic
  omega

/-- What the walks leave of a header that is not in the list. -/
theorem Tiled.dead (t : Tiled h l) (frame : ∀ x, ¬InHeader HEAP_START l x → h.mem x = m x) (aligned : p % 4 = 0)
    (low : HEAP_START + HEADER_SIZE ≤ p) (gone : p ∉ pointers l) (dead : Dead m (p - HEADER_SIZE)) :
    Dead h.mem (p - HEADER_SIZE) ∨ lastBlock h + 24 = p := by
  by_cases tag : ∃ x, p - HEADER_SIZE + 4 ≤ x ∧ x < p - HEADER_SIZE + 8 ∧ InHeader HEAP_START l x
  · obtain ⟨x, lo, hi, inside⟩ := tag
    exact t.dead_of_tag aligned low gone lo hi inside
  have outside : ∀ x, p - HEADER_SIZE + 4 ≤ x → x < p - HEADER_SIZE + 8 → ¬InHeader HEAP_START l x :=
    fun x lo hi inside => tag ⟨x, lo, hi, inside⟩
  left
  by_cases word : ∃ x, p - HEADER_SIZE + 8 ≤ x ∧ x < p - HEADER_SIZE + 12 ∧ InHeader HEAP_START l x
  · obtain ⟨x, lo, hi, inside⟩ := word
    exact t.dead_of_magic aligned low (outside _ (Nat.le_refl _) (by omega)) lo hi inside
  have free : isFree h.mem (p - HEADER_SIZE) = isFree m (p - HEADER_SIZE) := by
    refine congrArg BitVec.toNat (load_congr fun i small => ?_)
    exact frame _ (outside _ (by omega) (by omega))
  have magic : blockMagic h.mem (p - HEADER_SIZE) = blockMagic m (p - HEADER_SIZE) := by
    refine congrArg BitVec.toNat (load_congr fun i small => ?_)
    exact frame _ fun inside => word ⟨_, by omega, by omega, inside⟩
  rw [Dead, free, magic]
  exact dead

theorem Dead.setFree {b c : Nat} (dead : Dead m b) (other : b ≠ c) (aligned : b % 4 = 0) (aligned' : c % 4 = 0) :
    Dead (setFree m c 1) b := by
  have free : isFree (Heap.setFree m c 1) b = isFree m b :=
    congrArg BitVec.toNat (load_store_apart (by omega))
  intro magic
  rw [free]
  refine dead ?_
  by_cases across : b + 8 = c + 4
  · have word : blockMagic (Heap.setFree m c 1) b = 1 := by
      rw [blockMagic, across, Heap.setFree, load_store_same]
      rfl
    rw [word] at magic
    exact absurd magic (by decide)
  · have word : blockMagic (Heap.setFree m c 1) b = blockMagic m b :=
      congrArg BitVec.toNat (load_store_apart (by omega))
    rwa [word] at magic

end Stale

inductive HeapCall where
  | kmalloc (size : Word)
  | kfree (p : Nat)

/-- The heap, the pointers that are allocated and all that `kmalloc` has returned. -/
structure HeapHistory where
  heap : KernelHeap
  live : List Nat
  returned : List Nat

namespace HeapHistory

def init (m : Buffer) : HeapHistory := ⟨heapInit m, [], []⟩

def step (s : HeapHistory) : HeapCall → HeapHistory
  | .kmalloc size =>
    let r := Heap.kmalloc s.heap size
    if r.2 = 0 then { s with heap := r.1 } else ⟨r.1, r.2 :: s.live, r.2 :: s.returned⟩
  | .kfree p => { s with heap := Heap.kfree s.heap p, live := s.live.erase p }

/-- A pointer may be freed any number of times once it has been returned. -/
def allowed (s : HeapHistory) : HeapCall → Prop
  | .kmalloc _ => True
  | .kfree p => p = 0 ∨ p ∈ s.returned

/-- The last block of the list does not start 24 bytes below a pointer that was returned and
is not allocated, where its link would be the old tag, or the old magic number is lost. -/
def Clear (s : HeapHistory) : Prop :=
  ∀ p ∈ s.returned, p ∉ s.live → lastBlock s.heap + 24 = p →
    blockMagic s.heap.mem (p - HEADER_SIZE) ≠ HEAP_MAGIC

instance (s : HeapHistory) : Decidable s.Clear := inferInstanceAs (Decidable (∀ p ∈ s.returned, _))

structure Sound (s : HeapHistory) (l : List Seg) : Prop where
  tiled : Tiled s.heap l
  live : s.live.Perm (pointers l)
  known : ∀ p ∈ s.live, p ∈ s.returned
  bounds : ∀ p ∈ s.returned, p % 4 = 0 ∧ HEAP_START + HEADER_SIZE ≤ p ∧ p < HEAP_END
  stale : ∀ p ∈ s.returned, p ∉ s.live → Dead s.heap.mem (p - HEADER_SIZE) ∨ lastBlock s.heap + 24 = p

variable {s : HeapHistory} {l : List Seg}

theorem init_sound (m : Buffer) : (init m).Sound [⟨HEAP_SIZE, true⟩] where
  tiled := heapInit_tiled m
  live := by simp [init, pointers, taken_cons]
  known := fun p none => absurd none List.not_mem_nil
  bounds := fun p none => absurd none List.not_mem_nil
  stale := fun p none => absurd none List.not_mem_nil

theorem Sound.dead (sound : s.Sound l) (clear : s.Clear) {p : Nat} (known : p ∈ s.returned) (gone : p ∉ s.live) :
    Dead s.heap.mem (p - HEADER_SIZE) := by
  rcases sound.stale p known gone with dead | last
  · exact dead
  · exact fun magic => absurd magic (clear p known gone last)

theorem Sound.kfree_stale (sound : s.Sound l) (clear : s.Clear) {p : Nat} (known : p ∈ s.returned)
    (gone : p ∉ s.live) : kfree s.heap p = s.heap := by
  obtain ⟨-, low, high⟩ := sound.bounds p known
  refine (sound.dead clear known gone).kfree_eq ?_ ?_
  · simp only [HEAP_START, HEADER_SIZE] at *
    omega
  · simp only [HEAP_END, HEAP_START, HEAP_SIZE] at *
    omega

theorem pointer_bounds {h : KernelHeap} (t : Tiled h l) {p : Nat} (live : p ∈ pointers l) :
    p % 4 = 0 ∧ HEAP_START + HEADER_SIZE ≤ p ∧ p < HEAP_END := by
  obtain ⟨o, s, mem, rfl⟩ := mem_pointers.mp live
  have placed := (mem_taken.mp mem).1
  have quarter := t.header_aligned placed
  obtain ⟨big, -⟩ := t.size_bounds placed
  obtain ⟨-, high, -⟩ := place_bounds placed
  rw [t.covers] at high
  simp only [HEADER_SIZE, HEAP_END, MIN_BLOCK_SIZE] at *
  omega

theorem Sound.kmalloc (sound : s.Sound l) (clear : s.Clear) (size : Word) :
    ∃ l', (s.step (.kmalloc size)).Sound l' := by
  rcases kmalloc_pointers sound.tiled size with failed | ⟨l', t, perm, frame⟩
  · refine ⟨l, ?_⟩
    simp only [step, failed, if_true]
    exact sound
  have new : (Heap.kmalloc s.heap size).2 ∈ pointers l' := perm.mem_iff.mpr List.mem_cons_self
  refine ⟨l', ?_⟩
  rw [step]
  simp only [if_neg (pointers_pos new)]
  have live : (Heap.kmalloc s.heap size).2 :: s.live |>.Perm (pointers l') := (sound.live.cons _).trans perm.symm
  refine ⟨t, live, fun p mine => ?_, fun p known => ?_, fun p known gone => ?_⟩
  · rcases List.mem_cons.mp mine with rfl | old
    · exact List.mem_cons_self
    · exact List.mem_cons_of_mem _ (sound.known p old)
  · rcases List.mem_cons.mp known with rfl | old
    · exact pointer_bounds t new
    · exact sound.bounds p old
  · rcases List.mem_cons.mp known with rfl | old
    · exact absurd List.mem_cons_self gone
    · obtain ⟨aligned, low, -⟩ := sound.bounds p old
      refine t.dead frame aligned low (fun there => gone (live.mem_iff.mpr there)) (sound.dead clear old fun there => ?_)
      exact gone (List.mem_cons_of_mem _ there)

theorem Sound.kfree_live (sound : s.Sound l) (clear : s.Clear) {p : Nat} (mine : p ∈ s.live) :
    ∃ l', (s.step (.kfree p)).Sound l' := by
  obtain ⟨l', t, perm, frame⟩ := kfree_pointers sound.tiled (sound.live.mem_iff.mp mine)
  have live : (s.live.erase p).Perm (pointers l') := by
    have erased := (sound.live.trans perm).erase p
    simpa using erased
  have nodup : s.live.Nodup := sound.live.nodup_iff.mpr (pointers_nodup sound.tiled.sizes)
  obtain ⟨aligned', low', -⟩ := sound.bounds p (sound.known p mine)
  refine ⟨l', t, live, fun q there => sound.known q (List.mem_of_mem_erase there), sound.bounds,
    fun q known gone => ?_⟩
  obtain ⟨aligned, low, -⟩ := sound.bounds q known
  refine t.dead frame aligned low (fun there => gone (live.mem_iff.mpr there)) ?_
  by_cases same : q = p
  · subst same
    intro _
    rw [isFree_setFree]
    decide
  · have old : q ∉ s.live := fun there => gone ((List.mem_erase_of_ne same).mpr there)
    refine (sound.dead clear known old).setFree ?_ ?_ ?_
    all_goals
      simp only [HEADER_SIZE, HEAP_START] at *
      omega

theorem Sound.step (sound : s.Sound l) (clear : s.Clear) {call : HeapCall} (ok : s.allowed call) :
    ∃ l', (s.step call).Sound l' := by
  cases call with
  | kmalloc size => exact sound.kmalloc clear size
  | kfree p =>
    by_cases mine : p ∈ s.live
    · exact sound.kfree_live clear mine
    · have same : kfree s.heap p = s.heap := by
        rcases ok with rfl | known
        · rfl
        · exact sound.kfree_stale clear known mine
      refine ⟨l, ?_⟩
      rw [HeapHistory.step, same, List.erase_of_not_mem mine]
      exact sound

end HeapHistory

/-- In a run whose states are clear, a pointer that was returned once and is not allocated can
be freed again: the heap stays as it is. -/
theorem double_free_harmless (m : Buffer) (calls : List HeapCall) (s : HeapHistory)
    (run : Exec (fun s call => s.allowed call ∧ s.Clear) HeapHistory.step (HeapHistory.init m) calls s)
    (clear : s.Clear) (p : Nat) (known : p ∈ s.returned) (gone : p ∉ s.live) : kfree s.heap p = s.heap := by
  have keep : ∀ (s : HeapHistory) (call : HeapCall), (∃ l, s.Sound l) → s.allowed call ∧ s.Clear →
      ∃ l, (s.step call).Sound l := by
    rintro s call ⟨l, sound⟩ ⟨ok, clear⟩
    exact sound.step clear ok
  obtain ⟨l, sound⟩ := run.invariant keep ⟨_, HeapHistory.init_sound m⟩
  exact sound.kfree_stale clear known gone

/-- A block is freed twice. -/
theorem double_free_harmless_twice :
    let s := ((HeapHistory.init fun _ => 0).step (.kmalloc 24)).step (.kfree 0x200010)
    kfree s.heap 0x200010 = s.heap :=
  double_free_harmless (fun _ => 0) [.kmalloc 24, .kfree 0x200010] _
    (.cons ⟨trivial, by decide⟩ (.cons ⟨Or.inr (by decide), by decide⟩ (.nil _))) (by decide) _ (by decide) (by decide)

/-- The remainder of a new block starts 8 bytes below the old header of `0x200038`, and its link is
taken for the tag of a block in use: the second `kfree` writes to it. -/
theorem double_free_breaks_list :
    ∃ s, Exec HeapHistory.allowed HeapHistory.step (HeapHistory.init fun _ => 0)
      [.kmalloc 24, .kmalloc 16, .kfree 0x200038, .kfree 0x200010, .kmalloc 16] s ∧
      0x200038 ∈ s.returned ∧ 0x200038 ∉ s.live ∧
      (kfree s.heap 0x200038).mem 0x20002C ≠ s.heap.mem 0x20002C :=
  ⟨_, .cons trivial (.cons trivial (.cons (Or.inr (by decide)) (.cons (Or.inr (by decide)) (.cons trivial (.nil _))))),
    by decide, by decide, by decide⟩

end Wittche.Heap
