import Wittche.Fs.Disk
import Wittche.Heap.Realloc

/-! The RAM disk of `kernel/ramdisk.c` where it lies: in one block of the kernel heap, which
others use at the same time. Messages are left out. -/

namespace Wittche.Heap
open Bytes CString Segments Execution
open Fs (RamDisk blankDisk RAMDISK_SIZE RAMDISK_BLOCK_SIZE RAMDISK_BLOCK_COUNT)

/-- `ramdisk_t`, with its pointer. -/
structure Ramdisk where
  data : Nat
  size : Nat
  blockSize : Nat
  blockCount : Nat
  initialized : Bool

def ramdiskInit (h : KernelHeap) (ramdisk : Ramdisk) : KernelHeap × Ramdisk :=
  let r := kmalloc h (BitVec.ofNat 32 RAMDISK_SIZE)
  if r.2 = 0 then (r.1, { ramdisk with data := r.2, initialized := false })
  else ({ r.1 with mem := memset r.1.mem r.2 0 RAMDISK_SIZE },
    ⟨r.2, RAMDISK_SIZE, RAMDISK_BLOCK_SIZE, RAMDISK_BLOCK_COUNT, true⟩)

/-- The checks of `ramdisk_read_block` and `ramdisk_write_block`, which copy the other way. -/
def checkedTransfer (h : KernelHeap) (ramdisk : Ramdisk) (blockNum : Word) (buffer : Nat) (transfer : Nat → Buffer) :
    Int × KernelHeap :=
  if !ramdisk.initialized then (-1, h)
  else if ramdisk.blockCount ≤ blockNum.toNat then (-1, h)
  else if buffer = 0 then (-1, h)
  else
    let offset := blockNum.toNat * ramdisk.blockSize % 2 ^ 32
    (0, { h with mem := transfer offset })

def ramdiskReadBlock (h : KernelHeap) (ramdisk : Ramdisk) (blockNum : Word) (buffer : Nat) : Int × KernelHeap :=
  checkedTransfer h ramdisk blockNum buffer fun offset =>
    memcpy h.mem buffer (ramdisk.data + offset) ramdisk.blockSize

def ramdiskWriteBlock (h : KernelHeap) (ramdisk : Ramdisk) (blockNum : Word) (buffer : Nat) : Int × KernelHeap :=
  checkedTransfer h ramdisk blockNum buffer fun offset =>
    memcpy h.mem (ramdisk.data + offset) buffer ramdisk.blockSize

def ramdiskFormat (h : KernelHeap) (ramdisk : Ramdisk) : KernelHeap :=
  if !ramdisk.initialized then h
  else { h with mem := memset h.mem ramdisk.data 0 ramdisk.size }

/-- The calls of the driver, the calls and stores of the other users of the heap, and stores
outside the heap. -/
inductive DiskOp
  | init
  | readBlock (blockNum : Word) (buffer : Nat)
  | writeBlock (blockNum : Word) (buffer : Nat)
  | format
  | heap (op : HeapOp)
  | store (a : Nat) (v : Byte)

structure DiskState where
  heap : HeapState
  ramdisk : Ramdisk

/-- At power on the record is zero. -/
def DiskState.start (m : Buffer) : DiskState := ⟨HeapState.init m, ⟨0, 0, 0, 0, false⟩⟩

def DiskState.withMem (s : DiskState) (m : Buffer) : DiskState :=
  { s with heap := { s.heap with heap := { s.heap.heap with mem := m } } }

def DiskState.withHeap (s : DiskState) (h : KernelHeap) : DiskState := { s with heap := { s.heap with heap := h } }

def DiskState.mem (s : DiskState) : Buffer := s.heap.heap.mem

def DiskState.step (s : DiskState) : DiskOp → DiskState
  | .init =>
    let r := ramdiskInit s.heap.heap s.ramdisk
    ⟨⟨r.1, if r.2.data = 0 then s.heap.live else r.2.data :: s.heap.live⟩, r.2⟩
  | .readBlock blockNum buffer => s.withHeap (ramdiskReadBlock s.heap.heap s.ramdisk blockNum buffer).2
  | .writeBlock blockNum buffer => s.withHeap (ramdiskWriteBlock s.heap.heap s.ramdisk blockNum buffer).2
  | .format => s.withHeap (ramdiskFormat s.heap.heap s.ramdisk)
  | .heap op => { s with heap := s.heap.step op }
  | .store a v => s.withMem (Function.update s.mem a v)

def DiskState.Client (s : DiskState) (p : Nat) : Prop :=
  p ∈ s.heap.live ∧ (s.ramdisk.initialized = true → p ≠ s.ramdisk.data)

/-- An address that others than the driver may store to: in a block of theirs, or outside the heap. -/
def DiskState.Foreign (s : DiskState) (a : Nat) : Prop :=
  (a < HEAP_START ∨ HEAP_END ≤ a) ∨ ∃ p, s.Client p ∧ p ≤ a ∧ a < p + payloadSize s.heap.heap p

/-- `NULL`, or a block of bytes below 2^32 that no pointer of the driver leads to. -/
def DiskState.Lent (s : DiskState) (buffer : Nat) : Prop :=
  buffer = 0 ∨ buffer + RAMDISK_BLOCK_SIZE ≤ 2 ^ 32 ∧ ∀ i < RAMDISK_BLOCK_SIZE, s.Foreign (buffer + i)

def DiskState.allowed (s : DiskState) : DiskOp → Prop
  | .init => True
  | .readBlock _ buffer => s.Lent buffer
  | .writeBlock _ buffer => s.Lent buffer
  | .format => True
  | .heap (.kmalloc _) => True
  | .heap (.kfree p) => p = 0 ∨ s.Client p
  | .heap (.write a _) => ∃ p, s.Client p ∧ p ≤ a ∧ a < p + payloadSize s.heap.heap p
  | .store a _ => a < HEAP_START ∨ HEAP_END ≤ a

/-- What a call shows: what it returns, with the bytes of its buffer. -/
inductive DiskOutput
  | silent
  | mounted (granted : Bool)
  | read (code : Int) (before after : Buffer)
  | written (code : Int) (given : Buffer)

def DiskState.output (s : DiskState) : DiskOp → DiskOutput
  | .init => .mounted (ramdiskInit s.heap.heap s.ramdisk).2.initialized
  | .readBlock blockNum buffer =>
    let r := ramdiskReadBlock s.heap.heap s.ramdisk blockNum buffer
    .read r.1 (fun i => s.mem (buffer + i)) fun i => r.2.mem (buffer + i)
  | .writeBlock blockNum buffer =>
    .written (ramdiskWriteBlock s.heap.heap s.ramdisk blockNum buffer).1 fun i => s.mem (buffer + i)
  | _ => .silent

def noDisk : RamDisk := ⟨fun _ => 0, false, 0, 0, nofun⟩

/-- What the driver is for: the answers are those of a disk that nobody else can reach. -/
inductive Serves (d : RamDisk) : DiskOp → DiskOutput → RamDisk → Prop
  | init : Serves d .init (.mounted true) blankDisk
  | noMemory : Serves d .init (.mounted false) { d with initialized := false, configured := nofun }
  | readBlock {blockNum buffer code before read after} (some : buffer ≠ 0)
      (served : Fs.ramdiskReadBlock d blockNum.toNat before = (code, read))
      (bytes : ∀ i < RAMDISK_BLOCK_SIZE, after i = read i) : Serves d (.readBlock blockNum buffer) (.read code before after) d
  | readNull {blockNum bytes} : Serves d (.readBlock blockNum 0) (.read (-1) bytes bytes) d
  | writeBlock {blockNum buffer code given d'} (some : buffer ≠ 0)
      (served : Fs.ramdiskWriteBlock d blockNum.toNat given = (code, d')) :
      Serves d (.writeBlock blockNum buffer) (.written code given) d'
  | writeNull {blockNum given} : Serves d (.writeBlock blockNum 0) (.written (-1) given) d
  | format : Serves d .format .silent (if d.initialized then d.withData fun _ => 0 else d)
  | heap {op} : Serves d (.heap op) .silent d
  | store {a v} : Serves d (.store a v) .silent d

/-- The block of the heap that has the disk. -/
structure Stored (s : DiskState) (d : RamDisk) : Prop where
  live : s.ramdisk.data ∈ s.heap.live
  room : RAMDISK_SIZE ≤ payloadSize s.heap.heap s.ramdisk.data
  sizes : s.ramdisk = ⟨s.ramdisk.data, RAMDISK_SIZE, RAMDISK_BLOCK_SIZE, RAMDISK_BLOCK_COUNT, true⟩
  bytes : ∀ i < RAMDISK_SIZE, s.mem (s.ramdisk.data + i) = d.data i

structure Backed (s : DiskState) (d : RamDisk) : Prop where
  inv : s.heap.Inv
  on : s.ramdisk.initialized = d.initialized
  stored : s.ramdisk.initialized = true → Stored s d

theorem copy_changes {m src : Buffer} {a n x : Nat} (changed : copy m a src n x ≠ m x) : a ≤ x ∧ x < a + n := by
  by_contra away
  exact changed (copy_outside (by omega))

section Stores

variable {s : DiskState} {d d' : RamDisk} {m : Buffer}

theorem Backed.not_foreign (b : Backed s d) (on : s.ramdisk.initialized = true) {i : Nat} (lt : i < RAMDISK_SIZE) :
    ¬s.Foreign (s.ramdisk.data + i) := by
  obtain ⟨l, t, perm⟩ := b.inv
  have stored := b.stored on
  have mine := perm.mem_iff.mp stored.live
  have room := stored.room
  obtain ⟨-, low, high⟩ := t.pointer_bounds mine
  rintro (out | ⟨p, ⟨live, other⟩, inside⟩)
  · omega
  · have apart := t.payloads_apart (perm.mem_iff.mp live) mine (other on)
    omega

theorem Backed.patched (b : Backed s d) (changes : ∀ x, m x ≠ s.mem x → s.Foreign x ∨ s.ramdisk.initialized = true ∧
      s.ramdisk.data ≤ x ∧ x < s.ramdisk.data + RAMDISK_SIZE) : (s.withMem m).heap.Inv ∧
      ∀ p ∈ s.heap.live, payloadSize (s.withMem m).heap.heap p = payloadSize s.heap.heap p := by
  obtain ⟨l, t, perm⟩ := b.inv
  have places : ∀ x, m x ≠ s.heap.heap.mem x → (x < HEAP_START ∨ HEAP_END ≤ x) ∨
      ∃ p ∈ pointers l, p ≤ x ∧ x < p + payloadSize s.heap.heap p := by
    intro x other
    rcases changes x other with (out | ⟨p, ⟨live, -⟩, inside⟩) | ⟨on, low, high⟩
    · exact Or.inl out
    · exact Or.inr ⟨p, perm.mem_iff.mp live, inside⟩
    · have room := (b.stored on).room
      exact Or.inr ⟨_, perm.mem_iff.mp (b.stored on).live, low, by omega⟩
  obtain ⟨filled, sizes⟩ := t.patch places
  exact ⟨⟨l, filled, perm⟩, fun p live => sizes p (perm.mem_iff.mp live)⟩

theorem Backed.withMem (b : Backed s d) (changes : ∀ x, m x ≠ s.mem x → s.Foreign x ∨ s.ramdisk.initialized = true ∧
      s.ramdisk.data ≤ x ∧ x < s.ramdisk.data + RAMDISK_SIZE) (on : d'.initialized = d.initialized)
    (bytes : s.ramdisk.initialized = true → ∀ i < RAMDISK_SIZE, m (s.ramdisk.data + i) = d'.data i) :
    Backed (s.withMem m) d' := by
  obtain ⟨inv, sizes⟩ := b.patched changes
  refine ⟨inv, b.on.trans on.symm, fun up => ?_⟩
  have stored := b.stored up
  exact ⟨stored.live, (sizes _ stored.live).symm ▸ stored.room, stored.sizes, bytes up⟩

theorem Backed.foreign (b : Backed s d) (changes : ∀ x, m x ≠ s.mem x → s.Foreign x) : Backed (s.withMem m) d := by
  refine b.withMem (fun x other => Or.inl (changes x other)) rfl fun on i lt => ?_
  rw [← (b.stored on).bytes i lt]
  by_contra other
  exact b.not_foreign on lt (changes _ other)

end Stores

section Calls

variable {s : DiskState} {d : RamDisk} {blockNum : Word} {buffer : Nat}

theorem Backed.carry (b : Backed s d) {t : HeapState} (inv : t.Inv) (keep : s.ramdisk.initialized = true →
      s.ramdisk.data ∈ t.live ∧ SameBlock s.heap.heap t.heap s.ramdisk.data) : Backed { s with heap := t } d := by
  refine ⟨inv, b.on, fun on => ?_⟩
  have stored := b.stored on
  obtain ⟨live, same⟩ := keep on
  have room := stored.room
  refine ⟨live, same.size.symm ▸ room, stored.sizes, fun i lt => ?_⟩
  rw [← stored.bytes i lt]
  exact same.bytes (s.ramdisk.data + i) ⟨by omega, by omega⟩

theorem Backed.heap (b : Backed s d) {op : HeapOp} (ok : s.allowed (.heap op)) :
    Backed { s with heap := s.heap.step op } d := by
  obtain ⟨l, t, perm⟩ := b.inv
  cases op with
  | kmalloc size =>
    refine b.carry (HeapState.step_inv _ _ b.inv trivial) fun on => ?_
    have live := (b.stored on).live
    by_cases failed : (kmalloc s.heap.heap size).2 = 0
    · have same : s.heap.step (.kmalloc size) = s.heap := by
        rcases kmalloc_pointers t size with same | ⟨l', t', perm', -⟩
        · rw [HeapState.step, same]
          rfl
        · exact absurd failed (pointers_pos (perm'.mem_iff.mpr List.mem_cons_self))
      rw [same]
      exact ⟨live, rfl, fun _ _ => rfl⟩
    · rw [HeapState.step, if_neg failed]
      exact ⟨List.mem_cons_of_mem _ live, (t.kmalloc_served perm failed).others _ live⟩
  | kfree p =>
    rcases ok with rfl | ⟨live, other⟩
    · have out : 0 ∉ s.heap.live := fun mem => pointers_pos (perm.mem_iff.mp mem) rfl
      have same : s.heap.step (.kfree 0) = s.heap := by
        rw [HeapState.step, List.erase_of_not_mem out]
        rfl
      rw [same]
      exact b
    · refine b.carry (HeapState.step_inv _ _ b.inv (Or.inr live)) fun on => ?_
      have mine := (b.stored on).live
      obtain ⟨l', t', -, others, -⟩ := t.kfree_spec (perm.mem_iff.mp live)
      exact ⟨(List.mem_erase_of_ne (other on).symm).mpr mine, others _ (perm.mem_iff.mp mine) (other on).symm⟩
  | write a v =>
    refine b.foreign fun x changed => ?_
    have here : x = a := by
      by_contra away
      exact changed (Function.update_of_ne away ..)
    exact here ▸ Or.inr ok

theorem Backed.store (b : Backed s d) {a : Nat} {v : Byte} (ok : s.allowed (.store a v)) : Backed (s.step (.store a v)) d := by
  refine b.foreign fun x changed => ?_
  have here : x = a := by
    by_contra away
    exact changed (Function.update_of_ne away ..)
  exact here ▸ Or.inl ok

def DiskState.granted (s : DiskState) : DiskState :=
  let r := kmalloc s.heap.heap (BitVec.ofNat 32 RAMDISK_SIZE)
  ⟨⟨r.1, r.2 :: s.heap.live⟩, ⟨r.2, RAMDISK_SIZE, RAMDISK_BLOCK_SIZE, RAMDISK_BLOCK_COUNT, true⟩⟩

/-- The block that was granted, before it is cleared, as a disk with the bytes that are there. -/
theorem Backed.granted (b : Backed s d) (some : (kmalloc s.heap.heap (BitVec.ofNat 32 RAMDISK_SIZE)).2 ≠ 0) :
    Backed s.granted (blankDisk.withData fun i => s.granted.mem (s.granted.ramdisk.data + i)) := by
  obtain ⟨l, t, perm⟩ := b.inv
  have inv := HeapState.step_inv s.heap (.kmalloc (BitVec.ofNat 32 RAMDISK_SIZE)) b.inv trivial
  rw [HeapState.step, if_neg some] at inv
  have room := t.largeEnough perm (show (BitVec.ofNat 32 RAMDISK_SIZE).toNat ≤ MAX_REQUEST by decide) some
  exact ⟨inv, rfl, fun _ => ⟨List.mem_cons_self, room, rfl, fun _ _ => rfl⟩⟩

theorem Backed.init_cases (b : Backed s d) :
    (s.output .init = .mounted false ∧
      s.step .init = { s with ramdisk := { s.ramdisk with data := 0, initialized := false } }) ∨
    (kmalloc s.heap.heap (BitVec.ofNat 32 RAMDISK_SIZE)).2 ≠ 0 ∧ s.output .init = .mounted true ∧
      s.step .init = s.granted.withMem (copy s.granted.mem s.granted.ramdisk.data (fun _ => 0) RAMDISK_SIZE) := by
  obtain ⟨l, t, perm⟩ := b.inv
  rw [DiskState.output, DiskState.step, ramdiskInit]
  dsimp only
  rcases kmalloc_pointers t (BitVec.ofNat 32 RAMDISK_SIZE) with same | ⟨l', t', perm', -⟩
  · rw [same, if_pos rfl]
    exact Or.inl ⟨rfl, rfl⟩
  · have mine := perm'.mem_iff.mpr List.mem_cons_self
    have some := pointers_pos mine
    have room := t.largeEnough perm (show (BitVec.ofNat 32 RAMDISK_SIZE).toNat ≤ MAX_REQUEST by decide) some
    rw [show (BitVec.ofNat 32 RAMDISK_SIZE).toNat = RAMDISK_SIZE from rfl] at room
    obtain ⟨-, -, high⟩ := t'.pointer_bounds mine
    have low : (kmalloc s.heap.heap (BitVec.ofNat 32 RAMDISK_SIZE)).2 + RAMDISK_SIZE ≤ 2 ^ 32 := by
      simp only [HEAP_END, HEAP_START, HEAP_SIZE] at high
      omega
    rw [if_neg some, memset_eq 0 low]
    dsimp only
    rw [if_neg some]
    exact Or.inr ⟨some, rfl, rfl⟩

theorem Backed.init (b : Backed s d) : ∃ d', Serves d .init (s.output .init) d' ∧ Backed (s.step .init) d' := by
  rcases b.init_cases with ⟨out, next⟩ | ⟨some, out, next⟩
  · rw [out, next]
    exact ⟨_, .noMemory, b.inv, rfl, nofun⟩
  · rw [out, next]
    refine ⟨_, .init, (b.granted some).withMem (fun x changed => Or.inr ⟨rfl, copy_changes changed⟩) rfl fun _ i lt => ?_⟩
    exact copy_inside ⟨Nat.le_add_right .., by omega⟩

theorem Backed.apart (b : Backed s d) (on : s.ramdisk.initialized = true)
    (lent : ∀ i < RAMDISK_BLOCK_SIZE, s.Foreign (buffer + i)) {offset : Nat} (fits : offset + RAMDISK_BLOCK_SIZE ≤ RAMDISK_SIZE) :
    buffer + RAMDISK_BLOCK_SIZE ≤ s.ramdisk.data + offset ∨ s.ramdisk.data + offset + RAMDISK_BLOCK_SIZE ≤ buffer := by
  by_contra meet
  obtain ⟨i, j, lt, lt', same⟩ : ∃ i j, i < RAMDISK_BLOCK_SIZE ∧ j < RAMDISK_SIZE ∧ buffer + i = s.ramdisk.data + j :=
    ⟨max buffer (s.ramdisk.data + offset) - buffer, max buffer (s.ramdisk.data + offset) - s.ramdisk.data,
      by omega, by omega, by omega⟩
  exact b.not_foreign on lt' (same ▸ lent i lt)

theorem Backed.low (b : Backed s d) (on : s.ramdisk.initialized = true) : s.ramdisk.data + RAMDISK_SIZE ≤ 2 ^ 32 := by
  obtain ⟨l, t, perm⟩ := b.inv
  have room := (b.stored on).room
  obtain ⟨-, -, high⟩ := t.pointer_bounds (perm.mem_iff.mp (b.stored on).live)
  simp only [HEAP_END, HEAP_START, HEAP_SIZE] at high
  omega

theorem Backed.sizes (b : Backed s d) (on : s.ramdisk.initialized = true) :
    s.ramdisk.blockSize = RAMDISK_BLOCK_SIZE ∧ s.ramdisk.blockCount = RAMDISK_BLOCK_COUNT ∧
      d.blockSize = RAMDISK_BLOCK_SIZE ∧ d.blockCount = RAMDISK_BLOCK_COUNT := by
  have sizes := (b.stored on).sizes
  obtain ⟨size, count⟩ := d.configured (b.on ▸ on)
  rw [sizes]
  exact ⟨rfl, rfl, size, count⟩

theorem Backed.checked (b : Backed s d) (blockNum : Word) (buffer : Nat) (transfer : Nat → Buffer) :
    (¬(s.ramdisk.initialized = true ∧ blockNum.toNat < RAMDISK_BLOCK_COUNT ∧ buffer ≠ 0) ∧
      checkedTransfer s.heap.heap s.ramdisk blockNum buffer transfer = (-1, s.heap.heap)) ∨
    (s.ramdisk.initialized = true ∧ blockNum.toNat < RAMDISK_BLOCK_COUNT ∧ buffer ≠ 0) ∧
      blockNum.toNat * RAMDISK_BLOCK_SIZE + RAMDISK_BLOCK_SIZE ≤ RAMDISK_SIZE ∧
      checkedTransfer s.heap.heap s.ramdisk blockNum buffer transfer =
        (0, { s.heap.heap with mem := transfer (blockNum.toNat * RAMDISK_BLOCK_SIZE) }) := by
  rw [checkedTransfer]
  by_cases on : s.ramdisk.initialized = true
  · obtain ⟨size, count, -, -⟩ := b.sizes on
    rw [on, size, count, Bool.not_true, if_neg Bool.false_ne_true]
    by_cases low : blockNum.toNat < RAMDISK_BLOCK_COUNT
    · rw [if_neg (Nat.not_le.mpr low)]
      by_cases null : buffer = 0
      · rw [if_pos null]
        exact Or.inl ⟨fun ok => ok.2.2 null, rfl⟩
      · have fits : blockNum.toNat * RAMDISK_BLOCK_SIZE + RAMDISK_BLOCK_SIZE ≤ RAMDISK_SIZE := by
          simp only [RAMDISK_BLOCK_COUNT, RAMDISK_BLOCK_SIZE, RAMDISK_SIZE] at *
          omega
        have small : blockNum.toNat * RAMDISK_BLOCK_SIZE < 2 ^ 32 := by
          simp only [RAMDISK_BLOCK_SIZE, RAMDISK_SIZE] at *
          omega
        rw [if_neg null, Nat.mod_eq_of_lt small]
        exact Or.inr ⟨⟨rfl, low, null⟩, fits, rfl⟩
    · rw [if_pos (Nat.not_lt.mp low)]
      exact Or.inl ⟨fun ok => low ok.2.1, rfl⟩
  · rw [Bool.eq_false_iff.mpr on, Bool.not_false, if_pos rfl]
    exact Or.inl ⟨fun ok => Bool.noConfusion ok.1, rfl⟩

theorem Backed.refuses (b : Backed s d) (some : buffer ≠ 0)
    (refused : ¬(s.ramdisk.initialized = true ∧ blockNum.toNat < RAMDISK_BLOCK_COUNT ∧ buffer ≠ 0)) (bytes : Buffer) :
    Fs.ramdiskReadBlock d blockNum.toNat bytes = (-1, bytes) ∧ Fs.ramdiskWriteBlock d blockNum.toNat bytes = (-1, d) := by
  rw [Fs.ramdiskReadBlock, Fs.ramdiskWriteBlock, ← b.on]
  by_cases on : s.ramdisk.initialized = true
  · have out : d.blockCount ≤ blockNum.toNat := by
      rw [(b.sizes on).2.2.2]
      exact Nat.not_lt.mp fun low => refused ⟨on, low, some⟩
    rw [on, Bool.not_true, if_neg Bool.false_ne_true, if_neg Bool.false_ne_true, if_pos out, if_pos out]
    exact ⟨rfl, rfl⟩
  · rw [Bool.eq_false_iff.mpr on, Bool.not_false, if_pos rfl, if_pos rfl]
    exact ⟨rfl, rfl⟩

theorem Backed.accepts (b : Backed s d) (on : s.ramdisk.initialized = true) (low : blockNum.toNat < RAMDISK_BLOCK_COUNT)
    (bytes : Buffer) : Fs.ramdiskReadBlock d blockNum.toNat bytes =
        (0, copy bytes 0 (fun i => d.data (blockNum.toNat * RAMDISK_BLOCK_SIZE + i)) RAMDISK_BLOCK_SIZE) ∧
      Fs.ramdiskWriteBlock d blockNum.toNat bytes =
        (0, d.withData (copy d.data (blockNum.toNat * RAMDISK_BLOCK_SIZE) bytes RAMDISK_BLOCK_SIZE)) := by
  obtain ⟨-, -, size, count⟩ := b.sizes on
  rw [Fs.ramdiskReadBlock, Fs.ramdiskWriteBlock, ← b.on, on, size, count, Bool.not_true, if_neg Bool.false_ne_true,
    if_neg Bool.false_ne_true, if_neg (Nat.not_le.mpr low), if_neg (Nat.not_le.mpr low)]
  exact ⟨rfl, rfl⟩

theorem Backed.read (b : Backed s d) (lent : s.Lent buffer) : Serves d (.readBlock blockNum buffer)
      (s.output (.readBlock blockNum buffer)) d ∧ Backed (s.step (.readBlock blockNum buffer)) d := by
  rw [DiskState.output, DiskState.step, ramdiskReadBlock]
  rcases b.checked blockNum buffer fun offset => memcpy s.heap.heap.mem buffer (s.ramdisk.data + offset) s.ramdisk.blockSize
    with ⟨refused, eq⟩ | ⟨⟨on, low, some⟩, fits, eq⟩
  · rw [eq]
    refine ⟨?_, b⟩
    by_cases null : buffer = 0
    · subst null
      exact .readNull
    · obtain ⟨same, -⟩ := b.refuses null refused fun i => s.mem (buffer + i)
      exact .readBlock null same fun _ _ => rfl
  · obtain ⟨high, foreign⟩ := lent.resolve_left some
    have below := b.low on
    have apart := b.apart on foreign fits
    obtain ⟨same, -⟩ := b.accepts on low fun i => s.mem (buffer + i)
    rw [eq, (b.sizes on).1, memcpy_eq high (by omega) (by omega)]
    constructor
    · refine .readBlock some same fun i lt => ?_
      have own : 0 ≤ i ∧ i < 0 + RAMDISK_BLOCK_SIZE := by omega
      have there : buffer ≤ buffer + i ∧ buffer + i < buffer + RAMDISK_BLOCK_SIZE := by omega
      change copy s.mem buffer (fun i => s.mem (s.ramdisk.data + blockNum.toNat * RAMDISK_BLOCK_SIZE + i))
        RAMDISK_BLOCK_SIZE (buffer + i) = _
      rw [copy_inside own, copy_inside there, Nat.add_sub_cancel_left, Nat.sub_zero, Nat.add_assoc]
      exact (b.stored on).bytes _ (by omega)
    · refine b.foreign fun x changed => ?_
      obtain ⟨start, stop⟩ := copy_changes changed
      have here : x = buffer + (x - buffer) := by omega
      exact here ▸ foreign (x - buffer) (by omega)

theorem Backed.write (b : Backed s d) (lent : s.Lent buffer) : ∃ d', Serves d (.writeBlock blockNum buffer)
      (s.output (.writeBlock blockNum buffer)) d' ∧ Backed (s.step (.writeBlock blockNum buffer)) d' := by
  rw [DiskState.output, DiskState.step, ramdiskWriteBlock]
  rcases b.checked blockNum buffer fun offset => memcpy s.heap.heap.mem (s.ramdisk.data + offset) buffer s.ramdisk.blockSize
    with ⟨refused, eq⟩ | ⟨⟨on, low, some⟩, fits, eq⟩
  · rw [eq]
    refine ⟨d, ?_, b⟩
    by_cases null : buffer = 0
    · subst null
      exact .writeNull
    · obtain ⟨-, same⟩ := b.refuses null refused fun i => s.mem (buffer + i)
      exact .writeBlock null same
  · obtain ⟨high, foreign⟩ := lent.resolve_left some
    have below := b.low on
    have apart := b.apart on foreign fits
    obtain ⟨-, same⟩ := b.accepts on low fun i => s.mem (buffer + i)
    rw [eq, (b.sizes on).1, memcpy_eq (by omega) high (by omega)]
    refine ⟨_, .writeBlock some same, b.withMem (fun x changed => Or.inr ?_) rfl fun _ i lt => ?_⟩
    · obtain ⟨start, stop⟩ := copy_changes changed
      exact ⟨on, by omega, by omega⟩
    · rw [RamDisk.withData]
      dsimp only
      by_cases inside : blockNum.toNat * RAMDISK_BLOCK_SIZE ≤ i ∧ i < blockNum.toNat * RAMDISK_BLOCK_SIZE + RAMDISK_BLOCK_SIZE
      · rw [copy_inside inside, copy_inside ⟨by omega, by omega⟩, Nat.add_sub_add_left]
        rfl
      · rw [copy_outside (by omega), copy_outside (by omega)]
        exact (b.stored on).bytes i lt

theorem Backed.format (b : Backed s d) :
    Backed (s.step .format) (if d.initialized then d.withData fun _ => 0 else d) := by
  rw [DiskState.step, ramdiskFormat, ← b.on]
  by_cases on : s.ramdisk.initialized = true
  · have below := b.low on
    have sizes := (b.stored on).sizes
    have size : s.ramdisk.size = RAMDISK_SIZE := by rw [sizes]
    rw [on, Bool.not_true, if_neg Bool.false_ne_true, if_pos rfl, size, memset_eq 0 below]
    refine b.withMem (fun x changed => Or.inr ⟨on, copy_changes changed⟩) rfl fun _ i lt => ?_
    exact copy_inside ⟨Nat.le_add_right .., by omega⟩
  · rw [Bool.eq_false_iff.mpr on, Bool.not_false, if_pos rfl, if_neg Bool.false_ne_true]
    exact b

theorem Backed.step (b : Backed s d) {op : DiskOp} (ok : s.allowed op) :
    ∃ d', Serves d op (s.output op) d' ∧ Backed (s.step op) d' := by
  cases op with
  | init => exact b.init
  | readBlock blockNum buffer => exact ⟨d, b.read ok⟩
  | writeBlock blockNum buffer => exact b.write ok
  | format => exact ⟨_, .format, b.format⟩
  | heap op => exact ⟨d, .heap, b.heap ok⟩
  | store a v => exact ⟨d, .store, b.store ok⟩

end Calls

section Others

variable {s : DiskState} {d : RamDisk} {p : Nat} {m : Buffer}

/-- The block at `p` keeps its size, and its bytes apart from those in `lent`. -/
structure Spared (s t : DiskState) (p : Nat) (lent : Nat → Prop) : Prop where
  size : payloadSize t.heap.heap p = payloadSize s.heap.heap p
  bytes : ∀ x, p ≤ x → x < p + payloadSize s.heap.heap p → ¬lent x → t.mem x = s.mem x

theorem Spared.refl (s : DiskState) (p : Nat) (lent : Nat → Prop) : Spared s s p lent := ⟨rfl, fun _ _ _ _ => rfl⟩

/-- Stores to the disk and to what was lent spare all other bytes of the others' blocks. -/
theorem Backed.spares (b : Backed s d) (client : s.Client p) {lent : Nat → Prop} (foreign : ∀ x, lent x → s.Foreign x)
    (changes : ∀ x, m x ≠ s.mem x → lent x ∨ s.ramdisk.initialized = true ∧
      s.ramdisk.data ≤ x ∧ x < s.ramdisk.data + RAMDISK_SIZE) : Spared s (s.withMem m) p lent := by
  have known : ∀ x, m x ≠ s.mem x → s.Foreign x ∨ s.ramdisk.initialized = true ∧
      s.ramdisk.data ≤ x ∧ x < s.ramdisk.data + RAMDISK_SIZE := fun x other => (changes x other).imp_left (foreign x)
  refine ⟨(b.patched known).2 p client.1, fun x low high kept => ?_⟩
  by_contra other
  obtain ⟨on, start, stop⟩ := (changes x other).resolve_left kept
  have here : x = s.ramdisk.data + (x - s.ramdisk.data) := by omega
  exact b.not_foreign on (show x - s.ramdisk.data < RAMDISK_SIZE by omega) (here ▸ Or.inr ⟨p, client, low, high⟩)

/-- The bytes that a call of the driver may change in a block of another: the buffer of a read. -/
def DiskOp.lends : DiskOp → Nat → Prop
  | .readBlock _ buffer, x => buffer ≤ x ∧ x < buffer + RAMDISK_BLOCK_SIZE
  | _, _ => False

def DiskOp.Driver : DiskOp → Prop
  | .heap _ => False
  | .store _ _ => False
  | _ => True

theorem Backed.init_spares (b : Backed s d) (client : s.Client p) : Spared s (s.step .init) p (DiskOp.lends .init) := by
  rcases b.init_cases with ⟨-, next⟩ | ⟨some, -, next⟩
  · rw [next]
    exact ⟨rfl, fun _ _ _ _ => rfl⟩
  · obtain ⟨l, t, perm⟩ := b.inv
    obtain ⟨l', t', perm'⟩ := (b.granted some).inv
    have same := (t.kmalloc_served perm some).others p client.1
    have fresh : s.granted.ramdisk.data ∉ s.heap.live :=
      (List.nodup_cons.mp (perm'.nodup_iff.mpr (pointers_nodup t'.sizes))).1
    have stays : s.granted.Client p := ⟨List.mem_cons_of_mem _ client.1, fun _ here => fresh (here ▸ client.1)⟩
    have size : payloadSize s.granted.heap.heap p = payloadSize s.heap.heap p := same.size
    rw [next]
    have cleared : Spared s.granted (s.granted.withMem (copy s.granted.mem s.granted.ramdisk.data (fun _ => 0) RAMDISK_SIZE))
        p fun _ => False :=
      (b.granted some).spares stays (fun _ none => none.elim) fun x changed => Or.inr ⟨rfl, copy_changes changed⟩
    refine ⟨cleared.size.trans size, fun x low high _ => ?_⟩
    exact (cleared.bytes x low (by omega) id).trans (same.bytes x ⟨by omega, high⟩)

theorem Backed.step_spares (b : Backed s d) (client : s.Client p) {op : DiskOp} (ok : s.allowed op) (driver : op.Driver) :
    Spared s (s.step op) p op.lends := by
  cases op with
  | init => exact b.init_spares client
  | readBlock blockNum buffer =>
    rw [DiskState.step, ramdiskReadBlock]
    rcases b.checked blockNum buffer fun offset => memcpy s.heap.heap.mem buffer (s.ramdisk.data + offset) s.ramdisk.blockSize
      with ⟨-, eq⟩ | ⟨⟨on, low, some⟩, fits, eq⟩
    · rw [eq]
      exact .refl s p _
    · obtain ⟨high, foreign⟩ := ok.resolve_left some
      have below := b.low on
      have apart := b.apart on foreign fits
      rw [eq, (b.sizes on).1, memcpy_eq high (by omega) (by omega)]
      refine b.spares client (fun x inside => ?_) fun x changed => Or.inl (copy_changes changed)
      obtain ⟨start, stop⟩ := inside
      have here : x = buffer + (x - buffer) := by omega
      exact here ▸ foreign (x - buffer) (by omega)
  | writeBlock blockNum buffer =>
    rw [DiskState.step, ramdiskWriteBlock]
    rcases b.checked blockNum buffer fun offset => memcpy s.heap.heap.mem (s.ramdisk.data + offset) buffer s.ramdisk.blockSize
      with ⟨-, eq⟩ | ⟨⟨on, low, some⟩, fits, eq⟩
    · rw [eq]
      exact .refl s p _
    · obtain ⟨high, foreign⟩ := ok.resolve_left some
      have below := b.low on
      have apart := b.apart on foreign fits
      rw [eq, (b.sizes on).1, memcpy_eq (by omega) high (by omega)]
      refine b.spares client (fun _ none => none.elim) fun x changed => Or.inr ?_
      obtain ⟨start, stop⟩ := copy_changes changed
      exact ⟨on, by omega, by omega⟩
  | format =>
    rw [DiskState.step, ramdiskFormat]
    by_cases on : s.ramdisk.initialized = true
    · have size : s.ramdisk.size = RAMDISK_SIZE := by rw [(b.stored on).sizes]
      rw [on, Bool.not_true, if_neg Bool.false_ne_true, size, memset_eq 0 (b.low on)]
      exact b.spares client (fun _ none => none.elim) fun x changed => Or.inr ⟨on, copy_changes changed⟩
    · rw [Bool.eq_false_iff.mpr on, Bool.not_false, if_pos rfl]
      exact .refl s p _
  | heap op => exact driver.elim
  | store a v => exact driver.elim

end Others

theorem start_backed (m : Buffer) : Backed (DiskState.start m) noDisk :=
  ⟨HeapState.init_inv m, rfl, nofun⟩

/-- Whatever the other users of the heap do in between, the calls of the driver answer as a disk
of its own would, and in the end its block has what that disk has. -/
theorem ramdisk_refines_disk (m : Buffer) (ops : List DiskOp) (s : DiskState)
    (run : Exec DiskState.allowed DiskState.step (DiskState.start m) ops s) :
    ∃ d, Explained Serves noDisk ops (seen DiskState.output DiskState.step (DiskState.start m) ops) d ∧ Backed s d :=
  run.explained (fun _ _ _ b ok => b.step ok) (start_backed m)

/-- A block is written from the stack, memory is allocated behind the disk, and the block is
read again. -/
theorem ramdisk_refines_disk_written :
    let ops : List DiskOp := [.init, .store 0x90000 7, .writeBlock 3 0x90000, .heap (.kmalloc 100), .readBlock 3 0x91000]
    ∃ d, Explained Serves noDisk ops (seen DiskState.output DiskState.step (DiskState.start fun _ => 0) ops) d ∧
      Backed (ops.foldl DiskState.step (DiskState.start fun _ => 0)) d := by
  have stack : ∀ s : DiskState, ∀ buffer, 0 < buffer → buffer ≤ 0x91000 → s.Lent buffer := by
    intro s buffer pos low
    refine Or.inr ⟨?_, fun i lt => Or.inl (Or.inl ?_)⟩
    · rw [RAMDISK_BLOCK_SIZE]
      omega
    · simp only [RAMDISK_BLOCK_SIZE, HEAP_START] at *
      omega
  exact ramdisk_refines_disk _ _ _ (.cons trivial (.cons (Or.inl (by decide)) (.cons (stack _ _ (by decide) (by decide))
    (.cons trivial (.cons (stack _ _ (by decide) (by decide)) (.nil _))))))

/-- No call of the driver changes a block that is not its own, apart from the buffer of a read. -/
theorem driver_spares_blocks (m : Buffer) (ops : List DiskOp) (s : DiskState) (op : DiskOp) (p : Nat)
    (run : Exec DiskState.allowed DiskState.step (DiskState.start m) ops s) (client : s.Client p) (ok : s.allowed op)
    (driver : op.Driver) : Spared s (s.step op) p op.lends := by
  obtain ⟨d, -, b⟩ := run.explained (fun _ _ _ b ok => b.step ok) (start_backed m)
  exact b.step_spares client ok driver

/-- The disk is taken from the heap while there is another block. -/
theorem driver_spares_blocks_init :
    Spared ((DiskState.start fun _ => 0).step (.heap (.kmalloc 8)))
      (((DiskState.start fun _ => 0).step (.heap (.kmalloc 8))).step .init) 0x200010 (DiskOp.lends .init) :=
  driver_spares_blocks (fun _ => 0) [.heap (.kmalloc 8)] _ .init _ (.cons trivial (.nil _)) ⟨by decide, nofun⟩ trivial trivial

end Wittche.Heap
