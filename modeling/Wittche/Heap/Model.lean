import Wittche.CString

/-! The kernel heap of `kernel/heap.c` over byte memory.
Block headers are the four words `size`, `is_free`, `magic`, `next` at the block's
address; every header access is a load or a store there, so stale headers and
payload writes are ordinary memory contents. Pointers are addresses, `NULL` is 0,
and 32-bit arithmetic is taken modulo 2^32. The list walks take fuel: `none` is a
walk that has not come to an end. -/

namespace Wittche.Heap
open Bytes CString

def HEAP_START : Nat := 0x00200000
def HEAP_SIZE : Nat := 4 * 1024 * 1024
def HEAP_END : Nat := HEAP_START + HEAP_SIZE
def HEAP_MAGIC : Nat := 0xDEADBEEF
def MIN_BLOCK_SIZE : Nat := 32

/-- `sizeof(heap_block_t)`. -/
def HEADER_SIZE : Nat := 16

/-- More steps than any walk over a heap of minimal blocks can take. -/
def WALK_FUEL : Nat := HEAP_SIZE / MIN_BLOCK_SIZE + 1

structure KernelHeap where
  mem : Buffer
  head : Nat

@[irreducible] def KernelHeap.store (h : KernelHeap) (a : Nat) (w : Word) : KernelHeap := { h with mem := Bytes.store h.mem a w }

def blockSize (m : Buffer) (b : Nat) : Nat := (load m b).toNat
def isFree (m : Buffer) (b : Nat) : Nat := (load m (b + 4)).toNat
def blockMagic (m : Buffer) (b : Nat) : Nat := (load m (b + 8)).toNat
def blockNext (m : Buffer) (b : Nat) : Nat := (load m (b + 12)).toNat

def setSize (m : Buffer) (b v : Nat) : Buffer := store m b (BitVec.ofNat 32 v)
def setFree (m : Buffer) (b v : Nat) : Buffer := store m (b + 4) (BitVec.ofNat 32 v)
def setMagic (m : Buffer) (b v : Nat) : Buffer := store m (b + 8) (BitVec.ofNat 32 v)
def setNext (m : Buffer) (b v : Nat) : Buffer := store m (b + 12) (BitVec.ofNat 32 v)

def alignSize (size : Word) : Word := (size + 3) &&& ~~~3

/-- `coalesce_free_blocks` from `current` on. -/
def coalesceFrom : (fuel : Nat) → Buffer → (current : Nat) → Option Buffer
  | 0, _, _ => none
  | fuel + 1, m, current =>
    if current = 0 ∨ blockNext m current = 0 then some m
    else
      let next := blockNext m current
      if isFree m current ≠ 0 ∧ isFree m next ≠ 0 ∧
          (current + blockSize m current) % 2 ^ 32 = next then
        let m := setSize m current ((blockSize m current + blockSize m next) % 2 ^ 32)
        coalesceFrom fuel (setNext m current (blockNext m next)) current
      else coalesceFrom fuel m next

def coalesceFreeBlocks (h : KernelHeap) : KernelHeap :=
  { h with mem := (coalesceFrom WALK_FUEL h.mem h.head).getD h.mem }

def heapInit (m : Buffer) : KernelHeap :=
  { mem := setNext (setMagic (setFree (setSize m HEAP_START HEAP_SIZE) HEAP_START 1)
      HEAP_START HEAP_MAGIC) HEAP_START 0
    head := HEAP_START }

/-- The block size `kmalloc` looks for: the request rounded up, with its header. -/
def totalSize (size : Word) : Nat :=
  let total := ((alignSize size).toNat + HEADER_SIZE) % 2 ^ 32
  if total < MIN_BLOCK_SIZE then MIN_BLOCK_SIZE else total

/-- Splitting off the remainder of `current` behind `total` bytes. -/
def splitBlock (m : Buffer) (current total : Nat) : Buffer :=
  let newBlock := (current + total) % 2 ^ 32
  let m := setSize m newBlock (blockSize m current - total)
  let m := setFree m newBlock 1
  let m := setMagic m newBlock HEAP_MAGIC
  let m := setNext m newBlock (blockNext m current)
  setNext (setSize m current total) current newBlock

/-- The search loop of `kmalloc`; the result is the memory and the pointer returned. -/
def kmallocFrom (total : Nat) : (fuel : Nat) → Buffer → (current : Nat) → Option (Buffer × Nat)
  | 0, _, _ => none
  | fuel + 1, m, current =>
    if current = 0 then some (m, 0)
    else if blockMagic m current ≠ HEAP_MAGIC then some (m, 0)
    else if isFree m current ≠ 0 ∧ total ≤ blockSize m current then
      let m := if (total + MIN_BLOCK_SIZE) % 2 ^ 32 ≤ blockSize m current then
        splitBlock m current total else m
      some (setFree m current 0, (current + HEADER_SIZE) % 2 ^ 32)
    else kmallocFrom total fuel m (blockNext m current)

def kmalloc (h : KernelHeap) (size : Word) : KernelHeap × Nat :=
  if size = 0 then (h, 0)
  else
    let r := (kmallocFrom (totalSize size) WALK_FUEL h.mem h.head).getD (h.mem, 0)
    ({ h with mem := r.1 }, r.2)

def kfree (h : KernelHeap) (ptr : Nat) : KernelHeap :=
  if ptr = 0 then h
  else
    let block := (ptr + 2 ^ 32 - HEADER_SIZE) % 2 ^ 32
    if blockMagic h.mem block ≠ HEAP_MAGIC then h
    else if block < HEAP_START ∨ HEAP_END ≤ block then h
    else if isFree h.mem block ≠ 0 then h
    else coalesceFreeBlocks { h with mem := setFree h.mem block 1 }

def krealloc (h : KernelHeap) (ptr : Nat) (newSize : Word) : KernelHeap × Nat :=
  if ptr = 0 then kmalloc h newSize
  else if newSize = 0 then (kfree h ptr, 0)
  else
    let block := (ptr + 2 ^ 32 - HEADER_SIZE) % 2 ^ 32
    if blockMagic h.mem block ≠ HEAP_MAGIC then (h, 0)
    else
      let currentSize := (blockSize h.mem block + 2 ^ 32 - HEADER_SIZE) % 2 ^ 32
      if newSize.toNat ≤ currentSize then (h, ptr)
      else
        let r := kmalloc h newSize
        if r.2 = 0 then (r.1, 0)
        else (kfree { r.1 with mem := memcpy r.1.mem r.2 ptr currentSize } ptr, r.2)

def kcalloc (h : KernelHeap) (num size : Word) : KernelHeap × Nat :=
  let total := num * size
  let r := kmalloc h total
  if r.2 ≠ 0 then ({ r.1 with mem := memset r.1.mem r.2 0 total.toNat }, r.2) else r

/-- The statistics walks: the sizes of the blocks whose tag satisfies `p`, modulo 2^32. -/
def sumSizes (p : Nat → Bool) (m : Buffer) : (fuel current acc : Nat) → Option Nat
  | 0, _, _ => none
  | fuel + 1, current, acc =>
    if current = 0 then some acc
    else
      let acc := if p (isFree m current) then (acc + blockSize m current) % 2 ^ 32 else acc
      sumSizes p m fuel (blockNext m current) acc

def heapGetUsedSize (h : KernelHeap) : Option Nat := sumSizes (· == 0) h.mem WALK_FUEL h.head 0
def heapGetFreeSize (h : KernelHeap) : Option Nat := sumSizes (· != 0) h.mem WALK_FUEL h.head 0

end Wittche.Heap
