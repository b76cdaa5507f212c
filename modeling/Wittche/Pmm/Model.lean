import Wittche.Lib.Bitmap
import Wittche.Lib.Bytes

/-! The physical memory manager of `kernel/pmm.c`.
`page_bitmap` is an array of 32-bit words; the words behind its 128 entries are
whatever memory follows it. Addresses, counts and page indices are 32-bit and wrap. -/

namespace Wittche.Pmm
open Bytes

def PAGE_SIZE : Nat := 4096
def MEMORY_SIZE : Nat := 16 * 1024 * 1024
def TOTAL_PAGES : Nat := MEMORY_SIZE / PAGE_SIZE
def KERNEL_END : Nat := 0x200000

def NO_PAGE : Nat := 0xFFFFFFFF

structure PageMap where
  pageBitmap : Bitmap.Bits 32
  usedPages : Word

def bitmapTest (p : PageMap) (page : Nat) : Bool := Bitmap.test p.pageBitmap page

/-- `bitmap_set` with the count that goes with it. -/
def takePage (p : PageMap) (page : Nat) : PageMap :=
  ⟨Bitmap.set p.pageBitmap page, p.usedPages + 1⟩

def dropPage (p : PageMap) (page : Nat) : PageMap :=
  ⟨Bitmap.clear p.pageBitmap page, p.usedPages - 1⟩

def findFreePage (p : PageMap) : Nat := (Bitmap.findClear p.pageBitmap TOTAL_PAGES).getD NO_PAGE

/-- The inner loop of `find_free_pages`: the first used page among `i + j`, `j < count`. -/
def findUsed (p : PageMap) (i count : Nat) : Option Nat :=
  Scan.firstFrom (fun j => bitmapTest p ((i + j) % 2 ^ 32)) count 0

/-- The outer loop of `find_free_pages`, with `i += j` and the loop's own `i++`. -/
def findFreePagesFrom (p : PageMap) (count : Nat) : (fuel i : Nat) → Option Nat
  | 0, _ => none
  | fuel + 1, i =>
    if i ≤ (TOTAL_PAGES + 2 ^ 32 - count) % 2 ^ 32 then
      match findUsed p i count with
      | none => some i
      | some j => findFreePagesFrom p count fuel ((i + j + 1) % 2 ^ 32)
    else some NO_PAGE

/-- `none` is a search that never ends: `i` has come back to a value it had. -/
def findFreePages (p : PageMap) (count : Nat) : Option Nat :=
  if count = 0 then some NO_PAGE else findFreePagesFrom p count (2 ^ 32) 0

def takePages (p : PageMap) (first : Nat) : (n i : Nat) → PageMap
  | 0, _ => p
  | n + 1, i => takePages (takePage p ((first + i) % 2 ^ 32)) first n (i + 1)

/-- The bitmap and the count, with the first `KERNEL_END` bytes reserved. -/
@[irreducible] def pmmInit (p : PageMap) : PageMap :=
  takePages ⟨fun k => if k < TOTAL_PAGES / 32 then 0 else p.pageBitmap k, 0⟩ 0
    (KERNEL_END / PAGE_SIZE) 0

def pmmAllocPage (p : PageMap) : PageMap × Nat :=
  let page := findFreePage p
  if page = NO_PAGE then (p, 0) else (takePage p page, page * PAGE_SIZE % 2 ^ 32)

def pmmFreePage (p : PageMap) (addr : Nat) : PageMap :=
  if MEMORY_SIZE ≤ addr ∨ addr % PAGE_SIZE ≠ 0 then p
  else if addr < KERNEL_END then p
  else if bitmapTest p (addr / PAGE_SIZE) then dropPage p (addr / PAGE_SIZE) else p

def pmmAllocPages (p : PageMap) (count : Nat) : Option (PageMap × Nat) :=
  if count = 0 then some (p, 0)
  else
    (findFreePages p count).map fun page =>
      if page = NO_PAGE then (p, 0)
      else (takePages p page count 0, page * PAGE_SIZE % 2 ^ 32)

/-- The loop of `pmm_free_pages` from its `i`-th turn on. -/
def freePagesFrom (p : PageMap) (addr : Nat) : (n i : Nat) → PageMap
  | 0, _ => p
  | n + 1, i => freePagesFrom (pmmFreePage p ((addr + i * PAGE_SIZE) % 2 ^ 32)) addr n (i + 1)

def pmmFreePages (p : PageMap) (addr count : Nat) : PageMap := freePagesFrom p addr count 0

end Wittche.Pmm
