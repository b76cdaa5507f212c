import Wittche.Lib.Tables
import Wittche.Pmm.Model

/-! Page directories and page tables as in `kernel/paging.c`, in pages of the physical
memory manager. The contents of these pages are kept apart from the rest of memory:
`entries p i` is the `i`-th entry of the directory or table in the page at `p`.
Entries, addresses and sizes are 32-bit numbers; the TLB and the control registers
are left out. -/

namespace Wittche.Paging
open Pmm

def PAGE_PRESENT : Nat := 0x01
def PAGE_WRITE : Nat := 0x02
def PAGE_USER : Nat := 0x04
def PAGE_KERNEL : Nat := PAGE_PRESENT ||| PAGE_WRITE
def PAGE_USER_MODE : Nat := PAGE_PRESENT ||| PAGE_WRITE ||| PAGE_USER
def PAGE_DIRECTORY_ENTRIES : Nat := 1024
def PAGE_TABLE_ENTRIES : Nat := 1024

def getPageDirIndex (addr : Nat) : Nat := addr >>> 22
def getPageTableIndex (addr : Nat) : Nat := (addr >>> 12) &&& 0x3FF
def getPageOffset (addr : Nat) : Nat := addr &&& 0xFFF

/-- `make_pde`, and in the same words `make_pte`. -/
def makePde (addr flags : Nat) : Nat := (addr &&& 0xFFFFF000) ||| (flags &&& 0xFFF)
def makePte (addr flags : Nat) : Nat := (addr &&& 0xFFFFF000) ||| (flags &&& 0xFFF)

/-- Where the linker puts `kernel_directory` and `early_page_tables`: aligned, apart, and
in the memory from `0x10000` on that is reserved for the kernel. -/
structure Image where
  kernelDirectory : Nat
  earlyPageTables : Nat
  loaded : 0x10000 ≤ kernelDirectory ∧ 0x10000 ≤ earlyPageTables
  directoryAligned : kernelDirectory % PAGE_SIZE = 0
  tablesAligned : earlyPageTables % PAGE_SIZE = 0
  apart : kernelDirectory + PAGE_SIZE ≤ earlyPageTables ∨ earlyPageTables + 16 * PAGE_SIZE ≤ kernelDirectory
  directoryBelow : kernelDirectory + PAGE_SIZE ≤ KERNEL_END
  tablesBelow : earlyPageTables + 16 * PAGE_SIZE ≤ KERNEL_END

structure PageTables where
  pmm : PageMap
  entries : Nat → Nat → Nat
  /-- `current_directory`. -/
  current : Nat
  /-- How often `pmm_alloc_page` had no page to give. -/
  refused : Nat

namespace PageTables

def setEntry (s : PageTables) (page i x : Nat) : PageTables := { s with entries := Tables.put s.entries page i x }

def clearPage (s : PageTables) (page : Nat) : PageTables := { s with entries := Function.update s.entries page fun _ => 0 }

@[simp] theorem entries_setEntry (s : PageTables) (page i x : Nat) :
    (s.setEntry page i x).entries = Tables.put s.entries page i x := rfl

@[simp] theorem entries_clearPage (s : PageTables) (page : Nat) :
    (s.clearPage page).entries = Function.update s.entries page fun _ => 0 := rfl

def allocPage (s : PageTables) : PageTables × Nat :=
  let r := pmmAllocPage s.pmm
  ({ s with pmm := r.1, refused := if r.2 = 0 then s.refused + 1 else s.refused }, r.2)

end PageTables

/-- The processor lets user mode access the address: both entries for it are present and open
to user mode. -/
def UserAccess (s : PageTables) (dir virtual : Nat) : Prop :=
  let pde := s.entries dir (getPageDirIndex virtual)
  let pte := s.entries (pde &&& 0xFFFFF000) (getPageTableIndex virtual)
  (pde &&& PAGE_PRESENT ≠ 0 ∧ pde &&& PAGE_USER ≠ 0) ∧ pte &&& PAGE_PRESENT ≠ 0 ∧ pte &&& PAGE_USER ≠ 0

instance (s : PageTables) (dir virtual : Nat) : Decidable (UserAccess s dir virtual) :=
  inferInstanceAs (Decidable (_ ∧ _))

/-- The table that `paging_map_page` writes to, behind the entry `i` of the current directory,
with a new one if there is none; `none` if there is no page for it. -/
def pageTable (s : PageTables) (i : Nat) : PageTables × Option Nat :=
  let pde := s.entries s.current i
  if pde &&& PAGE_PRESENT = 0 then
    match s.allocPage with
    | (s, t) =>
      if t = 0 then (s, none)
      else ((s.clearPage t).setEntry s.current i (makePde t (PAGE_PRESENT ||| PAGE_WRITE)), some t)
  else (s, some (pde &&& 0xFFFFF000))

def pagingMapPage (s : PageTables) (virtual physical flags : Nat) : PageTables :=
  match pageTable s (getPageDirIndex virtual) with
  | (s, none) => s
  | (s, some t) => s.setEntry t (getPageTableIndex virtual) (makePte physical flags)

def pagingUnmapPage (s : PageTables) (virtual : Nat) : PageTables :=
  let pde := s.entries s.current (getPageDirIndex virtual)
  if pde &&& PAGE_PRESENT = 0 then s
  else s.setEntry (pde &&& 0xFFFFF000) (getPageTableIndex virtual) 0

def pagingGetPhysicalAddress (s : PageTables) (virtual : Nat) : Nat :=
  let pde := s.entries s.current (getPageDirIndex virtual)
  if pde &&& PAGE_PRESENT = 0 then 0
  else
    let pte := s.entries (pde &&& 0xFFFFF000) (getPageTableIndex virtual)
    if pte &&& PAGE_PRESENT = 0 then 0 else (pte &&& 0xFFFFF000) ||| getPageOffset virtual

def pagingSwitchDirectory (s : PageTables) (dir : Nat) : PageTables := { s with current := dir }

/-- One turn of the loop of `paging_init`, at the address `i`; the count is `pt_count`. -/
def identityMapPage (img : Image) (r : PageTables × Nat) (i : Nat) : PageTables × Nat :=
  let pd := getPageDirIndex i
  let r :=
    if r.1.entries img.kernelDirectory pd &&& PAGE_PRESENT = 0 then
      (r.1.setEntry img.kernelDirectory pd (makePde (img.earlyPageTables + r.2 * PAGE_SIZE) PAGE_KERNEL), r.2 + 1)
    else r
  let t := r.1.entries img.kernelDirectory pd &&& 0xFFFFF000
  (r.1.setEntry t (getPageTableIndex i) (makePte i PAGE_KERNEL), r.2)

def clearTables (img : Image) (s : PageTables) : PageTables :=
  (List.range 16).foldl (fun s k => s.clearPage (img.earlyPageTables + k * PAGE_SIZE))
    (s.clearPage img.kernelDirectory)

@[irreducible] def pagingInit (img : Image) (s : PageTables) : PageTables :=
  let r := (List.range (16 * 1024 * 1024 / PAGE_SIZE)).foldl
    (fun r k => identityMapPage img r (k * PAGE_SIZE)) (clearTables img s, 0)
  { r.1 with current := img.kernelDirectory }

/-- `paging_create_user_directory`; 0 is `NULL`. -/
def pagingCreateUserDirectory (img : Image) (s : PageTables) : PageTables × Nat :=
  match s.allocPage with
  | (s, dir) =>
    if dir = 0 then (s, 0)
    else
      ((List.range 4).foldl (fun s i => s.setEntry dir i (s.entries img.kernelDirectory i)) (s.clearPage dir), dir)

/-- The loop of `paging_map_user_code` from its `i`-th turn on. -/
def mapPagesFrom (s : PageTables) (virtual physical : Nat) : (n i : Nat) → PageTables
  | 0, _ => s
  | n + 1, i =>
    mapPagesFrom (pagingMapPage s ((virtual + i * PAGE_SIZE) % 2 ^ 32) ((physical + i * PAGE_SIZE) % 2 ^ 32)
      PAGE_USER_MODE) virtual physical n (i + 1)

def pagingMapUserCode (s : PageTables) (dir virtual physical size : Nat) : PageTables :=
  let numPages := (size + PAGE_SIZE - 1) % 2 ^ 32 / PAGE_SIZE
  { mapPagesFrom { s with current := dir } virtual physical numPages 0 with current := s.current }

/-- The inner loop of `paging_free_directory`, and the table itself. -/
def freeTable (entries : Nat → Nat → Nat) (p : PageMap) (t : Nat) : PageMap :=
  pmmFreePage ((List.range PAGE_TABLE_ENTRIES).foldl (fun p j =>
    if entries t j &&& PAGE_PRESENT = 0 then p else pmmFreePage p (entries t j &&& 0xFFFFF000)) p) t

def pagingFreeDirectory (s : PageTables) (dir : Nat) : PageTables :=
  if dir = 0 then s
  else
    { s with pmm := pmmFreePage ((List.range (PAGE_DIRECTORY_ENTRIES - 4)).foldl (fun p i =>
        if s.entries dir (i + 4) &&& PAGE_PRESENT = 0 then p
        else freeTable s.entries p (s.entries dir (i + 4) &&& 0xFFFFF000)) s.pmm) dir }

end Wittche.Paging
