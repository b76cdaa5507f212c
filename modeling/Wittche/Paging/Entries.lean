import Wittche.Paging.Model

/-! Page table entries as numbers, and translation as a walk through two tables. -/

namespace Wittche.Paging
open Pmm

def follow (e : Nat) : Option Nat := if e &&& PAGE_PRESENT = 0 then none else some (e &&& 0xFFFFF000)

def frameAt (s : PageTables) (d n : Nat) : Option Nat := Tables.walk follow s.entries d (n / 1024) (n % 1024)

/-- `T_dir(a)`: `paging_get_physical_address(a)` with `dir` as the current directory. -/
def translate (s : PageTables) (dir a : Nat) : Nat := pagingGetPhysicalAddress { s with current := dir } a

theorem and_frame (x : Nat) : x &&& 0xFFFFF000 = x % 2 ^ 32 / 2 ^ 12 * 2 ^ 12 := by
  apply Nat.eq_of_testBit_eq
  intro i
  rw [Nat.testBit_and, show 0xFFFFF000 = 2 ^ 12 * (2 ^ 20 - 1) by rfl, Nat.testBit_two_pow_mul,
    Nat.testBit_two_pow_sub_one, Nat.mul_comm (x % 2 ^ 32 / 2 ^ 12), Nat.testBit_two_pow_mul, Nat.testBit_div_two_pow,
    Nat.testBit_mod_two_pow]
  by_cases low : 12 ≤ i
  · rw [show i - 12 + 12 = i by omega]
    by_cases high : i < 32
    · simp [low, high]
      omega
    · simp [high]
      omega
  · simp [low]

theorem and_offset (x : Nat) : x &&& 0xFFF = x % PAGE_SIZE := Nat.and_two_pow_sub_one_eq_mod x 12

theorem frame_or_offset (x y : Nat) : (x &&& 0xFFFFF000) ||| (y &&& 0xFFF) = (x &&& 0xFFFFF000) + y % PAGE_SIZE := by
  have small : y % PAGE_SIZE < 2 ^ 12 := Nat.mod_lt _ (by decide)
  rw [and_offset, and_frame, Nat.mul_comm, Nat.two_pow_add_eq_or_of_lt small]

theorem follow_makePte {flags : Nat} (present : flags &&& PAGE_PRESENT ≠ 0) (addr : Nat) :
    follow (makePte addr flags) = some (addr &&& 0xFFFFF000) := by
  have bit : makePte addr flags &&& PAGE_PRESENT = flags &&& PAGE_PRESENT := by
    rw [makePte, Nat.and_or_distrib_right, Nat.and_assoc, Nat.and_assoc]
    simp [PAGE_PRESENT]
  have frame : makePte addr flags &&& 0xFFFFF000 = addr &&& 0xFFFFF000 := by
    rw [makePte, Nat.and_or_distrib_right, Nat.and_assoc, Nat.and_assoc]
    simp
  rw [follow, bit, if_neg present, frame]

theorem follow_makePde {flags : Nat} (present : flags &&& PAGE_PRESENT ≠ 0) (addr : Nat) :
    follow (makePde addr flags) = some (addr &&& 0xFFFFF000) := follow_makePte present addr

theorem follow_zero : follow 0 = none := rfl

theorem and_frame_aligned {x : Nat} (small : x < 2 ^ 32) (aligned : x % PAGE_SIZE = 0) : x &&& 0xFFFFF000 = x := by
  rw [and_frame, Nat.mod_eq_of_lt small]
  simp only [PAGE_SIZE] at aligned
  omega

theorem getPageDirIndex_eq (a : Nat) : getPageDirIndex a = a / PAGE_SIZE / 1024 := by
  rw [getPageDirIndex, Nat.shiftRight_eq_div_pow, Nat.div_div_eq_div_mul]
  rfl

theorem getPageTableIndex_eq (a : Nat) : getPageTableIndex a = a / PAGE_SIZE % 1024 := by
  rw [getPageTableIndex, Nat.shiftRight_eq_div_pow]
  exact Nat.and_two_pow_sub_one_eq_mod (a / 2 ^ 12) 10

theorem index_iff (v n : Nat) :
    n / 1024 = getPageDirIndex v ∧ n % 1024 = getPageTableIndex v ↔ n = v / PAGE_SIZE := by
  rw [getPageDirIndex_eq, getPageTableIndex_eq]
  omega

theorem follow_frame {e f : Nat} (there : follow e = some f) : f = e &&& 0xFFFFF000 := by
  rw [follow] at there
  split at there
  · exact absurd there.symm (Option.some_ne_none f)
  · exact (Option.some.inj there).symm

theorem follow_none {e : Nat} (none : follow e = none) : e &&& PAGE_PRESENT = 0 := by
  by_contra there
  rw [follow, if_neg there] at none
  exact absurd none (Option.some_ne_none _)

theorem translate_eq (s : PageTables) (dir a : Nat) :
    translate s dir a = ((frameAt s dir (a / PAGE_SIZE)).map (· + a % PAGE_SIZE)).getD 0 := by
  simp only [translate, pagingGetPhysicalAddress, frameAt, Tables.walk, getPageDirIndex_eq, getPageTableIndex_eq,
    follow]
  split
  · rfl
  · simp only [Option.bind_some]
    split
    · rfl
    · rw [Option.map_some, Option.getD_some, getPageOffset, frame_or_offset]

end Wittche.Paging
