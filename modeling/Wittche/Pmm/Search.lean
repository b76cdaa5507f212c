import Wittche.Pmm.Model

/-! What the searches of the physical memory manager find.
For a count the memory can hold, the skip-ahead search ends and returns the first
window of free pages, or none if there is no such window. -/

namespace Wittche.Pmm

def FreeRun (p : PageMap) (count i : Nat) : Prop := ∀ k, i ≤ k → k < i + count → bitmapTest p k = false

theorem bitmapTest_takePage (p : PageMap) (page k : Nat) :
    bitmapTest (takePage p page) k = (decide (k = page) || bitmapTest p k) :=
  Bitmap.test_set (by decide) p.pageBitmap page k

theorem bitmapTest_takePages {p : PageMap} {first n i : Nat} (bound : first + i + n ≤ 2 ^ 32) (k : Nat) :
    bitmapTest (takePages p first n i) k =
      (decide (first + i ≤ k ∧ k < first + i + n) || bitmapTest p k) := by
  induction n generalizing p i with
  | zero =>
    have none : ¬(first + i ≤ k ∧ k < first + i + 0) := by omega
    simp only [takePages, none, decide_false, Bool.false_or]
  | succ n ih =>
    have wrap : (first + i) % 2 ^ 32 = first + i := Nat.mod_eq_of_lt (by omega)
    rw [takePages, ih (by omega), wrap, bitmapTest_takePage, ← Bool.or_assoc, ← Bool.decide_or]
    congr 2
    rw [eq_iff_iff]
    omega

theorem findUsed_none {p : PageMap} {i n : Nat} (bound : i + n ≤ 2 ^ 32) :
    findUsed p i n = none ↔ FreeRun p n i := by
  rw [findUsed, Scan.firstFrom_none]
  constructor
  · intro none k lo hi
    have page := none (k - i) (by omega) (by omega)
    rwa [show i + (k - i) = k by omega, Nat.mod_eq_of_lt (by omega)] at page
  · intro run j lo hi
    rw [Nat.mod_eq_of_lt (by omega)]
    exact run _ (by omega) (by omega)

theorem findUsed_some {p : PageMap} {i n k : Nat} (bound : i + n ≤ 2 ^ 32)
    (h : findUsed p i n = some k) : k < n ∧ bitmapTest p (i + k) = true := by
  obtain ⟨-, hi, taken, -⟩ := Scan.firstFrom_some h
  rw [Nat.mod_eq_of_lt (by omega)] at taken
  exact ⟨by omega, taken⟩

/-- The outer loop, entered with every window before `i` refuted. -/
theorem findFreePagesFrom_least {p : PageMap} {count fuel i : Nat} (pos : 1 ≤ count)
    (le : count ≤ TOTAL_PAGES) (before : ∀ k < i, ¬FreeRun p count k) (lt : i ≤ TOTAL_PAGES + 1)
    (enough : TOTAL_PAGES + 1 - i < fuel) :
    ∃ r, findFreePagesFrom p count fuel i = some r ∧
      ((r ≤ TOTAL_PAGES - count ∧ FreeRun p count r ∧ ∀ k < r, ¬FreeRun p count k) ∨
        (r = NO_PAGE ∧ ∀ k ≤ TOTAL_PAGES - count, ¬FreeRun p count k)) := by
  have pages : TOTAL_PAGES = 4096 := by decide
  induction fuel generalizing i with
  | zero => omega
  | succ fuel ih =>
    have limit : (TOTAL_PAGES + 2 ^ 32 - count) % 2 ^ 32 = TOTAL_PAGES - count := by omega
    rw [findFreePagesFrom, limit]
    split
    next inside =>
      split
      next found =>
        have run := (findUsed_none (by omega)).mp found
        exact ⟨i, rfl, Or.inl ⟨inside, run, before⟩⟩
      next j found =>
        obtain ⟨hi, taken⟩ := findUsed_some (by omega) found
        have wrap : (i + j + 1) % 2 ^ 32 = i + j + 1 := Nat.mod_eq_of_lt (by omega)
        rw [wrap]
        refine ih ?_ (by omega) (by omega)
        -- every window that starts up to `i + j` contains the used page `i + j`
        intro k hk run
        by_cases old : k < i
        · exact before k old run
        · have free := run (i + j) (by omega) (by omega)
          rw [taken] at free
          exact Bool.noConfusion free
    next outside =>
      exact ⟨NO_PAGE, rfl, Or.inr ⟨rfl, fun k hk => before k (by omega)⟩⟩

theorem findFreePages_least {p : PageMap} {count : Nat} (pos : 1 ≤ count) (le : count ≤ TOTAL_PAGES) :
    ∃ r, findFreePages p count = some r ∧
      ((r ≤ TOTAL_PAGES - count ∧ FreeRun p count r ∧ ∀ k < r, ¬FreeRun p count k) ∨
        (r = NO_PAGE ∧ ∀ k ≤ TOTAL_PAGES - count, ¬FreeRun p count k)) := by
  rw [findFreePages, if_neg (by omega)]
  exact findFreePagesFrom_least pos le (fun k hk => by omega) (by omega) (by decide)

theorem bitmapTest_blank (p : PageMap) {k : Nat} (hk : k < TOTAL_PAGES) :
    bitmapTest ⟨fun k => if k < TOTAL_PAGES / 32 then 0 else p.pageBitmap k, 0⟩ k = false := by
  have word : k / 32 < TOTAL_PAGES / 32 := by
    simp only [TOTAL_PAGES, MEMORY_SIZE, PAGE_SIZE] at *
    omega
  simp [bitmapTest, Bitmap.test, word]

theorem pmmInit_test (p : PageMap) {k : Nat} (hk : k < TOTAL_PAGES) :
    bitmapTest (pmmInit p) k = decide (k < KERNEL_END / PAGE_SIZE) := by
  unfold pmmInit
  rw [bitmapTest_takePages (by decide), bitmapTest_blank p hk]
  simp only [Nat.zero_add, Nat.zero_le, true_and, Bool.or_false]

end Wittche.Pmm
