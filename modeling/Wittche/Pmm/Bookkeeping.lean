import Mathlib.Order.Interval.Finset.Nat
import Wittche.Lib.Execution
import Wittche.Pmm.Search

/-! What the physical memory manager keeps in every run: the count is the number of
set bits, the kernel's bits stay set, an allocation takes the pages it returns and
no others, and freeing them brings back the state before it. -/

namespace Wittche.Pmm
open Bytes Execution

inductive PageOp where
  | pmmAllocPage
  | pmmAllocPages (count : Nat)
  | pmmFreePage (addr : Nat)
  | pmmFreePages (addr count : Nat)

def PageMap.step (p : PageMap) : PageOp → PageMap
  | .pmmAllocPage => (Pmm.pmmAllocPage p).1
  | .pmmAllocPages count => ((Pmm.pmmAllocPages p count).getD (p, 0)).1
  | .pmmFreePage addr => Pmm.pmmFreePage p addr
  | .pmmFreePages addr count => Pmm.pmmFreePages p addr count

/-- The counts for which the search of `pmm_alloc_pages` stays inside the bitmap. -/
def PageMap.allowed (_ : PageMap) : PageOp → Prop
  | .pmmAllocPages count => count ≤ TOTAL_PAGES
  | _ => True

/-- Addresses that `pmm_free_page` does not turn away. -/
def Freeable (addr : Nat) : Prop := KERNEL_END ≤ addr ∧ addr < MEMORY_SIZE ∧ addr % PAGE_SIZE = 0

instance (addr : Nat) : Decidable (Freeable addr) := inferInstanceAs (Decidable (_ ∧ _ ∧ _))

/-- The count agrees with the bitmap. -/
def Counted (p : PageMap) : Prop :=
  p.usedPages.toNat + Bitmap.clearCount p.pageBitmap TOTAL_PAGES = TOTAL_PAGES

structure Kept (p : PageMap) : Prop where
  counted : Counted p
  kernel : ∀ k < KERNEL_END / PAGE_SIZE, bitmapTest p k = true

section Pages

variable {p q : PageMap}

theorem bitmapTest_dropPage (p : PageMap) (page k : Nat) :
    bitmapTest (dropPage p page) k = (!decide (k = page) && bitmapTest p k) :=
  Bitmap.test_clear (by decide) p.pageBitmap page k

theorem PageMap.ext_test (same : ∀ k, bitmapTest p k = bitmapTest q k)
    (used : p.usedPages = q.usedPages) : p = q := by
  cases p
  cases q
  rw [PageMap.mk.injEq]
  exact ⟨Bitmap.ext_test (by decide) same, used⟩

theorem Counted.ext (counted : Counted p) (counted' : Counted q)
    (same : ∀ k, bitmapTest p k = bitmapTest q k) : p = q := by
  have bits : p.pageBitmap = q.pageBitmap := Bitmap.ext_test (by decide) same
  unfold Counted at counted counted'
  rw [bits] at counted
  exact PageMap.ext_test same (BitVec.eq_of_toNat_eq (by omega))

theorem Counted.takePage {page : Nat} (counted : Counted p) (inside : page < TOTAL_PAGES)
    (free : bitmapTest p page = false) : Counted (takePage p page) := by
  have pages : TOTAL_PAGES = 4096 := by decide
  have fewer := Bitmap.clearCount_set (by decide) inside free
  unfold Counted at counted
  have more : (p.usedPages + 1).toNat = p.usedPages.toNat + 1 := by
    rw [BitVec.toNat_add]
    exact Nat.mod_eq_of_lt (by simp; omega)
  simp only [Counted, Pmm.takePage, more]
  omega

theorem Counted.takePages {first n i : Nat} (counted : Counted p) (inside : first + i + n ≤ TOTAL_PAGES)
    (free : FreeRun p n (first + i)) : Counted (takePages p first n i) := by
  have pages : TOTAL_PAGES = 4096 := by decide
  induction n generalizing p i with
  | zero => exact counted
  | succ n ih =>
    have wrap : (first + i) % 2 ^ 32 = first + i := Nat.mod_eq_of_lt (by omega)
    rw [Pmm.takePages, wrap]
    refine ih (counted.takePage (by omega) (free _ (Nat.le_refl _) (by omega))) (by omega) ?_
    intro k lo hi
    have other : k ≠ first + i := by omega
    rw [bitmapTest_takePage, free k (by omega) (by omega)]
    simp [other]

theorem Counted.dropPage {page : Nat} (counted : Counted p) (inside : page < TOTAL_PAGES)
    (taken : bitmapTest p page = true) : Counted (dropPage p page) := by
  have more := Bitmap.clearCount_clear (by decide) inside taken
  have le := Bitmap.clearCount_le (Bitmap.clear p.pageBitmap page) TOTAL_PAGES
  unfold Counted at counted
  have some : 1 ≤ p.usedPages.toNat := by omega
  have fewer : (p.usedPages - 1).toNat = p.usedPages.toNat - 1 :=
    BitVec.toNat_sub_of_le (BitVec.le_def.mpr some)
  simp only [Counted, Pmm.dropPage, fewer]
  omega

theorem Counted.usedPages_congr (counted : Counted p) (counted' : Counted q)
    (same : ∀ k < TOTAL_PAGES, bitmapTest p k = bitmapTest q k) : p.usedPages = q.usedPages := by
  have clear : Bitmap.clearCount p.pageBitmap TOTAL_PAGES = Bitmap.clearCount q.pageBitmap TOTAL_PAGES := by
    refine congrArg Finset.card (Finset.filter_congr fun k inside => ?_)
    exact iff_of_eq (congrArg (· = false) (same k (Finset.mem_range.mp inside)))
  unfold Counted at counted counted'
  exact BitVec.eq_of_toNat_eq (by omega)

theorem Counted.setCount (counted : Counted p) :
    p.usedPages.toNat = Bitmap.setCount p.pageBitmap TOTAL_PAGES := by
  have parts := Bitmap.setCount_add_clearCount p.pageBitmap TOTAL_PAGES
  unfold Counted at counted
  omega

theorem bitmapTest_pmmFreePage (p : PageMap) (addr k : Nat) :
    bitmapTest (pmmFreePage p addr) k =
      (!decide (Freeable addr ∧ k = addr / PAGE_SIZE) && bitmapTest p k) := by
  by_cases ok : Freeable addr
  · obtain ⟨high, inside, aligned⟩ := id ok
    rw [pmmFreePage, if_neg (by omega), if_neg (by omega)]
    split
    next taken => simp [bitmapTest_dropPage, ok]
    next free =>
      by_cases here : k = addr / PAGE_SIZE
      · subst here
        rw [Bool.eq_false_of_not_eq_true free, Bool.and_false]
      · simp [here]
  · have same : pmmFreePage p addr = p := by
      rw [pmmFreePage]
      unfold Freeable at ok
      split
      · rfl
      next inside =>
        rw [if_pos (by omega)]
    simp [same, ok]

theorem Freeable.ne_zero {a : Nat} (ok : Freeable a) : a ≠ 0 := by
  have high := ok.1
  simp only [KERNEL_END] at high
  omega

theorem pmmFreePage_low (m : PageMap) {a : Nat} (low : a < KERNEL_END) : pmmFreePage m a = m := by
  rw [pmmFreePage, if_pos low, ite_self]

theorem Freeable.page {addr : Nat} (ok : Freeable addr) :
    KERNEL_END / PAGE_SIZE ≤ addr / PAGE_SIZE ∧ addr / PAGE_SIZE < TOTAL_PAGES := by
  obtain ⟨high, inside, -⟩ := ok
  simp only [KERNEL_END, TOTAL_PAGES, MEMORY_SIZE, PAGE_SIZE] at *
  omega

theorem Freeable.page_inj {a b : Nat} (ha : Freeable a) (hb : Freeable b) :
    a / PAGE_SIZE = b / PAGE_SIZE ↔ a = b := by
  have alignedA := ha.2.2
  have alignedB := hb.2.2
  simp only [PAGE_SIZE] at *
  omega

theorem Kept.freePage (kept : Kept p) (addr : Nat) : Kept (pmmFreePage p addr) := by
  refine ⟨?_, fun k low => ?_⟩
  · rw [pmmFreePage]
    split
    · exact kept.counted
    next inside =>
      split
      · exact kept.counted
      next high =>
        split
        next taken =>
          have ok : Freeable addr := ⟨by omega, by omega, by omega⟩
          exact kept.counted.dropPage ok.page.2 taken
        · exact kept.counted
  · rw [bitmapTest_pmmFreePage, kept.kernel k low]
    have other : ¬(Freeable addr ∧ k = addr / PAGE_SIZE) := by
      rintro ⟨ok, rfl⟩
      have high := ok.page.1
      omega
    simp [other]

theorem Kept.freePagesFrom (kept : Kept p) (addr n i : Nat) : Kept (freePagesFrom p addr n i) := by
  induction n generalizing p i with
  | zero => exact kept
  | succ n ih => exact ih (kept.freePage _) (i + 1)

structure Frees (S : Nat → Prop) (p q : PageMap) : Prop where
  bits : ∀ k, bitmapTest q k = true ↔ bitmapTest p k = true ∧ ¬S k
  kept : Kept p → Kept q

theorem Frees.none (p : PageMap) : Frees (fun _ => False) p p := ⟨fun k => by simp, id⟩

theorem Frees.trans {S S' : Nat → Prop} {r : PageMap} (first : Frees S p q) (second : Frees S' q r) :
    Frees (fun k => S k ∨ S' k) p r := by
  refine ⟨fun k => ?_, fun kept => second.kept (first.kept kept)⟩
  rw [second.bits, first.bits]
  tauto

theorem Frees.congr {S S' : Nat → Prop} (h : Frees S p q) (same : ∀ k, S' k ↔ S k) : Frees S' p q := by
  refine ⟨fun k => ?_, h.kept⟩
  rw [h.bits, same]

theorem Frees.page (p : PageMap) (addr : Nat) :
    Frees (fun k => Freeable addr ∧ k = addr / PAGE_SIZE) p (pmmFreePage p addr) := by
  refine ⟨fun k => ?_, fun kept => kept.freePage addr⟩
  rw [bitmapTest_pmmFreePage, Bool.and_eq_true, Bool.not_eq_true', decide_eq_false_iff_not]
  tauto

theorem Frees.pages (pages : List Nat) (p : PageMap) :
    Frees (fun k => ∃ a ∈ pages, Freeable a ∧ k = a / PAGE_SIZE) p (pages.foldl pmmFreePage p) := by
  induction pages generalizing p with
  | nil => exact (Frees.none p).congr fun k => by simp
  | cons a pages ih => exact ((Frees.page p a).trans (ih _)).congr fun k => by simp

theorem Kept.usedPages_freePage (kept : Kept p) {a : Nat} (ok : Freeable a)
    (taken : bitmapTest p (a / PAGE_SIZE) = true) :
    (pmmFreePage p a).usedPages.toNat + 1 = p.usedPages.toNat := by
  obtain ⟨high, inside, aligned⟩ := id ok
  have dropped : pmmFreePage p a = dropPage p (a / PAGE_SIZE) := by
    rw [pmmFreePage, if_neg (by omega), if_neg (by omega), if_pos taken]
  have before := kept.counted
  have after := kept.counted.dropPage ok.page.2 taken
  have more := Bitmap.clearCount_clear (by decide) ok.page.2 taken
  rw [dropped]
  unfold Counted at before after
  simp only [dropPage] at after ⊢
  omega

theorem Kept.usedPages_freePages (kept : Kept p) {pages : List Nat} (nodup : pages.Nodup)
    (taken : ∀ a ∈ pages, Freeable a ∧ bitmapTest p (a / PAGE_SIZE) = true) :
    (pages.foldl pmmFreePage p).usedPages.toNat + pages.length = p.usedPages.toNat := by
  induction pages generalizing p with
  | nil => rfl
  | cons a pages ih =>
    obtain ⟨ok, here⟩ := taken a List.mem_cons_self
    obtain ⟨away, nodup'⟩ := List.nodup_cons.mp nodup
    have rest := ih (kept.freePage a) nodup' fun b call => by
      obtain ⟨ok', there⟩ := taken b (List.mem_cons_of_mem a call)
      have other : ¬(Freeable a ∧ b / PAGE_SIZE = a / PAGE_SIZE) := fun ⟨_, same⟩ =>
        away ((ok'.page_inj ok).mp same ▸ call)
      refine ⟨ok', ?_⟩
      rw [bitmapTest_pmmFreePage, there]
      simp [other]
    have one := kept.usedPages_freePage ok here
    rw [List.foldl_cons, List.length_cons]
    omega

theorem bitmapTest_freePagesFrom {first n i : Nat} (inside : first + i + n ≤ TOTAL_PAGES) (k : Nat) :
    bitmapTest (freePagesFrom p (first * PAGE_SIZE) n i) k =
      (!decide (KERNEL_END / PAGE_SIZE ≤ k ∧ first + i ≤ k ∧ k < first + i + n) && bitmapTest p k) := by
  induction n generalizing p i with
  | zero =>
    have none : ¬(KERNEL_END / PAGE_SIZE ≤ k ∧ first + i ≤ k ∧ k < first + i + 0) := by omega
    simp only [freePagesFrom, none, decide_false, Bool.not_false, Bool.true_and]
  | succ n ih =>
    have page : (first * PAGE_SIZE + i * PAGE_SIZE) % 2 ^ 32 = (first + i) * PAGE_SIZE := by
      simp only [TOTAL_PAGES, MEMORY_SIZE, PAGE_SIZE] at *
      omega
    have this : Freeable ((first + i) * PAGE_SIZE) ∧ k = (first + i) * PAGE_SIZE / PAGE_SIZE ↔
        KERNEL_END / PAGE_SIZE ≤ k ∧ k = first + i := by
      simp only [Freeable, TOTAL_PAGES, KERNEL_END, MEMORY_SIZE, PAGE_SIZE] at *
      omega
    rw [freePagesFrom, ih (by omega), page, bitmapTest_pmmFreePage, ← Bool.and_assoc, ← Bool.not_or,
      ← Bool.decide_or]
    congr 3
    rw [this, eq_iff_iff]
    omega

theorem pmmInit_kept (p : PageMap) : Kept (pmmInit p) := by
  refine ⟨?_, fun k low => ?_⟩
  · have blank : Counted ⟨fun k => if k < TOTAL_PAGES / 32 then 0 else p.pageBitmap k, 0⟩ := by
      have clear : ∀ k ∈ Finset.range TOTAL_PAGES,
          Bitmap.test (w := 32) (fun k => if k < TOTAL_PAGES / 32 then 0 else p.pageBitmap k) k = false :=
        fun k hk => bitmapTest_blank p (Finset.mem_range.mp hk)
      rw [Counted, Bitmap.clearCount, Finset.filter_true_of_mem clear, Finset.card_range]
      exact Nat.zero_add _
    unfold pmmInit
    refine blank.takePages (by decide) fun k _ hi => bitmapTest_blank p (hi.trans (by decide))
  · rw [pmmInit_test p (low.trans (by decide))]
    simpa using low

/-- An allocation of `n` pages with the result `r`: the pages were free and are taken, or
there was no room and nothing happens. -/
structure Served (p : PageMap) (n : Nat) (r : PageMap × Nat) : Prop where
  aligned : r.2 % PAGE_SIZE = 0
  inside : r.2 ≠ 0 → KERNEL_END ≤ r.2 ∧ r.2 + n * PAGE_SIZE ≤ MEMORY_SIZE
  free : r.2 ≠ 0 → FreeRun p n (r.2 / PAGE_SIZE)
  taken : r.2 ≠ 0 → ∀ k, bitmapTest r.1 k =
    (decide (r.2 / PAGE_SIZE ≤ k ∧ k < r.2 / PAGE_SIZE + n) || bitmapTest p k)
  refused : r.2 = 0 → 1 ≤ n → r.1 = p ∧ ∀ k, k + n ≤ TOTAL_PAGES → ¬FreeRun p n k

theorem Kept.high (kept : Kept p) {n i : Nat} (pos : 1 ≤ n) (run : FreeRun p n i) :
    KERNEL_END / PAGE_SIZE ≤ i := by
  by_contra low
  have free := run i (Nat.le_refl _) (by omega)
  rw [kept.kernel i (by omega)] at free
  exact Bool.noConfusion free

theorem Kept.served (kept : Kept p) {n i : Nat} (pos : 1 ≤ n) (inside : i + n ≤ TOTAL_PAGES)
    (run : FreeRun p n i) : Served p n (takePages p i n 0, i * PAGE_SIZE % 2 ^ 32) := by
  have high := kept.high pos run
  have pages : TOTAL_PAGES = 4096 := by decide
  have kernel : KERNEL_END / PAGE_SIZE = 512 := by decide
  have exact' : i * PAGE_SIZE % 2 ^ 32 = i * PAGE_SIZE := by
    simp only [PAGE_SIZE]
    omega
  have page : i * PAGE_SIZE / PAGE_SIZE = i := Nat.mul_div_cancel _ (by decide)
  have some : i * PAGE_SIZE ≠ 0 := Nat.mul_ne_zero (by omega) (by decide)
  refine ⟨?_, ?_, ?_, ?_, ?_⟩ <;> rw [exact']
  · exact Nat.mul_mod_left _ _
  · intro _
    simp only [KERNEL_END, MEMORY_SIZE, PAGE_SIZE]
    omega
  · rw [page]
    exact fun _ => run
  · intro _ k
    rw [page]
    exact bitmapTest_takePages (by omega) k
  · exact fun zero => absurd zero some

theorem Kept.takePages (kept : Kept p) {n i : Nat} (inside : i + n ≤ TOTAL_PAGES) (run : FreeRun p n i) :
    Kept (takePages p i n 0) := by
  have pages : TOTAL_PAGES = 4096 := by decide
  refine ⟨kept.counted.takePages (by omega) run, fun k low => ?_⟩
  rw [bitmapTest_takePages (by omega), kept.kernel k low, Bool.or_true]

theorem Kept.allocPage (kept : Kept p) : Served p 1 (pmmAllocPage p) ∧ Kept (pmmAllocPage p).1 := by
  have pages : TOTAL_PAGES = 4096 := by decide
  cases search : Bitmap.findClear p.pageBitmap TOTAL_PAGES with
  | none =>
    have result : pmmAllocPage p = (p, 0) := by simp [pmmAllocPage, findFreePage, search]
    rw [result]
    refine ⟨⟨rfl, fun some => absurd rfl some, fun some => absurd rfl some, fun some => absurd rfl some,
      fun _ _ => ⟨rfl, fun k inside run => ?_⟩⟩, kept⟩
    have free := run k (Nat.le_refl _) (by omega)
    rw [bitmapTest, Bitmap.findClear_none.mp search k (by omega)] at free
    exact Bool.noConfusion free
  | some i =>
    obtain ⟨inside, clear, -⟩ := Bitmap.findClear_some search
    have here : i ≠ NO_PAGE := by
      unfold NO_PAGE
      omega
    have wrap : (i + 0) % 2 ^ 32 = i := Nat.mod_eq_of_lt (by omega)
    have result : pmmAllocPage p = (Pmm.takePages p i 1 0, i * PAGE_SIZE % 2 ^ 32) := by
      simp only [pmmAllocPage, findFreePage, search, Option.getD_some, if_neg here, Pmm.takePages, wrap]
    have run : FreeRun p 1 i := by
      intro k lo hi
      rw [show k = i by omega]
      exact clear
    rw [result]
    exact ⟨kept.served (Nat.le_refl _) (by omega) run, kept.takePages (by omega) run⟩

theorem Kept.allocPages (kept : Kept p) {n : Nat} (le : n ≤ TOTAL_PAGES) :
    ∃ r, pmmAllocPages p n = some r ∧ Served p n r ∧ Kept r.1 := by
  by_cases zero : n = 0
  · refine ⟨(p, 0), if_pos zero, ⟨rfl, fun some => absurd rfl some, fun some => absurd rfl some,
      fun some => absurd rfl some, fun _ pos => ?_⟩, kept⟩
    omega
  · obtain ⟨i, search, found⟩ := findFreePages_least (p := p) (Nat.pos_of_ne_zero zero) le
    rw [pmmAllocPages, if_neg zero, search, Option.map_some]
    rcases found with ⟨inside, run, -⟩ | ⟨rfl, none⟩
    · have here : i ≠ NO_PAGE := by
        have pages : TOTAL_PAGES = 4096 := by decide
        unfold NO_PAGE
        omega
      rw [if_neg here]
      exact ⟨_, rfl, kept.served (Nat.pos_of_ne_zero zero) (by omega) run, kept.takePages (by omega) run⟩
    · rw [if_pos rfl]
      exact ⟨_, rfl, ⟨rfl, fun some => absurd rfl some, fun some => absurd rfl some,
        fun some => absurd rfl some, fun _ _ => ⟨rfl, fun k inside => none k (by omega)⟩⟩, kept⟩

/-- Freeing what an allocation returned brings the state back, unless the allocation failed
and the pages from 0 on that the caller then frees are used behind the kernel. -/
theorem Kept.free_served_iff (kept : Kept p) {n : Nat} (le : n ≤ TOTAL_PAGES) {r : PageMap × Nat}
    (served : Served p n r) (kept' : Kept r.1) (none : n = 0 → r = (p, 0)) :
    pmmFreePages r.1 r.2 n = p ↔
      r.2 ≠ 0 ∨ ∀ k, KERNEL_END / PAGE_SIZE ≤ k → k < n → bitmapTest p k = false := by
  have freed := kept'.freePagesFrom r.2 n 0
  by_cases failed : r.2 = 0
  · have same : r.1 = p := by
      by_cases zero : n = 0
      · rw [none zero]
      · exact (served.refused failed (Nat.pos_of_ne_zero zero)).1
    have after : ∀ k, bitmapTest (pmmFreePages r.1 r.2 n) k =
        (!decide (KERNEL_END / PAGE_SIZE ≤ k ∧ 0 + 0 ≤ k ∧ k < 0 + 0 + n) && bitmapTest p k) := by
      intro k
      rw [same, failed, show 0 = 0 * PAGE_SIZE by rfl]
      exact bitmapTest_freePagesFrom (by omega) k
    constructor
    · intro back
      right
      intro k high low
      have entry := after k
      rw [back] at entry
      simpa [high, low] using entry
    · rintro (some | clear)
      · exact absurd failed some
      · refine freed.counted.ext kept.counted fun k => ?_
        rw [pmmFreePages] at after
        rw [after k]
        by_cases mine : KERNEL_END / PAGE_SIZE ≤ k ∧ k < n
        · rw [clear k mine.1 mine.2, Bool.and_false]
        · have spared : ¬(KERNEL_END / PAGE_SIZE ≤ k ∧ 0 + 0 ≤ k ∧ k < 0 + 0 + n) := by omega
          rw [decide_eq_false spared, Bool.not_false, Bool.true_and]
  · refine iff_of_true (freed.counted.ext kept.counted fun k => ?_) (Or.inl failed)
    obtain ⟨high, inside⟩ := served.inside failed
    have aligned := served.aligned
    have page : r.2 = r.2 / PAGE_SIZE * PAGE_SIZE := by
      simp only [PAGE_SIZE] at *
      omega
    have last : r.2 / PAGE_SIZE + 0 + n ≤ TOTAL_PAGES := by
      simp only [TOTAL_PAGES, MEMORY_SIZE, PAGE_SIZE] at *
      omega
    have low : KERNEL_END / PAGE_SIZE ≤ r.2 / PAGE_SIZE := by
      simp only [KERNEL_END, PAGE_SIZE] at *
      omega
    have after := bitmapTest_freePagesFrom (p := r.1) last k
    rw [← page, served.taken failed] at after
    rw [after]
    by_cases mine : r.2 / PAGE_SIZE ≤ k ∧ k < r.2 / PAGE_SIZE + n
    · rw [served.free failed k mine.1 mine.2]
      simp [mine]
      omega
    · simp [mine]

end Pages

/-- What holds of the page allocator in every state. -/
structure PageLaw (p : PageMap) : Prop where
  counted : p.usedPages.toNat = Bitmap.setCount p.pageBitmap TOTAL_PAGES
  kernel : ∀ k < KERNEL_END / PAGE_SIZE, bitmapTest p k = true
  allocPage : Served p 1 (pmmAllocPage p)
  allocPages : ∀ n ≤ TOTAL_PAGES, ∃ r, pmmAllocPages p n = some r ∧ Served p n r ∧
    (pmmFreePages r.1 r.2 n = p ↔
      r.2 ≠ 0 ∨ ∀ k, KERNEL_END / PAGE_SIZE ≤ k → k < n → bitmapTest p k = false)

theorem Kept.law {p : PageMap} (kept : Kept p) : PageLaw p := by
  refine ⟨kept.counted.setCount, kept.kernel, kept.allocPage.1, fun n le => ?_⟩
  obtain ⟨r, result, served, kept'⟩ := kept.allocPages le
  refine ⟨r, result, served, kept.free_served_iff le served kept' fun zero => ?_⟩
  simpa [pmmAllocPages, zero] using result.symm

theorem Kept.step {p : PageMap} (kept : Kept p) {op : PageOp} (ok : p.allowed op) : Kept (p.step op) := by
  cases op with
  | pmmAllocPage => exact kept.allocPage.2
  | pmmAllocPages count =>
    obtain ⟨r, result, -, kept'⟩ := kept.allocPages ok
    rw [PageMap.step, result]
    exact kept'
  | pmmFreePage addr => exact kept.freePage addr
  | pmmFreePages addr count => exact kept.freePagesFrom addr count 0

/-- The page allocator keeps its books in every run. -/
theorem page_runs_keep_law (p0 p : PageMap) (ops : List PageOp)
    (run : Exec PageMap.allowed PageMap.step (pmmInit p0) ops p) : PageLaw p :=
  Kept.law (run.invariant (fun _ _ kept ok => Kept.step kept ok) (pmmInit_kept p0))

/-- Three pages are taken and given back. -/
theorem page_runs_keep_law_three :
    PageLaw (pmmFreePages (PageMap.step (pmmInit ⟨fun _ => 0, 0⟩) (.pmmAllocPages 3)) KERNEL_END 3) :=
  page_runs_keep_law ⟨fun _ => 0, 0⟩ _ [.pmmAllocPages 3, .pmmFreePages KERNEL_END 3]
    (.cons (show 3 ≤ TOTAL_PAGES by decide) (.cons trivial (.nil _)))

/-- A request for all pages fails when one behind the kernel is used, and giving back what it
returned, 0, frees that page. -/
theorem Kept.failed_request {p : PageMap} (kept : Kept p) {k : Nat} (high : KERNEL_END / PAGE_SIZE ≤ k)
    (low : k < TOTAL_PAGES) (taken : bitmapTest p k = true) :
    ∃ r, pmmAllocPages p TOTAL_PAGES = some r ∧ pmmFreePages r.1 r.2 TOTAL_PAGES ≠ p := by
  obtain ⟨r, result, served, back⟩ := kept.law.allocPages TOTAL_PAGES (Nat.le_refl _)
  refine ⟨r, result, fun same => ?_⟩
  rcases back.mp same with some | clear
  · have tight := served.inside some
    simp only [TOTAL_PAGES, KERNEL_END, MEMORY_SIZE, PAGE_SIZE] at tight
    omega
  · rw [clear k high low] at taken
    exact Bool.noConfusion taken

theorem Kept.allocPage_ne_zero {p : PageMap} (kept : Kept p) {k : Nat} (low : k < TOTAL_PAGES)
    (free : bitmapTest p k = false) : (pmmAllocPage p).2 ≠ 0 := by
  intro full
  refine (kept.allocPage.1.refused full (Nat.le_refl _)).2 k low fun k' lo hi => ?_
  rw [show k' = k by omega]
  exact free

def freePages (p : PageMap) : Nat := Bitmap.clearCount p.pageBitmap TOTAL_PAGES

theorem freePages_pos {p : PageMap} : 0 < freePages p ↔ ∃ k < TOTAL_PAGES, bitmapTest p k = false := by
  rw [freePages, Bitmap.clearCount, Finset.card_pos]
  constructor
  · rintro ⟨k, free⟩
    obtain ⟨low, clear⟩ := Finset.mem_filter.mp free
    exact ⟨k, Finset.mem_range.mp low, clear⟩
  · rintro ⟨k, low, clear⟩
    exact ⟨k, Finset.mem_filter.mpr ⟨Finset.mem_range.mpr low, clear⟩⟩

theorem Kept.freePages_allocPage {p : PageMap} (kept : Kept p) :
    ((pmmAllocPage p).2 = 0 ↔ freePages p = 0) ∧ freePages (pmmAllocPage p).1 = freePages p - 1 := by
  cases search : Bitmap.findClear p.pageBitmap TOTAL_PAGES with
  | none =>
    have result : pmmAllocPage p = (p, 0) := by simp [pmmAllocPage, findFreePage, search]
    have full : freePages p = 0 := by
      by_contra some
      obtain ⟨k, low, clear⟩ := freePages_pos.mp (Nat.pos_of_ne_zero some)
      exact Bool.noConfusion (clear.symm.trans (Bitmap.findClear_none.mp search k low))
    rw [result]
    refine ⟨iff_of_true rfl full, ?_⟩
    change freePages p = freePages p - 1
    omega
  | some i =>
    obtain ⟨inside, clear, -⟩ := Bitmap.findClear_some search
    have there : (pmmAllocPage p).2 ≠ 0 := kept.allocPage_ne_zero inside clear
    have pos : 0 < freePages p := freePages_pos.mpr ⟨i, inside, clear⟩
    have here : i ≠ NO_PAGE := by
      have pages : TOTAL_PAGES = 4096 := by decide
      unfold NO_PAGE
      omega
    have fewer := Bitmap.clearCount_set (by decide) inside clear
    have result : (pmmAllocPage p).1.pageBitmap = Bitmap.set p.pageBitmap i := by
      simp only [pmmAllocPage, findFreePage, search, Option.getD_some, if_neg here, Pmm.takePage]
    refine ⟨iff_of_false there (by omega), ?_⟩
    rw [freePages, freePages, result]
    omega

theorem Kept.allocPage_room {p : PageMap} (kept : Kept p) {n : Nat} (room : n + 1 ≤ freePages p) :
    (pmmAllocPage p).2 ≠ 0 ∧ n ≤ freePages (pmmAllocPage p).1 := by
  obtain ⟨given, left⟩ := kept.freePages_allocPage
  rw [left, ne_eq, given]
  omega

theorem pmmInit_freePages (p : PageMap) : freePages (pmmInit p) = TOTAL_PAGES - KERNEL_END / PAGE_SIZE := by
  have free : (Finset.range TOTAL_PAGES).filter (Bitmap.test (pmmInit p).pageBitmap · = false) =
      Finset.Ico (KERNEL_END / PAGE_SIZE) TOTAL_PAGES := by
    ext k
    rw [Finset.mem_filter, Finset.mem_range, Finset.mem_Ico, and_comm]
    refine and_congr_left fun low => ?_
    change bitmapTest (pmmInit p) k = false ↔ _
    rw [pmmInit_test p low, decide_eq_false_iff_not, Nat.not_lt]
  rw [freePages, Bitmap.clearCount, free, Nat.card_Ico]

theorem Kept.first_page {p : PageMap} (kept : Kept p) (free : bitmapTest p 512 = false) :
    ∃ k, KERNEL_END / PAGE_SIZE ≤ k ∧ k < TOTAL_PAGES ∧ bitmapTest (p.step .pmmAllocPage) k = true := by
  have served := kept.allocPage.1
  have room : (pmmAllocPage p).2 ≠ 0 := kept.allocPage_ne_zero (by decide) free
  obtain ⟨high, inside⟩ := served.inside room
  refine ⟨(pmmAllocPage p).2 / PAGE_SIZE, ?_, ?_, ?_⟩
  · simp only [KERNEL_END, PAGE_SIZE] at *
    omega
  · simp only [TOTAL_PAGES, MEMORY_SIZE, PAGE_SIZE] at *
    omega
  · rw [PageMap.step, served.taken room]
    simp

theorem Kept.failed_run {p : PageMap} (kept : Kept p) (free : bitmapTest p 512 = false) :
    ∃ q, Exec PageMap.allowed PageMap.step p [.pmmAllocPage] q ∧
      ∃ r, pmmAllocPages q TOTAL_PAGES = some r ∧ pmmFreePages r.1 r.2 TOTAL_PAGES ≠ q := by
  obtain ⟨k, high, low, taken⟩ := kept.first_page free
  exact ⟨p.step .pmmAllocPage, .cons trivial (.nil _), kept.allocPage.2.failed_request high low taken⟩

/-- One page is taken, then all of them are asked for in vain. -/
theorem failed_request_frees_page :
    ∃ p, Exec PageMap.allowed PageMap.step (pmmInit ⟨fun _ => 0, 0⟩) [.pmmAllocPage] p ∧
      ∃ r, pmmAllocPages p TOTAL_PAGES = some r ∧ pmmFreePages r.1 r.2 TOTAL_PAGES ≠ p :=
  (pmmInit_kept ⟨fun _ => 0, 0⟩).failed_run ((pmmInit_test _ (by decide)).trans (by decide))

end Wittche.Pmm
