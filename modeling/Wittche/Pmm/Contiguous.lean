import Wittche.Pmm.Search

/-! Contiguous allocation: the accesses to `page_bitmap`, and the search against the naive one.
The bound `TOTAL_PAGES - count` is unsigned. Up to `TOTAL_PAGES` it is the last window of the
memory; beyond, it wraps, and every search runs off the end of the bitmap. -/

namespace Wittche.Pmm
open Bytes

/-- The inner loop of `find_free_pages` from its `j`-th turn on, with the entries of
`page_bitmap` that it reads. -/
def findUsedLogged (p : PageMap) (i : Nat) : (n j : Nat) → Option Nat × List Nat
  | 0, _ => (none, [])
  | n + 1, j =>
    let page := (i + j) % 2 ^ 32
    if bitmapTest p page then (some j, [page / 32])
    else
      let rest := findUsedLogged p i n (j + 1)
      (rest.1, page / 32 :: rest.2)

def findFreePagesLogged (p : PageMap) (count : Nat) : (fuel i : Nat) → Option Nat × List Nat
  | 0, _ => (none, [])
  | fuel + 1, i =>
    if i ≤ (TOTAL_PAGES + 2 ^ 32 - count) % 2 ^ 32 then
      let inner := findUsedLogged p i count 0
      match inner.1 with
      | none => (some i, inner.2)
      | some j =>
        let rest := findFreePagesLogged p count fuel ((i + j + 1) % 2 ^ 32)
        (rest.1, inner.2 ++ rest.2)
    else (some NO_PAGE, [])

def takePagesLogged (p : PageMap) (first : Nat) : (n i : Nat) → PageMap × List Nat
  | 0, _ => (p, [])
  | n + 1, i =>
    let page := (first + i) % 2 ^ 32
    let rest := takePagesLogged (takePage p page) first n (i + 1)
    (rest.1, page / 32 :: rest.2)

/-- `pmm_alloc_pages` with the entries of `page_bitmap` that it reads or writes. -/
def pmmAllocPagesLogged (p : PageMap) (count : Nat) : Option (PageMap × Nat) × List Nat :=
  if count = 0 then (some (p, 0), [])
  else
    let search := findFreePagesLogged p count (2 ^ 32) 0
    match search.1 with
    | none => (none, search.2)
    | some page =>
      if page = NO_PAGE then (some (p, 0), search.2)
      else
        let taken := takePagesLogged p page count 0
        (some (taken.1, page * PAGE_SIZE % 2 ^ 32), search.2 ++ taken.2)

section Logged

variable {p : PageMap} {count : Nat}

theorem findUsedLogged_fst (p : PageMap) (i n j : Nat) :
    (findUsedLogged p i n j).1 = Scan.firstFrom (fun j => bitmapTest p ((i + j) % 2 ^ 32)) n j := by
  induction n generalizing j with
  | zero => rfl
  | succ n ih =>
    rw [findUsedLogged, Scan.firstFrom]
    split
    · rfl
    · exact ih (j + 1)

theorem findFreePagesLogged_fst (p : PageMap) (count fuel i : Nat) :
    (findFreePagesLogged p count fuel i).1 = findFreePagesFrom p count fuel i := by
  induction fuel generalizing i with
  | zero => rfl
  | succ fuel ih =>
    have inner : (findUsedLogged p i count 0).1 = findUsed p i count := findUsedLogged_fst p i count 0
    rw [findFreePagesLogged, findFreePagesFrom]
    split
    · simp only [inner]
      cases findUsed p i count with
      | none => rfl
      | some j => exact ih _
    · rfl

theorem takePagesLogged_fst (p : PageMap) (first n i : Nat) :
    (takePagesLogged p first n i).1 = takePages p first n i := by
  induction n generalizing p i with
  | zero => rfl
  | succ n ih => exact ih _ (i + 1)

theorem pmmAllocPagesLogged_fst (p : PageMap) (count : Nat) :
    (pmmAllocPagesLogged p count).1 = pmmAllocPages p count := by
  rw [pmmAllocPagesLogged, pmmAllocPages, findFreePages]
  split
  · rfl
  · simp only [← findFreePagesLogged_fst]
    cases (findFreePagesLogged p count (2 ^ 32) 0).1 with
    | none => rfl
    | some page =>
      simp only [Option.map_some]
      split
      · rfl
      · rw [takePagesLogged_fst]

theorem findUsedLogged_within {i n j : Nat} (inside : i + j + n ≤ TOTAL_PAGES) :
    ∀ k ∈ (findUsedLogged p i n j).2, k < TOTAL_PAGES / 32 := by
  have pages : TOTAL_PAGES = 4096 := by decide
  induction n generalizing j with
  | zero => simp [findUsedLogged]
  | succ n ih =>
    have page : (i + j) % 2 ^ 32 / 32 < TOTAL_PAGES / 32 := by omega
    rw [findUsedLogged]
    split
    · simpa using page
    · intro k hk
      rcases List.mem_cons.mp hk with rfl | later
      · exact page
      · exact ih (by omega) k later

theorem findFreePagesLogged_within {fuel i : Nat} (le : count ≤ TOTAL_PAGES) :
    ∀ k ∈ (findFreePagesLogged p count fuel i).2, k < TOTAL_PAGES / 32 := by
  have pages : TOTAL_PAGES = 4096 := by decide
  induction fuel generalizing i with
  | zero => simp [findFreePagesLogged]
  | succ fuel ih =>
    rw [findFreePagesLogged]
    split
    next inside =>
      have inner : ∀ k ∈ (findUsedLogged p i count 0).2, k < TOTAL_PAGES / 32 :=
        findUsedLogged_within (by omega)
      dsimp only
      cases (findUsedLogged p i count 0).1 with
      | none => exact inner
      | some j =>
        intro k hk
        rcases List.mem_append.mp hk with now | later
        · exact inner k now
        · exact ih k later
    next => simp

theorem takePagesLogged_within {first n i : Nat} (inside : first + i + n ≤ TOTAL_PAGES) :
    ∀ k ∈ (takePagesLogged p first n i).2, k < TOTAL_PAGES / 32 := by
  have pages : TOTAL_PAGES = 4096 := by decide
  induction n generalizing p i with
  | zero => simp [takePagesLogged]
  | succ n ih =>
    intro k hk
    rcases List.mem_cons.mp hk with rfl | later
    · omega
    · exact ih (by omega) k later

theorem findUsedLogged_behind {i n j : Nat} (start : i + j ≤ TOTAL_PAGES) (reach : TOTAL_PAGES < i + j + n) :
    TOTAL_PAGES / 32 ∈ (findUsedLogged p i n j).2 ∨
      ∃ k, (findUsedLogged p i n j).1 = some k ∧ i + k < TOTAL_PAGES := by
  have pages : TOTAL_PAGES = 4096 := by decide
  induction n generalizing j with
  | zero => omega
  | succ n ih =>
    rw [findUsedLogged]
    by_cases last : i + j = TOTAL_PAGES
    · have here : (i + j) % 2 ^ 32 / 32 = TOTAL_PAGES / 32 := by omega
      rw [here]
      split <;> exact Or.inl List.mem_cons_self
    · split
      · exact Or.inr ⟨j, rfl, by omega⟩
      · rcases ih (show i + (j + 1) ≤ TOTAL_PAGES by omega) (by omega) with behind | ⟨k, stop, before⟩
        · exact Or.inl (List.mem_cons_of_mem _ behind)
        · exact Or.inr ⟨k, stop, before⟩

theorem findFreePagesLogged_behind {fuel i : Nat} (more : TOTAL_PAGES < count) (word : count < 2 ^ 32)
    (start : i ≤ TOTAL_PAGES) (enough : TOTAL_PAGES - i < fuel) :
    TOTAL_PAGES / 32 ∈ (findFreePagesLogged p count fuel i).2 := by
  have pages : TOTAL_PAGES = 4096 := by decide
  induction fuel generalizing i with
  | zero => omega
  | succ fuel ih =>
    have wrapped : i ≤ (TOTAL_PAGES + 2 ^ 32 - count) % 2 ^ 32 := by omega
    rw [findFreePagesLogged, if_pos wrapped]
    rcases findUsedLogged_behind (p := p) (n := count) (show i + 0 ≤ TOTAL_PAGES from start) (by omega) with
      behind | ⟨k, stop, before⟩
    · dsimp only
      cases (findUsedLogged p i count 0).1 with
      | none => exact behind
      | some j => exact List.mem_append_left _ behind
    · simp only [stop]
      have next : (i + k + 1) % 2 ^ 32 = i + k + 1 := Nat.mod_eq_of_lt (by omega)
      rw [next]
      exact List.mem_append_right _ (ih (by omega) (by omega))

end Logged

/-- What contiguous allocation is to be for a count: it ends, it stays inside the bitmap, and
it changes nothing where the memory has no run of `count` free pages. -/
structure ContiguousSafe (p : PageMap) (count : Nat) : Prop where
  ends : ∃ r, pmmAllocPages p count = some r
  within : ∀ k ∈ (pmmAllocPagesLogged p count).2, k < TOTAL_PAGES / 32
  refuses : (count = 0 ∨ ∀ i, i + count ≤ TOTAL_PAGES → ¬FreeRun p count i) →
    pmmAllocPages p count = some (p, 0)

theorem pmmAllocPages_zero (p : PageMap) : pmmAllocPages p 0 = some (p, 0) := rfl

/-- The outcomes of `pmm_alloc_pages` for a count the memory can hold. -/
theorem pmmAllocPages_cases {p : PageMap} {count : Nat} (pos : 1 ≤ count) (le : count ≤ TOTAL_PAGES) :
    (∃ r, findFreePages p count = some r ∧ r + count ≤ TOTAL_PAGES ∧ FreeRun p count r ∧
      pmmAllocPages p count = some (takePages p r count 0, r * PAGE_SIZE % 2 ^ 32)) ∨
    (findFreePages p count = some NO_PAGE ∧ pmmAllocPages p count = some (p, 0)) := by
  have pages : TOTAL_PAGES = 4096 := by decide
  have nowhere : NO_PAGE = 0xFFFFFFFF := rfl
  obtain ⟨r, found, ⟨inside, run, -⟩ | ⟨rfl, -⟩⟩ := findFreePages_least (p := p) pos le
  · left
    refine ⟨r, found, by omega, run, ?_⟩
    have page : r ≠ NO_PAGE := by omega
    rw [pmmAllocPages, if_neg (by omega), found, Option.map_some, if_neg page]
  · right
    refine ⟨found, ?_⟩
    rw [pmmAllocPages, if_neg (by omega), found, Option.map_some, if_pos rfl]

theorem pmmAllocPagesLogged_within {p : PageMap} {count : Nat} (le : count ≤ TOTAL_PAGES) :
    ∀ k ∈ (pmmAllocPagesLogged p count).2, k < TOTAL_PAGES / 32 := by
  rw [pmmAllocPagesLogged]
  split
  next => simp
  next pos =>
    have search : ∀ k ∈ (findFreePagesLogged p count (2 ^ 32) 0).2, k < TOTAL_PAGES / 32 :=
      findFreePagesLogged_within le
    have value : (findFreePagesLogged p count (2 ^ 32) 0).1 = findFreePages p count := by
      rw [findFreePagesLogged_fst, findFreePages, if_neg pos]
    simp only [value]
    rcases pmmAllocPages_cases (p := p) (Nat.pos_of_ne_zero pos) le with ⟨r, found, inside, -, -⟩ | ⟨found, -⟩
    · simp only [found]
      split
      · exact search
      · intro k hk
        rcases List.mem_append.mp hk with looked | taken
        · exact search k looked
        · exact takePagesLogged_within (by omega) k taken
    · simpa only [found, if_true] using search

theorem ContiguousSafe.of_le {p : PageMap} {count : Nat} (le : count ≤ TOTAL_PAGES) : ContiguousSafe p count := by
  rcases Nat.eq_zero_or_pos count with rfl | pos
  · exact ⟨⟨_, pmmAllocPages_zero p⟩, pmmAllocPagesLogged_within le, fun _ => pmmAllocPages_zero p⟩
  · rcases pmmAllocPages_cases (p := p) pos le with ⟨r, -, inside, run, result⟩ | ⟨-, result⟩
    · refine ⟨⟨_, result⟩, pmmAllocPagesLogged_within le, ?_⟩
      rintro (zero | none)
      · omega
      · exact absurd run (none r inside)
    · exact ⟨⟨_, result⟩, pmmAllocPagesLogged_within le, fun _ => result⟩

theorem ContiguousSafe.not_of_lt {p : PageMap} {count : Nat} (more : TOTAL_PAGES < count) (word : count < 2 ^ 32) :
    ¬ContiguousSafe p count := by
  intro safe
  have behind : TOTAL_PAGES / 32 ∈ (findFreePagesLogged p count (2 ^ 32) 0).2 :=
    findFreePagesLogged_behind more word (Nat.zero_le _) (by decide)
  have access : TOTAL_PAGES / 32 ∈ (pmmAllocPagesLogged p count).2 := by
    rw [pmmAllocPagesLogged, if_neg (by omega)]
    dsimp only
    cases (findFreePagesLogged p count (2 ^ 32) 0).1 with
    | none => exact behind
    | some page =>
      simp only
      split
      · exact behind
      · exact List.mem_append_left _ behind
  exact Nat.lt_irrefl _ (safe.within _ access)

theorem pmmAllocPages_safe_iff (p : PageMap) (count : Word) :
    ContiguousSafe p count.toNat ↔ count.toNat ≤ TOTAL_PAGES := by
  refine ⟨fun safe => ?_, ContiguousSafe.of_le⟩
  by_contra more
  exact ContiguousSafe.not_of_lt (Nat.lt_of_not_le more) count.isLt safe

/-- One page more than there are, right after `pmm_init`. -/
theorem pmmAllocPages_runs_off : ¬ContiguousSafe (pmmInit ⟨fun _ => 0, 0⟩) (4097 : Word).toNat :=
  ContiguousSafe.not_of_lt (by decide) (by decide)

/-- Every start is tried in turn, and all pages of its window are looked at. -/
def naiveSearch (p : PageMap) (count : Nat) : Nat :=
  let start := fun i => (List.range count).all fun j => !bitmapTest p (i + j)
  (Scan.firstFrom start (TOTAL_PAGES - count + 1) 0).getD NO_PAGE

theorem window_all (p : PageMap) (count i : Nat) :
    ((List.range count).all fun j => !bitmapTest p (i + j)) = true ↔ FreeRun p count i := by
  rw [List.all_eq_true]
  constructor
  · intro free k lo hi
    have page := free (k - i) (List.mem_range.mpr (by omega))
    rwa [show i + (k - i) = k by omega, Bool.not_eq_true'] at page
  · intro run j hj
    have lt : j < count := List.mem_range.mp hj
    rw [run (i + j) (by omega) (by omega)]
    rfl

theorem naiveSearch_least {p : PageMap} {count r : Nat} (le : r ≤ TOTAL_PAGES - count) (run : FreeRun p count r)
    (least : ∀ k < r, ¬FreeRun p count k) : naiveSearch p count = r := by
  simp only [naiveSearch]
  cases found : Scan.firstFrom (fun i => (List.range count).all fun j => !bitmapTest p (i + j))
      (TOTAL_PAGES - count + 1) 0 with
  | none =>
    have miss := Scan.firstFrom_none.mp found r (Nat.zero_le _) (by omega)
    rw [(window_all p count r).mpr run] at miss
    exact Bool.noConfusion miss
  | some k =>
    obtain ⟨-, hi, hit, before⟩ := Scan.firstFrom_some found
    have other := (window_all p count k).mp hit
    rcases Nat.lt_trichotomy k r with lt | eq | gt
    · exact absurd other (least k lt)
    · exact eq
    · have miss := before r (Nat.zero_le _) gt
      rw [(window_all p count r).mpr run] at miss
      exact Bool.noConfusion miss

theorem naiveSearch_none {p : PageMap} {count : Nat} (none : ∀ k ≤ TOTAL_PAGES - count, ¬FreeRun p count k) :
    naiveSearch p count = NO_PAGE := by
  simp only [naiveSearch]
  rw [Scan.firstFrom_none.mpr]
  · rfl
  · intro k lo hi
    rw [← Bool.not_eq_true, window_all]
    exact none k (by omega)

/-- The search that skips ahead returns what the naive one returns: the first window of free
pages, and `NO_PAGE` exactly when the memory has none. -/
theorem findFreePages_eq_naive (p : PageMap) (count : Nat) (pos : 1 ≤ count) (le : count ≤ TOTAL_PAGES) :
    findFreePages p count = some (naiveSearch p count) ∧
    (naiveSearch p count ≠ NO_PAGE → naiveSearch p count ≤ TOTAL_PAGES - count ∧
      FreeRun p count (naiveSearch p count) ∧ ∀ k < naiveSearch p count, ¬FreeRun p count k) ∧
    (naiveSearch p count = NO_PAGE ↔ ¬∃ i ≤ TOTAL_PAGES - count, FreeRun p count i) := by
  have pages : TOTAL_PAGES = 4096 := by decide
  have nowhere : NO_PAGE = 0xFFFFFFFF := rfl
  obtain ⟨r, found, ⟨inside, run, least⟩ | ⟨rfl, none⟩⟩ := findFreePages_least (p := p) pos le
  · rw [naiveSearch_least inside run least]
    refine ⟨found, fun _ => ⟨inside, run, least⟩, ?_⟩
    exact iff_of_false (by omega) (not_not_intro ⟨r, inside, run⟩)
  · rw [naiveSearch_none none]
    refine ⟨found, fun other => absurd rfl other, ?_⟩
    exact iff_of_true rfl fun ⟨i, le, run⟩ => none i le run

/-- All pages free but the second: two pages are found behind it. -/
theorem findFreePages_eq_naive_skip : findFreePages ⟨fun k => if k = 0 then 2 else 0, 1⟩ 2 = some 2 := by
  rw [(findFreePages_eq_naive _ 2 (by decide) (by decide)).1]
  decide +kernel

end Wittche.Pmm
