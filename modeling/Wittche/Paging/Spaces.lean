import Wittche.Paging.Entries
import Wittche.Pmm.Bookkeeping

/-! Address spaces: every directory leads to the kernel's tables in its first four entries,
and behind each other entry is a table of its own, in a page that is taken. The calls
that map, unmap and create keep this, and it says what they change. -/

namespace Wittche.Paging
open Pmm Tables

def Taken (p : PageMap) (t : Nat) : Prop := Freeable t ∧ bitmapTest p (t / PAGE_SIZE) = true

def userEntries : Set Nat := { i | 4 ≤ i }

structure Spaces (img : Image) (s : PageTables) (dirs : Set Nat) : Prop where
  kept : Kept s.pmm
  current : s.current ∈ dirs
  kernel : img.kernelDirectory ∈ dirs
  owned : Owned follow s.entries dirs userEntries
  held : ∀ d ∈ dirs, d = img.kernelDirectory ∨ Taken s.pmm d
  tables : ∀ d ∈ dirs, ∀ i ∈ userEntries, ∀ t, follow (s.entries d i) = some t → Taken s.pmm t
  shared : ∀ d ∈ dirs, ∀ i < 4, follow (s.entries d i) = some (img.earlyPageTables + i * PAGE_SIZE)
  identity : ∀ i < 4, ∀ j < 1024,
    follow (s.entries (img.earlyPageTables + i * PAGE_SIZE) j) = some ((i * 1024 + j) * PAGE_SIZE)

section Step

variable {img : Image} {s s' : PageTables} {dirs : Set Nat} {d i j t : Nat}

theorem Taken.ne_early (img : Image) (taken : Taken s.pmm t) (small : i < 4) : t ≠ img.earlyPageTables + i * PAGE_SIZE := by
  have high := taken.1.1
  have low := img.tablesBelow
  simp only [PAGE_SIZE, KERNEL_END] at *
  omega

theorem Spaces.table_cases (h : Spaces img s dirs) (dir : d ∈ dirs) (there : follow (s.entries d i) = some t) :
    (i < 4 ∧ t = img.earlyPageTables + i * PAGE_SIZE) ∨ Taken s.pmm t := by
  by_cases low : i < 4
  · rw [h.shared d dir i low] at there
    exact Or.inl ⟨low, (Option.some.inj there).symm⟩
  · exact Or.inr (h.tables d dir i (Nat.not_lt.mp low) t there)

theorem Spaces.fresh (h : Spaces img s dirs) (ok : Freeable t) (free : bitmapTest s.pmm (t / PAGE_SIZE) = false) :
    Fresh follow s.entries dirs t := by
  have clash : ¬Taken s.pmm t := by
    rintro ⟨-, bit⟩
    rw [free] at bit
    exact Bool.noConfusion bit
  have high := ok.1
  constructor
  · intro dir
    rcases h.held t dir with rfl | taken
    · have low := img.directoryBelow
      simp only [PAGE_SIZE, KERNEL_END] at *
      omega
    · exact clash taken
  · intro d dir i there
    rcases h.table_cases dir there with ⟨low, rfl⟩ | taken
    · have below := img.tablesBelow
      simp only [PAGE_SIZE, KERNEL_END] at *
      omega
    · exact clash taken

theorem allocPage_given (kept : Kept s.pmm) (there : s.allocPage.2 ≠ 0) : Freeable s.allocPage.2 ∧
    s.allocPage.1.refused = s.refused ∧ bitmapTest s.pmm (s.allocPage.2 / PAGE_SIZE) = false ∧
      ∀ k, bitmapTest s.allocPage.1.pmm k = (decide (k = s.allocPage.2 / PAGE_SIZE) || bitmapTest s.pmm k) := by
  have served : Served s.pmm 1 (s.allocPage.1.pmm, s.allocPage.2) := kept.allocPage.1
  obtain ⟨high, inside⟩ := served.inside there
  refine ⟨⟨high, ?_, served.aligned⟩, if_neg there, served.free there _ (Nat.le_refl _) (Nat.lt_succ_self _), fun k => ?_⟩
  · simp only [PAGE_SIZE, MEMORY_SIZE] at *
    omega
  · rw [served.taken there k]
    dsimp only
    congr 2
    rw [eq_iff_iff]
    omega

theorem allocPage_refused (kept : Kept s.pmm) (none : s.allocPage.2 = 0) : s.allocPage.1.pmm = s.pmm :=
  (kept.allocPage.1.refused none (Nat.le_refl 1)).1

theorem allocPage_free (kept : Kept s.pmm) : (s.allocPage.2 = 0 ↔ freePages s.pmm = 0) ∧
    freePages s.allocPage.1.pmm = freePages s.pmm - 1 := kept.freePages_allocPage

theorem Spaces.allocPage (h : Spaces img s dirs) (given : s.allocPage.1.refused = s.refused) :
    s.allocPage.2 ≠ 0 ∧ Freeable s.allocPage.2 ∧ Spaces img s.allocPage.1 dirs ∧
      Fresh follow s.entries dirs s.allocPage.2 ∧ ∀ k, bitmapTest s.allocPage.1.pmm k =
        (decide (k = s.allocPage.2 / PAGE_SIZE) || bitmapTest s.pmm k) := by
  have there : s.allocPage.2 ≠ 0 := by
    intro zero
    have count : s.allocPage.1.refused = s.refused + 1 := if_pos zero
    omega
  obtain ⟨ok, -, clear, bits⟩ := allocPage_given h.kept there
  have more : ∀ t, Taken s.pmm t → Taken s.allocPage.1.pmm t := by
    rintro t ⟨ok, bit⟩
    exact ⟨ok, by rw [bits, bit, Bool.or_true]⟩
  refine ⟨there, ok, ⟨h.kept.allocPage.2, h.current, h.kernel, h.owned, ?_, ?_, h.shared, h.identity⟩, ?_, bits⟩
  · exact fun d dir => (h.held d dir).imp_right (more d)
  · exact fun d dir i user t leads => more t (h.tables d dir i user t leads)
  · exact h.fresh ok clear

theorem Spaces.setEntry (h : Spaces img s dirs) (dir : d ∈ dirs) (user : i ∈ userEntries)
    (table : follow (s.entries d i) = some t) (e : Nat) : Spaces img (s.setEntry t j e) dirs := by
  have taken := h.tables d dir i user t table
  have same : ∀ d' ∈ dirs, (s.setEntry t j e).entries d' = s.entries d' := by
    intro d' dir'
    have away : d' ≠ t := fun clash => h.owned.apart d dir i t table (clash ▸ dir')
    exact put_other away j e
  refine ⟨h.kept, h.current, h.kernel, h.owned.put_table dir table, h.held, ?_, ?_, ?_⟩
  · intro d' dir'
    rw [same d' dir']
    exact h.tables d' dir'
  · intro d' dir'
    rw [same d' dir']
    exact h.shared d' dir'
  · intro k low
    have away := (taken.ne_early img low).symm
    rw [PageTables.entries_setEntry, put_other away]
    exact h.identity k low

/-- The state with a new table behind the entry `i` of the current directory. -/
def grafted (s : PageTables) (i : Nat) : PageTables :=
  (s.allocPage.1.clearPage s.allocPage.2).setEntry s.current i
    (makePde s.allocPage.2 (PAGE_PRESENT ||| PAGE_WRITE))

theorem follow_newTable (ok : Freeable t) : follow (makePde t (PAGE_PRESENT ||| PAGE_WRITE)) = some t := by
  have small : t < 2 ^ 32 := ok.2.1.trans (by decide)
  rw [follow_makePde (by decide), and_frame_aligned small ok.2.2]

theorem Spaces.graft (h : Spaces img s dirs) (user : i ∈ userEntries) (given : s.allocPage.1.refused = s.refused) :
    Spaces img (grafted s i) dirs := by
  obtain ⟨there, ok, more, fresh, bits⟩ := h.allocPage given
  have leads := follow_newTable ok
  have taken : Taken s.allocPage.1.pmm s.allocPage.2 := ⟨ok, by rw [bits]; simp⟩
  have entries : (grafted s i).entries = Tables.graft s.entries s.allocPage.2 (fun _ => 0) s.current i
      (makePde s.allocPage.2 (PAGE_PRESENT ||| PAGE_WRITE)) := rfl
  refine ⟨more.kept, more.current, more.kernel, more.owned.graft fresh leads, more.held, ?_, ?_, ?_⟩
  · intro d' dir' i' user' t' leads'
    rw [entries, graft_dir fresh dir'] at leads'
    split at leads'
    · obtain rfl := Option.some.inj (leads.symm.trans leads')
      exact taken
    · exact more.tables d' dir' i' user' t' leads'
  · intro d' dir' i' low
    have other : ¬(d' = s.current ∧ i' = i) := by
      rintro ⟨-, rfl⟩
      exact absurd user (Nat.not_le.mpr low)
    rw [entries, graft_dir fresh dir', if_neg other]
    exact more.shared d' dir' i' low
  · intro k low j small
    have page : img.earlyPageTables + k * PAGE_SIZE ∉ dirs := by
      intro dir'
      rcases h.held _ dir' with same | taken'
      · have apart := img.apart
        simp only [PAGE_SIZE] at *
        omega
      · exact taken'.ne_early img low rfl
    rw [entries, graft_page h.current page, if_neg (taken.ne_early img low).symm]
    exact more.identity k low j small

/-- The table of `paging_map_page` is there already, or it is new. -/
theorem pageTable_cases (given : (Paging.pageTable s i).1.refused = s.refused) :
    (∃ t, follow (s.entries s.current i) = some t ∧ Paging.pageTable s i = (s, some t)) ∨
      (follow (s.entries s.current i) = none ∧ s.allocPage.1.refused = s.refused ∧
        Paging.pageTable s i = (grafted s i, some s.allocPage.2)) := by
  by_cases absent : s.entries s.current i &&& PAGE_PRESENT = 0
  · right
    by_cases zero : s.allocPage.2 = 0
    · have count : s.allocPage.1.refused = s.refused + 1 := if_pos zero
      simp only [Paging.pageTable, if_pos absent, if_pos zero] at given
      omega
    · simp only [Paging.pageTable, if_pos absent, if_neg zero] at given
      refine ⟨if_pos absent, given, ?_⟩
      simp only [Paging.pageTable, if_pos absent, if_neg zero]
      rfl
  · exact Or.inl ⟨_, if_neg absent, by simp only [Paging.pageTable, if_neg absent]⟩

theorem Spaces.pageTable (h : Spaces img s dirs) (user : i ∈ userEntries)
    (given : (Paging.pageTable s i).1.refused = s.refused) :
    ∃ t, (Paging.pageTable s i).2 = some t ∧ Spaces img (Paging.pageTable s i).1 dirs ∧
      (Paging.pageTable s i).1.current = s.current ∧
      follow ((Paging.pageTable s i).1.entries s.current i) = some t ∧
      ∀ d ∈ dirs, ∀ i' j', walk follow (Paging.pageTable s i).1.entries d i' j' = walk follow s.entries d i' j' := by
  rcases pageTable_cases given with ⟨t, table, result⟩ | ⟨absent, given', result⟩
  · rw [result]
    exact ⟨t, rfl, h, rfl, table, fun _ _ _ _ => rfl⟩
  · obtain ⟨-, ok, -, fresh, -⟩ := h.allocPage given'
    have leads := follow_newTable ok
    rw [result]
    refine ⟨s.allocPage.2, rfl, h.graft user given', rfl, ?_, fun d dir i' j' => ?_⟩
    · rw [grafted, PageTables.entries_setEntry, put_apply, if_pos ⟨rfl, rfl⟩, leads]
    · exact h.owned.walk_graft fresh h.current absent leads (fun _ => follow_zero) dir i' j'

theorem getPageDirIndex_user {v : Nat} (user : 4096 ≤ v / PAGE_SIZE) : getPageDirIndex v ∈ userEntries := by
  change 4 ≤ getPageDirIndex v
  rw [getPageDirIndex_eq]
  omega

theorem Spaces.frameAt_setEntry (h : Spaces img s dirs) {v : Nat} (user : 4096 ≤ v / PAGE_SIZE) (dir : d ∈ dirs)
    (table : follow (s.entries d (getPageDirIndex v)) = some t) (e : Nat) {d' : Nat} (dir' : d' ∈ dirs) (n : Nat) :
    frameAt (s.setEntry t (getPageTableIndex v) e) d' n =
      if d' = d ∧ n = v / PAGE_SIZE then follow e else frameAt s d' n := by
  rw [frameAt, PageTables.entries_setEntry, h.owned.walk_put dir (getPageDirIndex_user user) table dir']
  simp only [index_iff, frameAt]

theorem pageTable_given {v p flags : Nat} (given : (pagingMapPage s v p flags).refused = s.refused) :
    (Paging.pageTable s (getPageDirIndex v)).1.refused = s.refused := by
  rw [← given, pagingMapPage]
  split
  next result => rw [result]
  next result =>
    rw [result]
    rfl

theorem Spaces.mapPage (h : Spaces img s dirs) {v p flags : Nat} (user : 4096 ≤ v / PAGE_SIZE)
    (present : flags &&& PAGE_PRESENT ≠ 0) (given : (pagingMapPage s v p flags).refused = s.refused) :
    Spaces img (pagingMapPage s v p flags) dirs ∧ (pagingMapPage s v p flags).current = s.current ∧
      ∀ d ∈ dirs, ∀ n, frameAt (pagingMapPage s v p flags) d n =
        if d = s.current ∧ n = v / PAGE_SIZE then some (p &&& 0xFFFFF000) else frameAt s d n := by
  have given' := pageTable_given given
  obtain ⟨t, found, spaces, current, table, same⟩ := h.pageTable (getPageDirIndex_user user) given'
  have result : pagingMapPage s v p flags =
      (Paging.pageTable s (getPageDirIndex v)).1.setEntry t (getPageTableIndex v) (makePte p flags) := by
    rw [pagingMapPage]
    split
    next none =>
      rw [none] at found
      exact absurd found.symm (Option.some_ne_none t)
    next some =>
      rw [some] at found ⊢
      rw [Option.some.inj found]
  rw [result]
  refine ⟨spaces.setEntry h.current (getPageDirIndex_user user) table _, current, fun d dir n => ?_⟩
  rw [spaces.frameAt_setEntry user h.current table _ dir, follow_makePte present, frameAt, same d dir, frameAt]

theorem Spaces.unmapPage (h : Spaces img s dirs) {v : Nat} (user : 4096 ≤ v / PAGE_SIZE) :
    Spaces img (pagingUnmapPage s v) dirs ∧ (pagingUnmapPage s v).current = s.current ∧
      ∀ d ∈ dirs, ∀ n, frameAt (pagingUnmapPage s v) d n =
        if d = s.current ∧ n = v / PAGE_SIZE then none else frameAt s d n := by
  by_cases absent : s.entries s.current (getPageDirIndex v) &&& PAGE_PRESENT = 0
  · rw [pagingUnmapPage, if_pos absent]
    refine ⟨h, rfl, fun d dir n => ?_⟩
    split
    next here =>
      obtain ⟨rfl, page⟩ := here
      rw [frameAt, walk, ((index_iff v n).mpr page).1, follow, if_pos absent, Option.bind_none]
    next => rfl
  · have table : follow (s.entries s.current (getPageDirIndex v)) =
        some (s.entries s.current (getPageDirIndex v) &&& 0xFFFFF000) := if_neg absent
    rw [pagingUnmapPage, if_neg absent]
    refine ⟨h.setEntry h.current (getPageDirIndex_user user) table 0, rfl, fun d dir n => ?_⟩
    rw [h.frameAt_setEntry user h.current table 0 dir, follow_zero]

theorem Spaces.switch (h : Spaces img s dirs) (dir : d ∈ dirs) : Spaces img (pagingSwitchDirectory s d) dirs :=
  ⟨h.kept, dir, h.kernel, h.owned, h.held, h.tables, h.shared, h.identity⟩

theorem refused_le_allocPage (s : PageTables) : s.refused ≤ s.allocPage.1.refused := by
  simp only [PageTables.allocPage]
  split <;> omega

theorem refused_le_mapPage (s : PageTables) (v p flags : Nat) :
    s.refused ≤ (pagingMapPage s v p flags).refused := by
  have more := refused_le_allocPage s
  simp only [pagingMapPage, Paging.pageTable]
  by_cases absent : s.entries s.current (getPageDirIndex v) &&& PAGE_PRESENT = 0
  · simp only [if_pos absent]
    by_cases zero : s.allocPage.2 = 0
    · simp only [if_pos zero]
      exact more
    · simp only [if_neg zero]
      exact more
  · simp only [if_neg absent]
    exact Nat.le_refl _

theorem refused_le_mapPages (s : PageTables) (v p n i : Nat) : s.refused ≤ (mapPagesFrom s v p n i).refused := by
  induction n generalizing s i with
  | zero => exact Nat.le_refl _
  | succ n ih => exact (refused_le_mapPage s _ _ _).trans (ih _ _)

theorem refused_le_mapUserCode (s : PageTables) (dir v p size : Nat) :
    s.refused ≤ (pagingMapUserCode s dir v p size).refused :=
  refused_le_mapPages { s with current := dir } v p _ 0

theorem Spaces.mapPages (h : Spaces img s dirs) {v p n i : Nat} (user : 4096 ≤ v / PAGE_SIZE)
    (alignedV : v % PAGE_SIZE = 0) (alignedP : p % PAGE_SIZE = 0) (smallV : v + (i + n) * PAGE_SIZE ≤ 2 ^ 32)
    (smallP : p + (i + n) * PAGE_SIZE ≤ 2 ^ 32) (given : (mapPagesFrom s v p n i).refused = s.refused) :
    Spaces img (mapPagesFrom s v p n i) dirs ∧ (mapPagesFrom s v p n i).current = s.current ∧
      ∀ d ∈ dirs, ∀ m, frameAt (mapPagesFrom s v p n i) d m =
        if d = s.current ∧ v / PAGE_SIZE + i ≤ m ∧ m < v / PAGE_SIZE + i + n then
          some (p + (m - v / PAGE_SIZE) * PAGE_SIZE)
        else frameAt s d m := by
  induction n generalizing s i with
  | zero =>
    refine ⟨h, rfl, fun d _ m => ?_⟩
    have none : ¬(d = s.current ∧ v / PAGE_SIZE + i ≤ m ∧ m < v / PAGE_SIZE + i + 0) := by omega
    rw [mapPagesFrom, if_neg none]
  | succ n ih =>
    have wrapV : (v + i * PAGE_SIZE) % 2 ^ 32 = v + i * PAGE_SIZE := by
      simp only [PAGE_SIZE] at *
      omega
    have wrapP : (p + i * PAGE_SIZE) % 2 ^ 32 = p + i * PAGE_SIZE := by
      simp only [PAGE_SIZE] at *
      omega
    have page : (v + i * PAGE_SIZE) / PAGE_SIZE = v / PAGE_SIZE + i := Nat.add_mul_div_right _ _ (by decide)
    have frame : (p + i * PAGE_SIZE) &&& 0xFFFFF000 = p + i * PAGE_SIZE :=
      and_frame_aligned (by simp only [PAGE_SIZE] at *; omega) (by rw [Nat.add_mul_mod_self_right, alignedP])
    rw [mapPagesFrom, wrapV, wrapP] at given ⊢
    have first := refused_le_mapPage s (v + i * PAGE_SIZE) (p + i * PAGE_SIZE) PAGE_USER_MODE
    have later := refused_le_mapPages (pagingMapPage s (v + i * PAGE_SIZE) (p + i * PAGE_SIZE) PAGE_USER_MODE) v p n
      (i + 1)
    have given' : (pagingMapPage s (v + i * PAGE_SIZE) (p + i * PAGE_SIZE) PAGE_USER_MODE).refused = s.refused := by
      omega
    obtain ⟨spaces, current, frames⟩ := h.mapPage (by omega) (by decide) given'
    have turns : i + 1 + n = i + (n + 1) := by omega
    obtain ⟨spaces', current', frames'⟩ := ih (i := i + 1) spaces (by rwa [turns]) (by rwa [turns]) (by omega)
    refine ⟨spaces', current'.trans current, fun d dir m => ?_⟩
    rw [frames' d dir m, frames d dir m, current, page, frame]
    by_cases here : m = v / PAGE_SIZE + i
    · subst here
      rw [if_neg (by omega), Nat.add_sub_cancel_left]
      by_cases mine : d = s.current
      · rw [if_pos ⟨mine, rfl⟩, if_pos ⟨mine, by omega⟩]
      · rw [if_neg (by tauto), if_neg (by tauto)]
    · rw [if_neg (show ¬(d = s.current ∧ m = v / PAGE_SIZE + i) by tauto)]
      have range : v / PAGE_SIZE + (i + 1) ≤ m ∧ m < v / PAGE_SIZE + (i + 1) + n ↔
          v / PAGE_SIZE + i ≤ m ∧ m < v / PAGE_SIZE + i + (n + 1) := by
        omega
      simp only [range]

theorem freeable_fits {p : Nat} (ok : Freeable p) : p + PAGE_SIZE ≤ 2 ^ 32 - PAGE_SIZE := by
  have inside := ok.2.1
  simp only [PAGE_SIZE, MEMORY_SIZE] at *
  omega

/-- `paging_map_user_code` changes the pages it maps in one directory, and nothing else. -/
theorem Spaces.mapUserCode (h : Spaces img s dirs) (dir : d ∈ dirs) {v p size : Nat} (user : 4096 ≤ v / PAGE_SIZE)
    (alignedV : v % PAGE_SIZE = 0) (alignedP : p % PAGE_SIZE = 0) (smallV : v + size ≤ 2 ^ 32 - PAGE_SIZE)
    (smallP : p + size ≤ 2 ^ 32 - PAGE_SIZE) (given : (pagingMapUserCode s d v p size).refused = s.refused) :
    Spaces img (pagingMapUserCode s d v p size) dirs ∧ (pagingMapUserCode s d v p size).current = s.current ∧
      ∀ d' ∈ dirs, ∀ m, frameAt (pagingMapUserCode s d v p size) d' m =
        if d' = d ∧ v / PAGE_SIZE ≤ m ∧ m < v / PAGE_SIZE + (size + PAGE_SIZE - 1) / PAGE_SIZE then
          some (p + (m - v / PAGE_SIZE) * PAGE_SIZE)
        else frameAt s d' m := by
  have pages : (size + PAGE_SIZE - 1) % 2 ^ 32 = size + PAGE_SIZE - 1 := by
    simp only [PAGE_SIZE] at *
    omega
  have loop := (h.switch dir).mapPages (v := v) (p := p) (n := (size + PAGE_SIZE - 1) / PAGE_SIZE) (i := 0) user
    alignedV alignedP (by simp only [PAGE_SIZE] at *; omega) (by simp only [PAGE_SIZE] at *; omega)
  rw [pagingMapUserCode, pages] at given ⊢
  obtain ⟨spaces, -, frames⟩ := loop given
  exact ⟨spaces.switch h.current, rfl, frames⟩

end Step

section Page

variable {s : PageTables} {d v p t : Nat}

theorem mapUserCode_page (s : PageTables) (d : Nat) (smallV : v < 2 ^ 32) (smallP : p < 2 ^ 32) :
    pagingMapUserCode s d v p PAGE_SIZE =
      { pagingMapPage { s with current := d } v p PAGE_USER_MODE with current := s.current } := by
  have pages : (PAGE_SIZE + PAGE_SIZE - 1) % 2 ^ 32 / PAGE_SIZE = 1 := by decide
  rw [pagingMapUserCode, pages, mapPagesFrom, mapPagesFrom, Nat.zero_mul, Nat.add_zero, Nat.add_zero,
    Nat.mod_eq_of_lt smallV, Nat.mod_eq_of_lt smallP]

theorem mapUserCode_present (smallV : v < 2 ^ 32) (smallP : p < 2 ^ 32)
    (table : follow (s.entries d (getPageDirIndex v)) = some t) :
    pagingMapUserCode s d v p PAGE_SIZE = s.setEntry t (getPageTableIndex v) (makePte p PAGE_USER_MODE) := by
  have there : ¬s.entries d (getPageDirIndex v) &&& PAGE_PRESENT = 0 := by
    intro absent
    rw [follow, if_pos absent] at table
    exact absurd table.symm (Option.some_ne_none t)
  rw [mapUserCode_page s d smallV smallP, pagingMapPage, pageTable]
  simp only [if_neg there, ← follow_frame table]
  rfl

theorem mapUserCode_absent (smallV : v < 2 ^ 32) (smallP : p < 2 ^ 32)
    (absent : follow (s.entries d (getPageDirIndex v)) = none) (there : s.allocPage.2 ≠ 0) :
    pagingMapUserCode s d v p PAGE_SIZE = { s.allocPage.1 with
      entries := put (graft s.entries s.allocPage.2 (fun _ => 0) d (getPageDirIndex v)
        (makePde s.allocPage.2 (PAGE_PRESENT ||| PAGE_WRITE))) s.allocPage.2 (getPageTableIndex v)
        (makePte p PAGE_USER_MODE) } := by
  have some : (PageTables.allocPage { s with current := d }).2 ≠ 0 := there
  rw [mapUserCode_page s d smallV smallP, pagingMapPage, pageTable]
  simp only [if_pos (follow_none absent), if_neg some]
  rfl

theorem mapUserCode_refused (smallV : v < 2 ^ 32) (smallP : p < 2 ^ 32)
    (absent : follow (s.entries d (getPageDirIndex v)) = none) (none : s.allocPage.2 = 0) :
    pagingMapUserCode s d v p PAGE_SIZE = s.allocPage.1 := by
  have none' : (PageTables.allocPage { s with current := d }).2 = 0 := none
  rw [mapUserCode_page s d smallV smallP, pagingMapPage, pageTable]
  simp only [if_pos (follow_none absent), if_pos none']
  rfl

end Page

end Wittche.Paging
