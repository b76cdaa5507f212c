import Wittche.Paging.UserPages

/-! Page tables when pages run short: a call that needs a page takes one of those that are
left, or it does nothing. -/

namespace Wittche.Paging
open Pmm Tables

section Short

variable {img : Image} {t : PageTables} {dirs : Set Nat}

theorem translate_absent {d v : Nat} (none : follow (t.entries d (getPageDirIndex v)) = none) : translate t d v = 0 := by
  refine translate_of_none ?_
  rw [frameAt, walk, ← getPageDirIndex_eq, none]
  rfl

theorem freeDirectory_empty {d : Nat} (there : d ≠ 0) (empty : ∀ i ∈ userEntries, follow (t.entries d i) = none) :
    (pagingFreeDirectory t d).pmm = pmmFreePage t.pmm d := by
  have idle : ∀ n, (List.range n).foldl (fun p i => if t.entries d (i + 4) &&& PAGE_PRESENT = 0 then p
      else freeTable t.entries p (t.entries d (i + 4) &&& 0xFFFFF000)) t.pmm = t.pmm := by
    intro n
    induction n with
    | zero => rfl
    | succ n ih =>
      rw [List.range_succ, List.foldl_append, ih, List.foldl_cons, List.foldl_nil,
        if_pos (follow_none (empty (n + 4) (Nat.le_add_left 4 n)))]
  rw [pagingFreeDirectory, if_neg there, idle]

theorem Spaces.allocPage_full (h : Spaces img t dirs) (full : t.allocPage.2 = 0) : Spaces img t.allocPage.1 dirs := by
  have same := allocPage_refused h.kept full
  refine ⟨?_, h.current, h.kernel, h.owned, ?_, ?_, h.shared, h.identity⟩
  · rw [same]
    exact h.kept
  · rw [same]
    exact h.held
  · rw [same]
    exact h.tables

/-- A page that is mapped in a new table: the other entries and addresses, and the pages that
were taken, stay. -/
structure Grown (t t' : PageTables) (dirs : Set Nat) (d v p : Nat) : Prop where
  mapped : translate t' d v = p
  others : ∀ d' ∈ dirs, ∀ a, ¬(d' = d ∧ a / PAGE_SIZE = v / PAGE_SIZE) → translate t' d' a = translate t d' a
  entries : ∀ d' ∈ dirs, ∀ i, ¬(d' = d ∧ i = getPageDirIndex v) → t'.entries d' i = t.entries d' i
  pages : ∀ a, a ≠ d → bitmapTest t.pmm (a / PAGE_SIZE) = true →
    t'.entries a = t.entries a ∧ bitmapTest t'.pmm (a / PAGE_SIZE) = true

theorem Spaces.mapFirst (h : Spaces img t dirs) {d v p : Nat} (dir : d ∈ dirs) (user : 4096 ≤ v / PAGE_SIZE)
    (alignedV : v % PAGE_SIZE = 0) (smallV : v + PAGE_SIZE ≤ 2 ^ 32 - PAGE_SIZE) (ok : Freeable p)
    (absent : follow (t.entries d (getPageDirIndex v)) = none) :
    Spaces img (pagingMapUserCode t d v p PAGE_SIZE) dirs ∧
      freePages (pagingMapUserCode t d v p PAGE_SIZE).pmm = freePages t.pmm - 1 ∧
      (freePages t.pmm = 0 ∧ (pagingMapUserCode t d v p PAGE_SIZE).entries = t.entries ∨
        freePages t.pmm ≠ 0 ∧ Grown t (pagingMapUserCode t d v p PAGE_SIZE) dirs d v p) := by
  have inside := ok.2.1
  have smallV' : v < 2 ^ 32 := by
    simp only [PAGE_SIZE] at *
    omega
  have smallP : p < 2 ^ 32 := inside.trans (by decide)
  obtain ⟨none, left⟩ := allocPage_free h.kept
  by_cases full : t.allocPage.2 = 0
  · rw [mapUserCode_refused smallV' smallP absent full]
    exact ⟨h.allocPage_full full, left, Or.inl ⟨none.mp full, rfl⟩⟩
  have result := mapUserCode_absent smallV' smallP absent full
  obtain ⟨ok', given, clear, bits⟩ := allocPage_given h.kept full
  obtain ⟨-, -, -, fresh, -⟩ := h.allocPage given
  have given' : (pagingMapUserCode t d v p PAGE_SIZE).refused = t.refused := by
    rw [result]
    exact given
  have one : (PAGE_SIZE + PAGE_SIZE - 1) / PAGE_SIZE = 1 := by decide
  obtain ⟨spaces, -, frames⟩ := h.mapUserCode dir user alignedV ok.2.2 smallV (freeable_fits ok) given'
  rw [one] at frames
  refine ⟨spaces, by rw [result]; exact left, Or.inr ⟨fun zero => full (none.mpr zero), ?_, ?_, ?_, ?_⟩⟩
  · have frame : frameAt (pagingMapUserCode t d v p PAGE_SIZE) d (v / PAGE_SIZE) = some p := by
      rw [frames d dir, if_pos ⟨rfl, Nat.le_refl _, Nat.lt_succ_self _⟩, Nat.sub_self, Nat.zero_mul, Nat.add_zero]
    rw [translate_of_frame frame, alignedV, Nat.add_zero]
  · intro d' dir' a other
    refine translate_congr ?_
    rw [frames d' dir', if_neg]
    rintro ⟨same, low, high⟩
    exact other ⟨same, by omega⟩
  · intro d' dir' i other
    have away : d' ≠ t.allocPage.2 := fun same => fresh.1 (same ▸ dir')
    rw [result]
    dsimp only
    rw [put_other away, graft_dir fresh dir', if_neg other]
  · intro a other taken
    have away : a ≠ t.allocPage.2 := by
      rintro rfl
      rw [clear] at taken
      exact Bool.noConfusion taken
    rw [result]
    dsimp only
    rw [put_other away, Tables.graft, put_other other, Function.update_of_ne away, bits, taken, Bool.or_true]
    exact ⟨rfl, rfl⟩

end Short

def drained (s : PageTables) : Nat → PageTables
  | 0 => s
  | n + 1 => (drained s n).allocPage.1

theorem drained_spaces {img : Image} {s : PageTables} {dirs : Set Nat} (h : Spaces img s dirs) {n : Nat}
    (enough : n ≤ freePages s.pmm) : Spaces img (drained s n) dirs ∧ freePages (drained s n).pmm = freePages s.pmm - n ∧
      (drained s n).entries = s.entries := by
  induction n with
  | zero => exact ⟨h, (Nat.sub_zero _).symm, rfl⟩
  | succ n ih =>
    obtain ⟨spaces, free, entries⟩ := ih (by omega)
    obtain ⟨none, left⟩ := allocPage_free spaces.kept
    have there : (drained s n).allocPage.2 ≠ 0 := fun zero => by
      have full := none.mp zero
      omega
    refine ⟨(spaces.allocPage (if_neg there)).2.2.1, ?_, entries⟩
    rw [drained, left, free]
    omega

theorem created_spaces {img : Image} {s : PageTables} {dirs : Set Nat} (h : Spaces img s dirs)
    (some : freePages s.pmm ≠ 0) : (pagingCreateUserDirectory img s).2 ≠ 0 ∧
      Spaces img (pagingCreateUserDirectory img s).1 (insert (pagingCreateUserDirectory img s).2 dirs) ∧
      freePages (pagingCreateUserDirectory img s).1.pmm = freePages s.pmm - 1 ∧ ∀ i ∈ userEntries,
        follow ((pagingCreateUserDirectory img s).1.entries (pagingCreateUserDirectory img s).2 i) = none := by
  obtain ⟨none, left⟩ := allocPage_free h.kept
  have there : s.allocPage.2 ≠ 0 := fun zero => some (none.mp zero)
  obtain ⟨-, given, -, -⟩ := allocPage_given h.kept there
  obtain ⟨-, -, -, fresh, -⟩ := h.allocPage given
  have other : img.kernelDirectory ≠ s.allocPage.2 := fun same => fresh.1 (same ▸ h.kernel)
  have created := (h.create (by rw [refused_createUserDirectory, given])).2.2.1
  rw [createUserDirectory_eq there other] at created ⊢
  refine ⟨there, created, left, fun i user => ?_⟩
  simp only [Function.update_self, userDirectory, if_neg (Nat.not_lt.mpr user), follow_zero]

theorem leaks {s : PageTables} (h : Pmm.Kept s.pmm) (some : s.allocPage.2 ≠ 0) {m : PageMap}
    (set : bitmapTest m (s.allocPage.2 / PAGE_SIZE) = true) : m ≠ s.pmm := by
  rintro rfl
  obtain ⟨-, -, clear, -⟩ := allocPage_given h some
  exact Bool.noConfusion (clear.symm.trans set)

theorem Spaces.stack_leaks {img : Image} {s : PageTables} {dirs : Set Nat} (h : Spaces img s dirs)
    (few : freePages s.pmm = 1 ∨ freePages s.pmm = 2) :
    s.allocPage.2 ≠ 0 ∧
      ((pagingCreateUserDirectory img s.allocPage.1).2 = 0 ∧ (pagingCreateUserDirectory img s.allocPage.1).1.pmm ≠ s.pmm ∨
      (pagingCreateUserDirectory img s.allocPage.1).2 ≠ 0 ∧
        (pagingCreateUserDirectory img s.allocPage.1).1.allocPage.2 = 0 ∧
        (∀ e ∈ userEntries, follow ((pagingCreateUserDirectory img s.allocPage.1).1.allocPage.1.entries
          (pagingCreateUserDirectory img s.allocPage.1).2 e) = none) ∧
        pmmFreePage (pagingCreateUserDirectory img s.allocPage.1).1.allocPage.1.pmm
          (pagingCreateUserDirectory img s.allocPage.1).2 ≠ s.pmm) := by
  obtain ⟨none1, left1⟩ := allocPage_free h.kept
  have some1 : s.allocPage.2 ≠ 0 := fun zero => by
    have full := none1.mp zero
    omega
  obtain ⟨-, given1, -, bits1⟩ := allocPage_given h.kept some1
  obtain ⟨-, -, more, -, -⟩ := h.allocPage given1
  have set1 : bitmapTest s.allocPage.1.pmm (s.allocPage.2 / PAGE_SIZE) = true := by
    rw [bits1, decide_eq_true rfl, Bool.true_or]
  obtain ⟨none2, left2⟩ := allocPage_free more.kept
  refine ⟨some1, ?_⟩
  rcases few with one | two
  · have full : s.allocPage.1.allocPage.2 = 0 := none2.mpr (by omega)
    have result : pagingCreateUserDirectory img s.allocPage.1 = (s.allocPage.1.allocPage.1, 0) := if_pos full
    rw [result]
    refine Or.inl ⟨rfl, leaks h.kept some1 ?_⟩
    rw [allocPage_refused more.kept full]
    exact set1
  · have some2 : s.allocPage.1.allocPage.2 ≠ 0 := fun zero => by
      have full := none2.mp zero
      omega
    obtain ⟨-, given2, clear2, bits2⟩ := allocPage_given more.kept some2
    obtain ⟨-, -, -, fresh, -⟩ := more.allocPage given2
    obtain ⟨-, created, left3, empty⟩ := created_spaces more (by omega)
    have full : (pagingCreateUserDirectory img s.allocPage.1).1.allocPage.2 = 0 :=
      (allocPage_free created.kept).1.mpr (by omega)
    have same := allocPage_refused created.kept full
    have other : img.kernelDirectory ≠ s.allocPage.1.allocPage.2 := fun clash => fresh.1 (clash ▸ h.kernel)
    have result := createUserDirectory_eq some2 other
    refine Or.inr ⟨by rw [result]; exact some2, full, empty, leaks h.kept some1 ?_⟩
    have apart : s.allocPage.2 / PAGE_SIZE ≠ s.allocPage.1.allocPage.2 / PAGE_SIZE := by
      intro clash
      rw [← clash, set1] at clear2
      exact Bool.noConfusion clear2
    rw [same, bitmapTest_pmmFreePage, result]
    dsimp only
    rw [bits2, set1, Bool.or_true, Bool.and_true, decide_eq_false fun both => apart both.2]
    rfl

end Wittche.Paging
