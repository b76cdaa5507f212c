import Mathlib.Tactic.Common
import Mathlib.Data.Finset.Card
import Mathlib.Logic.Function.Basic
import Wittche.Lib.Scan

/-! Bitmaps stored in an array of `w`-bit words: bit `i` is bit `i % w` of word
`i / w`. The masks are the ones a C program writes, `1 << (i % w)`; everything
else is stated through `test`. -/

namespace Wittche.Bitmap

abbrev Bits (w : Nat) := Nat → BitVec w

variable {w : Nat}

def mask (w i : Nat) : BitVec w := 1#w <<< (i % w)

def set (b : Bits w) (i : Nat) : Bits w := Function.update b (i / w) (b (i / w) ||| mask w i)

def clear (b : Bits w) (i : Nat) : Bits w := Function.update b (i / w) (b (i / w) &&& ~~~mask w i)

def test (b : Bits w) (i : Nat) : Bool := (b (i / w) &&& mask w i) != 0#w

def findClear (b : Bits w) (n : Nat) : Option Nat := Scan.firstFrom (fun i => !test b i) n 0

def clearCount (b : Bits w) (n : Nat) : Nat := ((Finset.range n).filter (test b · = false)).card

def setCount (b : Bits w) (n : Nat) : Nat := ((Finset.range n).filter (test b · = true)).card

theorem setCount_add_clearCount (b : Bits w) (n : Nat) : setCount b n + clearCount b n = n := by
  have parts := Finset.card_filter_add_card_filter_not (s := Finset.range n) (test b · = true)
  simpa [setCount, clearCount] using parts

theorem getLsbD_mask (hw : 0 < w) (i j : Nat) : (mask w i).getLsbD j = decide (j = i % w) := by
  have lt := Nat.mod_lt i hw
  simp only [mask, BitVec.getLsbD_shiftLeft, BitVec.getLsbD_one, hw]
  by_cases h : j = i % w
  · subst h
    simp [lt]
  · have apart : ¬(j - i % w = 0 ∧ i % w ≤ j) := by omega
    simp [h]
    omega

theorem test_eq_getLsbD (hw : 0 < w) (b : Bits w) (i : Nat) :
    test b i = (b (i / w)).getLsbD (i % w) := by
  have bit : ∀ j, (b (i / w) &&& mask w i).getLsbD j =
      ((b (i / w)).getLsbD j && decide (j = i % w)) := by
    intro j
    rw [BitVec.getLsbD_and, getLsbD_mask hw]
  cases h : (b (i / w)).getLsbD (i % w)
  · have zero : b (i / w) &&& mask w i = 0#w := by
      apply BitVec.eq_of_getLsbD_eq
      intro j _
      rw [bit, BitVec.getLsbD_zero]
      by_cases hj : j = i % w
      · rw [hj, h]
        rfl
      · simp [hj]
    simp [test, zero]
  · have nonzero : b (i / w) &&& mask w i ≠ 0#w := by
      intro zero
      have entry := bit (i % w)
      rw [zero, h, BitVec.getLsbD_zero] at entry
      simp at entry
    simpa [test] using nonzero

theorem same_bit {i j : Nat} (q : i / w = j / w) (r : i % w = j % w) : i = j := by
  rw [← Nat.div_add_mod i w, ← Nat.div_add_mod j w, q, r]

theorem ext_test (hw : 0 < w) {b c : Bits w} (same : ∀ i, test b i = test c i) : b = c := by
  funext k
  apply BitVec.eq_of_getLsbD_eq
  intro j hj
  have word : (k * w + j) / w = k := by
    rw [Nat.add_comm, Nat.add_mul_div_right _ _ hw, Nat.div_eq_of_lt hj, Nat.zero_add]
  have bit : (k * w + j) % w = j := by
    rw [Nat.add_comm, Nat.add_mul_mod_self_right, Nat.mod_eq_of_lt hj]
  have entry := same (k * w + j)
  rwa [test_eq_getLsbD hw, test_eq_getLsbD hw, word, bit] at entry

theorem test_set (hw : 0 < w) (b : Bits w) (i j : Nat) :
    test (set b i) j = (decide (j = i) || test b j) := by
  simp only [test_eq_getLsbD hw, set, Function.update_apply]
  by_cases q : j / w = i / w
  · rw [if_pos q, BitVec.getLsbD_or, getLsbD_mask hw, q, Bool.or_comm]
    congr 1
    by_cases r : j % w = i % w
    · simp [same_bit q r]
    · have ne : j ≠ i := fun h => r (by rw [h])
      simp [r, ne]
  · have ne : j ≠ i := fun h => q (by rw [h])
    simp [q, ne]

theorem test_clear (hw : 0 < w) (b : Bits w) (i j : Nat) :
    test (clear b i) j = (!decide (j = i) && test b j) := by
  simp only [test_eq_getLsbD hw, clear, Function.update_apply]
  by_cases q : j / w = i / w
  · have lt := Nat.mod_lt j hw
    rw [if_pos q, BitVec.getLsbD_and, BitVec.getLsbD_not, getLsbD_mask hw, q, Bool.and_comm]
    congr 1
    by_cases r : j % w = i % w
    · simp [same_bit q r]
    · have ne : j ≠ i := fun h => r (by rw [h])
      simp [r, ne, lt]
  · have ne : j ≠ i := fun h => q (by rw [h])
    simp [q, ne]

theorem clear_set (hw : 0 < w) {b : Bits w} {i : Nat} (free : test b i = false) : clear (set b i) i = b := by
  refine ext_test hw fun j => ?_
  rw [test_clear hw, test_set hw]
  by_cases same : j = i
  · rw [same, free]
    simp
  · simp [same]

theorem findClear_some {b : Bits w} {n k : Nat} (h : findClear b n = some k) :
    k < n ∧ test b k = false ∧ ∀ j < k, test b j = true := by
  obtain ⟨-, hi, clear, below⟩ := Scan.firstFrom_some h
  exact ⟨by omega, by simpa using clear, fun j hj => by simpa using below j (by omega) hj⟩

theorem findClear_none {b : Bits w} {n : Nat} :
    findClear b n = none ↔ ∀ j < n, test b j = true := by
  rw [findClear, Scan.firstFrom_none]
  simp

theorem clearCount_set (hw : 0 < w) {b : Bits w} {n i : Nat} (hi : i < n) (free : test b i = false) :
    clearCount (set b i) n + 1 = clearCount b n := by
  have split : (Finset.range n).filter (test (set b i) · = false) =
      ((Finset.range n).filter (test b · = false)).erase i := by
    ext j
    simp only [Finset.mem_filter, Finset.mem_range, Finset.mem_erase, test_set hw,
      Bool.or_eq_false_iff, decide_eq_false_iff_not]
    tauto
  have mem : i ∈ (Finset.range n).filter (test b · = false) := by
    simp [hi, free]
  rw [clearCount, split]
  exact Finset.card_erase_add_one mem

theorem clearCount_clear (hw : 0 < w) {b : Bits w} {n i : Nat} (hi : i < n) (taken : test b i = true) :
    clearCount (clear b i) n = clearCount b n + 1 := by
  have split : (Finset.range n).filter (test (clear b i) · = false) =
      insert i ((Finset.range n).filter (test b · = false)) := by
    ext j
    simp only [Finset.mem_filter, Finset.mem_range, Finset.mem_insert, test_clear hw,
      Bool.and_eq_false_iff, Bool.not_eq_false', decide_eq_true_eq]
    constructor
    · rintro ⟨hj, rfl | free⟩
      · exact Or.inl rfl
      · exact Or.inr ⟨hj, free⟩
    · rintro (rfl | ⟨hj, free⟩)
      · exact ⟨hi, Or.inl rfl⟩
      · exact ⟨hj, Or.inr free⟩
  have fresh : i ∉ (Finset.range n).filter (test b · = false) := by
    simp [taken]
  rw [clearCount, split, Finset.card_insert_of_notMem fresh, clearCount]

theorem clearCount_congr {b c : Bits w} {n : Nat} (same : ∀ i < n, test b i = test c i) :
    clearCount b n = clearCount c n := by
  refine congrArg Finset.card (Finset.filter_congr fun i hi => ?_)
  rw [same i (Finset.mem_range.mp hi)]

theorem clearCount_mono {b c : Bits w} {n : Nat} (fewer : ∀ i, test c i = true → test b i = true) :
    clearCount b n ≤ clearCount c n := by
  refine Finset.card_le_card fun i mem => ?_
  obtain ⟨inside, clear⟩ := Finset.mem_filter.mp mem
  refine Finset.mem_filter.mpr ⟨inside, ?_⟩
  by_contra taken
  rw [fewer i (eq_true_of_ne_false taken)] at clear
  exact absurd clear (by decide)

theorem clearCount_eq_pred_iff {b : Bits w} {n : Nat} (pos : 0 < n) (first : test b 0 = true) :
    clearCount b n = n - 1 ↔ ∀ i < n, i ≠ 0 → test b i = false := by
  have rest : ((Finset.range n).erase 0).card = n - 1 := by
    rw [Finset.card_erase_of_mem (Finset.mem_range.mpr pos), Finset.card_range]
  have sub : (Finset.range n).filter (test b · = false) ⊆ (Finset.range n).erase 0 := by
    intro i hi
    obtain ⟨lt, clear⟩ := Finset.mem_filter.mp hi
    refine Finset.mem_erase.mpr ⟨?_, lt⟩
    rintro rfl
    rw [first] at clear
    exact Bool.noConfusion clear
  constructor
  · intro count i hi ne
    have whole := Finset.eq_of_subset_of_card_le sub (rest.trans count.symm).le
    have mem : i ∈ (Finset.range n).erase 0 := Finset.mem_erase.mpr ⟨ne, Finset.mem_range.mpr hi⟩
    rw [← whole] at mem
    exact (Finset.mem_filter.mp mem).2
  · intro clear
    rw [clearCount, ← rest]
    refine congrArg Finset.card (Finset.Subset.antisymm sub fun i hi => ?_)
    obtain ⟨ne, lt⟩ := Finset.mem_erase.mp hi
    exact Finset.mem_filter.mpr ⟨lt, clear i (Finset.mem_range.mp lt) ne⟩

theorem clearCount_le (b : Bits w) (n : Nat) : clearCount b n ≤ n := by
  simpa [clearCount] using Finset.card_filter_le (Finset.range n) (test b · = false)

end Wittche.Bitmap
