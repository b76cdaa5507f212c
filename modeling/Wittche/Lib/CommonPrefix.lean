import Mathlib.Data.List.Basic

/-! The longest common prefix of a list of lists. -/

namespace Wittche.CommonPrefix

variable {α : Type} [DecidableEq α]

def common : List α → List α → List α
  | a :: as, b :: bs => if a = b then a :: common as bs else []
  | _, _ => []

theorem prefix_common_iff (l a b : List α) : l <+: common a b ↔ l <+: a ∧ l <+: b := by
  fun_induction common a b generalizing l with
  | case1 a as bs ih =>
    cases l with
    | nil => simp
    | cons x l =>
      simp only [List.cons_prefix_cons, ih]
      exact and_and_left
  | case2 a as b bs differ =>
    cases l with
    | nil => simp
    | cons x l =>
      simp only [List.cons_prefix_cons, List.prefix_nil]
      refine iff_of_false (List.cons_ne_nil x l) ?_
      rintro ⟨⟨rfl, -⟩, ⟨rfl, -⟩⟩
      exact differ rfl
  | case3 a b none =>
    have nothing : l <+: [] ↔ l = [] := List.prefix_nil
    rw [nothing]
    constructor
    · rintro rfl
      exact ⟨List.nil_prefix, List.nil_prefix⟩
    · rintro ⟨left, right⟩
      cases l with
      | nil => rfl
      | cons x l =>
        obtain ⟨as, rfl⟩ := left
        obtain ⟨bs, rfl⟩ := right
        exact (none _ _ _ _ rfl rfl).elim

/-- The longest common prefix; of no list at all it is empty. -/
def longest : List (List α) → List α
  | [] => []
  | [l] => l
  | l :: k :: rest => common l (longest (k :: rest))

theorem prefix_longest_iff {ls : List (List α)} (some : ls ≠ []) (l : List α) :
    l <+: longest ls ↔ ∀ k ∈ ls, l <+: k := by
  induction ls with
  | nil => exact absurd rfl some
  | cons a rest ih =>
    cases rest with
    | nil => simp [longest]
    | cons b rest =>
      rw [longest, prefix_common_iff, ih (List.cons_ne_nil b rest)]
      simp

theorem longest_starts {ls : List (List α)} {k : List α} (mem : k ∈ ls) : longest ls <+: k :=
  (prefix_longest_iff (List.ne_nil_of_mem mem) _).mp List.prefix_rfl k mem

end Wittche.CommonPrefix
