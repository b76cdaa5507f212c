import Mathlib.Data.Nat.Digits.Lemmas

/-! Rows of digits, the first one the most significant. The canonical row of a number has no
zero in front, except for the number zero itself. -/

namespace Wittche.Numerals

def rowValue (b : Nat) (ds : List Nat) : Nat := ds.foldl (fun n d => n * b + d) 0

def row (b n : Nat) : List Nat := if n = 0 then [0] else (Nat.digits b n).reverse

/-- `ds` is a numeral of `n` in base `b` without superfluous zeros. -/
structure Canonical (b : Nat) (ds : List Nat) (n : Nat) : Prop where
  nonempty : ds ≠ []
  valid : ∀ d ∈ ds, d < b
  noZeros : ds.head? = some 0 → ds = [0]
  value : rowValue b ds = n

variable {b n d k : Nat} {ds : List Nat}

theorem rowValue_snoc (b : Nat) (ds : List Nat) (d : Nat) : rowValue b (ds ++ [d]) = rowValue b ds * b + d := by
  rw [rowValue, List.foldl_append]
  rfl

theorem rowValue_reverse (b : Nat) (ds : List Nat) : rowValue b ds.reverse = Nat.ofDigits b ds := by
  induction ds with
  | nil => rfl
  | cons d ds ih =>
    rw [List.reverse_cons, rowValue_snoc, ih, Nat.ofDigits_cons, Nat.mul_comm, Nat.add_comm]

theorem Canonical.of_row (two : 1 < b) (n : Nat) : Canonical b (row b n) n := by
  by_cases zero : n = 0
  · rw [row, if_pos zero]
    refine ⟨by simp, fun d mem => ?_, fun _ => rfl, ?_⟩
    · rw [List.mem_singleton.mp mem]
      omega
    · rw [zero, rowValue, List.foldl_cons, Nat.zero_mul]
      rfl
  · have some : Nat.digits b n ≠ [] := Nat.digits_ne_nil_iff_ne_zero.mpr zero
    rw [row, if_neg zero]
    refine ⟨by simpa using some, fun d mem => ?_, fun front => ?_, ?_⟩
    · exact Nat.digits_lt_base two (List.mem_reverse.mp mem)
    · rw [List.head?_reverse, List.getLast?_eq_some_getLast some] at front
      exact absurd (Option.some.inj front) (Nat.getLast_digit_ne_zero b zero)
    · rw [rowValue_reverse, Nat.ofDigits_digits]

theorem Canonical.single (h : Canonical b [d] n) : n < b := by
  rw [← h.value, rowValue, List.foldl_cons, Nat.zero_mul, Nat.zero_add]
  exact h.valid d List.mem_cons_self

theorem row_length_le (two : 1 < b) (pos : 0 < k) (lt : n < b ^ k) : (row b n).length ≤ k := by
  rw [row]
  split
  · exact pos
  · rw [List.length_reverse, Nat.digits_length_le_iff two]
    exact lt

theorem row_step (two : 1 < b) (more : n / b ≠ 0) : row b n = row b (n / b) ++ [n % b] := by
  have pos : 0 < n := by
    rcases Nat.eq_zero_or_pos n with rfl | pos
    · exact absurd (Nat.zero_div b) more
    · exact pos
  rw [row, row, if_neg pos.ne', if_neg more, Nat.digits_def' two pos, List.reverse_cons]

theorem row_last (small : n / b = 0) (two : 1 < b) : row b n = [n % b] := by
  by_cases zero : n = 0
  · rw [row, if_pos zero, zero, Nat.zero_mod]
  · rw [row, if_neg zero, Nat.digits_def' two (Nat.pos_of_ne_zero zero), small, Nat.digits_zero]
    rfl

def Spells {α : Type} (chr : Nat → α) (b : Nat) (text : List α) (n : Nat) : Prop :=
  ∃ ds, text = ds.map chr ∧ Canonical b ds n

section Texts

variable {α : Type} {chr chr' : Nat → α} {text : List α}

theorem Spells.of_row (chr : Nat → α) (two : 1 < b) (n : Nat) : Spells chr b ((row b n).map chr) n :=
  ⟨row b n, rfl, Canonical.of_row two n⟩

theorem Spells.congr (h : Spells chr b text n) (same : ∀ d < b, chr d = chr' d) : Spells chr' b text n := by
  obtain ⟨ds, rfl, canonical⟩ := h
  exact ⟨ds, List.map_congr_left fun d mem => same d (canonical.valid d mem), canonical⟩

theorem Spells.not_mem {c : α} (h : Spells chr b text n) (other : ∀ d < b, chr d ≠ c) : c ∉ text := by
  obtain ⟨ds, rfl, canonical⟩ := h
  intro mem
  obtain ⟨d, inside, same⟩ := List.mem_map.mp mem
  exact other d (canonical.valid d inside) same

theorem Spells.lt_base (h : Spells chr b text n) (short : text.length ≤ 1) : n < b := by
  obtain ⟨ds, rfl, canonical⟩ := h
  rw [List.length_map] at short
  obtain ⟨d, rest, rfl⟩ := List.exists_cons_of_ne_nil canonical.nonempty
  obtain rfl : rest = [] := List.eq_nil_of_length_eq_zero (Nat.le_zero.mp (Nat.le_of_succ_le_succ short))
  exact canonical.single

end Texts

end Wittche.Numerals
