import Wittche.Strings.Conversion

/-! `strcpy` and `strcat` of `kernel/string.c` with a source that lies apart from the
destination: the destination reads as the copied text, or as its own text with the other behind
it. -/

namespace Wittche.CString
open Bytes

/-- `strcpy` with `d` the destination pointer. -/
def strcpyFrom (dest : Buffer) : (d : Nat) → List Byte → Buffer
  | d, [] => Function.update dest d 0
  | d, c :: rest => strcpyFrom (Function.update dest d c) (d + 1) rest

def strcpy (dest : Buffer) (d : Nat) (src : CStr) : Buffer := strcpyFrom dest d src.chars

/-- `strcat`; `none` is a destination without a NUL within `fuel` bytes. -/
def strcat (dest : Buffer) (d fuel : Nat) (src : CStr) : Option Buffer :=
  (skipWhile (· ≠ 0) dest fuel d).map fun stop => strcpy dest stop src

section Building

variable {m : Buffer} {d fuel : Nat} {l : List Byte}

theorem strcpyFrom_eq (m : Buffer) (d : Nat) (l : List Byte) : strcpyFrom m d l = put m d (l ++ [0]) := by
  induction l generalizing m d with
  | nil => exact update_eq_put m d 0
  | cons c l ih =>
    have first : Function.update m d c = put m d [c] := update_eq_put m d c
    rw [strcpyFrom, ih, first, List.cons_append]
    exact put_append m d [c] (l ++ [0])

theorem strcpy_reads (m : Buffer) (d : Nat) (src : CStr) : Reads (strcpy m d src) d src.chars ∧
    ∀ x, x < d ∨ d + src.length < x → strcpy m d src x = m x := by
  rw [strcpy, strcpyFrom_eq]
  refine ⟨?_, fun x out => ?_⟩
  · rw [← put_append, ← update_eq_put]
    exact put_reads m d src.chars
  · refine put_outside ?_
    rw [List.length_append, List.length_singleton]
    rw [CStr.length] at out
    omega

theorem strcat_reads (h : Reads m d l) (noNul : 0 ∉ l) (enough : l.length < fuel) (src : CStr) :
    ∃ m', strcat m d fuel src = some m' ∧ Reads m' d (l ++ src.chars) ∧
      ∀ x, x < d ∨ d + (l ++ src.chars).length < x → m' x = m x := by
  have all : l.takeWhile (· ≠ 0) = l := by
    rw [List.takeWhile_eq_self_iff]
    exact fun c mem => decide_eq_true fun zero => noNul (zero ▸ mem)
  obtain ⟨reads, frame⟩ := strcpy_reads m (d + l.length) src
  refine ⟨strcpy m (d + l.length) src, ?_, fun i hi => ?_, fun x out => frame x ?_⟩
  · rw [strcat, skipWhile_eq h (by decide) enough, all, Option.map_some]
  · rcases Nat.lt_or_ge i l.length with first | behind
    · rw [frame _ (Or.inl (by omega)), h i (Nat.le_of_lt first), List.getD_append _ _ _ _ first]
    · obtain ⟨k, rfl⟩ := Nat.exists_eq_add_of_le behind
      rw [List.length_append] at hi
      rw [← Nat.add_assoc, reads k (by omega), List.getD_append_right _ _ _ _ behind, Nat.add_sub_cancel_left]
  · rw [List.length_append] at out
    rw [CStr.length]
    omega

end Building

end Wittche.CString
