import Wittche.Lib.Traced

/-! A line editor: a text with a cursor in it, and the commands that change them.
Below it, how an array holds the text: erasing a letter is a slide down, inserting one
is a slide up and a write. -/

namespace Wittche.Editor
open Traced

variable {α : Type}

structure Line (α : Type) where
  text : List α
  cursor : Nat
  inside : cursor ≤ text.length

inductive Command (α : Type)
  | insert (x : α)
  | deleteBefore
  | deleteAt
  | left
  | right
  | home
  | last

def Line.empty : Line α := ⟨[], 0, Nat.le_refl _⟩

/-- One command. A text of `limit` letters takes no further one. -/
def Line.apply (limit : Nat) (l : Line α) : Command α → Line α
  | .insert x =>
    if room : l.text.length < limit then
      ⟨l.text.insertIdx l.cursor x, l.cursor + 1, by
        rw [List.length_insertIdx_of_le_length l.inside]
        exact Nat.succ_le_succ l.inside⟩
    else l
  | .deleteBefore =>
    if some : 0 < l.cursor then
      ⟨l.text.eraseIdx (l.cursor - 1), l.cursor - 1, by
        have inside := l.inside
        rw [List.length_eraseIdx_of_lt (by omega)]
        omega⟩
    else l
  | .deleteAt =>
    if some : l.cursor < l.text.length then
      ⟨l.text.eraseIdx l.cursor, l.cursor, by
        rw [List.length_eraseIdx_of_lt some]
        omega⟩
    else l
  | .left => ⟨l.text, l.cursor - 1, Nat.le_trans (Nat.sub_le _ _) l.inside⟩
  | .right => if some : l.cursor < l.text.length then ⟨l.text, l.cursor + 1, some⟩ else l
  | .home => ⟨l.text, 0, Nat.zero_le _⟩
  | .last => ⟨l.text, l.text.length, Nat.le_refl _⟩

variable {m : Cells α} {text : List α} {k : Nat}

/-- The cells from 0 on hold the text. -/
def Holds (m : Cells α) (text : List α) : Prop := ∀ i : Nat, i < text.length → text[i]? = some (m.cell i)

theorem Holds.erase (holds : Holds m text) (at_k : k < text.length) :
    Holds (m.slideDown k 1 (text.length - 1 - k)) (text.eraseIdx k) := by
  intro i hi
  rw [List.length_eraseIdx_of_lt at_k] at hi
  rw [List.getElem?_eraseIdx, Cells.slideDown_cell _ _ (by decide)]
  by_cases below : i < k
  · rw [if_pos below, if_neg (by omega)]
    exact holds i (by omega)
  · rw [if_neg below, if_pos (by omega)]
    exact holds (i + 1) (by omega)

theorem Holds.insert (holds : Holds m text) (upTo : k ≤ text.length) (x : α) :
    Holds ((m.slideUp text.length (text.length - k)).put k x) (text.insertIdx k x) := by
  intro i hi
  rw [List.length_insertIdx_of_le_length upTo] at hi
  rw [List.getElem?_insertIdx, Cells.put_cell, Cells.slideUp_cell]
  by_cases below : i < k
  · rw [if_pos below, if_neg (by omega), if_neg (by omega)]
    exact holds i (by omega)
  · rw [if_neg below]
    by_cases here : i = k
    · rw [if_pos here, if_pos (by omega), if_pos (by omega)]
    · have above := holds (i - 1) (by omega)
      rw [if_neg here, if_neg (by omega), if_pos (by omega), above,
        show ((i - 1 : Nat) : Int) = (i : Int) - 1 by omega]

end Wittche.Editor
