import Wittche.Screen.Safety

/-! Text on the screen as a reader sees it: the character of a cell, a run of characters
within one row, and text written where the screen is blank from the cursor on. -/

namespace Wittche.Screen
open Bytes CString Traced

def letter (x : Cell) : Byte := x.setWidth 8

def shownAt (d : Display) (row col : Int) : Byte := letter (d.videoMemory.cell (row * SCREEN_WIDTH + col))

theorem letter_cellOf (color c : Byte) : letter (cellOf color c) = c := by
  apply BitVec.eq_of_getLsbD_eq
  intro i hi
  simp [letter, cellOf, BitVec.getLsbD_signExtend, hi]
  omega

theorem letter_blank (color : Byte) : letter (blank color) = 0x20 := letter_cellOf color 0x20

def CursorIn (d : Display) : Prop :=
  0 ≤ d.cursorRow ∧ d.cursorRow < 25 ∧ 0 ≤ d.cursorCol ∧ d.cursorCol < 80

section Runs

variable {d : Display} {c : Byte}

@[simp] theorem screenUpdateCursor_memory (d : Display) : (screenUpdateCursor d).videoMemory = d.videoMemory := rfl
@[simp] theorem screenUpdateCursor_row (d : Display) : (screenUpdateCursor d).cursorRow = d.cursorRow := rfl
@[simp] theorem screenUpdateCursor_col (d : Display) : (screenUpdateCursor d).cursorCol = d.cursorCol := rfl

theorem putchar_inRow (plain : Plain c) (row : d.cursorRow < 25) (col : d.cursorCol + 1 < 80) :
    screenPutcharInternal d c = { d with
      videoMemory := d.videoMemory.put (position d) (cellOf d.currentColor c)
      cursorCol := d.cursorCol + 1 } := by
  refine screenPutcharInternal_of_lt ?_ row
  rw [place_plain plain, wrapLine_of_lt col]

/-- What `n` characters leave that are put in one row from `(row, col)` on, over the memory `m`. -/
structure Drawn (m : Int → Cell) (row col : Int) (f : Nat → Byte) (n : Nat) (d : Display) : Prop where
  cursorRow : d.cursorRow = row
  cursorCol : d.cursorCol = col + n
  shown : ∀ i : Nat, i < n → letter (d.videoMemory.cell (row * 80 + (col + i))) = f i
  others : ∀ x, x < row * 80 + col ∨ row * 80 + (col + n) ≤ x → d.videoMemory.cell x = m x

variable {m : Int → Cell} {row col : Int} {f g : Nat → Byte} {n : Nat}

theorem Drawn.congr (drawn : Drawn m row col f n d) (same : ∀ i < n, f i = g i) : Drawn m row col g n d :=
  ⟨drawn.cursorRow, drawn.cursorCol, fun i hi => (drawn.shown i hi).trans (same i hi), drawn.others⟩

theorem drawn_nothing (d : Display) (f : Nat → Byte) : Drawn d.videoMemory.cell d.cursorRow d.cursorCol f 0 d :=
  ⟨rfl, by simp, fun i hi => absurd hi (Nat.not_lt_zero i), fun _ _ => rfl⟩

theorem Drawn.snoc (drawn : Drawn m row col f n d) (last : f n = c) (plain : Plain c) (rowIn : row < 25)
    (colIn : col + (n + 1) < 80) : Drawn m row col f (n + 1) (screenPutchar d c) := by
  have here : position d = row * 80 + (col + n) := by
    rw [position, drawn.cursorRow, drawn.cursorCol, width_eq]
  rw [screenPutchar, putchar_inRow plain (by rw [drawn.cursorRow]; exact rowIn) (by rw [drawn.cursorCol]; omega)]
  refine ⟨drawn.cursorRow, ?_, ?_, ?_⟩
  · rw [screenUpdateCursor_col]
    simp only [drawn.cursorCol]
    omega
  · intro i hi
    rw [screenUpdateCursor_memory, Cells.put_cell, here]
    by_cases behind : i = n
    · rw [if_pos (by omega), letter_cellOf, behind, last]
    · rw [if_neg (by omega)]
      exact drawn.shown i (by omega)
  · intro x outside
    rw [screenUpdateCursor_memory, Cells.put_cell, here, if_neg (by omega)]
    exact drawn.others x (by omega)

theorem Drawn.blank (drawn : Drawn m row col f n d) (rowIn : row < 25) (colIn : col + (n + 1) < 80) :
    Drawn m row col (fun i => if i < n then f i else 0x20) (n + 1) (screenPutchar d 0x20) := by
  have text : Drawn m row col (fun i => if i < n then f i else 0x20) n d := drawn.congr fun i hi => (if_pos hi).symm
  exact text.snoc (if_neg (Nat.lt_irrefl n)) ⟨by decide, by decide, by decide, by decide⟩ rowIn colIn

theorem draw_inRow (d : Display) (f : Nat → Byte) (n : Nat) (plain : ∀ i < n, Plain (f i)) (rowIn : d.cursorRow < 25)
    (colIn : d.cursorCol + n < 80) :
    Drawn d.videoMemory.cell d.cursorRow d.cursorCol f n (times (fun i d => screenPutchar d (f i)) n d) := by
  refine times_induction (P := fun k d' => Drawn d.videoMemory.cell d.cursorRow d.cursorCol f k d')
    (drawn_nothing d f) ?_
  intro k d' below drawn
  exact drawn.snoc rfl (plain k below) rowIn (by omega)

@[simp] theorem screenSetCursor_memory (d : Display) (row col : Int) :
    (screenSetCursor d row col).videoMemory = d.videoMemory := by
  rw [screenSetCursor]
  split <;> rfl

theorem screenSetCursor_cursor (rowIn : 0 ≤ row ∧ row < 25) (colIn : 0 ≤ col ∧ col < 80) :
    (screenSetCursor d row col).cursorRow = row ∧ (screenSetCursor d row col).cursorCol = col := by
  have inside : 0 ≤ row ∧ row < SCREEN_HEIGHT ∧ 0 ≤ col ∧ col < SCREEN_WIDTH := ⟨rowIn.1, rowIn.2, colIn⟩
  rw [screenSetCursor, if_pos inside]
  exact ⟨rfl, rfl⟩

end Runs

/-- The screen is blank from the cursor on. -/
structure Fresh (d : Display) : Prop where
  cursor : CursorIn d
  blank : ∀ x, position d ≤ x → x < 2000 → letter (d.videoMemory.cell x) = 0x20

section Fresh

variable {d : Display} {c : Byte}

theorem screenScroll_fresh (d : Display) : Fresh (screenScroll d) where
  cursor := by simp [CursorIn, screenScroll, SCREEN_HEIGHT]
  blank := by
    intro x low high
    have line : x = 24 * 80 + (x - 1920) := by omega
    simp only [position, screenScroll, SCREEN_HEIGHT, SCREEN_WIDTH] at low
    rw [line, (screenScroll_shifted d).last (x - 1920) (by omega) (by omega), letter_blank]

theorem newline_fresh (cursor : CursorIn d)
    (rest : ∀ x, (d.cursorRow + 1) * 80 ≤ x → x < 2000 → letter (d.videoMemory.cell x) = 0x20) :
    Fresh (screenPutcharInternal d 0x0A) := by
  obtain ⟨rowLow, rowHigh, -, -⟩ := cursor
  have moved : wrapLine (place d 0x0A) = { d with cursorCol := 0, cursorRow := d.cursorRow + 1 } := by
    rw [place, if_pos rfl, wrapLine_of_lt (by simp)]
  by_cases past : 25 ≤ d.cursorRow + 1
  · rw [screenPutcharInternal_of_le moved past]
    exact screenScroll_fresh _
  · rw [screenPutcharInternal_of_lt moved (Int.not_le.mp past)]
    refine ⟨⟨by simp only; omega, by simp only; omega, by simp, by simp⟩, ?_⟩
    intro x low high
    simp only [position, SCREEN_WIDTH] at low
    exact rest x (by omega) high

theorem Fresh.newline (fresh : Fresh d) : Fresh (screenPutcharInternal d 0x0A) := by
  obtain ⟨cursor, rest⟩ := fresh
  have right := cursor.2.2.2
  apply newline_fresh cursor
  intro x low high
  exact rest x (by simp only [position, SCREEN_WIDTH]; omega) high

/-- A plain character takes one cell of the blank rest, or the last one of the screen. -/
theorem Fresh.plain (fresh : Fresh d) (plain : Plain c) : Fresh (screenPutcharInternal d c) := by
  obtain ⟨⟨rowLow, rowHigh, colLow, colHigh⟩, rest⟩ := fresh
  have other : ∀ x, position d + 1 ≤ x → x < 2000 →
      letter ((d.videoMemory.put (position d) (cellOf d.currentColor c)).cell x) = 0x20 := by
    intro x low high
    rw [Cells.put_cell, if_neg (by omega)]
    exact rest x (by omega) high
  simp only [position, SCREEN_WIDTH] at other
  have placed := place_plain plain (s := d)
  by_cases wraps : 80 ≤ d.cursorCol + 1
  · have moved := congrArg wrapLine placed
    rw [wrapLine_of_le (s := { d with videoMemory := _, cursorCol := _ }) wraps] at moved
    by_cases past : 25 ≤ d.cursorRow + 1
    · rw [screenPutcharInternal_of_le moved past]
      exact screenScroll_fresh _
    · rw [screenPutcharInternal_of_lt moved (Int.not_le.mp past)]
      refine ⟨⟨by simp only; omega, by simp only; omega, by simp, by simp⟩, ?_⟩
      intro x low high
      simp only [position, SCREEN_WIDTH] at low ⊢
      exact other x (by omega) high
  · rw [putchar_inRow plain rowHigh (by omega)]
    refine ⟨⟨rowLow, rowHigh, by simp only; omega, by simp only; omega⟩, ?_⟩
    intro x low high
    simp only [position, SCREEN_WIDTH] at low ⊢
    exact other x (by omega) high

theorem Fresh.updateCursor (fresh : Fresh d) : Fresh (screenUpdateCursor d) := ⟨fresh.cursor, fresh.blank⟩

theorem Fresh.recolor (fresh : Fresh d) (color : Byte) : Fresh { d with currentColor := color } :=
  ⟨fresh.cursor, fresh.blank⟩

theorem Fresh.putChars {chars : List Byte} (fresh : Fresh d) (plain : ∀ c ∈ chars, Plain c) :
    Fresh (putChars d chars) := by
  induction chars generalizing d with
  | nil => exact fresh
  | cons c rest ih =>
    exact ih (fresh.plain (plain c List.mem_cons_self)) fun x hx => plain x (List.mem_cons_of_mem _ hx)

theorem Fresh.write {str : CStr} (fresh : Fresh d) (plain : ∀ c ∈ str.chars, Plain c) :
    Fresh (screenWrite d (some str)) := (fresh.putChars plain).updateCursor

theorem Fresh.writeColor {str : CStr} (fresh : Fresh d) (plain : ∀ c ∈ str.chars, Plain c) (color : Byte) :
    Fresh (screenWriteColor d (some str) color) :=
  (((fresh.recolor color).putChars plain).recolor d.currentColor).updateCursor

end Fresh

end Wittche.Screen
