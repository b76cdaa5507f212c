import Wittche.Screen.Drawing

/-! Text in a colour of its own, from the cursor on and over the ends of rows. A character is
signed when it is put together with the colour, so one above 127 has the colour byte 0xFF. -/

namespace Wittche.Screen
open Bytes CString Traced

/-- What `chars` leave on the screen `t` when they are put from the cursor of `s` on, each cell
given by `ink`. -/
structure Advanced (s : Display) (chars : List Byte) (ink : Byte → Cell) (t : Display) : Prop where
  cells : ∀ (i : Nat) (c : Byte), chars[i]? = some c → t.videoMemory.cell (position s + i) = ink c
  others : ∀ x, x < position s ∨ position s + chars.length ≤ x → t.videoMemory.cell x = s.videoMemory.cell x
  cursor : CursorIn t ∧ position t = position s + chars.length

section Forward

variable {s t : Display} {c : Byte} {chars : List Byte}

theorem putchar_forward (cursor : CursorIn s) (plain : Plain c) (room : position s + 1 < 2000) :
    CursorIn (screenPutcharInternal s c) ∧ position (screenPutcharInternal s c) = position s + 1 ∧
      (screenPutcharInternal s c).currentColor = s.currentColor ∧
      (screenPutcharInternal s c).videoMemory = s.videoMemory.put (position s) (cellOf s.currentColor c) := by
  obtain ⟨rowLow, rowHigh, colLow, colHigh⟩ := cursor
  have place : position s = s.cursorRow * 80 + s.cursorCol := rfl
  by_cases wraps : 80 ≤ s.cursorCol + 1
  · have moved := congrArg wrapLine (place_plain plain (s := s))
    rw [wrapLine_of_le (s := { s with videoMemory := _, cursorCol := _ }) wraps] at moved
    rw [screenPutcharInternal_of_lt moved (show s.cursorRow + 1 < 25 by omega)]
    refine ⟨⟨?_, ?_, by simp, by simp⟩, ?_, rfl, rfl⟩
    · simp only
      omega
    · simp only
      omega
    · simp only [position, SCREEN_WIDTH]
      omega
  · rw [putchar_inRow plain rowHigh (by omega)]
    refine ⟨⟨rowLow, rowHigh, ?_, ?_⟩, ?_, rfl, rfl⟩
    · simp only
      omega
    · simp only
      omega
    · simp only [position, SCREEN_WIDTH]
      omega

theorem putChars_forward (cursor : CursorIn s) (plain : ∀ c ∈ chars, Plain c)
    (room : position s + chars.length < 2000) : Advanced s chars (cellOf s.currentColor) (putChars s chars) := by
  induction chars generalizing s with
  | nil => exact ⟨fun i c hc => by simp at hc, fun _ _ => rfl, cursor, by simp [putChars]⟩
  | cons c rest ih =>
    rw [List.length_cons] at room
    obtain ⟨cursor', next, color, memory⟩ :=
      putchar_forward cursor (plain c List.mem_cons_self) (show position s + 1 < 2000 by omega)
    obtain ⟨cells, others, cursor'', last⟩ := ih cursor' (fun x hx => plain x (List.mem_cons_of_mem _ hx)) (by omega)
    rw [next] at cells others last
    rw [color] at cells
    rw [memory] at others
    change Advanced s (c :: rest) _ (putChars (screenPutcharInternal s c) rest)
    refine ⟨fun i x hx => ?_, fun x outside => ?_, cursor'', ?_⟩
    · cases i with
      | zero =>
        obtain rfl : c = x := by simpa using hx
        rw [others _ (Or.inl (by simp)), Cells.put_cell, if_pos (by simp)]
      | succ i =>
        have cell := cells i x (by simpa using hx)
        rwa [show position s + 1 + (i : Int) = position s + ((i + 1 : Nat) : Int) by omega] at cell
    · rw [List.length_cons] at outside
      rw [others x (by omega), Cells.put_cell, if_neg (by omega)]
    · rw [last, List.length_cons]
      omega

end Forward

theorem cellOf_append (color c : Byte) : cellOf color c = (if c.msb then BitVec.allOnes 8 else color) ++ c := by
  apply BitVec.eq_of_getLsbD_eq
  intro i hi
  rw [cellOf, BitVec.getLsbD_append, BitVec.getLsbD_or, BitVec.getLsbD_signExtend, BitVec.getLsbD_shiftLeft]
  by_cases low : i < 8
  · simp [low, hi]
  · have high : i - 8 < 8 := by omega
    have inside : i - 8 < 16 := by omega
    cases c.msb with
    | true =>
      rw [if_pos rfl, BitVec.getLsbD_allOnes]
      simp [low, hi, high]
    | false => simp [low, hi, inside]

theorem cellOf_eq_iff (color c : Byte) : cellOf color c = color ++ c ↔ c.toNat < 0x80 ∨ color = 0xFF := by
  rw [cellOf_append, BitVec.append_left_inj, BitVec.msb_eq_decide]
  split
  next wide =>
    have above : ¬c.toNat < 0x80 := by simpa using wide
    rw [or_iff_right above, eq_comm]
    rfl
  next narrow =>
    have below : c.toNat < 0x80 := by simpa using narrow
    exact iff_of_true rfl (Or.inl below)

/-- The text stands behind the cursor in the given colour, nothing else has changed, the cursor
is behind it and the current colour is the old one. -/
structure Rendered (s : Display) (chars : List Byte) (color : Byte) (t : Display) : Prop where
  text : Advanced s chars (fun c => color ++ c) t
  restored : t.currentColor = s.currentColor

theorem screenWriteColor_rendered_iff (s : Display) (str : CStr) (color : Byte) (cursor : CursorIn s)
    (plain : ∀ c ∈ str.chars, Plain c) (room : position s + str.length < 2000) :
    Rendered s str.chars color (screenWriteColor s (some str) color) ↔
      (∀ c ∈ str.chars, c.toNat < 0x80) ∨ color = 0xFF := by
  obtain ⟨cells, others, cursor'⟩ := putChars_forward (s := { s with currentColor := color }) cursor plain room
  constructor
  · rintro ⟨⟨right, -, -⟩, -⟩
    by_contra bad
    obtain ⟨wide, notWhite⟩ := not_or.mp bad
    apply wide
    intro c hc
    obtain ⟨i, hi⟩ := List.mem_iff_getElem?.mp hc
    have same : cellOf color c = color ++ c := (cells i c hi).symm.trans (right i c hi)
    exact ((cellOf_eq_iff color c).mp same).resolve_right notWhite
  · intro good
    refine ⟨⟨fun i c hc => ?_, others, cursor'⟩, rfl⟩
    have ink : cellOf color c = color ++ c := by
      rw [cellOf_eq_iff]
      exact good.imp_left fun narrow => narrow c (List.mem_iff_getElem?.mpr ⟨i, hc⟩)
    exact (cells i c hc).trans ink

/-- `Hi` in red over the end of the first row. -/
theorem screenWriteColor_rendered_iff_wrapped :
    Rendered { blankDisplay with cursorCol := 79 } [0x48, 0x69] 0x04
      (screenWriteColor { blankDisplay with cursorCol := 79 } (some ⟨[0x48, 0x69], by decide⟩) 0x04) := by
  refine (screenWriteColor_rendered_iff _ ⟨[0x48, 0x69], by decide⟩ 0x04 ?_ ?_ ?_).mpr (Or.inl (by decide))
  · exact ⟨by decide, by decide, by decide, by decide⟩
  · intro c hc
    have letters : c = 0x48 ∨ c = 0x69 := by simpa using hc
    rcases letters with rfl | rfl <;> exact ⟨by decide, by decide, by decide, by decide⟩
  · decide

/-- The byte 0xE9 in light grey comes out bright white on bright white. -/
theorem wide_character_recoloured :
    ¬Rendered blankDisplay [0xE9] 0x07 (screenWriteColor blankDisplay (some ⟨[0xE9], by decide⟩) 0x07) := by
  intro h
  have cell := h.text.cells 0 0xE9 rfl
  revert cell
  decide

end Wittche.Screen
