import Wittche.Screen.Model

/-! The cursor stays on the screen and every access to the video memory goes to one of its
2000 cells, also inside a string. A character scrolls exactly when it moves the cursor
past the last row, and then by one row, behind the writing of its own cell. -/

namespace Wittche.Screen
open Bytes CString Traced

inductive ScreenOp
  | putchar (c : Byte)
  | write (str : Option CStr)
  | writeColor (str : Option CStr) (color : Byte)
  | writeDec (num : Word)
  | writeHex (num : Word)
  | setCursor (row col : Int)
  | setColor (color : Byte)
  | clear
  | scroll

def step (s : Display) : ScreenOp → Display
  | .putchar c => screenPutchar s c
  | .write str => screenWrite s str
  | .writeColor str color => screenWriteColor s str color
  | .writeDec num => screenWriteDec s num
  | .writeHex num => screenWriteHex s num
  | .setCursor row col => screenSetCursor s row col
  | .setColor color => screenSetColor s color
  | .clear => screenClear s
  | .scroll => screenScroll s

/-- The screen behind `screen_init`, with the accesses recorded from there on. -/
def start (s : Display) : Display := screenInit { s with videoMemory := ⟨s.videoMemory.cell, []⟩ }

def ScreenOp.chars : ScreenOp → List Byte
  | .putchar c => [c]
  | .write (some str) => str.chars
  | .writeColor (some str) _ => str.chars
  | .writeDec num => decText num
  | .writeHex num => hexText num
  | _ => []

def ScreenOp.color (s : Display) : ScreenOp → Byte
  | .writeColor _ color => color
  | _ => s.currentColor

/-- A call after `k` of its characters. -/
def partway (s : Display) (op : ScreenOp) (k : Nat) : Display :=
  putChars { s with currentColor := op.color s } (op.chars.take k)

structure Safe (s : Display) : Prop where
  row : 0 ≤ s.cursorRow ∧ s.cursorRow < 25
  col : 0 ≤ s.cursorCol ∧ s.cursorCol < 80
  memory : s.videoMemory.Within 2000

def ownCell (s : Display) (c : Byte) : Option (Int × Cell) :=
  if c = 0x0A ∨ c = 0x0D ∨ c = 0x09 then none
  else if c = 0x08 then if 0 < s.cursorCol then some (position s - 1, blank s.currentColor) else none
  else some (position s, cellOf s.currentColor c)

def inked (s : Display) (c : Byte) : Int → Cell :=
  match ownCell s c with
  | none => s.videoMemory.cell
  | some (i, x) => Function.update s.videoMemory.cell i x

/-- The row that a character moves the cursor to; 25 is past the last one. -/
def nextRow (s : Display) (c : Byte) : Int :=
  if c = 0x0A then s.cursorRow + 1
  else if c = 0x0D then s.cursorRow
  else if c = 0x09 then if 76 ≤ s.cursorCol then s.cursorRow + 1 else s.cursorRow
  else if c = 0x08 then if s.cursorCol = 0 ∧ 0 < s.cursorRow then s.cursorRow - 1 else s.cursorRow
  else if s.cursorCol = 79 then s.cursorRow + 1 else s.cursorRow

/-- Every row has moved to the one above it, and only the last one is blank. -/
structure ShiftedUp (color : Byte) (before after : Int → Cell) : Prop where
  rows : ∀ row col, 0 ≤ row → row < 24 → 0 ≤ col → col < 80 →
    after (row * 80 + col) = before ((row + 1) * 80 + col)
  last : ∀ col, 0 ≤ col → col < 80 → after (24 * 80 + col) = blank color

/-- What the character `c` does to the screen `s`, with `t` the screen behind it. -/
structure CharacterLaw (s : Display) (c : Byte) (t : Display) : Prop where
  scrolls : 25 ≤ nextRow s c → t.scrolls = s.scrolls + 1 ∧ ShiftedUp s.currentColor (inked s c) t.videoMemory.cell
  stays : nextRow s c < 25 → t.scrolls = s.scrolls ∧ t.videoMemory.cell = inked s c

theorem width_eq : SCREEN_WIDTH = 80 := rfl

section Scroll

variable (m : Cells Cell) (s : Display)

theorem rowsUp_cell (x : Int) :
    (rowsUp m).cell x = if 0 ≤ x ∧ x < 1920 then m.cell (x + 80) else m.cell x := by
  refine times_induction (n := 24)
    (P := fun k (t : Cells Cell) => ∀ x, t.cell x = if 0 ≤ x ∧ x < k * 80 then m.cell (x + 80) else m.cell x)
    (fun x => by rw [if_neg (by omega)]) ?_ x
  intro k t _ ih x
  rw [Cells.slideDown_cell _ _ (by decide), width_eq]
  by_cases row : (k : Int) * 80 ≤ x ∧ x < (k : Int) * 80 + (80 : Nat)
  · rw [if_pos row, if_pos (by omega), ih, if_neg (by omega)]
  · rw [if_neg row, ih]
    grind

theorem rowsUp_within (old : m.Within 2000) : (rowsUp m).Within 2000 :=
  times_induction (n := 24) (P := fun _ (m : Cells Cell) => m.Within 2000) old fun k t below inside =>
    inside.slideDown (by simp only [SCREEN_WIDTH]; omega) (by decide) (by simp only [SCREEN_WIDTH]; omega)

theorem screenScroll_shifted : ShiftedUp s.currentColor s.videoMemory.cell (screenScroll s).videoMemory.cell := by
  refine ⟨?_, ?_⟩
  · intro row col lo hi lo' hi'
    simp only [screenScroll, SCREEN_WIDTH]
    rw [Cells.fill_cell, if_neg (by omega), rowsUp_cell, if_pos (by omega)]
    congr 1
    omega
  · intro col lo hi
    simp only [screenScroll, SCREEN_WIDTH]
    rw [Cells.fill_cell, if_pos (by omega)]

theorem screenScroll_safe (old : s.videoMemory.Within 2000) : Safe (screenScroll s) where
  row := by simp [screenScroll, SCREEN_HEIGHT]
  col := by simp [screenScroll]
  memory := (rowsUp_within _ old).fill (by decide) (by decide)

end Scroll

/-- A character that is put into the cell under the cursor. -/
structure Plain (c : Byte) : Prop where
  newline : c ≠ 0x0A
  carriageReturn : c ≠ 0x0D
  tab : c ≠ 0x09
  backspace : c ≠ 0x08

theorem character_cases (c : Byte) : c = 0x0A ∨ c = 0x0D ∨ c = 0x09 ∨ c = 0x08 ∨ Plain c := by
  by_cases newline : c = 0x0A
  · exact Or.inl newline
  by_cases carriageReturn : c = 0x0D
  · exact Or.inr (Or.inl carriageReturn)
  by_cases tab : c = 0x09
  · exact Or.inr (Or.inr (Or.inl tab))
  by_cases backspace : c = 0x08
  · exact Or.inr (Or.inr (Or.inr (Or.inl backspace)))
  · exact Or.inr (Or.inr (Or.inr (Or.inr ⟨newline, carriageReturn, tab, backspace⟩)))

section Character

variable {s : Display} {c : Byte}

theorem place_plain (plain : Plain c) : place s c = { s with
    videoMemory := s.videoMemory.put (position s) (cellOf s.currentColor c)
    cursorCol := s.cursorCol + 1 } := by
  rw [place, if_neg plain.newline, if_neg plain.carriageReturn, if_neg plain.tab, if_neg plain.backspace]

theorem place_backspace (s : Display) : place s 0x08 =
    if 0 < s.cursorCol then
      { s with
        cursorCol := s.cursorCol - 1
        videoMemory := s.videoMemory.put (position s - 1) (blank s.currentColor) }
    else if 0 < s.cursorRow then { s with cursorRow := s.cursorRow - 1, cursorCol := SCREEN_WIDTH - 1 }
    else s := by
  have before : s.cursorRow * SCREEN_WIDTH + (s.cursorCol - 1) = position s - 1 := by
    rw [position]
    omega
  rw [place, if_neg (by decide), if_neg (by decide), if_neg (by decide), if_pos rfl]
  simp only [position] at before ⊢
  rw [before]

theorem ownCell_plain (plain : Plain c) : ownCell s c = some (position s, cellOf s.currentColor c) := by
  have noControl : ¬(c = 0x0A ∨ c = 0x0D ∨ c = 0x09) := by
    simp only [not_or]
    exact ⟨plain.newline, plain.carriageReturn, plain.tab⟩
  rw [ownCell, if_neg noControl, if_neg plain.backspace]

theorem ownCell_backspace (s : Display) : ownCell s 0x08 =
    if 0 < s.cursorCol then some (position s - 1, blank s.currentColor) else none := by
  rw [ownCell, if_neg (by decide), if_pos rfl]

theorem place_cell (s : Display) (c : Byte) : (place s c).videoMemory.cell = inked s c := by
  rcases character_cases c with rfl | rfl | rfl | rfl | plain
  · rfl
  · rfl
  · rfl
  · rw [place_backspace, inked, ownCell_backspace]
    split_ifs <;> rfl
  · rw [place_plain plain, inked, ownCell_plain plain]
    rfl

theorem place_cursor (safe : Safe s) (c : Byte) :
    (place s c).cursorCol ≤ 80 ∧ 0 ≤ (place s c).cursorCol ∧ 0 ≤ (place s c).cursorRow ∧
    (wrapLine (place s c)).cursorRow = nextRow s c := by
  obtain ⟨row, row'⟩ := safe.row
  obtain ⟨col, col'⟩ := safe.col
  rcases character_cases c with rfl | rfl | rfl | rfl | plain
  · simp [place, wrapLine, nextRow, SCREEN_WIDTH]
    omega
  · simp [place, wrapLine, nextRow, SCREEN_WIDTH]
    omega
  · simp only [place, wrapLine, nextRow, SCREEN_WIDTH]
    grind
  · simp only [place, wrapLine, nextRow, SCREEN_WIDTH]
    grind
  · rw [place_plain plain]
    simp only [wrapLine, nextRow, SCREEN_WIDTH]
    grind [Plain]

theorem place_within (safe : Safe s) (c : Byte) : (place s c).videoMemory.Within 2000 := by
  obtain ⟨row, row'⟩ := safe.row
  obtain ⟨col, col'⟩ := safe.col
  have old := safe.memory
  rcases character_cases c with rfl | rfl | rfl | rfl | plain
  · exact old
  · exact old
  · exact old
  · rw [place_backspace]
    split_ifs
    · apply old.put
      · simp only [position, SCREEN_WIDTH]
        omega
      · simp only [position, SCREEN_WIDTH]
        omega
    · exact old
    · exact old
  · rw [place_plain plain]
    apply old.put
    · simp only [position, SCREEN_WIDTH]
      omega
    · simp only [position, SCREEN_WIDTH]
      omega

@[simp] theorem wrapLine_memory (s : Display) : (wrapLine s).videoMemory = s.videoMemory := by
  rw [wrapLine]
  split <;> rfl

@[simp] theorem wrapLine_color (s : Display) : (wrapLine s).currentColor = s.currentColor := by
  rw [wrapLine]
  split <;> rfl

@[simp] theorem wrapLine_scrolls (s : Display) : (wrapLine s).scrolls = s.scrolls := by
  rw [wrapLine]
  split <;> rfl

@[simp] theorem place_color (s : Display) (c : Byte) : (place s c).currentColor = s.currentColor := by
  rw [place]
  split_ifs <;> rfl

@[simp] theorem place_scrolls (s : Display) (c : Byte) : (place s c).scrolls = s.scrolls := by
  rw [place]
  split_ifs <;> rfl

theorem wrapLine_of_lt (inside : s.cursorCol < 80) : wrapLine s = s := if_neg (Int.not_le.mpr inside)

theorem wrapLine_of_le (full : 80 ≤ s.cursorCol) :
    wrapLine s = { s with cursorCol := 0, cursorRow := s.cursorRow + 1 } := if_pos full

theorem screenPutcharInternal_of_lt {t : Display} (moved : wrapLine (place s c) = t) (inside : t.cursorRow < 25) :
    screenPutcharInternal s c = t := by
  rw [screenPutcharInternal, moved]
  exact if_neg (Int.not_le.mpr inside)

theorem screenPutcharInternal_of_le {t : Display} (moved : wrapLine (place s c) = t) (past : 25 ≤ t.cursorRow) :
    screenPutcharInternal s c = screenScroll t := by
  rw [screenPutcharInternal, moved]
  exact if_pos past

theorem screenPutcharInternal_safe (safe : Safe s) (c : Byte) : Safe (screenPutcharInternal s c) := by
  obtain ⟨width, left, top, next⟩ := place_cursor safe c
  have memory : (wrapLine (place s c)).videoMemory.Within 2000 := by
    rw [wrapLine_memory]
    exact place_within safe c
  rw [screenPutcharInternal]
  split
  next => exact screenScroll_safe _ memory
  next below =>
    simp only [SCREEN_HEIGHT] at below
    refine ⟨⟨?_, by omega⟩, ?_, memory⟩
    · rw [wrapLine]
      split
      next => simp only; omega
      next => exact top
    · rw [wrapLine]
      split
      next => simp
      next => simp only [SCREEN_WIDTH] at *; omega

theorem screenPutcharInternal_law (safe : Safe s) (c : Byte) : CharacterLaw s c (screenPutcharInternal s c) := by
  obtain ⟨-, -, -, next⟩ := place_cursor safe c
  have memory : (wrapLine (place s c)).videoMemory.cell = inked s c := by
    rw [wrapLine_memory, place_cell]
  refine ⟨?_, ?_⟩
  · intro past
    rw [screenPutcharInternal, if_pos (by simp only [SCREEN_HEIGHT]; omega)]
    refine ⟨by simp [screenScroll], ?_⟩
    have shifted := screenScroll_shifted (wrapLine (place s c))
    rwa [memory, wrapLine_color, place_color] at shifted
  · intro inside
    rw [screenPutcharInternal, if_neg (by simp only [SCREEN_HEIGHT]; omega)]
    exact ⟨by simp, memory⟩

end Character

section Calls

variable {s : Display}

theorem Safe.recolor (safe : Safe s) (color : Byte) : Safe { s with currentColor := color } :=
  ⟨safe.row, safe.col, safe.memory⟩

theorem Safe.updateCursor (safe : Safe s) : Safe (screenUpdateCursor s) := ⟨safe.row, safe.col, safe.memory⟩

theorem Safe.putChars (safe : Safe s) (chars : List Byte) : Safe (putChars s chars) := by
  induction chars generalizing s with
  | nil => exact safe
  | cons c rest ih => exact ih (screenPutcharInternal_safe safe c)

theorem wipe_safe (old : s.videoMemory.Within 2000) (color : Byte) : Safe (wipe s color) where
  row := by simp [wipe, screenUpdateCursor]
  col := by simp [wipe, screenUpdateCursor]
  memory := old.fill (by decide) (by decide)

theorem start_safe (s : Display) : Safe (start s) := by
  apply wipe_safe
  intro i hi
  exact absurd hi List.not_mem_nil

theorem screenSetCursor_safe (safe : Safe s) (row col : Int) : Safe (screenSetCursor s row col) := by
  rw [screenSetCursor]
  split
  next inside => exact ⟨⟨inside.1, inside.2.1⟩, inside.2.2, safe.memory⟩
  next => exact safe

theorem step_safe (safe : Safe s) (op : ScreenOp) : Safe (step s op) := by
  cases op with
  | putchar c => exact (screenPutcharInternal_safe safe c).updateCursor
  | write str =>
    cases str with
    | none => exact safe
    | some str => exact (safe.putChars str.chars).updateCursor
  | writeColor str color =>
    cases str with
    | none => exact safe
    | some str => exact (((safe.recolor color).putChars str.chars).recolor s.currentColor).updateCursor
  | writeDec num => exact (safe.putChars (decText num)).updateCursor
  | writeHex num => exact (safe.putChars (hexText num)).updateCursor
  | setCursor row col => exact screenSetCursor_safe safe row col
  | setColor color => exact safe.recolor color
  | clear => exact wipe_safe safe.memory s.currentColor
  | scroll => exact screenScroll_safe s safe.memory

theorem run_safe (safe : Safe s) (ops : List ScreenOp) : Safe (ops.foldl step s) := by
  induction ops generalizing s with
  | nil => exact safe
  | cons op rest ih => exact ih (step_safe safe op)

theorem step_memory (s : Display) {op : ScreenOp} (prints : op.chars ≠ []) :
    (step s op).videoMemory = (partway s op op.chars.length).videoMemory := by
  rw [partway, List.take_length]
  cases op with
  | putchar c => rfl
  | write str =>
    cases str with
    | none => exact absurd rfl prints
    | some str => rfl
  | writeColor str color =>
    cases str with
    | none => exact absurd rfl prints
    | some str => rfl
  | writeDec num => rfl
  | writeHex num => rfl
  | setCursor row col => exact absurd rfl prints
  | setColor color => exact absurd rfl prints
  | clear => exact absurd rfl prints
  | scroll => exact absurd rfl prints

theorem partway_safe (safe : Safe s) (op : ScreenOp) (k : Nat) : Safe (partway s op k) :=
  (safe.recolor _).putChars _

theorem partway_succ {op : ScreenOp} {k : Nat} {c : Byte} (at_k : op.chars[k]? = some c) :
    partway s op (k + 1) = screenPutcharInternal (partway s op k) c := by
  rw [partway, partway, List.take_add_one, at_k, putChars, putChars, List.foldl_append]
  rfl

/-- From `screen_init` on, in every sequence of calls: the cursor is on the screen and the
video memory was accessed only at its 2000 cells, behind each call and behind each
character of a call; and each character keeps the law of scrolling. -/
theorem screen_runs_safe (s : Display) (ops : List ScreenOp) :
    Safe (ops.foldl step (start s)) ∧
    ∀ op : ScreenOp,
      (op.chars ≠ [] → (step (ops.foldl step (start s)) op).videoMemory =
        (partway (ops.foldl step (start s)) op op.chars.length).videoMemory) ∧
      ∀ (k : Nat) (c : Byte), op.chars[k]? = some c →
        Safe (partway (ops.foldl step (start s)) op k) ∧
        CharacterLaw (partway (ops.foldl step (start s)) op k) c
          (partway (ops.foldl step (start s)) op (k + 1)) := by
  have safe : Safe (ops.foldl step (start s)) := run_safe (start_safe s) ops
  refine ⟨safe, fun op => ⟨step_memory _, ?_⟩⟩
  intro k c at_k
  have before := partway_safe safe op k
  refine ⟨before, ?_⟩
  rw [partway_succ at_k]
  exact screenPutcharInternal_law before c

end Calls

end Wittche.Screen
