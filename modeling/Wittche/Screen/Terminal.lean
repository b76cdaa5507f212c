import Wittche.Lib.Tables
import Wittche.Screen.Drawing

/-! The screen as the last rows of an unbounded page. On the page nothing is ever moved: a text
goes on in the next row, and what has left the screen at the top stays as it was. -/

namespace Wittche.Screen
open Bytes CString Traced Tables

structure Page where
  cell : Nat → Nat → Cell
  row : Nat
  col : Nat
  /-- The first row that is on the screen. -/
  top : Nat

namespace Page

def wrapped (row col : Nat) : Nat × Nat := if 80 ≤ col then (row + 1, 0) else (row, col)

def next (p : Page) (c : Byte) : Nat × Nat :=
  if c = 0x0A then (p.row + 1, 0)
  else if c = 0x0D then (p.row, 0)
  else if c = 0x09 then wrapped p.row ((p.col + 4) / 4 * 4)
  else if c = 0x08 then
    if 0 < p.col then (p.row, p.col - 1) else if p.top < p.row then (p.row - 1, 79) else (p.row, 0)
  else wrapped p.row (p.col + 1)

def inked (p : Page) (color c : Byte) : Nat → Nat → Cell :=
  if c = 0x0A ∨ c = 0x0D ∨ c = 0x09 then p.cell
  else if c = 0x08 then if 0 < p.col then put p.cell p.row (p.col - 1) (blank color) else p.cell
  else put p.cell p.row p.col (cellOf color c)

def reveal (p : Page) (color : Byte) : Page :=
  if p.top + 25 ≤ p.row then
    { p with cell := Function.update p.cell p.row (fun _ => blank color), top := p.top + 1 }
  else p

def type (p : Page) (color c : Byte) : Page :=
  reveal { p with cell := p.inked color c, row := (p.next c).1, col := (p.next c).2 } color

def typeAll (p : Page) (text : List (Byte × Byte)) : Page := text.foldl (fun p x => p.type x.1 x.2) p

end Page

def putColored (d : Display) (text : List (Byte × Byte)) : Display :=
  text.foldl (fun d x => screenPutcharInternal { d with currentColor := x.1 } x.2) d

/-- Up to 26 rows of the page from `top` on are those of the screen, whose cursor may have gone
below its last row. -/
structure Matches (p : Page) (d : Display) : Prop where
  top : p.top ≤ p.row
  row : d.cursorRow = ((p.row - p.top : Nat) : Int)
  col : d.cursorCol = p.col
  width : p.col < 80
  cells : ∀ i j : Nat, i < 25 → j < 80 → d.videoMemory.cell ((i : Int) * 80 + j) = p.cell (p.top + i) j

/-- The screen shows the page. -/
structure Shows (p : Page) (d : Display) : Prop extends Matches p d where
  bottom : p.row < p.top + 25

variable {p : Page} {d : Display} {c : Byte}

theorem Shows.put_cell (shows : Shows p d) {k : Nat} (below : k < 80) (x : Cell) {i j : Nat} (hi : i < 25) (hj : j < 80) :
    Function.update d.videoMemory.cell (d.cursorRow * 80 + k) x ((i : Int) * 80 + j) =
      put p.cell p.row k x (p.top + i) j := by
  have row := shows.row
  have top := shows.top
  rw [put_apply]
  by_cases here : p.top + i = p.row ∧ j = k
  · have index : (i : Int) * 80 + j = d.cursorRow * 80 + k := by omega
    rw [if_pos here, index, Function.update_self]
  · have index : (i : Int) * 80 + j ≠ d.cursorRow * 80 + k := by omega
    rw [if_neg here, Function.update_of_ne index]
    exact shows.cells i j hi hj

theorem Shows.inked (shows : Shows p d) (c : Byte) {i j : Nat} (hi : i < 25) (hj : j < 80) :
    Screen.inked d c ((i : Int) * 80 + j) = p.inked d.currentColor c (p.top + i) j := by
  have col := shows.col
  have width := shows.width
  rcases character_cases c with rfl | rfl | rfl | rfl | plain
  · exact shows.cells i j hi hj
  · exact shows.cells i j hi hj
  · exact shows.cells i j hi hj
  · have page : p.inked d.currentColor 0x08 =
        if 0 < p.col then put p.cell p.row (p.col - 1) (blank d.currentColor) else p.cell := by
      rw [Page.inked, if_neg (by decide), if_pos rfl]
    rw [page, Screen.inked, ownCell_backspace]
    by_cases left : 0 < p.col
    · have before : position d - 1 = d.cursorRow * 80 + ((p.col - 1 : Nat) : Int) := by
        simp only [position, SCREEN_WIDTH]
        omega
      rw [if_pos (by omega), if_pos left, before]
      exact shows.put_cell (by omega) _ hi hj
    · rw [if_neg (by omega), if_neg left]
      exact shows.cells i j hi hj
  · have here : position d = d.cursorRow * 80 + (p.col : Int) := by
      simp only [position, SCREEN_WIDTH]
      omega
    have noControl : ¬(c = 0x0A ∨ c = 0x0D ∨ c = 0x09) := by
      simp only [not_or]
      exact ⟨plain.newline, plain.carriageReturn, plain.tab⟩
    rw [Screen.inked, ownCell_plain plain, Page.inked, if_neg noControl, if_neg plain.backspace, here]
    exact shows.put_cell width _ hi hj

theorem Shows.placed (shows : Shows p d) (c : Byte) :
    Matches { p with cell := p.inked d.currentColor c, row := (p.next c).1, col := (p.next c).2 }
      (wrapLine (place d c)) := by
  have row := shows.row
  have col := shows.col
  have top := shows.top
  have width := shows.width
  have cells : ∀ i j : Nat, i < 25 → j < 80 →
      (wrapLine (place d c)).videoMemory.cell ((i : Int) * 80 + j) = p.inked d.currentColor c (p.top + i) j := by
    intro i j hi hj
    rw [wrapLine_memory, place_cell]
    exact shows.inked c hi hj
  have cursor : p.top ≤ (p.next c).1 ∧ (wrapLine (place d c)).cursorRow = (((p.next c).1 - p.top : Nat) : Int) ∧
      (wrapLine (place d c)).cursorCol = ((p.next c).2 : Int) ∧ (p.next c).2 < 80 := by
    rcases character_cases c with rfl | rfl | rfl | rfl | plain
    · simp [place, wrapLine, Page.next, SCREEN_WIDTH]
      omega
    · simp [place, wrapLine, Page.next, SCREEN_WIDTH]
      omega
    · simp only [place, wrapLine, Page.next, Page.wrapped, SCREEN_WIDTH]
      grind
    · simp only [place, wrapLine, Page.next, Page.wrapped, SCREEN_WIDTH]
      grind
    · rw [place_plain plain]
      simp only [wrapLine, Page.next, Page.wrapped, SCREEN_WIDTH]
      grind [Plain]
  exact ⟨cursor.1, cursor.2.1, cursor.2.2.1, cursor.2.2.2, cells⟩

theorem Matches.revealed (matched : Matches p d) (bottom : p.row ≤ p.top + 25) (home : p.top + 25 ≤ p.row → p.col = 0) :
    Shows (p.reveal d.currentColor) (if SCREEN_HEIGHT ≤ d.cursorRow then screenScroll d else d) := by
  have row := matched.row
  have top := matched.top
  rw [Page.reveal]
  by_cases past : p.top + 25 ≤ p.row
  · have shifted := screenScroll_shifted d
    rw [if_pos past, if_pos (by simp only [SCREEN_HEIGHT]; omega)]
    refine ⟨⟨?_, ?_, ?_, matched.width, ?_⟩, ?_⟩
    · simp only
      omega
    · simp only [screenScroll, SCREEN_HEIGHT]
      omega
    · simp only [screenScroll, home past]
      rfl
    · intro i j hi hj
      show _ = Function.update p.cell p.row (fun _ => blank d.currentColor) (p.top + 1 + i) j
      by_cases last : i = 24
      · have fresh : p.top + 1 + i = p.row := by omega
        have index : (i : Int) * 80 + j = 24 * 80 + j := by omega
        rw [index, shifted.last j (by omega) (by omega), fresh, Function.update_self]
      · have kept : p.top + 1 + i ≠ p.row := by omega
        have above := matched.cells (i + 1) j (by omega) hj
        rw [shifted.rows i j (by omega) (by omega) (by omega) (by omega), Function.update_of_ne kept]
        rwa [Nat.add_assoc, Nat.add_comm 1]
    · simp only
      omega
  · rw [if_neg past, if_neg (by simp only [SCREEN_HEIGHT]; omega)]
    exact ⟨matched, by omega⟩

theorem Shows.type (shows : Shows p d) (c : Byte) :
    Shows (p.type d.currentColor c) (screenPutcharInternal d c) := by
  have top := shows.top
  have bottom := shows.bottom
  have width := shows.width
  have cursor : (p.next c).1 ≤ p.top + 25 ∧ (p.top + 25 ≤ (p.next c).1 → (p.next c).2 = 0) := by
    simp only [Page.next, Page.wrapped]
    grind
  have color : (wrapLine (place d c)).currentColor = d.currentColor := by rw [wrapLine_color, place_color]
  have revealed := (shows.placed c).revealed cursor.1 cursor.2
  rwa [color] at revealed

theorem Shows.recolor (shows : Shows p d) (color : Byte) : Shows p { d with currentColor := color } :=
  ⟨⟨shows.top, shows.row, shows.col, shows.width, shows.cells⟩, shows.bottom⟩

/-- Whatever is written, the screen shows the last rows of the page. -/
theorem putColored_shows (shows : Shows p d) (text : List (Byte × Byte)) :
    Shows (p.typeAll text) (putColored d text) := by
  induction text generalizing p d with
  | nil => exact shows
  | cons x text ih => exact ih ((shows.recolor x.1).type x.2)

section Above

theorem Page.type_top (p : Page) (color c : Byte) : p.top ≤ (p.type color c).top := by
  rw [Page.type, Page.reveal]
  split
  · exact Nat.le_succ _
  · exact Nat.le_refl _

theorem Page.type_above (p : Page) (color c : Byte) (start : p.top ≤ p.row) {r : Nat} (above : r < p.top) :
    (p.type color c).cell r = p.cell r := by
  have inked : p.inked color c r = p.cell r := by
    rw [Page.inked]
    split_ifs
    · rfl
    · exact put_other (by omega) ..
    · rfl
    · exact put_other (by omega) ..
  rw [Page.type, Page.reveal]
  split
  next past =>
    have ne : r ≠ (p.next c).1 := by
      simp only at past
      omega
    rw [← inked]
    exact Function.update_of_ne ne _ _
  next => exact inked

theorem Shows.type_scrolls (shows : Shows p d) (c : Byte) :
    (screenPutcharInternal d c).scrolls + p.top = d.scrolls + (p.type d.currentColor c).top := by
  have placed := shows.placed c
  have row := placed.row
  have top := placed.top
  have before : (wrapLine (place d c)).scrolls = d.scrolls := by rw [wrapLine_scrolls, place_scrolls]
  simp only at row top
  rw [screenPutcharInternal, Page.type, Page.reveal]
  by_cases past : p.top + 25 ≤ (p.next c).1
  · rw [if_pos past, if_pos (by simp only [SCREEN_HEIGHT]; omega)]
    simp only [screenScroll, before]
    omega
  · rw [if_neg past, if_neg (by simp only [SCREEN_HEIGHT]; omega), before]

theorem putColored_above (shows : Shows p d) (text : List (Byte × Byte)) :
    (∀ r, r < p.top → (p.typeAll text).cell r = p.cell r) ∧
      (putColored d text).scrolls + p.top = d.scrolls + (p.typeAll text).top := by
  induction text generalizing p d with
  | nil => exact ⟨fun r _ => rfl, rfl⟩
  | cons x text ih =>
    have next := (shows.recolor x.1).type x.2
    obtain ⟨rows, scrolls⟩ := ih next
    have one := (shows.recolor x.1).type_scrolls x.2
    refine ⟨fun r above => ?_, ?_⟩
    · have below := p.type_top x.1 x.2
      exact (rows r (by simp only; omega)).trans (p.type_above x.1 x.2 shows.top above)
    · simp only [Page.typeAll, putColored, List.foldl_cons] at scrolls one ⊢
      omega

end Above

/-- The screen refines the page: whatever is written in whatever colours, it goes on showing the
last rows of the page, and what has left it stays on the page. -/
theorem screen_refines_page (shows : Shows p d) (text : List (Byte × Byte)) :
    Shows (p.typeAll text) (putColored d text) ∧ (∀ r, r < p.top → (p.typeAll text).cell r = p.cell r) ∧
      (putColored d text).scrolls + p.top = d.scrolls + (p.typeAll text).top :=
  ⟨putColored_shows shows text, putColored_above shows text⟩

def blankPage (color : Byte) : Page := ⟨fun _ _ => blank color, 0, 0, 0⟩

theorem screenClear_shows (d : Display) : Shows (blankPage d.currentColor) (screenClear d) := by
  refine ⟨⟨Nat.le_refl _, rfl, rfl, show 0 < 80 by decide, fun i j hi hj => ?_⟩, show 0 < 0 + 25 by decide⟩
  simp only [screenClear, wipe, screenUpdateCursor]
  rw [Cells.fill_cell, if_pos (by omega)]
  rfl

def thirtyLines : List Byte := (List.range 30).flatMap fun k => [BitVec.ofNat 8 (0x41 + k), 0x0A]

theorem screen_refines_page_clear :
    let text := thirtyLines.map fun c => (0x0C, c)
    Shows ((blankPage blankDisplay.currentColor).typeAll text) (putColored (screenClear blankDisplay) text) ∧
      (putColored (screenClear blankDisplay) text).scrolls = 6 := by
  intro text
  obtain ⟨shows, -, scrolls⟩ := screen_refines_page (screenClear_shows blankDisplay) text
  have top : ((blankPage blankDisplay.currentColor).typeAll text).top = 6 := by decide +kernel
  have start : (blankPage blankDisplay.currentColor).top = 0 ∧ (screenClear blankDisplay).scrolls = 0 := ⟨rfl, rfl⟩
  rw [top, start.1, start.2, Nat.zero_add, Nat.add_zero] at scrolls
  exact ⟨shows, scrolls⟩

section Text

/-- The lines of a text on a page of 80 columns, with `line` in front of it. -/
def textLines : (line : List Byte) → List Byte → List (List Byte)
  | line, [] => [line]
  | line, c :: text =>
    if c = 0x0A then line :: textLines [] text
    else if line.length = 79 then (line ++ [c]) :: textLines [] text
    else textLines (line ++ [c]) text

/-- What is at row `r` and column `j` of a page with these lines. -/
def glyph (color : Byte) (lines : List (List Byte)) (r j : Nat) : Cell :=
  match lines[r]?.bind fun text => text[j]? with
  | none => blank color
  | some c => cellOf color c

/-- A page with some lines and the cursor behind the last of them. -/
structure Written (color : Byte) (lines : List (List Byte)) (line : List Byte) (p : Page) : Prop where
  row : p.row = lines.length
  col : p.col = line.length
  width : line.length < 80
  top : p.top = lines.length + 1 - 25
  cells : ∀ r j, j < 80 → p.cell r j = glyph color (lines ++ [line]) r j

variable {color : Byte} {lines : List (List Byte)} {line : List Byte}

theorem glyph_behind (r j : Nat) (behind : lines.length ≤ r) : glyph color lines r j = blank color := by
  rw [glyph, List.getElem?_eq_none behind]
  rfl

theorem glyph_empty (lines : List (List Byte)) (r j : Nat) : glyph color (lines ++ [[]]) r j = glyph color lines r j := by
  by_cases inside : r < lines.length
  · rw [glyph, glyph, List.getElem?_append_left inside]
  · rw [glyph_behind r j (Nat.not_lt.mp inside), glyph]
    by_cases last : r = lines.length
    · rw [last, List.getElem?_append_right (Nat.le_refl _), Nat.sub_self]
      rfl
    · rw [List.getElem?_eq_none (by rw [List.length_append, List.length_singleton]; omega)]
      rfl

theorem glyph_snoc (lines : List (List Byte)) (line : List Byte) (c : Byte) (r j : Nat) :
    glyph color (lines ++ [line ++ [c]]) r j =
      put (glyph color (lines ++ [line])) lines.length line.length (cellOf color c) r j := by
  rw [put_apply]
  by_cases inside : r < lines.length
  · rw [if_neg (by omega), glyph, glyph, List.getElem?_append_left inside, List.getElem?_append_left inside]
  · by_cases last : r = lines.length
    · rw [last, glyph, glyph, List.getElem?_append_right (Nat.le_refl _), List.getElem?_append_right (Nat.le_refl _),
        Nat.sub_self]
      simp only [List.getElem?_cons_zero, Option.bind_some]
      by_cases here : j = line.length
      · rw [if_pos ⟨trivial, here⟩, here, List.getElem?_concat_length]
      · rw [if_neg (fun both => here both.2)]
        by_cases before : j < line.length
        · rw [List.getElem?_append_left before]
        · rw [List.getElem?_eq_none (by rw [List.length_append, List.length_singleton]; omega),
            List.getElem?_eq_none (by omega)]
    · have behind : ∀ l : List Byte, (lines ++ [l]).length ≤ r := by
        intro l
        rw [List.length_append, List.length_singleton]
        omega
      rw [if_neg (fun both => last both.1), glyph_behind r j (behind _), glyph_behind r j (behind _)]

theorem Written.newline {p : Page} {q : Nat → Nat → Cell} (top : p.top = lines.length + 1 - 25)
    (cells : ∀ r j, j < 80 → q r j = glyph color (lines ++ [line]) r j) :
    Written color (lines ++ [line]) [] (Page.reveal { p with cell := q, row := lines.length + 1, col := 0 } color) := by
  have length : (lines ++ [line]).length = lines.length + 1 := by rw [List.length_append, List.length_singleton]
  have blankRow : ∀ r j, j < 80 → Function.update q (lines.length + 1) (fun _ => blank color) r j =
      glyph color (lines ++ [line] ++ [[]]) r j := by
    intro r j hj
    rw [glyph_empty]
    by_cases last : r = lines.length + 1
    · rw [last, Function.update_self, glyph_behind _ j (by omega)]
    · rw [Function.update_of_ne last, cells r j hj]
  rw [Page.reveal]
  split
  next past =>
    simp only at past
    exact ⟨length.symm, rfl, by decide, by simp only [length]; omega, blankRow⟩
  next inside =>
    simp only at inside
    refine ⟨length.symm, rfl, by decide, by simp only [length]; omega, fun r j hj => ?_⟩
    rw [glyph_empty]
    exact cells r j hj

theorem Page.type_plain (p : Page) (color : Byte) (plain : Plain c) : p.type color c =
    Page.reveal { p with
      cell := put p.cell p.row p.col (cellOf color c)
      row := (Page.wrapped p.row (p.col + 1)).1
      col := (Page.wrapped p.row (p.col + 1)).2 } color := by
  have noControl : ¬(c = 0x0A ∨ c = 0x0D ∨ c = 0x09) := by
    simp only [not_or]
    exact ⟨plain.newline, plain.carriageReturn, plain.tab⟩
  rw [Page.type, Page.inked, if_neg noControl, if_neg plain.backspace, Page.next, if_neg plain.newline,
    if_neg plain.carriageReturn, if_neg plain.tab, if_neg plain.backspace]

theorem Written.plain {p : Page} (written : Written color lines line p) (plain : Plain c) :
    if line.length = 79 then Written color (lines ++ [line ++ [c]]) [] (p.type color c)
    else Written color lines (line ++ [c]) (p.type color c) := by
  have width := written.width
  have cells : ∀ r j, j < 80 → put p.cell p.row p.col (cellOf color c) r j =
      glyph color (lines ++ [line ++ [c]]) r j := by
    intro r j hj
    rw [glyph_snoc, put_apply, put_apply, written.row, written.col, written.cells r j hj]
  rw [Page.type_plain p color plain, written.col]
  by_cases full : line.length = 79
  · have next : Page.wrapped p.row (line.length + 1) = (lines.length + 1, 0) := by
      rw [Page.wrapped, if_pos (by omega), written.row]
    rw [if_pos full, next, ← written.col]
    exact Written.newline written.top cells
  · have next : Page.wrapped p.row (line.length + 1) = (lines.length, line.length + 1) := by
      rw [Page.wrapped, if_neg (by omega), written.row]
    have top := written.top
    rw [if_neg full, next, Page.reveal, if_neg (by simp only; omega), ← written.col]
    refine ⟨rfl, ?_, ?_, top, cells⟩
    · rw [List.length_append, List.length_singleton, written.col]
    · rw [List.length_append, List.length_singleton]
      omega

/-- A text on a page goes where `textLines` has it. -/
theorem typeAll_written {p : Page} (written : Written color lines line p) (text : List Byte)
    (printable : ∀ c ∈ text, c = 0x0A ∨ Plain c) :
    ∃ lines' last, lines ++ textLines line text = lines' ++ [last] ∧
      Written color lines' last (p.typeAll (text.map fun c => (color, c))) := by
  induction text generalizing lines line p with
  | nil => exact ⟨lines, line, rfl, written⟩
  | cons c text ih =>
    have rest : ∀ c ∈ text, c = 0x0A ∨ Plain c := fun x inside => printable x (List.mem_cons_of_mem c inside)
    rw [textLines]
    by_cases newline : c = 0x0A
    · have next : Written color (lines ++ [line]) [] (p.type color c) := by
        have moved : p.type color c = Page.reveal { p with row := lines.length + 1, col := 0 } color := by
          rw [newline, ← written.row]
          rfl
        rw [moved]
        exact Written.newline written.top written.cells
      obtain ⟨lines', last, split, final⟩ := ih next rest
      rw [if_pos newline]
      exact ⟨lines', last, by rw [← split, List.append_assoc]; rfl, final⟩
    · have plain : Plain c := (printable c List.mem_cons_self).resolve_left newline
      have next := written.plain plain
      rw [if_neg newline]
      by_cases full : line.length = 79
      · rw [if_pos full] at next ⊢
        obtain ⟨lines', last, split, final⟩ := ih next rest
        exact ⟨lines', last, by rw [← split, List.append_assoc]; rfl, final⟩
      · rw [if_neg full] at next ⊢
        exact ih next rest

theorem screenPutcharInternal_sameColor (d : Display) (c : Byte) :
    (screenPutcharInternal d c).currentColor = d.currentColor := by
  rw [screenPutcharInternal]
  split
  · exact (wrapLine_color _).trans (place_color d c)
  · exact (wrapLine_color _).trans (place_color d c)

theorem putColored_putChars (d : Display) (text : List Byte) :
    putColored d (text.map fun c => (d.currentColor, c)) = putChars d text := by
  induction text generalizing d with
  | nil => rfl
  | cons c text ih =>
    have next := ih (screenPutcharInternal d c)
    rw [screenPutcharInternal_sameColor] at next
    exact next

/-- Of a text of any length the screen shows the last 25 lines, and the cursor is behind it. -/
theorem screenWrite_shows_last_lines (d : Display) (str : CStr) (printable : ∀ c ∈ str.chars, c = 0x0A ∨ Plain c) :
    (∀ i j : Nat, i < 25 → j < 80 →
      (screenWrite (screenClear d) (some str)).videoMemory.cell ((i : Int) * 80 + j) =
        glyph d.currentColor (textLines [] str.chars) ((textLines [] str.chars).length - 25 + i) j) ∧
      (screenWrite (screenClear d) (some str)).cursorRow = ((min (textLines [] str.chars).length 25 - 1 : Nat) : Int) ∧
      (screenWrite (screenClear d) (some str)).cursorCol = (((textLines [] str.chars).getLastD []).length : Int) := by
  have start : Written d.currentColor [] [] (blankPage d.currentColor) :=
    ⟨rfl, rfl, by decide, rfl, fun r j _ => (glyph_empty [] r j).symm⟩
  obtain ⟨lines, last, split, written⟩ := typeAll_written start str.chars printable
  have shows := putColored_shows (screenClear_shows d) (str.chars.map fun c => (d.currentColor, c))
  have same : putColored (screenClear d) (str.chars.map fun c => (d.currentColor, c)) =
      putChars (screenClear d) str.chars := putColored_putChars (screenClear d) str.chars
  rw [same] at shows
  rw [List.nil_append] at split
  have length : (textLines [] str.chars).length = lines.length + 1 := by
    rw [split, List.length_append, List.length_singleton]
  have row := written.row
  have top := written.top
  refine ⟨fun i j hi hj => ?_, ?_, ?_⟩
  · rw [length, ← top, split, ← written.cells _ j hj]
    exact shows.cells i j hi hj
  · refine shows.row.trans ?_
    rw [length, row, top]
    congr 1
    omega
  · refine shows.col.trans ?_
    rw [split, List.getLastD_concat, written.col]

/-- The first line on the screen is the seventh, and the last one is empty. -/
theorem screenWrite_shows_last_lines_thirty :
    (screenWrite (screenClear blankDisplay) (some ⟨thirtyLines, by decide⟩)).videoMemory.cell 0 =
        cellOf DEFAULT_COLOR 0x47 ∧
      (screenWrite (screenClear blankDisplay) (some ⟨thirtyLines, by decide⟩)).cursorRow = 24 := by
  have letters : ∀ c ∈ thirtyLines, c ≠ 0x0D ∧ c ≠ 0x09 ∧ c ≠ 0x08 := by decide
  obtain ⟨cells, row, -⟩ := screenWrite_shows_last_lines blankDisplay ⟨thirtyLines, by decide⟩ fun c mem => by
    obtain ⟨carriageReturn, tab, backspace⟩ := letters c mem
    exact (eq_or_ne c 0x0A).imp_right fun newline => ⟨newline, carriageReturn, tab, backspace⟩
  have lines : (textLines [] thirtyLines).length = 31 := by decide +kernel
  have seventh : glyph blankDisplay.currentColor (textLines [] thirtyLines) 6 0 = cellOf DEFAULT_COLOR 0x47 := by
    decide +kernel
  have first := cells 0 0 (by decide) (by decide)
  have index : ((0 : Nat) : Int) * 80 + ((0 : Nat) : Int) = 0 := rfl
  have cursor : ((min 31 25 - 1 : Nat) : Int) = 24 := rfl
  rw [index, lines] at first
  rw [lines, cursor] at row
  exact ⟨first.trans seventh, row⟩

end Text

end Wittche.Screen
