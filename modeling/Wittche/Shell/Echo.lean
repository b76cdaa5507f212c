import Wittche.Lib.Execution
import Wittche.Shell.LineEditing
import Wittche.Shell.Completion

/-! What the user sees while a line is edited. A key that redraws does so from the column
that `shell_get_line` remembers, and Tab remembers the column behind the text. As long as
nothing is redrawn from there, and no Tab drops a line or completes one in its middle, the
prompt's row shows the line and the cursor stands in it. -/

namespace Wittche.Shell
open Bytes CString Traced Screen Keyboard Execution

/-- A call of `shell_get_line`, and the cursor behind the last prompt displayed. -/
structure Session where
  line : LineState
  promptRow : Int
  promptCol : Int

/-- `shell_run` up to the first key: the prompt and the start of `shell_get_line`. -/
def openSession (buffer : Int → Byte) (screen : Display) : Session :=
  let screen := shellPrompt screen
  ⟨beginLine buffer screen, screen.cursorRow, screen.cursorCol⟩

def Session.prompt (maxLength : Int) (t : Session) (c : Byte) : Int × Int :=
  if c = TAB then
    (handleTabCompletion t.line.buffer t.line.screen t.line.length maxLength).prompt.getD (t.promptRow, t.promptCol)
  else (t.promptRow, t.promptCol)

def Session.key (maxLength : Int) (t : Session) (c : Byte) : Session :=
  ⟨shellKey maxLength t.line c, (t.prompt maxLength c).1, (t.prompt maxLength c).2⟩

def Fits (t : Session) : Prop := t.promptCol + t.line.length < 80

/-- The prompt's row shows the line and a blank, and the cursor is in it. -/
structure Echo (t : Session) : Prop where
  shown : ∀ i : Nat, i < t.line.length →
    shownAt t.line.screen t.promptRow (t.promptCol + i) = t.line.buffer.cell i
  blank : shownAt t.line.screen t.promptRow (t.promptCol + t.line.length) = 0x20
  cursor : t.line.screen.cursorRow = t.promptRow ∧ t.line.screen.cursorCol = t.promptCol + t.line.cursorPos

/-- The keys that set the cursor from the remembered column. -/
def Redraws (maxLength : Int) (s : LineState) (c : Byte) : Prop :=
  (c = BACKSPACE ∨ c = SPECIAL_KEY_LEFT) ∧ 0 < s.cursorPos ∨
  (c = SPECIAL_KEY_RIGHT ∨ c = SPECIAL_KEY_DELETE) ∧ s.cursorPos < s.length ∨
  c = SPECIAL_KEY_HOME ∨ c = SPECIAL_KEY_END ∨ printable c ∧ s.length < maxLength - 1

/-- A key that keeps screen and line in step. -/
structure Keeps (maxLength : Int) (t : Session) (c : Byte) : Prop where
  based : Redraws maxLength t.line c → t.line.startCol = t.promptCol
  known : c = TAB → matching t.line.buffer = [] → t.line.length = 0
  atEnd : c = TAB → (matching t.line.buffer).length = 1 → t.line.cursorPos = t.line.length
  /-- A list of matches goes to rows that are blank. -/
  below : c = TAB → 2 ≤ (matching t.line.buffer).length → ∀ x, (t.promptRow + 1) * 80 ≤ x → x < 2000 →
    letter (t.line.screen.videoMemory.cell x) = 0x20

/-- The cursor's row is blank from the cursor on. -/
structure RowBlank (d : Display) : Prop where
  cursor : CursorIn d
  blank : ∀ x, position d ≤ x → x < (d.cursorRow + 1) * 80 → letter (d.videoMemory.cell x) = 0x20

/-- The screen and the line in step. -/
structure Kept (t : Session) : Prop where
  echo : Echo t
  row : 0 ≤ t.promptRow ∧ t.promptRow < 25
  col : 0 ≤ t.promptCol
  fits : Fits t
  rest : ∀ x, t.promptRow * 80 + (t.promptCol + t.line.length) ≤ x → x < (t.promptRow + 1) * 80 →
    letter (t.line.screen.videoMemory.cell x) = 0x20
  startRow : t.line.startRow = t.promptRow
  cursor : 0 ≤ t.line.cursorPos ∧ t.line.cursorPos ≤ t.line.length
  letters : ∀ i : Int, 0 ≤ i → i < t.line.length → printable (t.line.buffer.cell i)

section Build

variable {t : Session}

theorem Kept.of_cells (row : 0 ≤ t.promptRow ∧ t.promptRow < 25) (col : 0 ≤ t.promptCol) (fits : Fits t)
    (startRow : t.line.startRow = t.promptRow)
    (cursor : 0 ≤ t.line.cursorPos ∧ t.line.cursorPos ≤ t.line.length)
    (letters : ∀ i : Int, 0 ≤ i → i < t.line.length → printable (t.line.buffer.cell i))
    (seat : t.line.screen.cursorRow = t.promptRow ∧ t.line.screen.cursorCol = t.promptCol + t.line.cursorPos)
    (shown : ∀ i : Nat, i < t.line.length →
      letter (t.line.screen.videoMemory.cell (t.promptRow * 80 + (t.promptCol + i))) = t.line.buffer.cell i)
    (rest : ∀ x, t.promptRow * 80 + (t.promptCol + t.line.length) ≤ x → x < (t.promptRow + 1) * 80 →
      letter (t.line.screen.videoMemory.cell x) = 0x20) : Kept t := by
  refine ⟨⟨shown, ?_, seat⟩, row, col, fits, rest, startRow, cursor, letters⟩
  simp only [Fits] at fits
  exact rest (t.promptRow * 80 + (t.promptCol + t.line.length)) (Int.le_refl _) (by omega)

variable {m : Int → Cell} {f : Nat → Byte} {n : Nat} {d : Display}

theorem Kept.of_drawn (drawn : Drawn m t.promptRow t.promptCol f n d) (memory : t.line.screen.videoMemory = d.videoMemory)
    (text : ∀ i : Nat, i < t.line.length → f i = t.line.buffer.cell i)
    (tail : ∀ i : Nat, t.line.length ≤ i → i < n → f i = 0x20) (long : t.line.length ≤ n)
    (blank : ∀ x, t.promptRow * 80 + (t.promptCol + n) ≤ x → x < (t.promptRow + 1) * 80 → letter (m x) = 0x20)
    (row : 0 ≤ t.promptRow ∧ t.promptRow < 25) (col : 0 ≤ t.promptCol) (fits : Fits t)
    (startRow : t.line.startRow = t.promptRow)
    (cursor : 0 ≤ t.line.cursorPos ∧ t.line.cursorPos ≤ t.line.length)
    (letters : ∀ i : Int, 0 ≤ i → i < t.line.length → printable (t.line.buffer.cell i))
    (seat : t.line.screen.cursorRow = t.promptRow ∧ t.line.screen.cursorCol = t.promptCol + t.line.cursorPos) :
    Kept t := by
  refine .of_cells row col fits startRow cursor letters seat ?_ ?_
  · intro i hi
    rw [memory, drawn.shown i (by omega)]
    exact text i hi
  · intro x low high
    rw [memory]
    by_cases inside : x < t.promptRow * 80 + (t.promptCol + n)
    · -- A blank of the run itself.
      obtain ⟨i, rfl⟩ : ∃ i : Nat, x = t.promptRow * 80 + (t.promptCol + i) :=
        ⟨(x - (t.promptRow * 80 + t.promptCol)).toNat, by omega⟩
      rw [drawn.shown i (by omega)]
      exact tail i (by omega) (by omega)
    · rw [drawn.others x (by omega)]
      exact blank x (by omega) high

end Build

section Redraw

variable {s : LineState}

theorem drawLine_drawn {row col : Int} (rowEq : s.startRow = row) (colEq : s.startCol = col)
    (rowIn : 0 ≤ row ∧ row < 25) (colIn : 0 ≤ col) (long : 0 ≤ s.length) (fits : col + s.length < 80)
    (letters : ∀ i : Int, 0 ≤ i → i < s.length → printable (s.buffer.cell i)) :
    Drawn s.screen.videoMemory.cell row col (fun i => s.buffer.cell i) s.length.toNat
      ((s.setCursor s.startCol).drawLine).screen := by
  subst rowEq colEq
  obtain ⟨row, col⟩ := screenSetCursor_cursor (d := s.screen) rowIn ⟨colIn, show s.startCol < 80 by omega⟩
  have drawn := draw_inRow (s.setCursor s.startCol).screen (fun i => s.buffer.cell i) s.length.toNat
    (fun i hi => Plain.of_printable (letters i (by omega) (by omega)))
    (by rw [LineState.setCursor, row]; exact rowIn.2) (by rw [LineState.setCursor, col]; omega)
  simp only [LineState.setCursor, screenSetCursor_memory, row, col] at drawn
  exact drawn

variable {t : Session} (kept : Kept t) (row : s.startRow = t.promptRow) (based : s.startCol = t.promptCol)
variable (screen : s.screen = t.line.screen) (fits : t.promptCol + s.length < 80)
variable (cursor : 0 ≤ s.cursorPos ∧ s.cursorPos ≤ s.length)
variable (letters : ∀ i : Int, 0 ≤ i → i < s.length → printable (s.buffer.cell i))
include kept row based fits cursor letters

/-- The line drawn behind the prompt, with blanks as far as the old one went, and the cursor
set in it. -/
theorem kept_redrawn {f : Nat → Byte} {n : Nat} {d : Display}
    (drawn : Drawn t.line.screen.videoMemory.cell t.promptRow t.promptCol f n d)
    (text : ∀ i : Nat, i < s.length → f i = s.buffer.cell i) (tail : ∀ i : Nat, s.length ≤ i → i < n → f i = 0x20)
    (long : s.length ≤ n) (covers : t.line.length ≤ n) :
    Kept { t with line := { s with screen := screenSetCursor d s.startRow (s.startCol + s.cursorPos) } } := by
  have rowIn := kept.row
  have colIn := kept.col
  refine .of_drawn drawn (screenSetCursor_memory _ _ _) text tail long ?_ rowIn colIn fits row cursor letters ?_
  · intro x low high
    simp only at low
    exact kept.rest x (by omega) high
  · rw [← row, ← based]
    exact screenSetCursor_cursor (show 0 ≤ s.startRow ∧ s.startRow < 25 by rw [row]; exact rowIn) (by omega)

include screen

theorem kept_redraw (grown : t.line.length ≤ s.length) :
    Kept { t with line := ((s.setCursor s.startCol).drawLine).setCursor (s.startCol + s.cursorPos) } := by
  have drawn := drawLine_drawn row based kept.row kept.col (by omega) fits letters
  rw [screen] at drawn
  refine kept_redrawn kept row based fits cursor letters drawn (fun i hi => rfl) ?_ (by omega) (by omega)
  intro i low high
  omega

theorem kept_redraw_blank (shrunk : t.line.length = s.length + 1) :
    Kept { t with
      line := (((s.setCursor s.startCol).drawLine).putchar 0x20).setCursor (s.startCol + s.cursorPos) } := by
  have old := kept.fits
  simp only [Fits] at old
  have line := drawLine_drawn row based kept.row kept.col (by omega) fits letters
  rw [screen] at line
  have drawn := line.blank kept.row.2 (by omega)
  refine kept_redrawn kept row based fits cursor letters drawn ?_ ?_ (by omega) (by omega)
  · exact fun i hi => if_pos (by omega)
  · exact fun i low high => if_neg (by omega)

end Redraw

section Keys

variable {t : Session} {maxLength : Int} {c : Byte}

theorem Kept.move (kept : Kept t) (based : t.line.startCol = t.promptCol) {p : Int}
    (inside : 0 ≤ p ∧ p ≤ t.line.length) :
    Kept { t with line := { t.line with cursorPos := p }.setCursor (t.line.startCol + p) } := by
  have fits := kept.fits
  have rowIn := kept.row
  have colIn := kept.col
  simp only [Fits] at fits
  have memory : (screenSetCursor t.line.screen t.line.startRow (t.line.startCol + p)).videoMemory =
      t.line.screen.videoMemory := screenSetCursor_memory _ _ _
  refine .of_cells rowIn colIn fits kept.startRow inside kept.letters ?_ ?_ ?_
  · rw [← kept.startRow, ← based]
    exact screenSetCursor_cursor (by rw [kept.startRow]; exact rowIn) (by omega)
  · intro i hi
    simp only [LineState.setCursor, memory]
    exact kept.echo.shown i hi
  · intro x low high
    simp only [LineState.setCursor, memory]
    exact kept.rest x low high

theorem Kept.erase (kept : Kept t) (based : t.line.startCol = t.promptCol) {i p : Int}
    (inside : 0 ≤ p ∧ p ≤ t.line.length - 1) {s : LineState}
    (erased : s = { t.line.closeGap i with length := t.line.length - 1, cursorPos := p }) :
    Kept { t with
      line := (((s.setCursor s.startCol).drawLine).putchar 0x20).setCursor (s.startCol + s.cursorPos) } := by
  subst erased
  have fits := kept.fits
  simp only [Fits] at fits
  refine kept_redraw_blank kept kept.startRow based rfl ?_ inside ?_ ?_
  · simp only
    omega
  · intro k lowK highK
    simp only [LineState.closeGap] at highK ⊢
    rw [Cells.slideDown_cell _ _ (by decide)]
    split
    next => exact kept.letters _ (by omega) (by omega)
    next => exact kept.letters k lowK (by omega)
  · simp only
    omega

theorem Kept.insert (kept : Kept t) (based : t.line.startCol = t.promptCol) (letter : printable c) {s : LineState}
    (inserted : s = { t.line.openGap with
      buffer := t.line.openGap.buffer.put t.line.cursorPos c
      length := t.line.length + 1
      cursorPos := t.line.cursorPos + 1 })
    (fits : t.promptCol + (t.line.length + 1) < 80) :
    Kept { t with line := ((s.setCursor s.startCol).drawLine).setCursor (s.startCol + s.cursorPos) } := by
  subst inserted
  have cursor := kept.cursor
  refine kept_redraw kept kept.startRow based rfl fits ?_ ?_ ?_
  · simp only
    omega
  · intro k lowK highK
    simp only [LineState.openGap] at highK ⊢
    rw [Cells.put_cell, Cells.slideUp_cell]
    split
    next => exact letter
    next other =>
      split
      next => exact kept.letters _ (by omega) (by omega)
      next => exact kept.letters k lowK (by omega)
  · simp only
    omega

end Keys

section Tab

variable {t : Session} {maxLength : Int}

theorem Kept.lineEnd (kept : Kept t) (below : ∀ x, (t.promptRow + 1) * 80 ≤ x → x < 2000 →
    letter (t.line.screen.videoMemory.cell x) = 0x20) : Fresh (screenPutcharInternal t.line.screen 0x0A) := by
  have fits := kept.fits
  have col := kept.col
  have cursor := kept.cursor
  obtain ⟨rowLow, rowHigh⟩ := kept.row
  obtain ⟨seatRow, seatCol⟩ := kept.echo.cursor
  simp only [Fits] at fits
  apply newline_fresh
  · simp only [CursorIn, seatRow, seatCol]
    omega
  · intro x low high
    rw [seatRow] at low
    exact below x low high

theorem Kept.length_le_match (kept : Kept t) {str : CStr} (hit : strStartsWith str (typed t.line.buffer) = true) :
    t.line.length ≤ str.length := by
  obtain ⟨n, le, nul, -⟩ := strStartsWith_iff.mp hit
  have cursor := kept.cursor
  have long : t.line.length ≤ n := by
    by_contra short
    have letter := kept.letters n (by omega) (by omega)
    simp only [typed] at nul
    rw [nul] at letter
    exact absurd letter (by decide)
  omega

theorem shellPrompt_fresh {d : Display} (fresh : Fresh d) : Fresh (shellPrompt d) := by
  have name : ∀ x ∈ (literal "wittche" (by decide)).chars, printable x := by
    simp [literal, ascii, printable]
  have sign : ∀ x ∈ (literal "> " (by decide)).chars, printable x := by
    simp [literal, ascii, printable]
  exact (fresh.writeColor (fun x hx => Plain.of_printable (name x hx)) _).writeColor
    (fun x hx => Plain.of_printable (sign x hx)) _

def Session.tabbed (t : Session) (r : Completion) : Session :=
  ⟨⟨r.buffer, r.length, r.length, r.screen.cursorCol, r.screen.cursorRow, r.screen⟩,
    (r.prompt.getD (t.promptRow, t.promptCol)).1, (r.prompt.getD (t.promptRow, t.promptCol)).2⟩

theorem key_tab (maxLength : Int) (t : Session) :
    t.key maxLength TAB = t.tabbed (handleTabCompletion t.line.buffer t.line.screen t.line.length maxLength) := rfl

theorem tabbed_none (t : Session) {r : Completion} (none : r.prompt = none) : t.tabbed r =
    ⟨⟨r.buffer, r.length, r.length, r.screen.cursorCol, r.screen.cursorRow, r.screen⟩, t.promptRow, t.promptCol⟩ := by
  rw [Session.tabbed, none]
  rfl

theorem Kept.append (kept : Kept t) {n : Nat} {f : Nat → Byte} {d : Display} {buffer : Cells Byte}
    (drawn : Drawn t.line.screen.videoMemory.cell t.promptRow (t.promptCol + t.line.length) f n d)
    (old : ∀ i : Int, 0 ≤ i → i < t.line.length → buffer.cell i = t.line.buffer.cell i)
    (new : ∀ i : Nat, i < n → buffer.cell (t.line.length + i) = f i) (letters : ∀ i < n, printable (f i))
    (fits : t.promptCol + (t.line.length + n) < 80) :
    Kept ⟨⟨buffer, t.line.length + n, t.line.length + n, d.cursorCol, d.cursorRow, d⟩, t.promptRow, t.promptCol⟩ := by
  have cursor := kept.cursor
  -- An index is one of the old line or one of the characters behind it.
  have behind : ∀ i : Int, 0 ≤ i → i < t.line.length + n → ¬i < t.line.length →
      ∃ k : Nat, k < n ∧ i = t.line.length + k :=
    fun i low high above => ⟨(i - t.line.length).toNat, by omega, by omega⟩
  refine .of_cells kept.row kept.col fits drawn.cursorRow ⟨?_, Int.le_refl _⟩ ?_ ⟨drawn.cursorRow, ?_⟩ ?_ ?_
  · simp only
    omega
  · intro i low high
    simp only at high ⊢
    by_cases below : i < t.line.length
    · rw [old i low below]
      exact kept.letters i low below
    · obtain ⟨k, hk, rfl⟩ := behind i low high below
      rw [new k hk]
      exact letters k hk
  · rw [drawn.cursorCol]
    simp only
    omega
  · intro i hi
    simp only at hi ⊢
    by_cases below : (i : Int) < t.line.length
    · rw [drawn.others _ (by omega), old i (by omega) below]
      exact kept.echo.shown i below
    · obtain ⟨k, hk, at_k⟩ := behind i (by omega) hi below
      rw [at_k, new k hk, ← drawn.shown k hk, Int.add_assoc]
  · intro x low high
    simp only at low ⊢
    rw [drawn.others _ (by omega)]
    exact kept.rest x (by omega) high

theorem Kept.unchanged (kept : Kept t) (atEnd : t.line.cursorPos = t.line.length) :
    Kept (t.tabbed ⟨t.line.buffer, t.line.screen, t.line.length, none⟩) := by
  obtain ⟨seatRow, seatCol⟩ := kept.echo.cursor
  have cursor := kept.cursor
  refine .of_cells kept.row kept.col kept.fits seatRow ⟨?_, Int.le_refl _⟩ kept.letters ?_ kept.echo.shown kept.rest
  · simp only [Session.tabbed]
    omega
  · rw [atEnd] at seatCol
    exact ⟨seatRow, seatCol⟩

theorem completeOne_prompt (found : CStr) (length maxLength : Int) (r : Completion) :
    (completeOne found length maxLength r).prompt = r.prompt := by
  rw [completeOne]
  split_ifs
  · exact (typeOut_spec ..).2.1
  · rfl

theorem Kept.completeOne (kept : Kept t) {found : CStr} (hit : strStartsWith found (typed t.line.buffer) = true)
    (letters : ∀ k < found.length, printable (found.get k)) (atEnd : t.line.cursorPos = t.line.length)
    (fits : Fits (t.tabbed (completeOne found t.line.length maxLength ⟨t.line.buffer, t.line.screen, 0, none⟩))) :
    Kept (t.tabbed (completeOne found t.line.length maxLength ⟨t.line.buffer, t.line.screen, 0, none⟩)) := by
  have long := kept.length_le_match hit
  obtain ⟨seatRow, seatCol⟩ := kept.echo.cursor
  have cursor := kept.cursor
  rw [tabbed_none _ (completeOne_prompt ..)] at fits ⊢
  simp only [Fits] at fits
  rw [Shell.completeOne] at fits ⊢
  by_cases room : found.length < maxLength - 1
  · simp only [if_pos room] at fits ⊢
    obtain ⟨screen, -, cells⟩ := typeOut_spec found t.line.length (found.length - t.line.length).toNat
      ⟨t.line.buffer, t.line.screen, 0, none⟩
    have run := draw_inRow t.line.screen (fun k => found.get (t.line.length + k).toNat)
      (found.length - t.line.length).toNat
      (fun k hk => Plain.of_printable (letters _ (by omega))) (by rw [seatRow]; exact kept.row.2)
      (by rw [seatCol, atEnd]; omega)
    rw [seatRow, seatCol, atEnd, ← screen] at run
    have count : (found.length : Int) + 1 =
        t.line.length + (((found.length - t.line.length).toNat + 1 : Nat) : Int) := by omega
    rw [count]
    refine kept.append (run.blank kept.row.2 (by omega)) ?_ ?_ ?_ (by omega)
    · intro i low high
      rw [Cells.put_cell, if_neg (by omega), cells, if_neg (by omega)]
    · intro i hi
      rw [Cells.put_cell]
      by_cases last : i = (found.length - t.line.length).toNat
      · rw [if_pos (by omega), if_neg (by omega)]
      · rw [if_neg (by omega), if_pos (by omega), cells, if_pos (by omega)]
    · intro i hi
      split
      next => exact letters _ (by omega)
      next => decide
  · simp only [if_neg room] at fits ⊢
    exact kept.unchanged atEnd

theorem kept_of_prompt {d d' : Display} (fresh : Fresh d) {buffer : Cells Byte} {n : Nat}
    (drawn : Drawn d.videoMemory.cell d.cursorRow d.cursorCol (fun i => buffer.cell i) n d')
    (letters : ∀ i : Int, 0 ≤ i → i < n → printable (buffer.cell i)) (fits : d.cursorCol + n < 80) :
    Kept ⟨⟨buffer, n, n, d'.cursorCol, d'.cursorRow, d'⟩, d.cursorRow, d.cursorCol⟩ := by
  obtain ⟨⟨rowLow, rowHigh, colLow, -⟩, blank⟩ := fresh
  refine .of_drawn drawn rfl (fun _ _ => rfl) (fun i low high => ?_) (Int.le_refl _) ?_ ⟨rowLow, rowHigh⟩ colLow fits
    drawn.cursorRow ⟨?_, Int.le_refl _⟩ letters ⟨drawn.cursorRow, drawn.cursorCol⟩
  · simp only at low
    omega
  · intro x low high
    simp only at low
    exact blank x (by simp only [position, SCREEN_WIDTH]; omega) (by simp only at high; omega)
  · simp only
    omega

/-- Several matches: whatever was entered of the first one, or the old line again. -/
theorem Kept.completeMany (kept : Kept t) {search : Search} (fresh : Fresh search.screen)
    (short : search.commonLen ≤ search.commonPrefix.length)
    (common : ∀ k < search.commonPrefix.length, printable (search.commonPrefix.get k))
    (fits : Fits (t.tabbed (completeMany search t.line.length maxLength ⟨t.line.buffer, search.screen, 0, none⟩))) :
    Kept (t.tabbed (completeMany search t.line.length maxLength ⟨t.line.buffer, search.screen, 0, none⟩)) := by
  have behind : Fresh (shellPrompt (screenWrite search.screen (some newline))) :=
    shellPrompt_fresh fresh.newline.updateCursor
  have cursor := kept.cursor
  rw [Shell.completeMany] at fits ⊢
  generalize shellPrompt (screenWrite search.screen (some newline)) = d at behind fits ⊢
  simp only at fits ⊢
  split at fits
  next longer =>
    rw [if_pos longer]
    obtain ⟨screen, prompt, cells⟩ := typeOut_spec search.commonPrefix 0 search.commonLen
      ⟨t.line.buffer, d, 0, some (d.cursorRow, d.cursorCol)⟩
    simp only [Fits, Session.tabbed, prompt, Option.getD_some] at fits ⊢
    have text : ∀ i : Nat, i < search.commonLen → search.commonPrefix.get (0 + (i : Int)).toNat =
        (typeOut search.commonPrefix 0 search.commonLen
          ⟨t.line.buffer, d, 0, some (d.cursorRow, d.cursorCol)⟩).buffer.cell i := by
      intro i hi
      rw [cells, if_pos (by omega), Int.zero_add]
    have run := draw_inRow d (fun k => search.commonPrefix.get (0 + (k : Int)).toNat) search.commonLen
      (fun k hk => Plain.of_printable (common _ (by omega))) behind.cursor.2.1 fits
    rw [← screen] at run
    refine kept_of_prompt behind (run.congr text) ?_ fits
    intro i low high
    rw [cells, if_pos (by omega)]
    exact common _ (by omega)
  next same =>
    rw [if_neg same]
    simp only [Fits, Session.tabbed, Option.getD_some] at fits ⊢
    have count : ((t.line.length.toNat : Nat) : Int) = t.line.length := Int.toNat_of_nonneg (by omega)
    have run := draw_inRow d (fun k => t.line.buffer.cell k) t.line.length.toNat
      (fun k hk => Plain.of_printable (kept.letters k (by omega) (by omega))) behind.cursor.2.1 (by rw [count]; exact fits)
    have again := kept_of_prompt behind run (fun i low high => kept.letters i low (by omega)) (by rw [count]; exact fits)
    rw [count] at again
    exact again

theorem Kept.tab (kept : Kept t) (keeps : Keeps maxLength t TAB) (fits : Fits (t.key maxLength TAB)) :
    Kept (t.key maxLength TAB) := by
  have searched := searchCommands_searched t.line.buffer t.line.screen
  have count := searched.all
  have cursor := kept.cursor
  rw [key_tab] at fits ⊢
  rw [handleTabCompletion] at fits ⊢
  by_cases none : (searchCommands t.line.buffer t.line.screen).matchCount = 0
  · rw [if_pos none, searched.quiet (by omega)]
    have empty : t.line.length = 0 := keeps.known rfl (List.eq_nil_of_length_eq_zero (by omega))
    have same := kept.unchanged (by omega)
    rw [empty] at same
    exact same
  · obtain ⟨a, -, hit, found, common, -⟩ := searched.first (by omega)
    rw [if_neg none] at fits ⊢
    by_cases one : (searchCommands t.line.buffer t.line.screen).matchCount = 1
    · rw [if_pos one, searched.quiet (by omega), found] at fits ⊢
      exact kept.completeOne hit (fun k hk => commandAt_get hk) (keeps.atEnd rfl (by omega)) fits
    · rw [if_neg one] at fits ⊢
      obtain ⟨short, fresh⟩ := searched.many (by omega)
      refine kept.completeMany (fresh (kept.lineEnd (keeps.below rfl (by omega)))) short ?_ fits
      rw [common]
      exact fun k hk => commandAt_get hk

end Tab

section Run

variable {t : Session} {maxLength : Int} {c : Byte}

/-- One key that keeps the condition, with the line still on the row. -/
theorem key_kept (kept : Kept t) (keeps : Keeps maxLength t c) (fits : Fits (t.key maxLength c)) :
    Kept (t.key maxLength c) := by
  by_cases tab : c = TAB
  · subst tab
    exact kept.tab keeps fits
  have based := keeps.based
  have cursor := kept.cursor
  have prompt : t.prompt maxLength c = (t.promptRow, t.promptCol) := if_neg tab
  simp only [Session.key, prompt] at fits ⊢
  by_cases backspace : c = BACKSPACE
  · simp only [shellKey, if_neg tab, if_pos backspace] at fits ⊢
    split
    next some => exact kept.erase (p := t.line.cursorPos - 1) (based (Or.inl ⟨Or.inl backspace, some⟩)) (by omega) rfl
    next => exact kept
  by_cases left : c = SPECIAL_KEY_LEFT
  · simp only [shellKey, if_neg tab, if_neg backspace, if_pos left]
    split
    next some => exact kept.move (based (Or.inl ⟨Or.inr left, some⟩)) (by omega)
    next => exact kept
  by_cases right : c = SPECIAL_KEY_RIGHT
  · simp only [shellKey, if_neg tab, if_neg backspace, if_neg left, if_pos right]
    split
    next some => exact kept.move (based (Or.inr (Or.inl ⟨Or.inl right, some⟩))) (by omega)
    next => exact kept
  by_cases home : c = SPECIAL_KEY_HOME
  · simp only [shellKey, if_neg tab, if_neg backspace, if_neg left, if_neg right, if_pos home]
    have moved := kept.move (p := 0) (based (Or.inr (Or.inr (Or.inl home)))) (by omega)
    rw [Int.add_zero] at moved
    exact moved
  by_cases last : c = SPECIAL_KEY_END
  · simp only [shellKey, if_neg tab, if_neg backspace, if_neg left, if_neg right, if_neg home, if_pos last]
    exact kept.move (based (Or.inr (Or.inr (Or.inr (Or.inl last))))) (by omega)
  by_cases delete : c = SPECIAL_KEY_DELETE
  · simp only [shellKey, if_neg tab, if_neg backspace, if_neg left, if_neg right, if_neg home, if_neg last,
      if_pos delete]
    split
    next some => exact kept.erase (p := t.line.cursorPos) (based (Or.inr (Or.inl ⟨Or.inr delete, some⟩))) (by omega) rfl
    next => exact kept
  simp only [shellKey, if_neg tab, if_neg backspace, if_neg left, if_neg right, if_neg home, if_neg last,
    if_neg delete] at fits ⊢
  split at fits
  next room =>
    rw [if_pos room]
    rw [openGap_eq] at fits ⊢
    exact kept.insert (based (Or.inr (Or.inr (Or.inr (Or.inr room))))) room.1 rfl fits
  next full =>
    rw [if_neg full]
    exact kept

theorem openSession_kept (buffer : Int → Byte) {screen : Display} (blank : RowBlank (shellPrompt screen)) :
    Kept (openSession buffer screen) := by
  obtain ⟨⟨rowLow, rowHigh, colLow, colHigh⟩, blank⟩ := blank
  refine .of_cells ⟨rowLow, rowHigh⟩ colLow ?_ rfl ⟨Int.le_refl _, Int.le_refl _⟩ ?_ ⟨rfl, ?_⟩ ?_ ?_
  · simp only [Fits, openSession, beginLine]
    omega
  · intro i low high
    simp only [openSession, beginLine] at high
    omega
  · simp [openSession, beginLine]
  · intro i hi
    simp only [openSession, beginLine] at hi
    omega
  · intro x low high
    simp only [openSession, beginLine] at low
    exact blank x (by simp only [position, SCREEN_WIDTH]; omega) high

/-- What the user sees is what is edited: the prompt's row is blank behind the prompt, the line
stays on its row, and every key keeps the condition. -/
theorem line_is_shown {maxLength : Int} {buffer : Int → Byte} {screen : Display} (blank : RowBlank (shellPrompt screen))
    {keys : List Byte} {t : Session}
    (run : Exec (fun t c => c ≠ ENTER ∧ Keeps maxLength t c ∧ Fits (t.key maxLength c)) (Session.key maxLength)
      (openSession buffer screen) keys t) : Echo t := by
  have kept : Kept t := run.invariant (fun s c (kept : Kept s) ok => key_kept kept ok.2.1 ok.2.2)
    (openSession_kept buffer blank)
  exact kept.echo

theorem rowBlank_of_fresh {d : Display} (fresh : Fresh d) : RowBlank d := by
  obtain ⟨cursor, blank⟩ := fresh
  have row := cursor.2.1
  exact ⟨cursor, fun x low high => blank x low (by omega)⟩

theorem blankDisplay_fresh : Fresh blankDisplay := ⟨by simp [CursorIn, blankDisplay], fun _ _ _ => letter_blank _⟩

/-- `p` and a Tab: the line is completed to `ps` and a space, and shown so. -/
theorem line_is_shown_completed :
    Echo ([0x70, TAB].foldl (Session.key 256) (openSession (fun _ => 0) blankDisplay)) := by
  refine @line_is_shown 256 (fun _ => 0) _ (rowBlank_of_fresh (shellPrompt_fresh blankDisplay_fresh)) [0x70, TAB] _
    (.cons ⟨by decide, ⟨?_, ?_, ?_, ?_⟩, ?_⟩ (.cons ⟨by decide, ⟨?_, ?_, ?_, ?_⟩, ?_⟩ (.nil _)))
  · exact fun _ => by decide +kernel
  · exact fun tab => absurd tab (by decide)
  · exact fun tab => absurd tab (by decide)
  · exact fun tab => absurd tab (by decide)
  · unfold Fits
    decide +kernel
  · exact fun redraws => absurd redraws (by unfold Redraws; decide +kernel)
  · exact fun _ none => absurd none (by decide +kernel)
  · exact fun _ _ => by decide +kernel
  · exact fun _ many => absurd many (by decide +kernel)
  · unfold Fits
    decide +kernel

/-- Home behind a completed line: the cursor goes to the column behind the completed text. -/
theorem home_misses_the_line :
    (∀ k ≤ 3, Fits (([0x70, TAB, SPECIAL_KEY_HOME].take k).foldl (Session.key 256)
      (openSession (fun _ => 0) blankDisplay))) ∧
    ([0x70, TAB, SPECIAL_KEY_HOME].foldl (Session.key 256)
      (openSession (fun _ => 0) blankDisplay)).line.screen.scrolls = blankDisplay.scrolls ∧
    ¬Echo ([0x70, TAB, SPECIAL_KEY_HOME].foldl (Session.key 256) (openSession (fun _ => 0) blankDisplay)) := by
  refine ⟨?_, by decide +kernel, ?_⟩
  · unfold Fits
    decide +kernel
  · intro echo
    exact absurd echo.cursor.2 (by decide +kernel)

end Run

end Wittche.Shell
