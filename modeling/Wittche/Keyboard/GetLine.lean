import Wittche.Lib.Editor
import Wittche.Screen.Model

/-! `keyboard_get_line` of `kernel/keyboard.c`, key by key. The keys are the characters that
`keyboard_getchar` returns; a call whose keys end without an Enter is still waiting. -/

namespace Wittche.Keyboard
open Bytes Traced Screen

def SPECIAL_KEY_UP : Byte := 0x01
def SPECIAL_KEY_DOWN : Byte := 0x02
def SPECIAL_KEY_LEFT : Byte := 0x03
def SPECIAL_KEY_RIGHT : Byte := 0x04
def SPECIAL_KEY_HOME : Byte := 0x05
def SPECIAL_KEY_END : Byte := 0x06
def SPECIAL_KEY_DELETE : Byte := 0x07

def ENTER : Byte := 0x0A
def TAB : Byte := 0x09
def BACKSPACE : Byte := 0x08

/-- The local variables of a call, its buffer and the screen. The buffer records the indices
that the call assigns to, and those that its shifts read. -/
structure LineState where
  buffer : Cells Byte
  length : Int
  cursorPos : Int
  startCol : Int
  startRow : Int
  screen : Display

namespace LineState

/-- The loop that shifts the characters behind index `i` one position left. -/
def closeGap (s : LineState) (i : Int) : LineState :=
  { s with buffer := s.buffer.slideDown i 1 (s.length - 1 - i).toNat }

def openGap (s : LineState) : LineState :=
  { s with buffer := s.buffer.slideUp s.length (s.length - s.cursorPos).toNat }

def setCursor (s : LineState) (col : Int) : LineState :=
  { s with screen := screenSetCursor s.screen s.startRow col }

def putchar (s : LineState) (c : Byte) : LineState := { s with screen := screenPutchar s.screen c }

/-- The loop that puts `buffer[0..length)` on the screen. -/
def drawLine (s : LineState) : LineState :=
  { s with screen := times (fun i screen => screenPutchar screen (s.buffer.cell i)) s.length.toNat s.screen }

end LineState

def beginLine (buffer : Int → Byte) (screen : Display) : LineState :=
  ⟨⟨buffer, []⟩, 0, 0, screen.cursorCol, screen.cursorRow, screen⟩

/-- `c >= 32 && c < 127`, with `char` signed. -/
def printable (c : Byte) : Prop := 32 ≤ c.toInt ∧ c.toInt < 127

instance (c : Byte) : Decidable (printable c) := inferInstanceAs (Decidable (_ ∧ _))

/-- The turn of `keyboard_get_line` for a key that is not Enter. -/
def keyboardKey (maxLength : Int) (s : LineState) (c : Byte) : LineState :=
  if c = BACKSPACE then
    if 0 < s.cursorPos then
      let s := s.closeGap (s.cursorPos - 1)
      let s := { s with length := s.length - 1, cursorPos := s.cursorPos - 1 }
      let s := ((s.setCursor s.startCol).drawLine).putchar 0x20
      s.setCursor (s.startCol + s.cursorPos)
    else s
  else if c = SPECIAL_KEY_LEFT then
    if 0 < s.cursorPos then
      let s := { s with cursorPos := s.cursorPos - 1 }
      s.setCursor (s.startCol + s.cursorPos)
    else s
  else if c = SPECIAL_KEY_RIGHT then
    if s.cursorPos < s.length then
      let s := { s with cursorPos := s.cursorPos + 1 }
      s.setCursor (s.startCol + s.cursorPos)
    else s
  else if c = SPECIAL_KEY_HOME then
    let s := { s with cursorPos := 0 }
    s.setCursor s.startCol
  else if c = SPECIAL_KEY_END then
    let s := { s with cursorPos := s.length }
    s.setCursor (s.startCol + s.cursorPos)
  else if c = SPECIAL_KEY_DELETE then
    if s.cursorPos < s.length then
      let s := s.closeGap s.cursorPos
      let s := { s with length := s.length - 1 }
      let s := ((s.setCursor s.startCol).drawLine).putchar 0x20
      s.setCursor (s.startCol + s.cursorPos)
    else s
  else if printable c ∧ s.length < maxLength - 1 then
    let s := if s.cursorPos < s.length then s.openGap else s
    let s := { s with
      buffer := s.buffer.put s.cursorPos c
      length := s.length + 1
      cursorPos := s.cursorPos + 1 }
    let s := (s.setCursor s.startCol).drawLine
    s.setCursor (s.startCol + s.cursorPos)
  else s

/-- The turn for Enter: the line gets its NUL. -/
def LineState.enter (s : LineState) : LineState := { s with buffer := s.buffer.put s.length 0 }.putchar 0x0A

def keyboardGetLine (maxLength : Int) : List Byte → LineState → Option LineState
  | [], _ => none
  | c :: keys, s => if c = ENTER then some s.enter else keyboardGetLine maxLength keys (keyboardKey maxLength s c)

end Wittche.Keyboard
