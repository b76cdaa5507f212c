import Wittche.Lib.Traced
import Wittche.CString

/-! The text screen of `kernel/screen.c`. `video_memory` is an array of 16-bit cells that
records each access; the cursor is a pair of C integers, of which nothing is assumed. -/

namespace Wittche.Screen
open Bytes CString Traced

abbrev Cell := BitVec 16

def SCREEN_WIDTH : Int := 80
def SCREEN_HEIGHT : Int := 25

/-- `DEFAULT_COLOR`: light grey on black. -/
def DEFAULT_COLOR : Byte := 0x07

structure Display where
  cursorRow : Int
  cursorCol : Int
  currentColor : Byte
  videoMemory : Cells Cell
  /-- The position last sent to the cursor ports. -/
  hardwareCursor : BitVec 16
  /-- How often the screen was scrolled. -/
  scrolls : Nat

/-- `(color << 8) | c`. The character is signed: one above 127 fills the colour byte. -/
def cellOf (color c : Byte) : Cell := (color.setWidth 16 <<< 8) ||| c.signExtend 16

def blank (color : Byte) : Cell := cellOf color 0x20

def blankDisplay : Display := ⟨0, 0, DEFAULT_COLOR, ⟨fun _ => blank DEFAULT_COLOR, []⟩, 0, 0⟩

def screenUpdateCursor (s : Display) : Display :=
  { s with hardwareCursor := BitVec.ofInt 16 (s.cursorRow * SCREEN_WIDTH + s.cursorCol) }

/-- Home position, and `color` in every cell. -/
def wipe (s : Display) (color : Byte) : Display :=
  screenUpdateCursor { s with
    videoMemory := s.videoMemory.fill 0 (blank color) 2000
    cursorRow := 0
    cursorCol := 0 }

def screenInit (s : Display) : Display := wipe { s with currentColor := DEFAULT_COLOR } DEFAULT_COLOR

def screenClear (s : Display) : Display := wipe s s.currentColor

/-- The two loops of `screen_scroll` that move each row to the one above it. -/
def rowsUp (m : Cells Cell) : Cells Cell := times (fun row m => m.slideDown (row * SCREEN_WIDTH) SCREEN_WIDTH 80) 24 m

def screenScroll (s : Display) : Display :=
  { s with
    videoMemory := (rowsUp s.videoMemory).fill (24 * SCREEN_WIDTH) (blank s.currentColor) 80
    cursorRow := SCREEN_HEIGHT - 1
    cursorCol := 0
    scrolls := s.scrolls + 1 }

def position (s : Display) : Int := s.cursorRow * SCREEN_WIDTH + s.cursorCol

/-- The branches of `screen_putchar_internal`. -/
def place (s : Display) (c : Byte) : Display :=
  if c = 0x0A then { s with cursorCol := 0, cursorRow := s.cursorRow + 1 }
  else if c = 0x0D then { s with cursorCol := 0 }
  else if c = 0x09 then { s with cursorCol := (s.cursorCol + 4) / 4 * 4 }
  else if c = 0x08 then
    if 0 < s.cursorCol then
      let s := { s with cursorCol := s.cursorCol - 1 }
      { s with videoMemory := s.videoMemory.put (position s) (blank s.currentColor) }
    else if 0 < s.cursorRow then { s with cursorRow := s.cursorRow - 1, cursorCol := SCREEN_WIDTH - 1 }
    else s
  else
    { s with
      videoMemory := s.videoMemory.put (position s) (cellOf s.currentColor c)
      cursorCol := s.cursorCol + 1 }

/-- The line wrap behind the branches. -/
def wrapLine (s : Display) : Display :=
  if SCREEN_WIDTH ≤ s.cursorCol then { s with cursorCol := 0, cursorRow := s.cursorRow + 1 } else s

def screenPutcharInternal (s : Display) (c : Byte) : Display :=
  let s := wrapLine (place s c)
  if SCREEN_HEIGHT ≤ s.cursorRow then screenScroll s else s

def screenPutchar (s : Display) (c : Byte) : Display := screenUpdateCursor (screenPutcharInternal s c)

def putChars (s : Display) (chars : List Byte) : Display := chars.foldl screenPutcharInternal s

/-- `screen_write`; `none` is a `NULL` string. -/
def screenWrite (s : Display) : Option CStr → Display
  | none => s
  | some str => screenUpdateCursor (putChars s str.chars)

def screenWriteColor (s : Display) (str : Option CStr) (color : Byte) : Display :=
  match str with
  | none => s
  | some str =>
    screenUpdateCursor { putChars { s with currentColor := color } str.chars with currentColor := s.currentColor }

def hexChar (num : Nat) : Byte :=
  if num % 16 < 10 then BitVec.ofNat 8 (0x30 + num % 16) else BitVec.ofNat 8 (0x37 + num % 16)

/-- The loop of `screen_write_hex` with `n` digits to go: they are entered from the last one on. -/
def hexDigits : (n num : Nat) → List Byte
  | 0, _ => []
  | n + 1, num => hexDigits n (num / 16) ++ [hexChar num]

def hexText (num : Word) : List Byte := [0x30, 0x78] ++ hexDigits 8 num.toNat

def screenWriteHex (s : Display) (num : Word) : Display := screenUpdateCursor (putChars s (hexText num))

/-- The digits that `screen_write_dec` collects, the last digit first. -/
def decReverse (num : Nat) : List Byte :=
  if num = 0 then [] else BitVec.ofNat 8 (0x30 + num % 10) :: decReverse (num / 10)
termination_by num
decreasing_by omega

def decText (num : Word) : List Byte := if num = 0 then [0x30] else (decReverse num.toNat).reverse

def screenWriteDec (s : Display) (num : Word) : Display := screenUpdateCursor (putChars s (decText num))

def screenSetColor (s : Display) (color : Byte) : Display := { s with currentColor := color }

def screenSetCursor (s : Display) (row col : Int) : Display :=
  if 0 ≤ row ∧ row < SCREEN_HEIGHT ∧ 0 ≤ col ∧ col < SCREEN_WIDTH then
    screenUpdateCursor { s with cursorRow := row, cursorCol := col }
  else s

end Wittche.Screen
