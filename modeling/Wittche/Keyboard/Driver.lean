import Wittche.Keyboard.GetLine
import Wittche.Lib.RingBuffer

/-! The keyboard driver of `kernel/keyboard.c`: the flags of the modifier keys, the handler
that is given one byte of the keyboard at each interrupt, and the ring buffer between it and
`keyboard_getchar`. What `keyboard_init` writes on the screen is left out. -/

namespace Wittche.Keyboard
open Bytes

def KEY_LSHIFT : Byte := 0x2A
def KEY_RSHIFT : Byte := 0x36
def KEY_LCTRL : Byte := 0x1D
def KEY_CAPS : Byte := 0x3A
def KEY_UP : Byte := 0x48
def KEY_DOWN : Byte := 0x50
def KEY_LEFT : Byte := 0x4B
def KEY_RIGHT : Byte := 0x4D
def KEY_HOME : Byte := 0x47
def KEY_END : Byte := 0x4F
def KEY_DELETE : Byte := 0x53

def EXTENDED : Byte := 0xE0

def KEYBOARD_BUFFER_SIZE : Nat := 256

/-- The static variables of the driver; the flags are 0 or 1 in the source. -/
structure Driver where
  shiftPressed : Bool
  capsLock : Bool
  ctrlPressed : Bool
  extendedKey : Bool
  keyboardBuffer : Nat → Byte
  bufferReadPos : Nat
  bufferWritePos : Nat

def Driver.static : Driver := ⟨false, false, false, false, fun _ => 0, 0, 0⟩

def asciiTable (l : List Char) : List Byte := l.map fun c => BitVec.ofNat 8 c.toNat

def scancodeToAsciiLower : List Byte := asciiTable
  ['\x00', '\x00', '1', '2', '3', '4', '5', '6', '7', '8', '9', '0', '-', '=', '\x08',
    '\t', 'q', 'w', 'e', 'r', 't', 'y', 'u', 'i', 'o', 'p', '[', ']', '\n',
    '\x00', 'a', 's', 'd', 'f', 'g', 'h', 'j', 'k', 'l', ';', '\x27', '\x60',
    '\x00', '\x5C', 'z', 'x', 'c', 'v', 'b', 'n', 'm', ',', '.', '/', '\x00',
    '*', '\x00', ' ']

def scancodeToAsciiUpper : List Byte := asciiTable
  ['\x00', '\x00', '!', '@', '#', '$', '%', '^', '&', '*', '(', ')', '_', '+', '\x08',
    '\t', 'Q', 'W', 'E', 'R', 'T', 'Y', 'U', 'I', 'O', 'P', '\x7B', '\x7D', '\n',
    '\x00', 'A', 'S', 'D', 'F', 'G', 'H', 'J', 'K', 'L', ':', '\x22', '~',
    '\x00', '|', 'Z', 'X', 'C', 'V', 'B', 'N', 'M', '<', '>', '?', '\x00',
    '*', '\x00', ' ']

def keyboardBufferAdd (d : Driver) (c : Byte) : Driver :=
  let nextPos := (d.bufferWritePos + 1) % KEYBOARD_BUFFER_SIZE
  if nextPos ≠ d.bufferReadPos then
    { d with
      keyboardBuffer := Function.update d.keyboardBuffer d.bufferWritePos c
      bufferWritePos := nextPos }
  else d

def keyboardGetchar (d : Driver) : Driver × Byte :=
  if d.bufferReadPos = d.bufferWritePos then (d, 0)
  else
    ({ d with bufferReadPos := (d.bufferReadPos + 1) % KEYBOARD_BUFFER_SIZE },
      d.keyboardBuffer d.bufferReadPos)

def keyboardHasInput (d : Driver) : Bool := decide (d.bufferReadPos ≠ d.bufferWritePos)

/-- The internal code of an extended scancode, 0 if it has none. -/
def specialKey (scancode : Byte) : Byte :=
  if scancode = KEY_LEFT then SPECIAL_KEY_LEFT
  else if scancode = KEY_RIGHT then SPECIAL_KEY_RIGHT
  else if scancode = KEY_UP then SPECIAL_KEY_UP
  else if scancode = KEY_DOWN then SPECIAL_KEY_DOWN
  else if scancode = KEY_HOME then SPECIAL_KEY_HOME
  else if scancode = KEY_END then SPECIAL_KEY_END
  else if scancode = KEY_DELETE then SPECIAL_KEY_DELETE
  else 0

/-- The character of a scancode in the one table or the other, 0 behind their ends. -/
def asciiOf (useUpper : Bool) (scancode : Byte) : Byte :=
  if scancode.toNat < scancodeToAsciiLower.length then
    if useUpper ∧ scancode.toNat < scancodeToAsciiUpper.length then scancodeToAsciiUpper.getD scancode.toNat 0
    else scancodeToAsciiLower.getD scancode.toNat 0
  else 0

/-- The release of a key, with the release bit removed from its scancode. -/
def handleRelease (d : Driver) (scancode : Byte) : Driver :=
  let released :=
    if scancode = KEY_LSHIFT ∨ scancode = KEY_RSHIFT then { d with shiftPressed := false }
    else if scancode = KEY_LCTRL then { d with ctrlPressed := false }
    else d
  { released with extendedKey := false }

def handleExtended (d : Driver) (scancode : Byte) : Driver :=
  let cleared := { d with extendedKey := false }
  if specialKey scancode ≠ 0 then keyboardBufferAdd cleared (specialKey scancode) else cleared

def handlePress (d : Driver) (scancode : Byte) : Driver :=
  if scancode = KEY_LSHIFT ∨ scancode = KEY_RSHIFT then { d with shiftPressed := true }
  else if scancode = KEY_CAPS then { d with capsLock := !d.capsLock }
  else if scancode = KEY_LCTRL then { d with ctrlPressed := true }
  else
    let ascii := asciiOf (d.shiftPressed ^^ d.capsLock) scancode
    if ascii ≠ 0 then keyboardBufferAdd d ascii else d

/-- `keyboard_handler` with the byte that `inb` returns. -/
def keyboardHandler (d : Driver) (scancode : Byte) : Driver :=
  if scancode = EXTENDED then { d with extendedKey := true }
  else if scancode &&& 0x80 ≠ 0 then handleRelease d (scancode &&& 0x7F)
  else if d.extendedKey then handleExtended d scancode
  else handlePress d scancode

/-- `extended_key` is the one flag that is left as it is. -/
def keyboardInit (d : Driver) : Driver :=
  { d with
    bufferReadPos := 0
    bufferWritePos := 0
    shiftPressed := false
    capsLock := false
    ctrlPressed := false }

end Wittche.Keyboard
