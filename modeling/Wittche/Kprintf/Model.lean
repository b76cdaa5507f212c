import Wittche.Screen.Model

/-! `kernel/kprintf.c`. The format is a place in byte memory, and every address that the
scanner reads is recorded. The arguments are the words on the stack; a pointer among them
leads to a string. The characters go to the screen one by one and are collected besides. -/

namespace Wittche.Kprintf
open Bytes CString Screen

def char (c : Char) : Byte := BitVec.ofNat 8 c.toNat

def digit (uppercase : Bool) (i : Nat) : Byte :=
  if i < 10 then BitVec.ofNat 8 (0x30 + i)
  else if uppercase then BitVec.ofNat 8 (0x41 + (i - 10)) else BitVec.ofNat 8 (0x61 + (i - 10))

/-- The digits that `utoa` enters into `temp`, which has `room` entries left, the last digit
first. -/
def utoaDigits (base : Nat) (uppercase : Bool) : (room value : Nat) → List Byte
  | 0, _ => []
  | room + 1, value =>
    if 0 < value then digit uppercase (value % base) :: utoaDigits base uppercase room (value / base) else []

def utoa (value : Word) (base : Nat) (uppercase : Bool) : List Byte :=
  if value = 0 then [char '0'] else (utoaDigits base uppercase 32 value.toNat).reverse

def itoaSigned (value : Word) : List Byte :=
  if value.toInt < 0 then char '-' :: utoa (-value) 10 false else utoa value 10 false

/-- The variable arguments, with the string that each pointer leads to. -/
structure Arguments where
  word : Nat → Word
  string : Word → CStr

structure Printing where
  format : Nat
  /-- How many arguments `va_arg` has taken. -/
  taken : Nat
  reads : List Nat
  emitted : List Byte
  screen : Display

namespace Printing

def read (p : Printing) : Printing := { p with reads := p.format :: p.reads }

def advance (p : Printing) : Printing := { p with format := p.format + 1 }

/-- Characters for `screen_putchar_internal_for_kprintf`. -/
def emit (p : Printing) (chars : List Byte) : Printing :=
  { p with emitted := p.emitted ++ chars, screen := putChars p.screen chars }

/-- `va_arg`, and what is printed of the argument. -/
def take (p : Printing) (args : Arguments) (chars : Word → List Byte) : Printing :=
  { p with taken := p.taken + 1 }.emit (chars (args.word p.taken))

end Printing

def stringText (args : Arguments) (s : Word) : List Byte :=
  if s = 0 then [char '(', char 'n', char 'u', char 'l', char 'l', char ')'] else (args.string s).chars

/-- The `switch` over the character behind a `%`. -/
def convert (args : Arguments) (p : Printing) (c : Byte) : Printing :=
  if c = char 'd' ∨ c = char 'i' then p.take args itoaSigned
  else if c = char 'u' then p.take args fun val => utoa val 10 false
  else if c = char 'x' then p.take args fun val => utoa val 16 false
  else if c = char 'X' then p.take args fun val => utoa val 16 true
  else if c = char 'p' then p.take args fun val => [char '0', char 'x'] ++ utoa val 16 false
  else if c = char 'c' then p.take args fun val => [val.setWidth 8]
  else if c = char 's' then p.take args (stringText args)
  else if c = char '%' then p.emit [char '%']
  else p.emit [char '%', c]

/-- The loop over the format; `none` is one that has not ended within `fuel` turns. -/
def scanFormat (m : Buffer) (args : Arguments) : (fuel : Nat) → Printing → Option Printing
  | 0, _ => none
  | fuel + 1, p =>
    let c := m p.format
    if c = 0 then some p.read
    else if c = char '%' then
      let p := p.read.advance.read
      scanFormat m args fuel (convert args p (m p.format)).advance
    else scanFormat m args fuel (p.read.emit [c]).advance

def kprintfInternal (s : Display) (color : Byte) (useColor : Bool) (m : Buffer) (format : Nat) (args : Arguments)
    (fuel : Nat) : Option Printing :=
  let coloured := if useColor then screenSetColor s color else s
  (scanFormat m args fuel ⟨format, 0, [], [], coloured⟩).map fun p =>
    let restored := if useColor then screenSetColor p.screen s.currentColor else p.screen
    { p with screen := screenUpdateCursor restored }

def wordArguments (args : List Word) : Arguments := ⟨fun k => args.getD k 0, fun _ => ⟨[], List.not_mem_nil⟩⟩

/-- The screen behind `kprintf`. The loop ends at the latest behind the format, where zeros are. -/
def kprintf (s : Display) (format : CStr) (args : Arguments) : Display :=
  ((kprintfInternal s 0 false format.get 0 args (format.length + 1)).map Printing.screen).getD s

def kprintfColor (s : Display) (color : Byte) (format : CStr) (args : Arguments) : Display :=
  ((kprintfInternal s color true format.get 0 args (format.length + 1)).map Printing.screen).getD s

end Wittche.Kprintf
