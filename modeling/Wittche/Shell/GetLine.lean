import Wittche.Keyboard.GetLine

/-! `shell_get_line` of `kernel/shell.c` with `handle_tab_completion`, key by key, and
`shell_prompt`. The completion compares with the buffer up to its first NUL, wherever the
line ends. -/

namespace Wittche.Shell
open Bytes CString Traced Screen Keyboard

def literal (s : String) (noNul : 0 ∉ ascii s) : CStr := ⟨ascii s, noNul⟩

def availableCommands : List CStr :=
  [literal "help" (by decide), literal "clear" (by decide), literal "cls" (by decide),
   literal "about" (by decide), literal "ver" (by decide), literal "mem" (by decide),
   literal "meminfo" (by decide), literal "memtest" (by decide), literal "ps" (by decide),
   literal "testproc" (by decide), literal "sleeptest" (by decide), literal "nice" (by decide),
   literal "kill" (by decide), literal "ipctest" (by decide), literal "syscalltest" (by decide),
   literal "usermodetest" (by decide), literal "echo" (by decide), literal "color" (by decide),
   literal "uptime" (by decide), literal "history" (by decide), literal "banner" (by decide),
   literal "ramdisk" (by decide), literal "rdformat" (by decide), literal "rdinfo" (by decide),
   literal "fsformat" (by decide), literal "ls" (by decide), literal "cat" (by decide),
   literal "touch" (by decide), literal "rm" (by decide), literal "mkdir" (by decide),
   literal "write" (by decide)]

def noText : CStr := literal "" (by decide)

def commandAt (i : Nat) : CStr := availableCommands.getD i noText

def newline : CStr := literal "\n" (by decide)
def twoSpaces : CStr := literal "  " (by decide)

/-- `shell_prompt`: the name in green, the sign in light grey. -/
def shellPrompt (s : Display) : Display :=
  let s := screenWriteColor s (some (literal "wittche" (by decide))) 0x02
  screenWriteColor s (some (literal "> " (by decide))) 0x07

def commonLength : List Byte → List Byte → Nat
  | a :: as, b :: bs => if a = b then commonLength as bs + 1 else 0
  | _, _ => 0

/-- The variables of the search in `handle_tab_completion`, and the screen it shows
the matches on. -/
structure Search where
  screen : Display
  matchCount : Nat
  found : CStr
  commonPrefix : CStr
  commonLen : Nat

def typed (buffer : Cells Byte) : Buffer := fun k => buffer.cell k

/-- The turn of the search for command `i`. Behind the second match stand the names of the
command before it in the table and its own. -/
def considerCommand (buffer : Cells Byte) (i : Nat) (t : Search) : Search :=
  if strStartsWith (commandAt i) (typed buffer) then
    if t.matchCount + 1 = 1 then
      { t with
        matchCount := t.matchCount + 1
        found := commandAt i
        commonPrefix := commandAt i
        commonLen := (commandAt i).length }
    else if t.matchCount + 1 = 2 then
      let screen := screenWrite (screenWrite t.screen (some newline)) (some (commandAt (i - 1)))
      { t with
        matchCount := t.matchCount + 1
        screen := screenWrite (screenWrite screen (some twoSpaces)) (some (commandAt i))
        commonLen := commonLength (commandAt (i - 1)).chars (commandAt i).chars }
    else
      { t with
        matchCount := t.matchCount + 1
        screen := screenWrite (screenWrite t.screen (some twoSpaces)) (some (commandAt i)) }
  else t

def searchCommands (buffer : Cells Byte) (screen : Display) : Search :=
  times (considerCommand buffer) availableCommands.length ⟨screen, 0, noText, noText, 0⟩

/-- What `handle_tab_completion` leaves: its return value is the new length. `prompt` is the
cursor behind the prompt it displayed, if it displayed one. -/
structure Completion where
  buffer : Cells Byte
  screen : Display
  length : Int
  prompt : Option (Int × Int)

/-- The loops that enter `n` characters of a command from index `i` on, in the buffer and on
the screen. -/
def typeOut (text : CStr) (i : Int) (n : Nat) (t : Completion) : Completion :=
  times (fun k t => { t with
    buffer := t.buffer.put (i + k) (text.get (i + k).toNat)
    screen := screenPutchar t.screen (text.get (i + k).toNat) }) n t

def completeOne (found : CStr) (length maxLength : Int) (t : Completion) : Completion :=
  if found.length < maxLength - 1 then
    let t := typeOut found length (found.length - length).toNat t
    if found.length < maxLength - 1 then
      { t with
        buffer := t.buffer.put found.length 0x20
        screen := screenPutchar t.screen 0x20
        length := found.length + 1 }
    else { t with length := found.length }
  else { t with length := length }

/-- The branch for several matches: a new prompt, and the line behind it. -/
def completeMany (search : Search) (length maxLength : Int) (t : Completion) : Completion :=
  let screen := shellPrompt (screenWrite t.screen (some newline))
  let t := { t with screen := screen, prompt := some (screen.cursorRow, screen.cursorCol) }
  if length < search.commonLen ∧ search.commonLen < maxLength - 1 then
    { typeOut search.commonPrefix 0 search.commonLen t with length := search.commonLen }
  else
    { t with
      screen := times (fun i screen => screenPutchar screen (t.buffer.cell i)) length.toNat t.screen
      length := length }

def handleTabCompletion (buffer : Cells Byte) (screen : Display) (length maxLength : Int) : Completion :=
  let search := searchCommands buffer screen
  let t : Completion := ⟨buffer, search.screen, 0, none⟩
  if search.matchCount = 0 then t
  else if search.matchCount = 1 then completeOne search.found length maxLength t
  else completeMany search length maxLength t

/-- The turn of `shell_get_line` for a key that is not Enter. -/
def shellKey (maxLength : Int) (s : LineState) (c : Byte) : LineState :=
  if c = TAB then
    let t := handleTabCompletion s.buffer s.screen s.length maxLength
    { buffer := t.buffer
      screen := t.screen
      length := t.length
      cursorPos := t.length
      startCol := t.screen.cursorCol
      startRow := t.screen.cursorRow }
  else if c = BACKSPACE then
    if 0 < s.cursorPos then
      let s := s.closeGap (s.cursorPos - 1)
      let s := { s with length := s.length - 1, cursorPos := s.cursorPos - 1 }
      let s := ((s.setCursor s.startCol).drawLine).putchar 0x20
      s.setCursor (s.startCol + s.cursorPos)
    else s
  else if c = SPECIAL_KEY_LEFT then
    if 0 < s.cursorPos then
      let s := { s with cursorPos := s.cursorPos - 1 }
      s.setCursor (s.startCol + s.cursorPos)
    else s
  else if c = SPECIAL_KEY_RIGHT then
    if s.cursorPos < s.length then
      let s := { s with cursorPos := s.cursorPos + 1 }
      s.setCursor (s.startCol + s.cursorPos)
    else s
  else if c = SPECIAL_KEY_HOME then
    let s := { s with cursorPos := 0 }
    s.setCursor s.startCol
  else if c = SPECIAL_KEY_END then
    let s := { s with cursorPos := s.length }
    s.setCursor (s.startCol + s.cursorPos)
  else if c = SPECIAL_KEY_DELETE then
    if s.cursorPos < s.length then
      let s := s.closeGap s.cursorPos
      let s := { s with length := s.length - 1 }
      let s := ((s.setCursor s.startCol).drawLine).putchar 0x20
      s.setCursor (s.startCol + s.cursorPos)
    else s
  else if printable c ∧ s.length < maxLength - 1 then
    let s := if s.cursorPos < s.length then s.openGap else s
    let s := { s with
      buffer := s.buffer.put s.cursorPos c
      length := s.length + 1
      cursorPos := s.cursorPos + 1 }
    let s := (s.setCursor s.startCol).drawLine
    s.setCursor (s.startCol + s.cursorPos)
  else s

def shellGetLine (maxLength : Int) : List Byte → LineState → Option LineState
  | [], _ => none
  | c :: keys, s => if c = ENTER then some s.enter else shellGetLine maxLength keys (shellKey maxLength s c)

end Wittche.Shell
