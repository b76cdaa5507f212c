import Wittche.Shell.GetLine

/-! The two line readers against a line editor. `shell_get_line` and `keyboard_get_line`
do the same for every key but Tab, and what they do in the buffer is what the editor does
to a text with a cursor. -/

namespace Wittche.Shell
open Bytes Traced Keyboard Editor

def commandOf (c : Byte) : Option (Command Byte) :=
  if c = BACKSPACE then some .deleteBefore
  else if c = SPECIAL_KEY_LEFT then some .left
  else if c = SPECIAL_KEY_RIGHT then some .right
  else if c = SPECIAL_KEY_HOME then some .home
  else if c = SPECIAL_KEY_END then some .last
  else if c = SPECIAL_KEY_DELETE then some .deleteAt
  else if printable c then some (.insert c)
  else none

def press (maxLength : Int) (l : Editor.Line Byte) (c : Byte) : Editor.Line Byte :=
  match commandOf c with
  | none => l
  | some command => l.apply (maxLength - 1).toNat command

def edited (maxLength : Int) (keys : List Byte) : Editor.Line Byte := keys.foldl (press maxLength) .empty

/-- A buffer, a length and a cursor that stand for the line `l`. -/
structure Edits (maxLength : Int) (buffer : Cells Byte) (length cursorPos : Int) (l : Editor.Line Byte) : Prop where
  length : length = l.text.length
  cursor : cursorPos = l.cursor
  room : l.text.length ≤ maxLength - 1
  holds : Holds buffer l.text
  noNul : 0 ∉ l.text
  written : buffer.Within maxLength

section Commands

variable {maxLength length cursorPos : Int} {buffer : Cells Byte} {l : Editor.Line Byte}
variable (e : Edits maxLength buffer length cursorPos l)
include e

theorem Edits.erase {k p : Nat} (at_k : k < l.text.length) (inside : p ≤ (l.text.eraseIdx k).length) :
    Edits maxLength (buffer.slideDown k 1 (length - 1 - k).toNat) (length - 1) p ⟨l.text.eraseIdx k, p, inside⟩ := by
  have count : (length - 1 - k).toNat = l.text.length - 1 - k := by
    rw [e.length]
    omega
  have shorter := List.length_eraseIdx_of_lt at_k
  have bound := e.room
  refine ⟨?_, rfl, ?_, ?_, ?_, ?_⟩
  · rw [e.length, shorter]
    omega
  · simp only [shorter]
    omega
  · rw [count]
    exact e.holds.erase at_k
  · exact fun nul => e.noNul (List.mem_of_mem_eraseIdx nul)
  · rw [count]
    exact e.written.slideDown (by omega) (by decide) (by omega)

theorem Edits.deleteBefore (limit : Nat) (some : 0 < cursorPos) :
    Edits maxLength (buffer.slideDown (cursorPos - 1) 1 (length - 1 - (cursorPos - 1)).toNat) (length - 1)
      (cursorPos - 1) (l.apply limit .deleteBefore) := by
  have here := e.cursor
  have inside := l.inside
  have erased := e.erase (show l.cursor - 1 < l.text.length by omega)
    (show l.cursor - 1 ≤ _ by rw [List.length_eraseIdx_of_lt (by omega)]; omega)
  rw [show ((l.cursor - 1 : Nat) : Int) = cursorPos - 1 by omega] at erased
  rwa [Editor.Line.apply, dif_pos (by omega)]

theorem Edits.deleteAt (limit : Nat) (some : cursorPos < length) :
    Edits maxLength (buffer.slideDown cursorPos 1 (length - 1 - cursorPos).toNat) (length - 1) cursorPos
      (l.apply limit .deleteAt) := by
  have here := e.cursor
  have size := e.length
  have at_cursor : l.cursor < l.text.length := by omega
  have erased := e.erase at_cursor (show l.cursor ≤ _ by rw [List.length_eraseIdx_of_lt at_cursor]; omega)
  rw [← here] at erased
  rwa [Editor.Line.apply, dif_pos at_cursor]

theorem Edits.insert {c : Byte} (nonzero : c ≠ 0) (some : length < maxLength - 1) :
    Edits maxLength ((buffer.slideUp length (length - cursorPos).toNat).put cursorPos c) (length + 1)
      (cursorPos + 1) (l.apply (maxLength - 1).toNat (.insert c)) := by
  have here := e.cursor
  have size := e.length
  have inside := l.inside
  have longer := List.length_insertIdx_of_le_length l.inside c
  rw [Editor.Line.apply, dif_pos (by omega), here, size,
    show ((l.text.length : Int) - l.cursor).toNat = l.text.length - l.cursor by omega]
  refine ⟨?_, rfl, ?_, e.holds.insert l.inside c, ?_, ?_⟩
  · simp only [longer]
    omega
  · simp only [longer]
    omega
  · intro nul
    rcases (List.mem_insertIdx l.inside).mp nul with zero | old
    · exact nonzero zero.symm
    · exact e.noNul old
  · exact (e.written.slideUp (by omega) (by omega)).put (by omega) (by omega)

theorem Edits.move {p : Int} {l' : Editor.Line Byte} (cursor : p = l'.cursor) (same : l'.text = l.text) :
    Edits maxLength buffer length p l' := by
  refine ⟨?_, cursor, ?_, ?_, ?_, e.written⟩
  · rw [same]
    exact e.length
  · rw [same]
    exact e.room
  · rw [same]
    exact e.holds
  · rw [same]
    exact e.noNul

end Commands

section Keys

variable {maxLength : Int} {s : LineState} {l : Editor.Line Byte}

def Editing (maxLength : Int) (s : LineState) (l : Editor.Line Byte) : Prop :=
  Edits maxLength s.buffer s.length s.cursorPos l

theorem printable_ne_zero {c : Byte} (h : printable c) : c ≠ 0 := by
  rintro rfl
  exact absurd h (by decide)

theorem openGap_eq (s : LineState) : (if s.cursorPos < s.length then s.openGap else s) = s.openGap := by
  split
  next => rfl
  next atEnd =>
    have none : (s.length - s.cursorPos).toNat = 0 := by omega
    rw [LineState.openGap, none]
    rfl

theorem keyboardKey_editing (e : Editing maxLength s l) (c : Byte) :
    Editing maxLength (keyboardKey maxLength s c) (press maxLength l c) := by
  have here := e.cursor
  have size := e.length
  by_cases backspace : c = BACKSPACE
  · simp only [keyboardKey, press, commandOf, if_pos backspace]
    split
    next some => exact e.deleteBefore _ some
    next none => rwa [Editor.Line.apply, dif_neg (by omega)]
  by_cases left : c = SPECIAL_KEY_LEFT
  · simp only [keyboardKey, press, commandOf, if_neg backspace, if_pos left]
    split
    next some => exact e.move (show s.cursorPos - 1 = ((l.cursor - 1 : Nat) : Int) by omega) rfl
    next none => exact e.move (show s.cursorPos = ((l.cursor - 1 : Nat) : Int) by omega) rfl
  by_cases right : c = SPECIAL_KEY_RIGHT
  · simp only [keyboardKey, press, commandOf, if_neg backspace, if_neg left, if_pos right]
    split
    next some =>
      rw [Editor.Line.apply, dif_pos (by omega)]
      exact e.move (show s.cursorPos + 1 = ((l.cursor + 1 : Nat) : Int) by omega) rfl
    next none => rwa [Editor.Line.apply, dif_neg (by omega)]
  by_cases home : c = SPECIAL_KEY_HOME
  · simp only [keyboardKey, press, commandOf, if_neg backspace, if_neg left, if_neg right, if_pos home]
    exact e.move rfl rfl
  by_cases last : c = SPECIAL_KEY_END
  · simp only [keyboardKey, press, commandOf, if_neg backspace, if_neg left, if_neg right, if_neg home, if_pos last]
    exact e.move size rfl
  by_cases delete : c = SPECIAL_KEY_DELETE
  · simp only [keyboardKey, press, commandOf, if_neg backspace, if_neg left, if_neg right, if_neg home, if_neg last,
      if_pos delete]
    split
    next some => exact e.deleteAt _ some
    next none => rwa [Editor.Line.apply, dif_neg (by omega)]
  simp only [keyboardKey, press, commandOf, if_neg backspace, if_neg left, if_neg right, if_neg home, if_neg last,
    if_neg delete]
  by_cases shown : printable c
  · rw [if_pos shown]
    split
    next some =>
      rw [openGap_eq]
      exact e.insert (printable_ne_zero shown) some.2
    next full =>
      have noRoom : ¬s.length < maxLength - 1 := fun room => full ⟨shown, room⟩
      have bound := e.room
      simp only
      rwa [Editor.Line.apply, dif_neg (by omega)]
  · rw [if_neg shown, if_neg fun h => shown h.1]
    exact e

theorem keyboardKeys_editing (e : Editing maxLength s l) (keys : List Byte) :
    Editing maxLength (keys.foldl (keyboardKey maxLength) s) (keys.foldl (press maxLength) l) := by
  induction keys generalizing s l with
  | nil => exact e
  | cons c rest ih => exact ih (keyboardKey_editing e c)

/-- The two copies differ in Tab only. -/
theorem shellKey_eq (maxLength : Int) (s : LineState) {c : Byte} (notTab : c ≠ TAB) :
    shellKey maxLength s c = keyboardKey maxLength s c := by
  rw [shellKey, if_neg notTab]
  rfl

theorem shellKeys_eq (maxLength : Int) (s : LineState) {keys : List Byte} (noTab : TAB ∉ keys) :
    keys.foldl (shellKey maxLength) s = keys.foldl (keyboardKey maxLength) s := by
  induction keys generalizing s with
  | nil => rfl
  | cons c rest ih =>
    rw [List.foldl_cons, List.foldl_cons, shellKey_eq maxLength s fun tab => noTab (by simp [tab])]
    exact ih _ fun tab => noTab (List.mem_cons_of_mem _ tab)

theorem keyboardGetLine_eq (maxLength : Int) (s : LineState) {keys : List Byte} (noEnter : ENTER ∉ keys) :
    keyboardGetLine maxLength (keys ++ [ENTER]) s = some (keys.foldl (keyboardKey maxLength) s).enter := by
  induction keys generalizing s with
  | nil => rfl
  | cons c rest ih =>
    rw [List.cons_append, keyboardGetLine, if_neg fun enter => noEnter (by simp [enter])]
    exact ih _ fun enter => noEnter (List.mem_cons_of_mem _ enter)

theorem shellGetLine_eq (maxLength : Int) (s : LineState) {keys : List Byte} (noEnter : ENTER ∉ keys) :
    shellGetLine maxLength (keys ++ [ENTER]) s = some (keys.foldl (shellKey maxLength) s).enter := by
  induction keys generalizing s with
  | nil => rfl
  | cons c rest ih =>
    rw [List.cons_append, shellGetLine, if_neg fun enter => noEnter (by simp [enter])]
    exact ih _ fun enter => noEnter (List.mem_cons_of_mem _ enter)

end Keys

/-- The buffer is the text, a string without a NUL in it, and the NUL behind it. -/
structure Delivers (buffer : Int → Byte) (text : List Byte) : Prop where
  chars : ∀ i : Nat, i < text.length → text[i]? = some (buffer i)
  noNul : 0 ∉ text
  nul : buffer text.length = 0

/-- A state of a call whose variables are in their ranges. -/
structure InRange (maxLength : Int) (s : LineState) : Prop where
  cursor : 0 ≤ s.cursorPos ∧ s.cursorPos ≤ s.length
  length : s.length ≤ maxLength - 1
  written : s.buffer.Within maxLength

variable {maxLength : Int} {s : LineState} {l : Editor.Line Byte}

theorem Editing.inRange (e : Editing maxLength s l) : InRange maxLength s := by
  have inside := l.inside
  refine ⟨⟨?_, ?_⟩, ?_, e.written⟩
  · rw [e.cursor]
    omega
  · rw [e.cursor, e.length]
    omega
  · rw [e.length]
    exact e.room

theorem Editing.enter_delivers (e : Editing maxLength s l) : Delivers s.enter.buffer.cell l.text := by
  have cells : s.enter.buffer.cell = Function.update s.buffer.cell l.text.length 0 := by
    rw [← e.length]
    rfl
  refine ⟨?_, e.noNul, ?_⟩
  · intro i hi
    rw [cells, Function.update_of_ne (by omega)]
    exact e.holds i hi
  · rw [cells, Function.update_self]

theorem Editing.enter_written (e : Editing maxLength s l) : s.enter.buffer.Within maxLength := by
  have size := e.length
  have bound := e.room
  exact e.written.put (by omega) (by omega)

theorem beginLine_editing (room : 1 ≤ maxLength) (buffer : Int → Byte) (screen : Screen.Display) :
    Editing maxLength (beginLine buffer screen) .empty where
  length := rfl
  cursor := rfl
  room := by
    simp only [Editor.Line.empty, List.length_nil]
    omega
  holds := fun i hi => absurd hi (Nat.not_lt_zero i)
  noNul := List.not_mem_nil
  written := fun i hi => absurd hi List.not_mem_nil

/-- For every key sequence without Tab that ends in Enter both readers return, with the
string of the line editor in their buffer, whatever buffer and screen they start from; all
the way the variables are in range and the buffer is written below `max_length` only. -/
theorem getLine_edits (room : 1 ≤ maxLength) {keys : List Byte} (noEnter : ENTER ∉ keys) (noTab : TAB ∉ keys)
    (buffer buffer' : Int → Byte) (screen screen' : Screen.Display) :
    (∃ s, shellGetLine maxLength (keys ++ [ENTER]) (beginLine buffer screen) = some s ∧
      Delivers s.buffer.cell (edited maxLength keys).text ∧ s.buffer.Within maxLength) ∧
    (∃ s, keyboardGetLine maxLength (keys ++ [ENTER]) (beginLine buffer' screen') = some s ∧
      Delivers s.buffer.cell (edited maxLength keys).text ∧ s.buffer.Within maxLength) ∧
    ∀ k, InRange maxLength ((keys.take k).foldl (shellKey maxLength) (beginLine buffer screen)) ∧
      InRange maxLength ((keys.take k).foldl (keyboardKey maxLength) (beginLine buffer' screen')) := by
  have shell := keyboardKeys_editing (beginLine_editing room buffer screen)
  have keyboard := keyboardKeys_editing (beginLine_editing room buffer' screen')
  refine ⟨⟨_, shellGetLine_eq _ _ noEnter, ?_⟩, ⟨_, keyboardGetLine_eq _ _ noEnter, ?_⟩, ?_⟩
  · rw [shellKeys_eq _ _ noTab]
    exact ⟨(shell keys).enter_delivers, (shell keys).enter_written⟩
  · exact ⟨(keyboard keys).enter_delivers, (keyboard keys).enter_written⟩
  · intro k
    rw [shellKeys_eq _ _ fun tab => noTab (List.mem_of_mem_take tab)]
    exact ⟨(shell _).inRange, (keyboard _).inRange⟩

/-- A buffer of three characters: the third letter finds it full, and the first one is
deleted from the middle. -/
theorem getLine_edits_full :
    (∃ s, shellGetLine 3 ([0x61, 0x62, SPECIAL_KEY_LEFT, 0x63, BACKSPACE] ++ [ENTER])
      (beginLine (fun _ => 0x78) Screen.blankDisplay) = some s ∧
      Delivers s.buffer.cell [0x62] ∧ s.buffer.Within 3) ∧
    ∃ s, keyboardGetLine 3 ([0x61, 0x62, SPECIAL_KEY_LEFT, 0x63, BACKSPACE] ++ [ENTER])
      (beginLine (fun _ => 0x79) Screen.blankDisplay) = some s ∧
      Delivers s.buffer.cell [0x62] ∧ s.buffer.Within 3 := by
  have text : (edited 3 [0x61, 0x62, SPECIAL_KEY_LEFT, 0x63, BACKSPACE]).text = [0x62] := by decide
  have both := @getLine_edits 3 (by decide) [0x61, 0x62, SPECIAL_KEY_LEFT, 0x63, BACKSPACE]
    (by decide) (by decide) (fun _ => 0x78) (fun _ => 0x79) Screen.blankDisplay Screen.blankDisplay
  rw [text] at both
  exact ⟨both.1, both.2.1⟩

end Wittche.Shell
