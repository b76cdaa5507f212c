import Wittche.Shell.History
import Wittche.Strings.Splitting

/-! `shell_process_command` of `kernel/shell.c` up to where it looks at the command's name. The
line is trimmed in place, a copy of it is split into words, and the arguments are searched for
in the line itself. The copy is an array of its own; the indices that are written to in it are
recorded. -/

namespace Wittche.Shell
open Bytes CString Words

inductive Processed
  | blank
  | noCommand
  | parsed (cmdCopy : Buffer) (tokens : List Nat) (fullArgs : Nat)

/-- The string at an address, as far as `fuel` bytes go. -/
def stringAt (m : Buffer) (a fuel : Nat) : CStr :=
  ⟨((List.range fuel).map fun j => m (a + j)).takeWhile (· ≠ 0), fun zero => by
    simpa using List.mem_takeWhile_imp zero⟩

/-- `strncpy(cmd_copy, command, MAX_CMD_LENGTH)`. -/
def copyCommand (cmdCopy : Buffer) (command : CStr) : Buffer × List Nat :=
  strncpyLogged cmdCopy 0 command.chars MAX_CMD_LENGTH

def fullArgs (m : Buffer) (command fuel : Nat) : Option Nat :=
  match skipWhile (fun c => c ≠ 0 ∧ c ≠ 0x20) m fuel command with
  | none => none
  | some behind => skipWhile (· = 0x20) m fuel behind

/-- The memory with the line in it, the history, and what there is for the dispatch. `none` is
a loop that has not ended within `fuel` bytes. -/
def shellProcessCommand (m : Buffer) (h : History) (cmdCopy : Buffer) (command fuel : Nat) :
    Option (Buffer × History × Processed) :=
  match strTrim m command fuel with
  | none => none
  | some m =>
    if m command = 0 then some (m, h, .blank)
    else
      let line := stringAt m command fuel
      match shellAddHistory h line with
      | none => none
      | some h =>
        match strSplit (copyCommand cmdCopy line).1 0 0x20 10 fuel with
        | none => none
        | some (cmdCopy, tokens) =>
          if tokens.length = 0 then some (m, h, .noCommand)
          else (fullArgs m command fuel).map fun args => (m, h, .parsed cmdCopy tokens args)

section Copying

theorem copyCommand_inside (cmdCopy : Buffer) (command : CStr) :
    (∀ i ∈ (copyCommand cmdCopy command).2, i < MAX_CMD_LENGTH) ↔ MAX_CMD_LENGTH ≤ command.length := by
  have size : command.length = command.chars.length := rfl
  rw [copyCommand, strncpyLogged_snd]
  simp only [List.mem_range'_1]
  constructor
  · intro inside
    by_contra short
    have last := inside MAX_CMD_LENGTH ⟨Nat.zero_le _, by rw [if_pos (by omega)]; omega⟩
    omega
  · rintro long i ⟨-, lt⟩
    rw [if_neg (by omega)] at lt
    omega

/-- `strncpy` writes the bytes it was asked for, and no others, exactly when its source has at
least `n` characters; no command that the shell takes has as many as its array. -/
theorem strncpy_exact (dest : Buffer) (d : Nat) (src : CStr) (n : Nat) :
    (StrncpyValues dest d src n ∧ (strncpyLogged dest d src.chars n).2 = List.range' d n ↔ n ≤ src.length) ∧
    (StrncpyValues dest d src n ↔ n ≤ src.length ∨ dest (d + n) = 0) ∧
    ((∀ i ∈ (copyCommand dest src).2, i < 256) ↔ 256 ≤ src.length) := by
  refine ⟨?_, strncpyValues_iff dest d src n, copyCommand_inside dest src⟩
  rw [strncpyLogged_iff, strncpyValues_iff]
  exact ⟨And.right, fun fits => ⟨Or.inl fits, fits⟩⟩

theorem help_noNul : 0 ∉ ascii "help" := by
  decide

/-- With room for seven bytes the copy of `help` clears the eighth, and the shell's copy clears
the byte behind `cmd_copy`. -/
theorem strncpy_help : let help : CStr := ⟨ascii "help", help_noNul⟩
    strncpy (fun _ => 0xFF) 0 help 7 7 = 0 ∧ ¬StrncpyValues (fun _ => 0xFF) 0 help 7 ∧ help.length ≤ 255 ∧
      256 ∈ (copyCommand (fun _ => 0xFF) help).2 := by
  refine ⟨by decide, fun values => ?_, by decide, ?_⟩
  · have kept := values.frame 7 (Nat.le_refl 7)
    revert kept
    decide
  · rw [copyCommand, strncpyLogged_snd]
    exact List.mem_range'_1.mpr (by decide)

end Copying

/-- The first word of a line, and what is left behind it and the spaces that follow. -/
structure Arguments (line word args : List Byte) : Prop where
  first : (words 0x20 line).head? = some word
  rest : args = (line.drop word.length).dropWhile (· = 0x20)
  parts : ∃ spaces, (∀ c ∈ spaces, c = 0x20) ∧ line = word ++ (spaces ++ args)

section Parsing

variable {m : Buffer} {a fuel : Nat} {line : List Byte}

theorem stringAt_eq (h : Reads m a line) (noNul : 0 ∉ line) (enough : line.length < fuel) :
    (stringAt m a fuel).chars = line := h.takeWhile_eq noNul enough

theorem copyCommand_reads (cmdCopy : Buffer) {command : CStr} (short : command.length < MAX_CMD_LENGTH) :
    Reads (copyCommand cmdCopy command).1 0 command.chars := by
  intro i le
  have size : command.length = command.chars.length := rfl
  rw [copyCommand, strncpyLogged_fst, strncpyFrom_apply, if_pos (by omega), Nat.zero_add, Nat.sub_zero]

theorem fullArgs_spec (h : Reads m a line) (noNul : 0 ∉ line) (enough : line.length < fuel) (some : line ≠ [])
    (front : ∀ c ∈ line.head?, c ≠ 0x20) :
    ∃ args word place, fullArgs m a fuel = .some place ∧ Arguments line word args ∧ Reads m place args := by
  obtain ⟨word, rest, rfl, nonempty, free, ends, first⟩ := words_front some front
  have run : (word ++ rest).takeWhile (fun c => c ≠ 0 ∧ c ≠ 0x20) = word := by
    rw [List.takeWhile_append_of_pos]
    · cases rest with
      | nil => exact List.append_nil _
      | cons c rest => rw [List.takeWhile_cons, if_neg (by simp [ends c rfl]), List.append_nil]
    · intro c mem
      refine decide_eq_true ⟨fun zero => noNul (zero ▸ List.mem_append_left _ mem), fun space => free (space ▸ mem)⟩
  have behind := h.append_right
  have short : rest.length < fuel := by
    rw [List.length_append] at enough
    omega
  refine ⟨rest.dropWhile (· = 0x20), word, a + word.length + (rest.takeWhile (· = 0x20)).length, ?_, ⟨?_, ?_, ?_⟩,
    behind.dropWhile _⟩
  · rw [fullArgs, skipWhile_eq h (by decide) enough, run]
    exact skipWhile_eq behind (by decide) short
  · rw [first]
    rfl
  · rw [List.drop_left]
  · exact ⟨rest.takeWhile (· = 0x20), fun c mem => by simpa using List.mem_takeWhile_imp mem,
      by rw [List.takeWhile_append_dropWhile]⟩

theorem trim_front (line : List Byte) : ∀ c ∈ (trim isSpace line).head?, c ≠ 0x20 := by
  rintro c first rfl
  exact Bool.noConfusion (trim_head isSpace line _ first)

/-- A line with something in it comes to the dispatch with its words and its arguments. -/
theorem shellProcessCommand_parsed {h : History} {l : List (List Byte)} (held : Holding h l) (cmdCopy : Buffer)
    (there : a ≠ 0) (reads : Reads m a line) (noNul : 0 ∉ line) (short : line.length < MAX_CMD_LENGTH)
    (enough : line.length < fuel) (some : trim isSpace line ≠ []) :
    ∃ m' h' copy tokens place word args,
      shellProcessCommand m h cmdCopy a fuel = .some (m', h', .parsed copy tokens place) ∧
      strTrim m a fuel = .some m' ∧ List.Forall₂ (Reads copy) tokens ((words 0x20 (trim isSpace line)).take 10) ∧
      Arguments (trim isSpace line) word args ∧ Reads m' place args := by
  obtain ⟨m', trimmed, text, -⟩ := strTrim_spec there reads noNul enough
  have part := trim_part isSpace line
  have size := part.length_le
  have inside : 0 ∉ trim isSpace line := fun zero => noNul (part.subset zero)
  have string := stringAt_eq text inside (Nat.lt_of_le_of_lt size enough)
  have few : (stringAt m' a fuel).length < MAX_CMD_LENGTH := by
    rw [CStr.length, string]
    exact Nat.lt_of_le_of_lt size short
  obtain ⟨h', added, -⟩ := shellAddHistory_holding held few
  have copied := copyCommand_reads cmdCopy few
  rw [string] at copied
  obtain ⟨copy, tokens, split, texts, -⟩ :=
    strSplit_spec 10 (show (0x20 : Byte) ≠ 0 by decide) copied inside (Nat.lt_of_le_of_lt size enough)
  obtain ⟨args, word, place, found, arguments, rest⟩ :=
    fullArgs_spec text inside (Nat.lt_of_le_of_lt size enough) some (trim_front line)
  refine ⟨m', h', copy, tokens, place, word, args, ?_, trimmed, texts, arguments, rest⟩
  have tokened : tokens.length ≠ 0 := by
    have first := arguments.first
    rw [texts.length_eq]
    cases all : words 0x20 (trim isSpace line) with
    | nil =>
      rw [all] at first
      cases first
    | cons w ws => simp
  rw [shellProcessCommand, trimmed]
  dsimp only
  rw [if_neg (mt (text.first_zero inside).mp some), added]
  dsimp only
  rw [split]
  dsimp only
  rw [if_neg tokened, found]
  rfl

theorem shellProcessCommand_blank (h : History) (cmdCopy : Buffer) (there : a ≠ 0) (reads : Reads m a line)
    (noNul : 0 ∉ line) (enough : line.length < fuel) (none : trim isSpace line = []) :
    ∃ m', shellProcessCommand m h cmdCopy a fuel = some (m', h, .blank) ∧ strTrim m a fuel = some m' := by
  obtain ⟨m', trimmed, text, -⟩ := strTrim_spec there reads noNul enough
  rw [none] at text
  refine ⟨m', ?_, trimmed⟩
  rw [shellProcessCommand, trimmed]
  dsimp only
  rw [if_pos (show m' a = 0 from text.nul)]

end Parsing

/-- A line that is split as words: trimmed in place, the words of a copy of it, and the arguments
that the shell finds behind the first one. The history is one that commands have left. -/
theorem command_line_words (m : Buffer) (a : Nat) (line : CStr) (commands : List CStr) (rows : Buffer)
    (history : History) (cmdCopy : Buffer) (fuel : Nat) (there : a ≠ 0) (reads : Reads m a line.chars)
    (short : line.length ≤ 255) (entered : ∀ c ∈ commands, c.length ≤ 255)
    (run : commands.foldlM shellAddHistory ⟨rows, 0, []⟩ = some history) (enough : 255 < fuel) :
    (∃ m', strTrim m a fuel = some m' ∧ Reads m' a (trim isSpace line.chars) ∧
      (∀ x, x < a ∨ a + line.length < x → m' x = m x) ∧ strTrim m' a fuel = some m') ∧
    (∀ copy b, Reads copy b line.chars → ∃ copy' tokens, strSplit copy b 0x20 10 fuel = some (copy', tokens) ∧
      tokens.length = min 10 (words 0x20 line.chars).length ∧
      List.Forall₂ (Reads copy') tokens ((words 0x20 line.chars).take 10)) ∧
    (trim isSpace line.chars = [] → ∃ m', shellProcessCommand m history cmdCopy a fuel = some (m', history, .blank) ∧
      strTrim m a fuel = some m') ∧
    (trim isSpace line.chars ≠ [] → ∃ m' history' copy tokens place word args,
      shellProcessCommand m history cmdCopy a fuel = some (m', history', .parsed copy tokens place) ∧
      strTrim m a fuel = some m' ∧
      List.Forall₂ (Reads copy) tokens ((words 0x20 (trim isSpace line.chars)).take 10) ∧
      Arguments (trim isSpace line.chars) word args ∧ Reads m' place args) := by
  have size : line.chars.length < fuel := Nat.lt_of_le_of_lt short enough
  have part := trim_part isSpace line.chars
  have inside : 0 ∉ trim isSpace line.chars := fun zero => line.noNul (part.subset zero)
  refine ⟨?_, fun copy b copied => ?_, shellProcessCommand_blank history cmdCopy there reads line.noNul size, ?_⟩
  · obtain ⟨m', trimmed, text, frame⟩ := strTrim_spec there reads line.noNul size
    refine ⟨m', trimmed, text, frame, ?_⟩
    exact strTrim_trimmed there text inside (Nat.lt_of_le_of_lt part.length_le size) (trim_trim isSpace line.chars)
  · obtain ⟨copy', tokens, split, texts, -⟩ :=
      strSplit_spec 10 (show (0x20 : Byte) ≠ 0 by decide) copied line.noNul size
    refine ⟨copy', tokens, split, ?_, texts⟩
    rw [texts.length_eq, List.length_take]
  · obtain ⟨h, started, held⟩ := foldlM_holding (Holding.start rows) fun c mem => Nat.lt_succ_of_le (entered c mem)
    obtain rfl : h = history := Option.some.inj (started.symm.trans run)
    exact shellProcessCommand_parsed held cmdCopy there reads line.noNul (Nat.lt_succ_of_le short) size

def echoLine : List Byte := ascii "\t echo  a b "

theorem echoLine_noNul : 0 ∉ echoLine := by
  decide

/-- Two words behind `echo`, with two spaces in between. -/
theorem command_line_words_echo : ∃ m' history copy tokens place,
    shellProcessCommand (fun x => echoLine.getD (x - 1) 0) ⟨fun _ => 0, 0, []⟩ (fun _ => 0xFF) 1 256 =
      some (m', history, .parsed copy tokens place) ∧
    List.Forall₂ (Reads copy) tokens [ascii "echo", ascii "a", ascii "b"] ∧ Reads m' place (ascii "a b") := by
  have reads : Reads (fun x => echoLine.getD (x - 1) 0) 1 echoLine := by
    intro i _
    exact congrArg (echoLine.getD · 0) (Nat.add_sub_cancel_left 1 i)
  have trimmed : trim isSpace echoLine = ascii "echo  a b" := by decide
  obtain ⟨-, -, -, parsed⟩ := command_line_words (fun x => echoLine.getD (x - 1) 0) 1 ⟨echoLine, echoLine_noNul⟩ []
    (fun _ => 0) _ (fun _ => 0xFF) 256 (by decide) reads (by decide) (fun c mem => absurd mem List.not_mem_nil) rfl
    (by decide)
  dsimp only at parsed
  rw [trimmed] at parsed
  obtain ⟨m', history, copy, tokens, place, word, args, eq, -, texts, arguments, rest⟩ := parsed (by decide)
  obtain rfl : word = ascii "echo" := Option.some.inj (arguments.first.symm.trans (by decide))
  obtain rfl : args = ascii "a b" := arguments.rest.trans (by decide)
  exact ⟨m', history, copy, tokens, place, eq, texts, rest⟩

end Wittche.Shell
