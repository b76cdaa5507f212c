import Wittche.Keyboard.Queue
import Wittche.Shell.MainLoop

/-! The keyboard interrupt and the shell side by side. The bytes of the keyboard arrive at any
time, between the turns of the loop in which `shell_get_line` waits for a character. -/

namespace Wittche.Shell
open Bytes CString Recent Screen Keyboard Fs Execution

/-- The driver, the line that is being typed, and what the commands work on. -/
structure Console where
  driver : Driver
  line : LineState
  fs : WitFs
  history : History

/-- What a line meets when it is finished: the bytes of `cmd_copy`, the time, and then the screen
that its command leaves. -/
structure Outside where
  cmdCopy : Buffer
  ticks : Word
  screen : Display

inductive Event
  | interrupt (scancode : Byte)
  | turn (outside : Outside)

/-- An interrupt of the keyboard, or one turn of the loop of `shell_get_line`. Behind Enter the
line is processed and the next one begins. -/
def Console.step (a : Nat) (s : Console) : Event → Option (Console × List TurnOutput)
  | .interrupt scancode => some ({ s with driver := keyboardHandler s.driver scancode }, [])
  | .turn outside =>
    if !keyboardHasInput s.driver then some (s, [])
    else
      match keyboardGetchar s.driver with
      | (driver, c) =>
        if c = ENTER then
          (processLine a ⟨s.fs, s.history, s.line.enter.buffer.cell⟩ outside.cmdCopy outside.ticks).map fun r =>
            (⟨driver, beginLine r.1.commandBuffer (shellPrompt outside.screen), r.1.fs, r.1.history⟩, [r.2])
        else some ({ s with driver := driver, line := shellKey MAX_CMD_LENGTH s.line c }, [])

def consoleRun (a : Nat) : Console → List Event → Option (Console × List TurnOutput)
  | s, [] => some (s, [])
  | s, e :: events =>
    match s.step a e with
    | none => none
    | some (s, outs) => (consoleRun a s events).map fun r => (r.1, outs ++ r.2)

structure Modifiers where
  shift : Bool
  caps : Bool
  ctrl : Bool
  extended : Bool

def Modifiers.release (m : Modifiers) (k : Byte) : Modifiers :=
  { m with
    shift := m.shift && !decide (k = KEY_LSHIFT ∨ k = KEY_RSHIFT)
    ctrl := m.ctrl && !decide (k = KEY_LCTRL)
    extended := false }

def Modifiers.press (m : Modifiers) (k : Byte) : Modifiers :=
  if k = KEY_LSHIFT ∨ k = KEY_RSHIFT then { m with shift := true }
  else if k = KEY_CAPS then { m with caps := !m.caps }
  else if k = KEY_LCTRL then { m with ctrl := true }
  else m

def Modifiers.after (m : Modifiers) (b : Byte) : Modifiers :=
  if b = EXTENDED then { m with extended := true }
  else if b &&& 0x80 ≠ 0 then m.release (b &&& 0x7F)
  else if m.extended then { m with extended := false }
  else m.press b

def Modifiers.char (m : Modifiers) (b : Byte) : Byte :=
  if b = EXTENDED ∨ b &&& 0x80 ≠ 0 then 0
  else if m.extended then specialKey b
  else asciiOf (m.shift ^^ m.caps) b

def Modifiers.text : Modifiers → List Byte → List Byte
  | _, [] => []
  | m, b :: bytes => if m.char b = 0 then (m.after b).text bytes else m.char b :: (m.after b).text bytes

/-- The keyboard and the line as lists: the characters that wait, and the keys of the line. -/
structure Typing where
  modifiers : Modifiers
  waiting : List Byte
  screen : Display
  keys : List Byte

def arrive (waiting : List Byte) (c : Byte) : List Byte :=
  if c ≠ 0 ∧ waiting.length < 255 then waiting ++ [c] else waiting

def Typing.after (t : Typing) : Event → Typing
  | .interrupt b =>
    { t with modifiers := t.modifiers.after b, waiting := arrive t.waiting (t.modifiers.char b) }
  | .turn outside =>
    match t.waiting with
    | [] => t
    | c :: rest =>
      if c = ENTER then ⟨t.modifiers, rest, outside.screen, []⟩ else { t with waiting := rest, keys := t.keys ++ [c] }

def Typing.finished (t : Typing) : Event → List Turn
  | .interrupt _ => []
  | .turn outside =>
    match t.waiting with
    | [] => []
    | c :: _ => if c = ENTER then [⟨t.keys, t.screen, outside.cmdCopy, outside.ticks⟩] else []

def Typing.turns : Typing → List Event → List Turn
  | _, [] => []
  | t, e :: events => t.finished e ++ (t.after e).turns events

/-- No byte comes while 255 characters wait. -/
def Typing.Roomy : Typing → List Event → Prop
  | _, [] => True
  | t, .interrupt b :: events => t.waiting.length < 255 ∧ (t.after (.interrupt b)).Roomy events
  | t, .turn outside :: events => (t.after (.turn outside)).Roomy events

def Event.byte? : Event → Option Byte
  | .interrupt b => some b
  | .turn _ => none

section Handler

variable {d : Driver}

def flags (d : Driver) : Modifiers := ⟨d.shiftPressed, d.capsLock, d.ctrlPressed, d.extendedKey⟩

def withModifiers (d : Driver) (m : Modifiers) : Driver :=
  { d with shiftPressed := m.shift, capsLock := m.caps, ctrlPressed := m.ctrl, extendedKey := m.extended }

theorem flagKeys_silent : ∀ (u : Bool) (b : Byte), b = KEY_LSHIFT ∨ b = KEY_RSHIFT ∨ b = KEY_CAPS ∨ b = KEY_LCTRL →
    asciiOf u b = 0 := by
  rintro u b (rfl | rfl | rfl | rfl) <;> cases u <;> decide

theorem handleRelease_eq (d : Driver) (k : Byte) : handleRelease d k = withModifiers d ((flags d).release k) := by
  rw [handleRelease, Modifiers.release]
  by_cases shift : k = KEY_LSHIFT ∨ k = KEY_RSHIFT
  · have noCtrl : k ≠ KEY_LCTRL := by rcases shift with rfl | rfl <;> decide
    simp [shift, noCtrl, withModifiers, flags]
  · rw [if_neg shift]
    by_cases ctrl : k = KEY_LCTRL
    · rw [if_pos ctrl, decide_eq_false shift, decide_eq_true ctrl]
      simp [withModifiers, flags]
    · rw [if_neg ctrl, decide_eq_false shift, decide_eq_false ctrl]
      simp [withModifiers, flags]

theorem handlePress_eq (d : Driver) (b : Byte) : handlePress d b =
    if asciiOf (d.shiftPressed ^^ d.capsLock) b = 0 then withModifiers d ((flags d).press b)
    else keyboardBufferAdd (withModifiers d ((flags d).press b)) (asciiOf (d.shiftPressed ^^ d.capsLock) b) := by
  have silent := flagKeys_silent (d.shiftPressed ^^ d.capsLock) b
  rw [handlePress, Modifiers.press]
  by_cases shift : b = KEY_LSHIFT ∨ b = KEY_RSHIFT
  · rw [if_pos shift, if_pos shift, if_pos (silent (shift.elim .inl fun right => .inr (.inl right)))]
    rfl
  rw [if_neg shift, if_neg shift]
  by_cases caps : b = KEY_CAPS
  · rw [if_pos caps, if_pos caps, if_pos (silent (.inr (.inr (.inl caps))))]
    rfl
  rw [if_neg caps, if_neg caps]
  by_cases ctrl : b = KEY_LCTRL
  · rw [if_pos ctrl, if_pos ctrl, if_pos (silent (.inr (.inr (.inr ctrl))))]
    rfl
  rw [if_neg ctrl, if_neg ctrl]
  exact ite_not ..

theorem keyboardHandler_eq (d : Driver) (b : Byte) : keyboardHandler d b =
    if (flags d).char b = 0 then withModifiers d ((flags d).after b)
    else keyboardBufferAdd (withModifiers d ((flags d).after b)) ((flags d).char b) := by
  rw [keyboardHandler, Modifiers.after, Modifiers.char]
  by_cases extended : b = EXTENDED
  · rw [if_pos extended, if_pos extended, if_pos (Or.inl extended), if_pos rfl]
    rfl
  rw [if_neg extended, if_neg extended]
  by_cases release : b &&& 0x80 ≠ 0
  · rw [if_pos release, if_pos release, if_pos (Or.inr release), if_pos rfl]
    exact handleRelease_eq d _
  rw [if_neg release, if_neg release, if_neg (not_or.mpr ⟨extended, release⟩)]
  by_cases second : (flags d).extended = true
  · rw [if_pos second, if_pos second, if_pos (show d.extendedKey = true from second)]
    exact ite_not ..
  · rw [if_neg second, if_neg second, if_neg (show ¬d.extendedKey = true from second)]
    exact handlePress_eq d b

theorem flags_add (d : Driver) (c : Byte) : flags (keyboardBufferAdd d c) = flags d := by
  rw [keyboardBufferAdd]
  split <;> rfl

theorem flags_getchar (d : Driver) : flags (keyboardGetchar d).1 = flags d := by
  rw [keyboardGetchar]
  split <;> rfl

theorem flags_handler (d : Driver) (b : Byte) : flags (keyboardHandler d b) = (flags d).after b := by
  rw [keyboardHandler_eq]
  split
  next => rfl
  next => exact flags_add _ _

theorem queued_arrive (placed : Placed d) {c : Byte} (some : c ≠ 0) : queued (keyboardBufferAdd d c) = arrive (queued d) c := by
  have capacity := queued_capacity d
  by_cases full : (queued d).length = 255
  · rw [placed.add_full full, arrive, if_neg fun room => absurd room.2 (by omega)]
  · rw [(placed.add_room full c).1, arrive, if_pos ⟨some, by omega⟩]

theorem queued_handler (placed : Placed d) (b : Byte) :
    queued (keyboardHandler d b) = arrive (queued d) ((flags d).char b) := by
  have moved : Placed (withModifiers d ((flags d).after b)) := ⟨placed.read, placed.write⟩
  rw [keyboardHandler_eq]
  split
  next none => exact (if_neg fun some => some.1 none).symm
  next some => exact queued_arrive moved some

end Handler

section Listening

variable {a : Nat} {s : Console} {t : Typing} {sh sh' : ShellState} {outs : List TurnOutput}

/-- The console is the shell with the keys of a line so far. -/
structure Follows (s : Console) (t : Typing) (sh : ShellState) : Prop where
  placed : Placed s.driver
  waiting : queued s.driver = t.waiting
  modifiers : flags s.driver = t.modifiers
  line : s.line = t.keys.foldl (shellKey MAX_CMD_LENGTH) (beginLine sh.commandBuffer (shellPrompt t.screen))
  noEnter : ENTER ∉ t.keys
  fs : s.fs = sh.fs
  history : s.history = sh.history

theorem Follows.interrupt (f : Follows s t sh) (b : Byte) :
    Follows { s with driver := keyboardHandler s.driver b } (t.after (.interrupt b)) sh := by
  refine ⟨f.placed.handler b, ?_, ?_, f.line, f.noEnter, f.fs, f.history⟩
  · rw [Typing.after, queued_handler f.placed, f.waiting, f.modifiers]
  · rw [Typing.after, flags_handler, f.modifiers]

theorem shellTurn_typed (f : Follows s t sh) (cmdCopy : Buffer) (ticks : Word) :
    shellTurn a sh ⟨t.keys, t.screen, cmdCopy, ticks⟩ =
      processLine a ⟨s.fs, s.history, s.line.enter.buffer.cell⟩ cmdCopy ticks := by
  rw [shellTurn, shellGetLine_eq _ _ f.noEnter, f.line, f.fs, f.history]

theorem Follows.turn (f : Follows s t sh) (outside : Outside)
    (run : shellRun a sh (t.finished (.turn outside)) = some (sh', outs)) :
    ∃ s', s.step a (.turn outside) = some (s', outs) ∧ Follows s' (t.after (.turn outside)) sh' := by
  rw [Console.step]
  rw [Typing.finished] at run
  rw [Typing.after]
  cases waits : t.waiting with
  | nil =>
    have input : keyboardHasInput s.driver = false := by
      simpa [keyboardHasInput] using f.placed.empty_iff.mpr (f.waiting.trans waits)
    rw [waits] at run
    obtain ⟨rfl, rfl⟩ := Prod.mk.inj (Option.some.inj run)
    rw [input]
    exact ⟨s, rfl, f⟩
  | cons c rest =>
    have front := f.waiting.trans waits
    have input : keyboardHasInput s.driver = true := by
      have some := mt f.placed.empty_iff.mp (front ▸ List.cons_ne_nil c rest)
      simpa [keyboardHasInput] using some
    obtain ⟨char, left, placed⟩ := f.placed.getchar_front front
    have kept := (flags_getchar s.driver).trans f.modifiers
    rw [waits] at run
    have taken : keyboardGetchar s.driver = ((keyboardGetchar s.driver).1, c) := Prod.ext rfl char
    rw [input, if_neg (by decide), taken]
    dsimp only at run ⊢
    by_cases enter : c = ENTER
    · rw [if_pos enter] at run ⊢
      rw [shellRun, shellTurn_typed f] at run
      rw [if_pos enter]
      cases processed : processLine a ⟨s.fs, s.history, s.line.enter.buffer.cell⟩ outside.cmdCopy outside.ticks with
      | none =>
        rw [processed] at run
        exact absurd run.symm (Option.some_ne_none _)
      | some r =>
        rw [processed] at run
        obtain ⟨rfl, rfl⟩ := Prod.mk.inj (Option.some.inj run)
        exact ⟨_, rfl, placed, left, kept, rfl, List.not_mem_nil, rfl, rfl⟩
    · rw [if_neg enter] at run ⊢
      obtain ⟨rfl, rfl⟩ := Prod.mk.inj (Option.some.inj run)
      rw [if_neg enter]
      refine ⟨_, rfl, placed, left, kept, ?_, ?_, f.fs, f.history⟩
      · rw [List.foldl_append, ← f.line]
        rfl
      · intro mem
        rcases List.mem_append.mp mem with old | new
        · exact f.noEnter old
        · exact enter (List.mem_singleton.mp new).symm

/-- What an event does to the console is what the turn it finishes does to the shell. -/
theorem Follows.step (f : Follows s t sh) (e : Event) (run : shellRun a sh (t.finished e) = some (sh', outs)) :
    ∃ s', s.step a e = some (s', outs) ∧ Follows s' (t.after e) sh' := by
  cases e with
  | interrupt b =>
    obtain ⟨rfl, rfl⟩ := Prod.mk.inj (Option.some.inj run)
    exact ⟨_, rfl, f.interrupt b⟩
  | turn outside => exact f.turn outside run

theorem shellRun_append {turns turns' : List Turn} (run : shellRun a sh (turns ++ turns') = some (sh', outs)) :
    ∃ mid outs1 outs2, shellRun a sh turns = some (mid, outs1) ∧ shellRun a mid turns' = some (sh', outs2) ∧
      outs = outs1 ++ outs2 := by
  induction turns generalizing sh outs with
  | nil => exact ⟨sh, [], outs, rfl, run, rfl⟩
  | cons t turns ih =>
    rw [List.cons_append, shellRun] at run
    cases turn : shellTurn a sh t with
    | none =>
      rw [turn] at run
      exact absurd run.symm (Option.some_ne_none _)
    | some r =>
      rw [turn] at run
      obtain ⟨q, rest, same⟩ := Option.map_eq_some_iff.mp run
      obtain ⟨rfl, rfl⟩ := Prod.mk.inj same
      obtain ⟨mid, outs1, outs2, first, second, split⟩ := ih rest
      refine ⟨mid, r.2 :: outs1, outs2, ?_, second, congrArg _ split⟩
      rw [shellRun, turn]
      dsimp only
      rw [first]
      rfl

theorem Follows.run (f : Follows s t sh) (events : List Event) (run : shellRun a sh (t.turns events) = some (sh', outs)) :
    ∃ s', consoleRun a s events = some (s', outs) ∧ Follows s' (events.foldl Typing.after t) sh' := by
  induction events generalizing s t sh outs with
  | nil =>
    obtain ⟨rfl, rfl⟩ := Prod.mk.inj (Option.some.inj run)
    exact ⟨s, rfl, f⟩
  | cons e events ih =>
    obtain ⟨mid, outs1, outs2, first, second, rfl⟩ := shellRun_append run
    obtain ⟨s1, step, f1⟩ := f.step e first
    obtain ⟨s2, rest, f2⟩ := ih f1 second
    refine ⟨s2, ?_, f2⟩
    rw [consoleRun, step]
    dsimp only
    rw [rest]
    rfl

end Listening

def linesText (turns : List Turn) : List Byte := turns.flatMap fun t => t.keys ++ [ENTER]

theorem linesText_append (turns turns' : List Turn) : linesText (turns ++ turns') = linesText turns ++ linesText turns' :=
  List.flatMap_append

theorem Typing.turn_text (t : Typing) (outside : Outside) :
    linesText (t.finished (.turn outside)) ++ ((t.after (.turn outside)).keys ++ (t.after (.turn outside)).waiting) =
      t.keys ++ t.waiting ∧ (t.after (.turn outside)).modifiers = t.modifiers := by
  rw [Typing.finished, Typing.after]
  cases waits : t.waiting with
  | nil => simp [linesText, waits]
  | cons c rest =>
    dsimp only
    by_cases enter : c = ENTER
    · simp [linesText, enter]
    · simp [linesText, enter]

/-- As long as there is room nothing that is typed is lost, and nothing changes its place. -/
theorem Typing.text_kept {t : Typing} {events : List Event} (roomy : t.Roomy events) :
    linesText (t.turns events) ++ ((events.foldl Typing.after t).keys ++ (events.foldl Typing.after t).waiting) =
      t.keys ++ t.waiting ++ t.modifiers.text (events.filterMap Event.byte?) := by
  induction events generalizing t with
  | nil => simp [Typing.turns, linesText, Modifiers.text]
  | cons e events ih =>
    rw [List.foldl_cons, Typing.turns, linesText_append, List.append_assoc]
    cases e with
    | interrupt b =>
      rw [ih roomy.2, List.filterMap_cons_some (show (Event.interrupt b).byte? = some b from rfl), Modifiers.text]
      by_cases silent : t.modifiers.char b = 0
      · simp [Typing.finished, Typing.after, linesText, silent, arrive]
      · have room : t.waiting.length < 255 := roomy.1
        rw [if_neg silent, Typing.after, arrive, if_pos ⟨silent, room⟩]
        simp [Typing.finished, linesText]
    | turn outside =>
      obtain ⟨moved, same⟩ := t.turn_text outside
      rw [ih roomy, List.filterMap_cons_none (show (Event.turn outside).byte? = none from rfl), ← List.append_assoc, moved, same]

def Typing.start (d : Driver) (screen : Display) : Typing := ⟨flags (keyboardInit d), [], screen, []⟩

/-- From the keyboard to the files: the bytes of the keyboard come whenever they come, and the
shell takes the characters when it gets to them. What it does is what the lines are for, and while
there is room no character is lost. -/
theorem keyboard_reaches_files (s0 : WitFs) (d : Driver) (rows : Buffer) (buffer : Int → Byte) (screen : Display) (a : Nat)
    (events : List Event) (ready : Ready s0) (there : a ≠ 0) (plain : ∀ t ∈ (Typing.start d screen).turns events, t.Plain)
    (careful : Careful false ((Typing.start d screen).turns events)) :
    ∃ s outs desk, consoleRun a ⟨keyboardInit d, beginLine buffer (shellPrompt screen), mounted s0, ⟨rows, 0, []⟩⟩ events =
        some (s, outs) ∧
      Explained Desk.Answered ⟨some fun _ => none, []⟩ ((Typing.start d screen).turns events) outs desk ∧
      Presents s.fs desk.files ∧ Holding s.history (recent MAX_HISTORY desk.lines) ∧
      ((Typing.start d screen).Roomy events → ∃ keys, linesText ((Typing.start d screen).turns events) ++
        (keys ++ queued s.driver) = (flags (keyboardInit d)).text (events.filterMap Event.byte?)) := by
  obtain ⟨sh, outs, desk, run, answered, serving⟩ :=
    shell_refines_files s0 rows buffer a _ ready there plain careful
  have start : Follows ⟨keyboardInit d, beginLine buffer (shellPrompt screen), mounted s0, ⟨rows, 0, []⟩⟩
      (Typing.start d screen) ⟨mounted s0, ⟨rows, 0, []⟩, buffer⟩ :=
    ⟨placed_init d, queued_init d, rfl, rfl, List.not_mem_nil, rfl, rfl⟩
  obtain ⟨s, same, f⟩ := start.run events run
  refine ⟨s, outs, desk, same, answered, f.fs ▸ serving.files, f.history ▸ serving.history, fun roomy => ?_⟩
  exact ⟨_, f.waiting ▸ Typing.text_kept roomy⟩

def idle : Outside := ⟨fun _ => 0, 0, blankDisplay⟩

def typeLs : List Event :=
  [.interrupt 0x26, .turn idle, .interrupt 0xA6, .interrupt 0x1F, .interrupt 0x1C, .turn idle, .turn idle]

theorem typeLs_turns : (Typing.start .static blankDisplay).turns typeLs = [typing "ls"] := by
  rfl

theorem typing_ls : (typing "ls").Plain ∧ handlerNamed (typing "ls").word = some .cmdLs := by
  have word : handlerNamed (typing "ls").word = some .cmdLs := by decide +kernel
  refine ⟨⟨⟨by decide, by decide⟩, fun h args c named text file => ?_⟩, word⟩
  obtain rfl := Option.some.inj (word.symm.trans named)
  obtain rfl := Option.some.inj file
  trivial

theorem keyboard_reaches_files_ls :
    ∃ s outs desk, consoleRun 0x90000 ⟨keyboardInit .static, beginLine (fun _ => 0) (shellPrompt blankDisplay),
        mounted powerOn, ⟨fun _ => 0, 0, []⟩⟩ typeLs = some (s, outs) ∧
      Explained Desk.Answered ⟨some fun _ => none, []⟩ ((Typing.start .static blankDisplay).turns typeLs) outs desk ∧
      Presents s.fs desk.files ∧ Holding s.history (recent MAX_HISTORY desk.lines) ∧
      ((Typing.start .static blankDisplay).Roomy typeLs → ∃ keys,
        linesText ((Typing.start .static blankDisplay).turns typeLs) ++ (keys ++ queued s.driver) =
          (flags (keyboardInit .static)).text (typeLs.filterMap Event.byte?)) := by
  refine keyboard_reaches_files powerOn .static _ _ blankDisplay 0x90000 typeLs ⟨rfl, rfl⟩ (by decide) (fun t mem => ?_) ?_
  · rw [typeLs_turns] at mem
    rw [List.mem_singleton.mp mem]
    exact typing_ls.1
  · rw [typeLs_turns]
    exact ⟨nofun, trivial⟩

end Wittche.Shell
