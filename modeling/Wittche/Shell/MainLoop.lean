import Wittche.Shell.CommandLine
import Wittche.Shell.LineEditing
import Wittche.Shell.FileSession

/-! The main loop of `kernel/shell.c`: a line is read, its first word is looked for among the
commands, and the command is run. Of the commands those that change the file system or its disk
are run here; the others end with the name of their function. -/

namespace Wittche.Shell
open Bytes CString Words Recent Traced Screen Keyboard Fs Execution

/-- The functions that `shell_process_command` calls. -/
inductive Handler
  | cmdHelp | cmdClear | cmdAbout | cmdVer | cmdMem | cmdMeminfo | cmdMemtest | cmdPs | cmdTestproc | cmdSleeptest
  | cmdNice | cmdKill | cmdIpctest | cmdSyscalltest | cmdUsermodetest | cmdEcho | cmdColor | cmdUptime | cmdHistory
  | cmdBanner | cmdRamdisk | cmdRdformat | cmdRdinfo | cmdFsformat | cmdLs | cmdTouch | cmdCat | cmdRm | cmdMkdir
  | cmdWrite
deriving DecidableEq

/-- The comparisons of `shell_process_command`, in their order. -/
def comparisons : List (String × Handler) :=
  [("help", .cmdHelp), ("clear", .cmdClear), ("cls", .cmdClear), ("about", .cmdAbout), ("ver", .cmdVer), ("mem", .cmdMem),
   ("meminfo", .cmdMeminfo), ("memtest", .cmdMemtest), ("ps", .cmdPs), ("testproc", .cmdTestproc),
   ("sleeptest", .cmdSleeptest), ("nice", .cmdNice), ("kill", .cmdKill), ("ipctest", .cmdIpctest),
   ("syscalltest", .cmdSyscalltest), ("usermodetest", .cmdUsermodetest), ("echo", .cmdEcho), ("color", .cmdColor),
   ("uptime", .cmdUptime), ("history", .cmdHistory), ("banner", .cmdBanner), ("ramdisk", .cmdRamdisk),
   ("rdformat", .cmdRdformat), ("rdinfo", .cmdRdinfo), ("fsformat", .cmdFsformat), ("ls", .cmdLs), ("touch", .cmdTouch),
   ("cat", .cmdCat), ("rm", .cmdRm), ("mkdir", .cmdMkdir), ("write", .cmdWrite)]

theorem comparisons_noNul : ∀ c ∈ comparisons, 0 ∉ ascii c.1 := by decide

/-- The first comparison of `cmd` that succeeds. -/
def dispatch (cmd : Buffer) : Option Handler :=
  (comparisons.attach.find? fun c => strcmp cmd (literal c.1.1 (comparisons_noNul c.1 c.2)) = 0).map (·.1.2)

def cmdRdformat (s : WitFs) : WitFs :=
  if !s.disk.initialized then s else s.setData fun _ => 0

/-- The text that `cmd_ramdisk` writes to block 1. -/
def testMsg : CStr := literal "Hello from Wittche OS RAM Disk! This is a test message." (by decide)

/-- `cmd_ramdisk`: what it writes to the disk, and its two buffers. -/
def cmdRamdisk (s : WitFs) : WitFs :=
  if !s.disk.initialized then s
  else
    match kmalloc s with
    | (s, writeBuffer) =>
      match kmalloc s with
      | (s, readBuffer) =>
        match writeBuffer, readBuffer with
        | none, none => s
        | some p, none => kfree s p
        | none, some q => kfree s q
        | some p, some q =>
          let s := writeBlock s 0 fun i => BitVec.ofNat 8 i
          let s := writeBlock s 1 testMsg.get
          let s := (List.range' 10 10).foldl (fun s block => writeBlock s block fun _ => BitVec.ofNat 8 (0x41 + (block - 10))) s
          kfree (kfree s p) q

def fileCommand (args : CStr) : Handler → Option FileCommand
  | .cmdFsformat => some .fsformat
  | .cmdLs => some .ls
  | .cmdTouch => some (.touch args)
  | .cmdCat => some (.cat args)
  | .cmdRm => some (.rm args)
  | .cmdMkdir => some (.mkdir args)
  | .cmdWrite => some (.write args)
  | _ => none

/-- The two commands that write to the disk behind the file system's back. -/
def diskCommand : Handler → WitFs → WitFs
  | .cmdRamdisk, s => cmdRamdisk s
  | .cmdRdformat, s => cmdRdformat s
  | _, s => s

def runHandler (s : WitFs) (args : CStr) (h : Handler) : WitFs × Option FileOutput :=
  match fileCommand args h with
  | none => (diskCommand h s, none)
  | some command => let (s, out) := runCommand s command; (s, some out)

structure ShellState where
  fs : WitFs
  history : History
  commandBuffer : Int → Byte

/-- One turn of the loop, with what comes to it from outside: the keys up to Enter, the screen
and the bytes of `cmd_copy` at its start, and the time. -/
structure Turn where
  keys : List Byte
  screen : Display
  cmdCopy : Buffer
  ticks : Word

inductive TurnOutput
  | blank
  | noCommand
  | unknown (cmd : CStr)
  | ran (h : Handler) (out : Option FileOutput)

def memoryAt (a : Nat) (cells : Int → Byte) : Buffer := fun x => cells ((x : Int) - a)

/-- What `shell_process_command` does behind its parsing. -/
def runProcessed (s : ShellState) (ticks : Word) (m : Buffer) : Processed → ShellState × TurnOutput
  | .blank => (s, .blank)
  | .noCommand => (s, .noCommand)
  | .parsed copy tokens args =>
    let cmd := tokens.headD 0
    match dispatch fun i => copy (cmd + i) with
    | none => (s, .unknown (stringAt copy cmd MAX_CMD_LENGTH))
    | some h =>
      let r := runHandler { s.fs with ticks := ticks } (stringAt m args MAX_CMD_LENGTH) h
      ({ s with fs := r.1 }, .ran h r.2)

/-- `shell_process_command` on the line in the buffer, which is at `a`. -/
def processLine (a : Nat) (s : ShellState) (cmdCopy : Buffer) (ticks : Word) : Option (ShellState × TurnOutput) :=
  match shellProcessCommand (memoryAt a s.commandBuffer) s.history cmdCopy a MAX_CMD_LENGTH with
  | none => none
  | some (m, history, processed) => some (runProcessed ⟨s.fs, history, fun i => m (a + i).toNat⟩ ticks m processed)

/-- `shell_prompt`, `shell_get_line` and `shell_process_command` with the line buffer at `a`. -/
def shellTurn (a : Nat) (s : ShellState) (t : Turn) : Option (ShellState × TurnOutput) :=
  match shellGetLine MAX_CMD_LENGTH (t.keys ++ [ENTER]) (beginLine s.commandBuffer (shellPrompt t.screen)) with
  | none => none
  | some line => processLine a { s with commandBuffer := line.buffer.cell } t.cmdCopy t.ticks

/-- `shell_run`, for as many lines as are typed. -/
def shellRun (a : Nat) : ShellState → List Turn → Option (ShellState × List TurnOutput)
  | s, [] => some (s, [])
  | s, t :: turns =>
    match shellTurn a s t with
    | none => none
    | some (s, out) => (shellRun a s turns).map fun r => (r.1, out :: r.2)

/-- The line that is typed in a turn, as it is taken: without the blanks around it. -/
def Turn.line (t : Turn) : List Byte := trim isSpace (edited MAX_CMD_LENGTH t.keys).text

def Turn.word (t : Turn) : List Byte := (words 0x20 t.line).head?.getD []

def Turn.args (t : Turn) : List Byte := (t.line.drop t.word.length).dropWhile (· = 0x20)

def handlerNamed (word : List Byte) : Option Handler := (comparisons.find? fun c => ascii c.1 = word).map (·.2)

/-- `ramdisk` and `rdformat` write to the disk behind the file system's back. -/
def Handler.Overwrites (h : Handler) : Prop := h = .cmdRamdisk ∨ h = .cmdRdformat

/-- What a turn is for, as far as files go. There is no table while the disk is written over. -/
inductive Answered (F : Option Files) (t : Turn) : TurnOutput → Option Files → Prop
  | blank (none : t.line = []) : Answered F t .blank F
  | unknown (typed : t.line ≠ []) {cmd : CStr} (text : cmd.chars = t.word) (new : handlerNamed t.word = none) :
      Answered F t (.unknown cmd) F
  | other (typed : t.line ≠ []) {h : Handler} (named : handlerNamed t.word = some h)
      (other : ∀ args, fileCommand args h = none) (keeps : ¬h.Overwrites) : Answered F t (.ran h none) F
  | overwrites (typed : t.line ≠ []) {h : Handler} (named : handlerNamed t.word = some h) (erased : h.Overwrites) :
      Answered F t (.ran h none) none
  | fsformat (typed : t.line ≠ []) (named : handlerNamed t.word = some .cmdFsformat) :
      Answered F t (.ran .cmdFsformat (some .formatted)) (some fun _ => none)
  | file (typed : t.line ≠ []) {h : Handler} {args : CStr} {c : FileCommand} {out : FileOutput} {G H : Files}
      (table : F = some G) (named : handlerNamed t.word = some h) (text : args.chars = t.args)
      (file : fileCommand args h = some c) (done : Answers G c out H) : Answered F t (.ran h (some out)) (some H)

structure Turn.Typed (t : Turn) : Prop where
  noEnter : ENTER ∉ t.keys
  noTab : TAB ∉ t.keys

/-- The names in the line are plain. -/
structure Turn.Plain (t : Turn) : Prop extends t.Typed where
  names : ∀ h args c, handlerNamed t.word = some h → args.chars = t.args → fileCommand args h = some c → c.Plain

def Turn.leaves (t : Turn) (erased : Bool) : Bool :=
  match handlerNamed t.word with
  | some .cmdRamdisk => true
  | some .cmdRdformat => true
  | some .cmdFsformat => false
  | _ => erased

/-- As long as the disk is written over, `fsformat` is the only file command. -/
def Careful : (erased : Bool) → List Turn → Prop
  | _, [] => True
  | erased, t :: turns =>
    (erased = true → ∀ h, handlerNamed t.word = some h → h = .cmdFsformat ∨ ∀ args, fileCommand args h = none) ∧
      Careful (t.leaves erased) turns

section Dispatch

variable {m : Buffer} {p : Nat} {word : List Byte}

theorem strcmp_reads (reads : Reads m p word) (noNul : 0 ∉ word) (s : CStr) :
    strcmp (fun i => m (p + i)) s = 0 ↔ s.chars = word := by
  rw [strcmp_eq_zero]
  constructor
  · intro same
    have there : Reads m p s.chars := fun i le => same i le
    exact there.unique reads s.noNul noNul
  · rintro rfl
    exact fun i le => reads i le

theorem dispatch_eq (reads : Reads m p word) (noNul : 0 ∉ word) : (dispatch fun i => m (p + i)) = handlerNamed word := by
  have same (c : { c // c ∈ comparisons }) :
      decide (strcmp (fun i => m (p + i)) (literal c.1.1 (comparisons_noNul c.1 c.2)) = 0) =
        ((fun c : String × Handler => decide (ascii c.1 = word)) ∘ Subtype.val) c :=
    decide_eq_decide.mpr (strcmp_reads reads noNul _)
  rw [dispatch, handlerNamed, funext same]
  conv_rhs => rw [← List.attach_map_subtype_val comparisons, List.find?_map, Option.map_map]
  rfl

theorem comparisons_available : (comparisons.map fun c => ascii c.1).Perm (availableCommands.map CStr.chars) := by
  decide

theorem handlerNamed_none : handlerNamed word = none ↔ ∀ c ∈ availableCommands, c.chars ≠ word := by
  rw [handlerNamed, Option.map_eq_none_iff, List.find?_eq_none]
  constructor
  · intro new c mem
    obtain ⟨x, there, same⟩ := List.mem_map.mp (comparisons_available.mem_iff.mpr (List.mem_map_of_mem mem))
    simpa [same] using new x there
  · intro new x there
    obtain ⟨c, mem, same⟩ := List.mem_map.mp (comparisons_available.mem_iff.mp (List.mem_map_of_mem there))
    simpa [same] using new c mem

end Dispatch

section Turns

variable {s : WitFs} {F : Option Files} {G : Files} {t : Turn}

theorem diskCommand_other (s : WitFs) {h : Handler} (noRamdisk : h ≠ .cmdRamdisk) (noRdformat : h ≠ .cmdRdformat) :
    diskCommand h s = s := by
  cases h with
  | cmdRamdisk => exact absurd rfl noRamdisk
  | cmdRdformat => exact absurd rfl noRdformat
  | _ => rfl

theorem fileCommand_none_iff (args args' : CStr) (h : Handler) : fileCommand args h = none ↔ fileCommand args' h = none := by
  cases h <;> simp [fileCommand]

theorem cmdRdformat_ready (ready : Ready s) : Ready (cmdRdformat s) := by
  rw [cmdRdformat]
  split
  next => exact ready
  next => exact ready.setData _

theorem writeBlock_ready (ready : Ready s) {b : Nat} (inside : b < 2048) (buffer : Buffer) : Ready (writeBlock s b buffer) := by
  rw [writeBlock_of_ready ready inside]
  exact ready.setData _

theorem writeBlocks_ready (contents : Nat → Buffer) (ready : Ready s) {blocks : List Nat} (inside : ∀ b ∈ blocks, b < 2048) :
    Ready (blocks.foldl (fun s b => writeBlock s b (contents b)) s) := by
  induction blocks generalizing s with
  | nil => exact ready
  | cons b blocks ih =>
    exact ih (writeBlock_ready ready (inside b List.mem_cons_self) _) fun b mem => inside b (List.mem_cons_of_mem _ mem)

theorem cmdRamdisk_ready (ready : Ready s) : Ready (cmdRamdisk s) := by
  obtain ⟨heap, p, eq, pending, -⟩ := kmalloc_of_ready ready
  have ready' : Ready { s with heap := heap } := ⟨ready.disk, pending⟩
  obtain ⟨heap', q, eq', pending', -⟩ := kmalloc_of_ready ready'
  have ready'' : Ready { s with heap := heap' } := ⟨ready.disk, pending'⟩
  rw [cmdRamdisk, if_neg (by simp [ready.disk]), eq]
  dsimp only
  rw [eq']
  have written := writeBlocks_ready (fun block _ => BitVec.ofNat 8 (0x41 + (block - 10)))
    (writeBlock_ready (writeBlock_ready ready'' (show 0 < 2048 by decide) fun i => BitVec.ofNat 8 i)
      (show 1 < 2048 by decide) testMsg.get) (show ∀ b ∈ List.range' 10 10, b < 2048 by decide)
  exact ⟨written.disk, written.heap⟩

theorem diskCommand_ready (h : Handler) (ready : Ready s) : Ready (diskCommand h s) := by
  cases h with
  | cmdRamdisk => exact cmdRamdisk_ready ready
  | cmdRdformat => exact cmdRdformat_ready ready
  | _ => exact ready

/-- The file system holds the table, if there is one. -/
structure Presents (s : WitFs) (F : Option Files) : Prop where
  ready : Ready s
  table : ∀ G, F = some G → Holds s G

theorem Holds.presents (held : Holds s G) : Presents s (some G) :=
  ⟨held.sound.ready, fun _ same => Option.some.inj same ▸ held⟩

theorem Presents.withTicks (presents : Presents s F) (ticks : Word) : Presents { s with ticks := ticks } F :=
  ⟨⟨presents.ready.disk, presents.ready.heap⟩, fun G same => (presents.table G same).withTicks ticks⟩

theorem leaves_of_named {h : Handler} (named : handlerNamed t.word = some h) (keeps : ¬h.Overwrites) (noFormat : h ≠ .cmdFsformat)
    (erased : Bool) : t.leaves erased = erased := by
  rw [Turn.leaves, named]
  cases h with
  | cmdRamdisk => exact absurd (Or.inl rfl) keeps
  | cmdRdformat => exact absurd (Or.inr rfl) keeps
  | cmdFsformat => exact absurd rfl noFormat
  | _ => rfl

theorem Presents.handler (presents : Presents s F) (plain : t.Plain) (typed : t.line ≠ []) {args : CStr}
    (text : args.chars = t.args) {h : Handler} (named : handlerNamed t.word = some h)
    (careful : F = none → h = .cmdFsformat ∨ ∀ args, fileCommand args h = none) :
    ∃ G, Answered F t (.ran h (runHandler s args h).2) G ∧ Presents (runHandler s args h).1 G ∧
      G.isNone = t.leaves F.isNone := by
  cases file : fileCommand args h with
  | none =>
    have none_all (other : CStr) : fileCommand other h = none := (fileCommand_none_iff args other h).mp file
    rw [runHandler, file]
    dsimp only
    by_cases erased : h.Overwrites
    · refine ⟨none, .overwrites typed named erased, ⟨diskCommand_ready h presents.ready, nofun⟩, ?_⟩
      rw [Turn.leaves, named]
      rcases erased with rfl | rfl <;> rfl
    · rw [diskCommand_other s (mt Or.inl erased) (mt Or.inr erased)]
      refine ⟨F, .other typed named none_all erased, presents, (leaves_of_named named erased ?_ _).symm⟩
      rintro rfl
      exact absurd (none_all args).symm (Option.some_ne_none _).symm
  | some command =>
    rw [runHandler, file]
    by_cases format : h = .cmdFsformat
    · subst format
      obtain rfl := Option.some.inj file
      refine ⟨_, .fsformat typed named, (mounted_holds presents.ready).presents, ?_⟩
      rw [Turn.leaves, named]
      rfl
    · cases F with
      | none =>
        refine absurd ((careful rfl).resolve_left format args) ?_
        rw [file]
        exact Option.some_ne_none _
      | some G =>
        obtain ⟨H, done, held⟩ := (presents.table G rfl).command (plain.names h args command named text file)
        refine ⟨some H, .file typed rfl named text file done, held.presents, (leaves_of_named named ?_ format _).symm⟩
        rintro (rfl | rfl) <;> exact absurd file (Option.some_ne_none _).symm

theorem delivered_reads {a : Nat} {cells : Int → Byte} {text : List Byte} (delivers : Delivers cells text) :
    Reads (memoryAt a cells) a text := by
  intro i le
  rw [memoryAt, show ((a + i : Nat) : Int) - a = i by omega]
  rcases Nat.lt_or_eq_of_le le with lt | rfl
  · rw [List.getD_eq_getElem?_getD, delivers.chars i lt]
    rfl
  · rw [delivers.nul, List.getD_eq_getElem?_getD, List.getElem?_eq_none (Nat.le_refl _)]
    rfl

theorem shellProcessCommand_history {m m' m'' : Buffer} {h h' : History} {cmdCopy : Buffer} {command fuel : Nat}
    {processed : Processed} (trimmed : strTrim m command fuel = some m') (typed : m' command ≠ 0)
    (eq : shellProcessCommand m h cmdCopy command fuel = some (m'', h', processed)) :
    shellAddHistory h (stringAt m' command fuel) = some h' := by
  rw [shellProcessCommand, trimmed] at eq
  dsimp only at eq
  rw [if_neg typed] at eq
  cases added : shellAddHistory h (stringAt m' command fuel) with
  | none =>
    rw [added] at eq
    exact absurd eq.symm (Option.some_ne_none _)
  | some h1 =>
    rw [added] at eq
    dsimp only at eq
    split at eq
    next => exact absurd eq.symm (Option.some_ne_none _)
    next =>
      split at eq
      next =>
        obtain ⟨-, rfl, -⟩ := Option.some.inj eq
        rfl
      next =>
        obtain ⟨args, -, same⟩ := Option.map_eq_some_iff.mp eq
        obtain ⟨-, rfl, -⟩ := same
        rfl

/-- The table of files, if there is one, and the lines that were typed. -/
structure Desk where
  files : Option Files
  lines : List (List Byte)

def Desk.Answered (d : Desk) (t : Turn) (out : TurnOutput) (e : Desk) : Prop :=
  Shell.Answered d.files t out e.files ∧ e.lines = if t.line = [] then d.lines else d.lines ++ [t.line]

/-- The shell stands for the desk: its file system holds the table, and its history the last ten lines. -/
structure Serving (s : ShellState) (d : Desk) : Prop where
  files : Presents s.fs d.files
  history : Holding s.history (recent MAX_HISTORY d.lines)

theorem Turn.Typed.reads (typed : t.Typed) (a : Nat) (buffer : Int → Byte) : ∃ line,
    shellGetLine MAX_CMD_LENGTH (t.keys ++ [ENTER]) (beginLine buffer (shellPrompt t.screen)) = some line ∧
    Reads (memoryAt a line.buffer.cell) a (edited MAX_CMD_LENGTH t.keys).text ∧
    0 ∉ (edited MAX_CMD_LENGTH t.keys).text ∧ (edited MAX_CMD_LENGTH t.keys).text.length < MAX_CMD_LENGTH := by
  have room : (1 : Int) ≤ MAX_CMD_LENGTH := by decide
  have editing := keyboardKeys_editing (beginLine_editing room buffer (shellPrompt t.screen)) t.keys
  rw [← shellKeys_eq _ _ typed.noTab] at editing
  have delivers := editing.enter_delivers
  have fits : ((edited MAX_CMD_LENGTH t.keys).text.length : Int) ≤ (MAX_CMD_LENGTH : Int) - 1 := editing.room
  exact ⟨_, shellGetLine_eq _ _ typed.noEnter, delivered_reads delivers, delivers.noNul, by omega⟩

/-- What the shell does with a line: the first word decides, whether there is a command for it or not. -/
def obeyed (fs : WitFs) (history : History) (buffer : Int → Byte) (ticks : Word) (cmd args : CStr) :
    Option Handler → ShellState × TurnOutput
  | none => (⟨fs, history, buffer⟩, .unknown cmd)
  | some h => (⟨(runHandler { fs with ticks := ticks } args h).1, history, buffer⟩,
      .ran h (runHandler { fs with ticks := ticks } args h).2)

theorem runProcessed_parsed (s : ShellState) (ticks : Word) {m copy : Buffer} {tokens : List Nat} {place : Nat}
    {line word args : List Byte} (noNul : 0 ∉ line) (small : line.length < MAX_CMD_LENGTH)
    (texts : List.Forall₂ (Reads copy) tokens ((words 0x20 line).take 10)) (arguments : Arguments line word args)
    (rest : Reads m place args) : ∃ cmd full : CStr, cmd.chars = word ∧ full.chars = args ∧
      runProcessed s ticks m (.parsed copy tokens place) =
        obeyed s.fs s.history s.commandBuffer ticks cmd full (handlerNamed word) := by
  obtain ⟨spaces, -, parts⟩ := arguments.parts
  have wordNoNul : 0 ∉ word := fun zero => noNul (parts ▸ List.mem_append_left _ zero)
  have argsNoNul : 0 ∉ args := fun zero => noNul (parts ▸ List.mem_append_right _ (List.mem_append_right _ zero))
  have lengths := congrArg List.length parts
  simp only [List.length_append] at lengths
  obtain ⟨tok, toks, rfl, here⟩ : ∃ tok toks, tokens = tok :: toks ∧ Reads copy tok word := by
    have first := arguments.first
    cases all : words 0x20 line with
    | nil =>
      rw [all] at first
      cases first
    | cons w ws =>
      rw [all] at first texts
      obtain rfl := Option.some.inj first
      cases texts with
      | cons here others => exact ⟨_, _, rfl, here⟩
  refine ⟨_, _, stringAt_eq here wordNoNul (show word.length < MAX_CMD_LENGTH by omega),
    stringAt_eq rest argsNoNul (show args.length < MAX_CMD_LENGTH by omega), ?_⟩
  rw [runProcessed, List.headD_cons, dispatch_eq here wordNoNul]
  cases handlerNamed word with
  | none => rfl
  | some h => rfl

theorem Turn.Typed.obeyed (typed : t.Typed) {s : ShellState} {lines : List (List Byte)}
    (history : Holding s.history (recent MAX_HISTORY lines)) {a : Nat} (there : a ≠ 0) (typedIn : t.line ≠ []) :
    ∃ history' buffer, ∃ cmd args : CStr, cmd.chars = t.word ∧ args.chars = t.args ∧
      Holding history' (recent MAX_HISTORY (lines ++ [t.line])) ∧
      shellTurn a s t = some (Shell.obeyed s.fs history' buffer t.ticks cmd args (handlerNamed t.word)) := by
  obtain ⟨line, got, reads, noNul, enough⟩ := typed.reads a s.commandBuffer
  obtain ⟨m, h', copy, tokens, place, word, args, eq, trimmed, texts, arguments, rest⟩ :=
    shellProcessCommand_parsed history t.cmdCopy there reads noNul enough enough typedIn
  obtain ⟨m', trimmed', text, -⟩ := strTrim_spec there reads noNul enough
  obtain rfl := Option.some.inj (trimmed.symm.trans trimmed')
  have part := trim_part isSpace (edited MAX_CMD_LENGTH t.keys).text
  have inside : 0 ∉ t.line := fun zero => noNul (part.subset zero)
  have small : t.line.length < MAX_CMD_LENGTH := Nat.lt_of_le_of_lt part.length_le enough
  have string : (stringAt m a MAX_CMD_LENGTH).chars = t.line := stringAt_eq text inside small
  have added := shellProcessCommand_history trimmed (mt (text.first_zero inside).mp typedIn) eq
  have short : ∀ c ∈ [stringAt m a MAX_CMD_LENGTH], c.length < MAX_CMD_LENGTH := by
    intro c mem
    rw [List.mem_singleton.mp mem, CStr.length, string]
    exact small
  obtain ⟨h1, kept, held⟩ := foldlM_holding history short
  rw [List.foldlM_cons, added] at kept
  obtain rfl : h' = h1 := Option.some.inj kept
  have line_noted : noted [stringAt m a MAX_CMD_LENGTH] = [t.line] := by simp [noted, string, typedIn]
  rw [line_noted] at held
  have word_eq : t.word = word := by
    rw [Turn.word, show (words 0x20 t.line).head? = some word from arguments.first]
    rfl
  have args_eq : t.args = args := by
    rw [Turn.args, word_eq]
    exact arguments.rest.symm
  obtain ⟨cmd, full, cmd_eq, full_eq, ran⟩ := runProcessed_parsed ⟨s.fs, h', fun i => m (a + i).toNat⟩ t.ticks inside small
    texts arguments rest
  refine ⟨h', fun i => m (a + i).toNat, cmd, full, cmd_eq.trans word_eq.symm, full_eq.trans args_eq.symm, held, ?_⟩
  rw [shellTurn, got]
  dsimp only
  rw [processLine, eq]
  dsimp only
  rw [ran, word_eq]

theorem Serving.turn {s : ShellState} {d : Desk} (serving : Serving s d) {a : Nat} (there : a ≠ 0) (plain : t.Plain)
    (careful : d.files = none → ∀ h, handlerNamed t.word = some h → h = .cmdFsformat ∨ ∀ args, fileCommand args h = none) :
    ∃ u out e, shellTurn a s t = some (u, out) ∧ d.Answered t out e ∧ Serving u e ∧
      e.files.isNone = t.leaves d.files.isNone := by
  by_cases empty : t.line = []
  · obtain ⟨line, got, reads, noNul, enough⟩ := plain.reads a s.commandBuffer
    obtain ⟨m, eq, -⟩ := shellProcessCommand_blank s.history t.cmdCopy there reads noNul enough empty
    have keeps : t.leaves d.files.isNone = d.files.isNone := by
      rw [Turn.leaves, Turn.word, empty]
      rfl
    rw [shellTurn, got]
    dsimp only
    rw [processLine, eq]
    exact ⟨_, _, d, rfl, ⟨.blank empty, (if_pos empty).symm⟩, ⟨serving.files, serving.history⟩, keeps.symm⟩
  · obtain ⟨history, buffer, cmd, args, word, text, held, eq⟩ := plain.obeyed serving.history there empty
    rw [eq]
    cases named : handlerNamed t.word with
    | none =>
      have keeps : t.leaves d.files.isNone = d.files.isNone := by rw [Turn.leaves, named]
      exact ⟨_, _, ⟨d.files, d.lines ++ [t.line]⟩, rfl, ⟨.unknown empty word named, (if_neg empty).symm⟩,
        ⟨serving.files, held⟩, keeps.symm⟩
    | some h =>
      obtain ⟨G, done, files, leaves⟩ := (serving.files.withTicks t.ticks).handler plain empty text named fun none =>
        careful none h named
      exact ⟨_, _, ⟨G, d.lines ++ [t.line]⟩, rfl, ⟨done, (if_neg empty).symm⟩, ⟨files, held⟩, leaves⟩

end Turns

/-- What the loop does, line after line. -/
theorem Serving.run {s : ShellState} {d : Desk} (serving : Serving s d) {a : Nat} (there : a ≠ 0) {turns : List Turn}
    (plain : ∀ t ∈ turns, t.Plain) (careful : Careful d.files.isNone turns) : ∃ u outs e,
      shellRun a s turns = some (u, outs) ∧ Explained Desk.Answered d turns outs e ∧ Serving u e := by
  induction turns generalizing s d with
  | nil => exact ⟨s, [], d, rfl, .nil d, serving⟩
  | cons t turns ih =>
    obtain ⟨u, out, e, eq, answered, serving', leaves⟩ := serving.turn there (plain t List.mem_cons_self) fun none =>
      careful.1 (by rw [none]; rfl)
    obtain ⟨v, outs, f, rest, others, last⟩ := ih serving' (fun t mem => plain t (List.mem_cons_of_mem _ mem))
      (leaves ▸ careful.2)
    refine ⟨v, out :: outs, f, ?_, .cons answered others, last⟩
    rw [shellRun, eq]
    dsimp only
    rw [rest]
    rfl

/-- From the keys to the files: whatever is typed, line after line, the shell answers as the table
of named files says. `ramdisk` and `rdformat` leave no table, and `fsformat` an empty one. In the end
the file system holds the table there is, and the history what is kept of the lines. -/
theorem shell_refines_files (s0 : WitFs) (rows : Buffer) (buffer : Int → Byte) (a : Nat) (turns : List Turn)
    (ready : Ready s0) (there : a ≠ 0) (plain : ∀ t ∈ turns, t.Plain) (careful : Careful false turns) :
    ∃ u outs d, shellRun a ⟨mounted s0, ⟨rows, 0, []⟩, buffer⟩ turns = some (u, outs) ∧
      Explained Desk.Answered ⟨some fun _ => none, []⟩ turns outs d ∧ Serving u d :=
  Serving.run ⟨(mounted_holds ready).presents, Holding.start rows⟩ there plain careful

def typing (keys : String) : Turn := ⟨ascii keys, blankDisplay, fun _ => 0, 0⟩

theorem typing_touch : (typing "touch a").Plain := by
  have word : handlerNamed (typing "touch a").word = some .cmdTouch := by decide +kernel
  refine ⟨⟨by decide, by decide⟩, fun h args c named text file => ?_⟩
  obtain rfl := Option.some.inj (word.symm.trans named)
  obtain rfl := Option.some.inj file
  obtain rfl : args = nameA := CStr.ext (text.trans (show (typing "touch a").args = nameA.chars by decide +kernel))
  exact Or.inr (show PlainName nameA by decide)

theorem typing_fsformat : (typing "fsformat").Plain := by
  have word : handlerNamed (typing "fsformat").word = some .cmdFsformat := by decide +kernel
  refine ⟨⟨by decide, by decide⟩, fun h args c named text file => ?_⟩
  obtain rfl := Option.some.inj (word.symm.trans named)
  obtain rfl := Option.some.inj file
  trivial

theorem typing_rdformat : (typing " rdformat").Plain := by
  have word : handlerNamed (typing " rdformat").word = some .cmdRdformat := by decide +kernel
  refine ⟨⟨by decide, by decide⟩, fun h args c named text file => ?_⟩
  obtain rfl := Option.some.inj (word.symm.trans named)
  exact absurd file (Option.some_ne_none _).symm

/-- The disk is written over and formatted, and then there is a file. -/
theorem shell_refines_files_touch :
    ∃ u outs d, shellRun 0x90000 ⟨mounted powerOn, ⟨fun _ => 0, 0, []⟩, fun _ => 0⟩
        [typing " rdformat", typing "fsformat", typing "touch a"] = some (u, outs) ∧
      Explained Desk.Answered ⟨some fun _ => none, []⟩ [typing " rdformat", typing "fsformat", typing "touch a"] outs d ∧
      Serving u d := by
  have word : handlerNamed (typing "fsformat").word = some .cmdFsformat := by decide +kernel
  have written : (typing " rdformat").leaves false = true := by decide +kernel
  have formatted : (typing "fsformat").leaves true = false := by decide +kernel
  refine shell_refines_files powerOn _ _ 0x90000 _ ⟨rfl, rfl⟩ (by decide) (fun t mem => ?_) ?_
  · simp only [List.mem_cons, List.not_mem_nil, or_false] at mem
    rcases mem with rfl | rfl | rfl
    · exact typing_rdformat
    · exact typing_fsformat
    · exact typing_touch
  · simp only [Careful, written, formatted]
    refine ⟨nofun, fun _ h named => ?_, nofun, trivial⟩
    exact Or.inl (Option.some.inj (named.symm.trans word))

section Unknown

variable {a : Nat} {s u : ShellState} {t : Turn} {turns : List Turn} {outs : List TurnOutput} {lines : List (List Byte)}

theorem Turn.Typed.history (typed : t.Typed) (held : Holding s.history (recent MAX_HISTORY lines)) (there : a ≠ 0)
    {out : TurnOutput} (eq : shellTurn a s t = some (u, out)) : ∃ lines', Holding u.history (recent MAX_HISTORY lines') := by
  by_cases empty : t.line = []
  · obtain ⟨line, got, reads, noNul, enough⟩ := typed.reads a s.commandBuffer
    obtain ⟨m, same, -⟩ := shellProcessCommand_blank s.history t.cmdCopy there reads noNul enough empty
    rw [shellTurn, got] at eq
    dsimp only at eq
    rw [processLine, same] at eq
    obtain ⟨rfl, -⟩ := Prod.mk.inj (Option.some.inj eq)
    exact ⟨lines, held⟩
  · obtain ⟨history, buffer, cmd, args, -, -, kept, same⟩ := typed.obeyed held there empty
    rw [same] at eq
    refine ⟨lines ++ [t.line], ?_⟩
    rw [← (Prod.mk.inj (Option.some.inj eq)).1]
    cases handlerNamed t.word with
    | none => exact kept
    | some h => exact kept

theorem shellRun_history (typed : ∀ t ∈ turns, t.Typed) (held : Holding s.history (recent MAX_HISTORY lines))
    (there : a ≠ 0) (run : shellRun a s turns = some (u, outs)) :
    ∃ lines', Holding u.history (recent MAX_HISTORY lines') := by
  induction turns generalizing s lines outs with
  | nil =>
    obtain ⟨rfl, -⟩ := Prod.mk.inj (Option.some.inj run)
    exact ⟨lines, held⟩
  | cons t turns ih =>
    rw [shellRun] at run
    cases turn : shellTurn a s t with
    | none =>
      rw [turn] at run
      exact absurd run.symm (Option.some_ne_none _)
    | some r =>
      rw [turn] at run
      obtain ⟨v, out⟩ := r
      obtain ⟨lines', held'⟩ := (typed t List.mem_cons_self).history held there turn
      obtain ⟨r, rest, same⟩ := Option.map_eq_some_iff.mp run
      obtain ⟨rfl, -⟩ := Prod.mk.inj same
      exact ih (fun t mem => typed t (List.mem_cons_of_mem _ mem)) held' rest

end Unknown

/-- Whatever was typed before, the shell does not know a word exactly when Tab does not complete to it. -/
theorem unknown_iff_unlisted (fs : WitFs) (rows : Buffer) (buffer : Int → Byte) (a : Nat) (turns : List Turn) (s : ShellState)
    (outs : List TurnOutput) (t : Turn) (there : a ≠ 0) (typed : ∀ t ∈ turns, t.Typed)
    (run : shellRun a ⟨fs, ⟨rows, 0, []⟩, buffer⟩ turns = some (s, outs)) (now : t.Typed) (typedIn : t.line ≠ []) :
    (∃ u cmd, shellTurn a s t = some (u, .unknown cmd)) ↔ ∀ c ∈ availableCommands, c.chars ≠ t.word := by
  obtain ⟨lines, history⟩ := shellRun_history typed (Holding.start rows) there run
  obtain ⟨history, buffer, cmd, args, -, -, -, eq⟩ := now.obeyed history there typedIn
  rw [eq, ← handlerNamed_none]
  cases handlerNamed t.word with
  | none => exact iff_of_true ⟨_, _, rfl⟩ rfl
  | some h =>
    refine iff_of_false ?_ (Option.some_ne_none h)
    rintro ⟨u, cmd, same⟩
    exact TurnOutput.noConfusion (Prod.mk.inj (Option.some.inj same)).2

theorem unknown_iff_unlisted_dir : (∃ u cmd, shellTurn 0x90000 ⟨powerOn, ⟨fun _ => 0, 0, []⟩, fun _ => 0⟩ (typing " dir") =
      some (u, .unknown cmd)) ↔ ∀ c ∈ availableCommands, c.chars ≠ (typing " dir").word :=
  unknown_iff_unlisted powerOn (fun _ => 0) (fun _ => 0) 0x90000 [] _ [] (typing " dir") (by decide) nofun rfl
    ⟨by decide, by decide⟩ (by decide)

end Wittche.Shell
