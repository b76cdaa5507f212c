import Mathlib.Data.Set.Card
import Wittche.Shell.WriteCommand
import Wittche.Shell.FileTypes
import Wittche.Fs.Capacity

/-! The other file commands of `kernel/shell.c`, and what all of them are for: a table of named
files. Colours, headings and debug lines are left out. -/

namespace Wittche.Shell
open Bytes CString Fs

inductive MakeOutput
  | notInitialized
  | usage
  | alreadyExists
  | failed
  | created
deriving DecidableEq

inductive RmOutput
  | notInitialized
  | usage
  | notFound
  | failed
  | deleted
deriving DecidableEq

/-- `cmd_touch` and `cmd_mkdir`, which differ in the call that makes the entry. -/
def makeCommand (make : WitFs → CStr → WitFs × Int) (s : WitFs) (args : CStr) : WitFs × MakeOutput :=
  if !s.initialized then (s, .notInitialized)
  else if args.length = 0 then (s, .usage)
  else
    match fsExists s args with
    | (s, there) =>
      if there ≠ 0 then (s, .alreadyExists)
      else
        match make s args with
        | (s, made) => (s, if made < 0 then .failed else .created)

def cmdTouch : WitFs → CStr → WitFs × MakeOutput := makeCommand fun s args => fsCreate s args FS_TYPE_FILE
def cmdMkdir : WitFs → CStr → WitFs × MakeOutput := makeCommand fsMkdir

def cmdRm (s : WitFs) (args : CStr) : WitFs × RmOutput :=
  if !s.initialized then (s, .notInitialized)
  else if args.length = 0 then (s, .usage)
  else
    match fsExists s args with
    | (s, there) =>
      if there = 0 then (s, .notFound)
      else
        match fsUnlink s args with
        | (s, gone) => (s, if gone < 0 then .failed else .deleted)

/-- `cmd_fsformat`, which reports success whatever the two calls do. -/
def cmdFsformat (s : WitFs) : WitFs := fsInit (fsFormat s)

inductive FileCommand
  | fsformat
  | ls
  | touch (args : CStr)
  | cat (args : CStr)
  | rm (args : CStr)
  | mkdir (args : CStr)
  | write (args : CStr)

inductive FileOutput
  | formatted
  | ls (out : LsOutput)
  | make (out : MakeOutput)
  | cat (out : CatOutput)
  | rm (out : RmOutput)
  | write (out : WriteOutput)

def runCommand (s : WitFs) : FileCommand → WitFs × FileOutput
  | .fsformat => (cmdFsformat s, .formatted)
  | .ls => let (s, out) := cmdLs s; (s, .ls out)
  | .touch args => let (s, out) := cmdTouch s args; (s, .make out)
  | .cat args => let (s, out) := cmdCat s args; (s, .cat out)
  | .rm args => let (s, out) := cmdRm s args; (s, .rm out)
  | .mkdir args => let (s, out) := cmdMkdir s args; (s, .make out)
  | .write args => let (s, out) := cmdWrite s (some args); (s, .write out)

section Table

inductive Kind
  | file
  | dir
deriving DecidableEq

def Kind.type : Kind → Word
  | .file => FS_TYPE_FILE
  | .dir => FS_TYPE_DIR

/-- What stands under a name. -/
structure Node where
  kind : Kind
  bytes : List Byte

abbrev Files := List Byte → Option Node

def nameIn (args : CStr) : List Byte := (pathName args).chars

def Files.names (F : Files) : Set (List Byte) := {name | F name ≠ none}

def Files.Full (F : Files) : Prop := F.names.ncard = 160

inductive Makes (F : Files) (kind : Kind) (args : CStr) : MakeOutput → Files → Prop
  | usage (none : args.length = 0) : Makes F kind args .usage F
  | alreadyExists (some : args.length ≠ 0) (taken : F (nameIn args) ≠ none) : Makes F kind args .alreadyExists F
  | failed (some : args.length ≠ 0) (absent : F (nameIn args) = none) (full : F.Full) : Makes F kind args .failed F
  | created (some : args.length ≠ 0) (absent : F (nameIn args) = none) (room : ¬F.Full) :
      Makes F kind args .created (Function.update F (nameIn args) (.some ⟨kind, []⟩))

inductive Removes (F : Files) (args : CStr) : RmOutput → Files → Prop
  | usage (none : args.length = 0) : Removes F args .usage F
  | notFound (some : args.length ≠ 0) (absent : F (nameIn args) = none) : Removes F args .notFound F
  | deleted (some : args.length ≠ 0) (there : F (nameIn args) ≠ none) :
      Removes F args .deleted (Function.update F (nameIn args) none)

/-- No file shows its contents: the mode of a file is not what `cat` looks for. -/
inductive Shows (F : Files) (args : CStr) : CatOutput → Prop
  | usage (none : args.length = 0) : Shows F args .usage
  | notFound (some : args.length ≠ 0) (absent : F (nameIn args) = none) : Shows F args .notFound
  | isDirectory (some : args.length ≠ 0) (there : F (nameIn args) ≠ none) : Shows F args .isDirectory

/-- The first 64 names in some order, each marked as a file without a size. -/
inductive Lists (F : Files) : LsOutput → Prop
  | empty (none : F.names = ∅) : Lists F .empty
  | files (names : List (List Byte)) (lines : List Line) (nodup : names.Nodup) (all : ∀ name, name ∈ names ↔ name ∈ F.names)
      (some : names ≠ []) (shown : lines.map (·.name.chars) = names.take 64)
      (marks : ∀ line ∈ lines, line.mark = .file ∧ line.size = none) : Lists F (.files lines lines.length)

/-- A text goes over the start of what was there. -/
inductive Writes (F : Files) (name text : CStr) : WriteOutput → Files → Prop
  | failed (absent : F (nameIn name) = none) (full : F.Full) : Writes F name text (.createFailed name) F
  | created (absent : F (nameIn name) = none) (room : ¬F.Full) : Writes F name text (.created name text.length)
      (Function.update F (nameIn name) (some ⟨.file, text.chars⟩))
  | updated (node : Node) (there : F (nameIn name) = some node) : Writes F name text (.updated name text.length)
      (Function.update F (nameIn name) (some ⟨node.kind, text.chars ++ node.bytes.drop text.length⟩))

/-- `write` cuts its arguments at 255 bytes and then at the first space. -/
inductive WritesArgs (F : Files) (args : CStr) : WriteOutput → Files → Prop
  | usage (none : args.length = 0) : WritesArgs F args .usage F
  | missingText (some : args.length ≠ 0) (none : 0x20 ∉ (args.take 255).chars) : WritesArgs F args .missingText F
  | writes (name text : CStr) (noSpace : 0x20 ∉ name.chars) (split : args.take 255 = writeArgs name text)
      {out : WriteOutput} {G : Files} (done : Writes F name text out G) : WritesArgs F args out G

/-- A command on the table, with its output and the table behind it. -/
def Answers (F : Files) : FileCommand → FileOutput → Files → Prop
  | .fsformat, .formatted, G => G = fun _ => none
  | .ls, .ls out, G => Lists F out ∧ G = F
  | .touch args, .make out, G => Makes F .file args out G
  | .cat args, .cat out, G => Shows F args out ∧ G = F
  | .rm args, .rm out, G => Removes F args out G
  | .mkdir args, .make out, G => Makes F .dir args out G
  | .write args, .write out, G => WritesArgs F args out G
  | _, _, _ => False

/-- A name of 1 to 27 characters, behind at most one slash. -/
def PlainName (name : CStr) : Prop := ShortName name ∧ (pathName name).get 0 ≠ 0x2F

instance (name : CStr) : Decidable (PlainName name) := inferInstanceAs (Decidable (_ ∧ _))

def FileCommand.Plain : FileCommand → Prop
  | .fsformat => True
  | .ls => True
  | .touch args => args.length = 0 ∨ PlainName args
  | .cat args => args.length = 0 ∨ PlainName args
  | .rm args => args.length = 0 ∨ PlainName args
  | .mkdir args => args.length = 0 ∨ PlainName args
  | .write args => ∀ name text, 0x20 ∉ name.chars → args.take 255 = writeArgs name text → PlainName name

end Table

end Wittche.Shell
