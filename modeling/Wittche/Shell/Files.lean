import Mathlib.Data.List.TakeWhile
import Wittche.Fs.Model

/-! The commands `ls` and `cat` of `kernel/shell.c`: what they ask the file system and what
they write. Colours, headings and debug lines are left out. The buffer of a command comes
from the heap that `fs.c` uses. -/

namespace Wittche.Shell
open Bytes CString Fs

inductive Mark
  | dir
  | file
deriving DecidableEq

/-- A line of `ls`: the mark, the name, and the size in bytes where it is shown. -/
structure Line where
  mark : Mark
  name : CStr
  size : Option Word

inductive LsOutput
  | notInitialized
  | outOfMemory
  | readFailed
  | empty
  | files (lines : List Line) (total : Int)

inductive CatOutput
  | notInitialized
  | usage
  | notFound
  | statFailed
  | isDirectory
  | emptyFile
  | openFailed (fd : Int)
  | outOfMemory
  | readFailed (count : Int)
  | contents (text : List Byte)
deriving DecidableEq

/-- `stat.mode & 0xFF`. -/
def lowByte (mode : Word) : Word := mode &&& 0xFF

/-- The bytes in front of the first NUL, which is what `screen_write` shows. -/
def shown (bytes : List Byte) : List Byte := bytes.takeWhile (· ≠ 0)

def direntStr (d : Dirent) : CStr where
  chars := shown (List.ofFn d.name)
  noNul h := by simpa using List.mem_takeWhile_imp h

/-- One turn of the loop of `cmd_ls`. The mark and the size come from two tests of the mode. -/
def lsLine (name : CStr) (stat : Inode) : Line where
  mark := if lowByte stat.mode = FS_TYPE_DIR then .dir else .file
  name := name
  size := if lowByte stat.mode = FS_TYPE_FILE then some stat.size else none

/-- The loop of `cmd_ls`; an entry whose `fs_stat` fails has no line. -/
def lsLines (s : WitFs) : List Dirent → WitFs × List Line
  | [] => (s, [])
  | d :: rest =>
    match fsStat s (direntStr d) with
    | (s, none) => lsLines s rest
    | (s, some stat) =>
      match lsLines s rest with
      | (s, lines) => (s, lsLine (direntStr d) stat :: lines)

theorem slash_noNul : (0 : Byte) ∉ [0x2F] := by decide

def rootPath : CStr := ⟨[0x2F], slash_noNul⟩

def cmdLs (s : WitFs) : WitFs × LsOutput :=
  if !s.initialized then (s, .notInitialized)
  else
    match kmalloc s with
    | (s, none) => (s, .outOfMemory)
    | (s, some entries) =>
      match fsReaddir s rootPath 64 with
      | (s, count, found) =>
        if count < 0 then (kfree s entries, .readFailed)
        else if count = 0 then (kfree s entries, .empty)
        else
          match lsLines s found with
          | (s, lines) => (kfree s entries, .files lines count)

/-- `cmd_cat` from the opening of the file on. -/
def catContents (s : WitFs) (args : CStr) (size : Word) : WitFs × CatOutput :=
  match fsOpen s args FS_OPEN_READ with
  | (s, fd) =>
    if fd < 0 then (s, .openFailed fd)
    else
      match kmalloc s with
      | (s, none) => ((fsClose s fd).1, .outOfMemory)
      | (s, some buffer) =>
        match fsRead s fd size.toNat with
        | (s, count, bytes) =>
          let s := kfree (fsClose s fd).1 buffer
          (s, if count ≤ 0 then .readFailed count else .contents (shown bytes))

def cmdCat (s : WitFs) (args : CStr) : WitFs × CatOutput :=
  if !s.initialized then (s, .notInitialized)
  else if args.length = 0 then (s, .usage)
  else
    match fsExists s args with
    | (s, there) =>
      if there = 0 then (s, .notFound)
      else
        match fsStat s args with
        | (s, none) => (s, .statFailed)
        | (s, some stat) =>
          if lowByte stat.mode ≠ FS_TYPE_FILE then (s, .isDirectory)
          else if stat.size = 0 then (s, .emptyFile)
          else catContents s args stat.size

end Wittche.Shell
