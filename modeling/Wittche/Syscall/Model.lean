import Wittche.Kprintf.Format
import Wittche.Lib.Recorded
import Wittche.Process.UserMode

/-! System calls as in `kernel/syscall.c`, over the process table, the page tables and the
screen. Kernel structures are typed; what the pointers of a caller lead to is byte memory, at
the addresses of the caller's directory. Every access to it is recorded, whether or not the
address is mapped. -/

namespace Wittche.Syscall
open Bytes CString AddressSpace Process

/-- A screen with its cursor where `screen_init` and the calls behind it leave it. -/
abbrev OnScreen := { d : Screen.Display // Screen.Safe d }

structure Machine where
  kernel : Kernel
  screen : OnScreen
  memory : Recorded

namespace Machine

def processes (s : Machine) : Processes := s.kernel.processes

/-- After a call of `process.c`. -/
def after (s : Machine) (processes : Processes) : Machine := { s with kernel := s.kernel.after processes }

/-- `screen_write(temp)` with the one character `c` in `temp`. -/
def print (s : Machine) (c : Byte) (char : c ≠ 0) : Machine :=
  { s with screen := ⟨Screen.screenWrite s.screen.1 (some ⟨[c], by simpa using char.symm⟩),
      (s.screen.2.putChars [c]).updateCursor⟩ }

def kprintf (s : Machine) (format : CStr) (args : List Word) : Machine :=
  { s with screen := ⟨Kprintf.kprintf s.screen.1 format (Kprintf.wordArguments args),
      Kprintf.kprintf_safe s.screen.2 format _⟩ }

def kprintfColor (s : Machine) (color : Byte) (format : CStr) (args : List Word) : Machine :=
  { s with screen := ⟨Kprintf.kprintfColor s.screen.1 color format (Kprintf.wordArguments args),
      Kprintf.kprintfColor_safe s.screen.2 color format _⟩ }

/-- The loop of `sys_write` with `n` characters to go. -/
def writeFrom (buffer : Word) : (n i : Nat) → Machine → Machine
  | 0, _, s => s
  | n + 1, i, s =>
    let c := s.memory.bytes (offset buffer i)
    let s := { s with memory := s.memory.read (offset buffer i) }
    if char : c ≠ 0 then
      -- the character is read again for `temp`
      let s := { s with memory := s.memory.read (offset buffer i) }
      writeFrom buffer n (i + 1) (s.print c char)
    else s

/-- `process_send_message` with a message in the memory of the caller. -/
def processSendMessage (s : Machine) (target message length : Word) : Machine × Int :=
  if message = 0 ∨ length = 0 ∨ MAX_MESSAGE_SIZE < length.toNat then (s, -1)
  else
    let p := s.processes.processGet target.toNat
    let q := (s.processes.pcb p).msgQueue
    if p = 0 ∨ q = 0 then (s, -2)
    else if MESSAGE_QUEUE_SIZE ≤ (s.processes.queue q).count then (s, -3)
    else
      let bytes := fun i => s.memory.bytes (offset message i)
      let r := Process.processSendMessage s.processes target.toNat (some bytes) length.toNat
      ({ s with
        kernel := { s.kernel with processes := r.1 }
        memory := s.memory.readRange message length.toNat }, r.2)

/-- `process_receive_message` with a buffer in the memory of the caller; the last number is
`*sender`. -/
def processReceiveMessage (s : Machine) (buffer maxLength : Word) : Machine × Int × Nat :=
  let r := Process.processReceiveMessage s.processes (decide (buffer ≠ 0)) maxLength.toNat
  ({ s with
    kernel := { s.kernel with processes := r.1 }
    memory := Recorded.writeRange buffer 0 r.2.2.1 s.memory }, r.2.1, r.2.2.2)

def wordBytes (w : Word) : List Byte := (List.range 4).map (byteOf w)

/-- `*(pid_t *)pointer = pid`. -/
def storePid (s : Machine) (pointer : Word) (pid : Nat) : Machine :=
  { s with memory := Recorded.writeRange pointer 0 (wordBytes (BitVec.ofNat 32 pid)) s.memory }

end Machine

/-- A handler, with its four arguments. -/
abbrev Handler := Machine → Word → Word → Word → Word → Machine × Int

def exitMessage : CStr := ⟨ascii "[SYSCALL] Process %d exiting with code %d\n", by decide⟩

/-- `sys_exit`; `process_exit` is `process_kill` of the caller. -/
def sysExit : Handler := fun s exitCode _ _ _ =>
  let x := s.processes.pcb s.processes.current
  let s := if s.processes.current = 0 then s else s.kprintf exitMessage [BitVec.ofNat 32 x.pid, exitCode]
  if s.processes.current = 0 ∨ x.pid = 0 then (s, 0)
  else ({ s with kernel := s.kernel.processKill x.pid }, 0)

def sysWrite : Handler := fun s _ buffer count _ =>
  if buffer = 0 ∨ count = 0 then (s, -1) else (s.writeFrom buffer count.toNat 0, count.toInt)

def sysRead : Handler := fun s _ _ _ _ => (s, 0)

def sysGetpid : Handler := fun s _ _ _ _ =>
  if s.processes.current ≠ 0 then (s, (BitVec.ofNat 32 (s.processes.pcb s.processes.current).pid).toInt) else (s, -1)

def sysSleep : Handler := fun s milliseconds _ _ _ => (s.after (processSleep s.processes milliseconds.toNat), 0)

def sysYield : Handler := fun s _ _ _ _ => (s.after (processYield s.processes), 0)

def sysSend : Handler := fun s targetPid message length _ =>
  if message = 0 ∨ length = 0 then (s, -1) else s.processSendMessage targetPid message length

/-- `sys_recv`; the code of `process_receive_message` is a 32-bit integer. -/
def sysRecv : Handler := fun s buffer maxLength senderPtr _ =>
  if buffer = 0 ∨ maxLength = 0 then (s, -1)
  else
    match s.processReceiveMessage buffer maxLength with
    | (s, code, sender) =>
      let result := code.bmod (2 ^ 32)
      if senderPtr ≠ 0 ∧ 0 < result then (s.storePid senderPtr sender, result) else (s, result)

def syscallTable : List Handler := [sysExit, sysWrite, sysRead, sysGetpid, sysSleep, sysYield, sysSend, sysRecv]

def invalidMessage : CStr := ⟨ascii "[SYSCALL ERROR] Invalid syscall number: %d\n", by decide⟩

/-- `MAKE_COLOR(COLOR_RED, COLOR_BLACK)`. -/
def RED_ON_BLACK : Byte := 0x04

def syscallDispatch (s : Machine) (syscallNum arg1 arg2 arg3 arg4 : Word) : Machine × Int :=
  match syscallTable[syscallNum.toNat]? with
  | none => (s.kprintfColor RED_ON_BLACK invalidMessage [syscallNum], -1)
  | some handler => handler s arg1 arg2 arg3 arg4

end Wittche.Syscall
