import Wittche.Lib.Scan
import Wittche.CString
import Wittche.Heap.Model

/-! Processes, scheduling and messages as in `kernel/process.c`, over the kernel heap.
Process control blocks and message queues are kept in stores of their own, by address, and
`kmalloc` and `kfree` decide which addresses are in use. A field that the source does not set
keeps what the store holds at that address. The word at the top of a new kernel stack is
stored in the bytes of the heap, wherever `stack_size` puts it: with less than 4 bytes, and
with sizes that wrap around, it hits the header of the stack's own block. Pointers are
addresses, and `NULL` is 0.

A call that reaches `process_switch` stops there. What it has left to do is kept in
`rest` under the process that made it, and is done when that process gets control again.
What `process_switch` pushes lies below the stack pointer of the process that gets control,
on its own stack when that has room for two words, and is not stored here. -/

namespace Wittche.Process
open Bytes CString Heap

def MAX_PROCESSES : Nat := 16
def MAX_MESSAGE_SIZE : Nat := 256
def MESSAGE_QUEUE_SIZE : Nat := 8

def SIZEOF_PROCESS : Word := 144

def SIZEOF_MESSAGE_QUEUE : Word := 2124

inductive State
  | ready
  | running
  | blocked
  | terminated
  deriving DecidableEq

/-- `ipc_message_t`. -/
structure Message where
  sender : Nat
  data : Buffer
  length : Nat

/-- `message_queue_t`. -/
structure MessageQueue where
  messages : Nat → Message
  head : Nat
  tail : Nat
  count : Nat

/-- The registers of `cpu_state_t` that `process.c` sets. -/
structure CpuState where
  eip : Nat
  esp : Nat
  ebp : Nat
  eflags : Nat
  cs : Nat
  ds : Nat
  es : Nat
  fs : Nat
  gs : Nat
  ss : Nat

/-- `process_t`. -/
structure Pcb where
  pid : Nat
  name : Buffer
  state : State
  cpuState : CpuState
  stackBase : Nat
  stackSize : Nat
  userStack : Nat
  kernelStack : Nat
  isUserMode : Nat
  priority : Nat
  timeSlice : Nat
  totalTime : Nat
  wakeTime : Nat
  msgQueue : Nat
  pageDirectory : Nat

/-- What a call has left to do behind `process_schedule`: return, or the cleanup of
`process_kill` for the slot it found. -/
inductive Rest
  | back
  | cleanup (slot : Nat)

structure Processes where
  heap : KernelHeap
  pcb : Nat → Pcb
  queue : Nat → MessageQueue
  table : Nat → Nat
  count : Int
  nextPid : Nat
  current : Nat
  idle : Nat
  rest : Nat → Rest
  ticks : Nat
  /-- `tss_entry.esp0`. -/
  esp0 : Nat
  /-- `current_directory` of `paging.c`. -/
  directory : Nat
  /-- The directories given to `paging_free_directory`. -/
  freed : List Nat

namespace Processes

def setPcb (s : Processes) (p : Nat) (x : Pcb) : Processes := { s with pcb := Function.update s.pcb p x }

def setState (s : Processes) (p : Nat) (state : State) : Processes :=
  s.setPcb p { s.pcb p with state := state }

def setQueue (s : Processes) (q : Nat) (x : MessageQueue) : Processes :=
  { s with queue := Function.update s.queue q x }

def kmalloc (s : Processes) (size : Word) : Processes × Nat :=
  let r := Heap.kmalloc s.heap size
  ({ s with heap := r.1 }, r.2)

def kfree (s : Processes) (p : Nat) : Processes := { s with heap := Heap.kfree s.heap p }

/-- `*stack = entry_point` at the top of a kernel stack. -/
def pushEntry (s : Processes) (top entry : Nat) : Processes :=
  { s with heap := s.heap.store ((top + 2 ^ 32 - 4) % 2 ^ 32) (BitVec.ofNat 32 entry) }

def clearTable (s : Processes) : Processes :=
  { s with table := fun i => if i < MAX_PROCESSES then 0 else s.table i }

/-- The loops over `process_table` that stop at the first slot of a kind. -/
def findSlot (s : Processes) (p : Nat → Bool) : Option Nat :=
  Scan.firstFrom (fun i => p (s.table i)) MAX_PROCESSES 0

def slotOf (s : Processes) (pid : Nat) : Option Nat :=
  s.findSlot fun p => decide (p ≠ 0 ∧ (s.pcb p).pid = pid)

/-- `process_get`; 0 is `NULL`. -/
def processGet (s : Processes) (pid : Nat) : Nat :=
  match s.slotOf pid with
  | none => 0
  | some i => s.table i

end Processes

def startState (entry esp : Nat) : CpuState :=
  ⟨entry, esp, esp, 0x202, 0x08, 0x10, 0x10, 0x10, 0x10, 0x10⟩

def idleName : CStr := ⟨[0x69, 0x64, 0x6C, 0x65], by decide⟩

/-- The idle process at `p` with its stack at `base`, in slot 0 and current. -/
def startIdle (s : Processes) (p base entry : Nat) : Processes :=
  let s := s.setPcb p { s.pcb p with
    pid := 0
    name := copy (s.pcb p).name 0 idleName.get (idleName.length + 1)
    state := .ready
    priority := 0
    timeSlice := 10
    totalTime := 0
    pageDirectory := s.directory
    stackSize := 4096
    stackBase := base
    cpuState := startState entry ((base + 4096 + 2 ^ 32 - 4) % 2 ^ 32) }
  let s := s.pushEntry (base + 4096) entry
  { s with
    table := Function.update s.table 0 p
    current := p
    count := 1
    rest := Function.update s.rest p .back }

/-- `process_init`, with `entry` the address of `idle_task`. -/
def processInit (s : Processes) (entry : Nat) : Processes :=
  match s.clearTable.kmalloc SIZEOF_PROCESS with
  | (s, p) =>
    let s := { s with idle := p }
    if p = 0 then s
    else
      match s.kmalloc 4096 with
      | (s, base) => startIdle s p base entry

/-- `strncpy(process->name, name, 31)` and the NUL behind it. -/
def storeName (old : Buffer) (name : CStr) : Buffer := Function.update (strncpy old 0 name 31) 31 0

/-- The fields that `process_create` sets when PCB and stack are there. -/
def initPcb (s : Processes) (p : Nat) (name : CStr) (stackSize : Word) : Processes :=
  { s with nextPid := (s.nextPid + 1) % 2 ^ 32 }.setPcb p { s.pcb p with
    pid := s.nextPid
    name := storeName (s.pcb p).name name
    state := .ready
    stackSize := stackSize.toNat
    userStack := 0
    kernelStack := ((s.pcb p).stackBase + stackSize.toNat) % 2 ^ 32
    isUserMode := 0
    priority := 5
    timeSlice := 10
    totalTime := 0
    wakeTime := 0 }

/-- The empty message queue `q`, the page directory, the stack and the registers of a
new process, which has no call behind it. -/
def startProcess (s : Processes) (p q entry : Nat) (stackSize : Word) : Processes :=
  let s := s.setQueue q { s.queue q with head := 0, tail := 0, count := 0 }
  let top := ((s.pcb p).stackBase + stackSize.toNat) % 2 ^ 32
  let s := s.setPcb p { s.pcb p with
    pageDirectory := s.directory
    cpuState := startState entry ((top + 2 ^ 32 - 4) % 2 ^ 32) }
  let s := s.pushEntry top entry
  { s with rest := Function.update s.rest p .back }

/-- The slot search of `process_create`, and its fall-through. -/
def enterProcess (s : Processes) (p : Nat) : Processes × Nat :=
  match s.findSlot (fun q => decide (q = 0)) with
  | some i => ({ s with table := Function.update s.table i p, count := s.count + 1 }, (s.pcb p).pid)
  | none => ((s.kfree (s.pcb p).stackBase).kfree p, 0)

/-- `process_create` from the fields of the new process on, when PCB and stack are there. -/
def finishProcess (s : Processes) (p : Nat) (name : CStr) (entry : Nat) (stackSize : Word) :
    Processes × Nat :=
  match (initPcb s p name stackSize).kmalloc SIZEOF_MESSAGE_QUEUE with
  | (s, q) =>
    let s := s.setPcb p { s.pcb p with msgQueue := q }
    if q = 0 then ((s.kfree (s.pcb p).stackBase).kfree p, 0)
    else enterProcess (startProcess s p q entry stackSize) p

def processCreate (s : Processes) (name : CStr) (entry : Nat) (stackSize : Word) : Processes × Nat :=
  if MAX_PROCESSES ≤ s.count then (s, 0)
  else
    match s.kmalloc SIZEOF_PROCESS with
    | (s, p) =>
      if p = 0 then (s, 0)
      else
        match s.kmalloc stackSize with
        | (s, base) =>
          let s := s.setPcb p { s.pcb p with stackBase := base }
          if base = 0 then (s.kfree p, 0) else finishProcess s p name entry stackSize

def clampPriority (priority : Nat) : Nat := if 255 < priority then 255 else priority

def processSetPriority (s : Processes) (pid priority : Nat) : Processes × Int :=
  let p := s.processGet pid
  if p = 0 then (s, -1)
  else (s.setPcb p { s.pcb p with priority := clampPriority priority }, 0)

def processCreateWithPriority (s : Processes) (name : CStr) (entry : Nat) (stackSize : Word)
    (priority : Nat) : Processes × Nat :=
  let r := processCreate s name entry stackSize
  if 0 < r.2 then ((processSetPriority r.1 r.2 priority).1, r.2) else r

/-- One turn of the search in `process_schedule`; the pair is `next_process` and
`highest_priority`. -/
def consider (s : Processes) (best : Nat × Nat) (i : Nat) : Nat × Nat :=
  let p := s.table i
  if p ≠ 0 ∧ (s.pcb p).state = .ready then
    if best.1 = 0 ∨ best.2 < (s.pcb p).priority then (p, (s.pcb p).priority)
    else if (s.pcb p).priority = best.2 ∧ s.current ≠ 0 then
      match s.findSlot fun q => decide (q = s.current) with
      | some j => if j < i then (p, best.2) else best
      | none => best
    else best
  else best

/-- The process that `process_schedule` goes for. -/
def nextProcess (s : Processes) : Nat :=
  let next := ((List.range MAX_PROCESSES).foldl (consider s) (0, 0)).1
  if next = 0 then s.idle else next

/-- The end of `process_kill`: the blocks of the process are freed and its slot cleared. -/
def cleanup (s : Processes) (slot p : Nat) : Processes :=
  let x := s.pcb p
  let s := s.kfree x.stackBase
  let s := if x.msgQueue ≠ 0 then s.kfree x.msgQueue else s
  let s := if x.isUserMode ≠ 0 ∧ x.pageDirectory ≠ 0 then { s with freed := x.pageDirectory :: s.freed } else s
  let s := s.kfree p
  { s with table := Function.update s.table slot 0, count := s.count - 1 }

/-- The rest of a call of process `p`. -/
def goOn (s : Processes) (p : Nat) : Rest → Processes
  | .back => s
  | .cleanup slot => cleanup s slot p

/-- `process_schedule` before `process_switch`: `next` becomes the current process, and
the old one has `rest` left. -/
def handOver (s : Processes) (rest : Rest) (next : Nat) : Processes :=
  let s := { s with rest := Function.update s.rest s.current rest, current := next }
  let s := s.setState next .running
  { s with
    esp0 := (s.pcb next).kernelStack
    directory := if (s.pcb next).pageDirectory ≠ 0 then (s.pcb next).pageDirectory else s.directory }

/-- `process_switch`: the current process goes on with what it had left. -/
def processSwitch (s : Processes) : Processes :=
  goOn { s with rest := Function.update s.rest s.current .back } s.current (s.rest s.current)

/-- A current process that is still running becomes ready. -/
def park (s : Processes) : Processes :=
  if s.current ≠ 0 ∧ (s.pcb s.current).state = .running then s.setState s.current .ready else s

/-- `process_schedule`, called with `rest` left to do. -/
def scheduleThen (s : Processes) (rest : Rest) : Processes :=
  if s.count = 0 then goOn s s.current rest
  else
    let s := park s
    let next := nextProcess s
    if next ≠ s.current then processSwitch (handOver s rest next)
    else goOn (s.setState s.current .running) s.current rest

def processSchedule (s : Processes) : Processes := scheduleThen s .back

def processYield (s : Processes) : Processes := processSchedule s

def processKill (s : Processes) (pid : Nat) : Processes :=
  if pid = 0 then s
  else
    match s.slotOf pid with
    | none => s
    | some i =>
      if s.table i = s.current then scheduleThen (s.setState s.current .terminated) (.cleanup i)
      else cleanup s i (s.table i)

/-- `process_exit`; behind `process_kill` there is only a loop that halts. -/
def processExit (s : Processes) : Processes :=
  if s.current = 0 then s
  else if (s.pcb s.current).pid = 0 then s
  else processKill s (s.pcb s.current).pid

def processSleep (s : Processes) (ms : Nat) : Processes :=
  if s.current = 0 then s
  else if (s.pcb s.current).pid = 0 then s
  else
    processSchedule (s.setPcb s.current { s.pcb s.current with
      wakeTime := (s.ticks + ms) % 2 ^ 32
      state := .blocked })

def processWake (s : Processes) (pid : Nat) : Processes × Int :=
  let p := s.processGet pid
  if p = 0 then (s, -1)
  else if (s.pcb p).state = .blocked then
    (s.setPcb p { s.pcb p with state := .ready, wakeTime := 0 }, 0)
  else (s, -2)

/-- One turn of `process_check_sleeping`. -/
def wakeSlot (s : Processes) (i : Nat) : Processes :=
  let p := s.table i
  if p ≠ 0 ∧ (s.pcb p).state = .blocked ∧ 0 < (s.pcb p).wakeTime ∧ (s.pcb p).wakeTime ≤ s.ticks then
    s.setPcb p { s.pcb p with state := .ready, wakeTime := 0 }
  else s

def processCheckSleeping (s : Processes) : Processes := (List.range MAX_PROCESSES).foldl wakeSlot s

def MessageQueue.put (queue : MessageQueue) (sender : Nat) (bytes : Buffer) (length : Nat) : MessageQueue :=
  { queue with
    messages := Function.update queue.messages queue.tail
      ⟨sender, copy (queue.messages queue.tail).data 0 bytes length, length⟩
    tail := (queue.tail + 1) % 2 ^ 32 % MESSAGE_QUEUE_SIZE
    count := queue.count + 1 }

/-- The message at the head of a queue taken out. -/
def MessageQueue.take (queue : MessageQueue) : MessageQueue :=
  { queue with
    head := (queue.head + 1) % 2 ^ 32 % MESSAGE_QUEUE_SIZE
    count := queue.count - 1 }

/-- A process that waits for a message, and not for a time, becomes ready. -/
def wakeReceiver (s : Processes) (p : Nat) : Processes :=
  if (s.pcb p).state = .blocked ∧ (s.pcb p).wakeTime = 0 then s.setState p .ready else s

/-- `process_send_message`; `none` is a `NULL` message. -/
def processSendMessage (s : Processes) (target : Nat) (message : Option Buffer) (length : Nat) :
    Processes × Int :=
  match message with
  | none => (s, -1)
  | some bytes =>
    if length = 0 ∨ MAX_MESSAGE_SIZE < length then (s, -1)
    else
      let p := s.processGet target
      if p = 0 ∨ (s.pcb p).msgQueue = 0 then (s, -2)
      else
        let q := (s.pcb p).msgQueue
        if MESSAGE_QUEUE_SIZE ≤ (s.queue q).count then (s, -3)
        else
          let sender := if s.current ≠ 0 then (s.pcb s.current).pid else 0
          (wakeReceiver (s.setQueue q ((s.queue q).put sender bytes length)) p, 0)

/-- `process_receive_message`; `buffer` says that the buffer is not `NULL`. The result is
the return code, the bytes copied and the sender. -/
def processReceiveMessage (s : Processes) (buffer : Bool) (maxLength : Nat) :
    Processes × Int × List Byte × Nat :=
  if s.current = 0 ∨ (s.pcb s.current).msgQueue = 0 then (s, -1, [], 0)
  else if buffer = false ∨ maxLength = 0 then (s, -2, [], 0)
  else
    let q := (s.pcb s.current).msgQueue
    let queue := s.queue q
    if queue.count = 0 then (s, -3, [], 0)
    else
      let msg := queue.messages queue.head
      let length := if msg.length < maxLength then msg.length else maxLength
      (s.setQueue q queue.take, length, (List.range length).map msg.data, msg.sender)

end Wittche.Process
