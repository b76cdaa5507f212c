import Mathlib.Tactic.IntervalCases
import Wittche.Process.Messages
import Wittche.Shell.CommandLine
import Wittche.Shell.GetLine
import Wittche.Strings.Building

/-! `ipctest`: `cmd_ipctest` of `kernel/shell.c` creates a producer and a consumer, which are
`ipc_producer` and `ipc_consumer` of `kernel/kernel.c`. Each of the three executes one kernel call
after the other while it is the current process, and the rest of the system does what it likes in
between. The producer writes to the pid behind its own. What is printed besides the messages is
left out. -/

namespace Wittche.Process
open Bytes CString Heap Segments Execution Numerals

def processHasMessages (s : Processes) : Nat :=
  if s.current = 0 ∨ (s.pcb s.current).msgQueue = 0 then 0 else (s.queue (s.pcb s.current).msgQueue).count

def messageNumber : CStr := Shell.literal "Message #" (by decide)
def fromProducer : CStr := Shell.literal " from Producer" (by decide)
def producerName : CStr := Shell.literal "IPC_Producer" (by decide)
def consumerName : CStr := Shell.literal "IPC_Consumer" (by decide)

/-- The array `message` of `ipc_producer`; `num` is its array `num_str`. -/
def messageText (m num : Buffer) (i : Word) : Option Buffer :=
  match itoa num i 0 10 32 with
  | none => none
  | some num =>
    match strcat (strcpy m 0 messageNumber) 0 64 (Shell.stringAt num 0 12) with
    | none => none
    | some m => strcat m 0 64 fromProducer

/-- Where `cmd_ipctest` is. -/
inductive Spawning
  | producer
  | consumer (producerPid : Nat)
  | finished (producerPid consumerPid : Nat)
  | failed

/-- Where `ipc_producer` is; `i` is the counter of its loop. -/
inductive Producing
  | waiting
  | sending (i : Nat)
  | pausing (i : Nat)
  | finished

/-- Where `ipc_consumer` is. -/
inductive Consuming
  | checking
  | receiving
  | yielding
  | pausing
  | finished

structure Exchange where
  /-- The processes, with the mail of the process that the producer writes to. -/
  history : History
  shell : Spawning
  producer : Producing
  consumer : Consuming
  /-- The array `buffer` of `ipc_consumer`. -/
  buffer : Buffer
  receivedCount : Nat
  /-- What the consumer has printed: the sender and the text. -/
  printed : List (Nat × List Byte)
  /-- The error codes that the producer has printed. -/
  errors : List Int

inductive Move
  | shell (entry : Nat)
  | producer (message numStr : Buffer)
  | consumer
  | other (op : ProcessOp)

namespace Exchange

def processes (x : Exchange) : Processes := x.history.processes

def pid (x : Exchange) : Nat := (x.processes.pcb x.processes.current).pid

def call (target : Nat) (x : Exchange) (op : ProcessOp) : Exchange := { x with history := x.history.step target op }

/-- `cmd_ipctest`, up to and including its next call. -/
def spawn (target : Nat) (x : Exchange) (entry : Nat) : Exchange :=
  match x.shell with
  | .producer =>
    let made := (processCreateWithPriority x.processes producerName entry 4096 10).2
    { x.call target (.processCreateWithPriority producerName entry 4096 10) with
      shell := if made = 0 then .failed else .consumer made }
  | .consumer producerPid =>
    let made := (processCreateWithPriority x.processes consumerName entry 4096 10).2
    { x.call target (.processCreateWithPriority consumerName entry 4096 10) with
      shell := if made = 0 then .failed else .finished producerPid made }
  | _ => x

/-- `ipc_producer`, up to and including its next call. -/
def produce (target : Nat) (x : Exchange) (message numStr : Buffer) : Exchange :=
  match x.producer with
  | .waiting => { x.call target (.processSleep 500) with producer := .sending 0 }
  | .sending i =>
    if i < 5 then
      match messageText message numStr (BitVec.ofNat 32 i) with
      | none => x
      | some message =>
        match strlen message 64 0 with
        | none => x
        | some length =>
          let consumerPid := (x.pid + 1) % 2 ^ 32
          let result := (processSendMessage x.processes consumerPid (some message) (length + 1)).2
          { x.call target (.processSendMessage consumerPid (some message) (length + 1)) with
            producer := .pausing i
            errors := if result < 0 then x.errors ++ [result] else x.errors }
    else { x.call target .processExit with producer := .finished }
  | .pausing i => { x.call target (.processSleep 1000) with producer := .sending (i + 1) }
  | .finished => x

/-- `ipc_consumer`, up to and including its next call. -/
def consume (target : Nat) (x : Exchange) : Exchange :=
  match x.consumer with
  | .checking =>
    if x.receivedCount < 5 then
      { x with consumer := if 0 < processHasMessages x.processes then .receiving else .yielding }
    else { x.call target .processExit with consumer := .finished }
  | .receiving =>
    let result := (processReceiveMessage x.processes true 256).2
    let buffer := put x.buffer 0 result.2.1
    let y := { x.call target (.processReceiveMessage true 256) with consumer := .pausing, buffer := buffer }
    if 0 < result.1 then
      { y with
        printed := x.printed ++ [(result.2.2, (Shell.stringAt buffer 0 256).chars)]
        receivedCount := x.receivedCount + 1 }
    else y
  | .yielding => { x.call target .processYield with consumer := .pausing }
  | .pausing => { x.call target (.processSleep 100) with consumer := .checking }
  | .finished => x

def step (target : Nat) (x : Exchange) : Move → Exchange
  | .shell entry => x.spawn target entry
  | .producer message numStr => x.produce target message numStr
  | .consumer => x.consume target
  | .other op => x.call target op

/-- The producer has the pid before `target`. The rest of the system does not write to the
consumer, receive in its place or kill it, and creates no process before the command is done. -/
def allowed (target : Nat) (x : Exchange) : Move → Prop
  | .shell _ => x.pid = 0
  | .producer .. => x.pid + 1 = target
  | .consumer => x.pid = target
  | .other op => x.history.allowed target op ∧ (∀ message length, op ≠ .processSendMessage target message length) ∧
      (∀ buffer maxLength, op = .processReceiveMessage buffer maxLength → x.pid ≠ target) ∧
      (op.creations ≠ 0 → ∃ p c, x.shell = .finished p c)

def start (s : Processes) (buffer : Buffer) : Exchange := ⟨⟨s, [], []⟩, .producer, .waiting, .checking, buffer, 0, [], []⟩

end Exchange

def Move.creations : Move → Nat
  | .shell _ => 1
  | .other op => op.creations
  | _ => 0

def spawned (moves : List Move) : Nat := (moves.map Move.creations).sum

def numbered (i : Nat) : List Byte := messageNumber.chars ++ [letter i] ++ fromProducer.chars

section Text

theorem row_digit {i : Nat} (small : i < 10) : row 10 i = [i] := by
  rw [row]
  split
  next zero => rw [zero]
  next nonzero => rw [Nat.digits_of_lt 10 i nonzero small, List.reverse_singleton]

theorem numbered_noNul {i : Nat} (small : i < 10) : 0 ∉ numbered i := by
  have digit : letter i ≠ 0 := letter_ne_zero i (by omega)
  simp only [numbered, List.mem_append, List.mem_singleton, not_or]
  exact ⟨⟨messageNumber.noNul, digit.symm⟩, fromProducer.noNul⟩

theorem numbered_length (i : Nat) : (numbered i).length = 24 := by
  rw [numbered, List.length_append, List.length_append]
  rfl

theorem messageText_reads (m num : Buffer) {i : Nat} (small : i < 10) :
    ∃ m', messageText m num (BitVec.ofNat 32 i) = some m' ∧ Reads m' 0 (numbered i) := by
  have value : (BitVec.ofNat 32 i).toInt = i := by
    rw [BitVec.toInt_eq_toNat_cond, BitVec.toNat_ofNat, Nat.mod_eq_of_lt (by omega), if_pos (by omega)]
  have plain : ¬((BitVec.ofNat 32 i).toInt < 0 ∧ (10 : Word) = 10) := fun both => by omega
  obtain ⟨num', eq, digits⟩ := itoa_row num 0 (show 2 ≤ 10 by decide) (by decide)
    (show (10 : Word).toInt = (10 : Nat) from rfl) (by rw [if_neg plain]; exact value) (Nat.le_refl 32)
  rw [if_neg plain, List.nil_append, row_digit small] at digits
  have digit : letter i ≠ 0 := letter_ne_zero i (by omega)
  have text : (Shell.stringAt num' 0 12).chars = [letter i] :=
    digits.takeWhile_eq (fun mem => digit (List.mem_singleton.mp mem).symm) (show 1 < 12 by decide)
  obtain ⟨m1, eq1, reads1, -⟩ := strcat_reads (strcpy_reads m 0 messageNumber).1 messageNumber.noNul
    (show messageNumber.chars.length < 64 by decide) (Shell.stringAt num' 0 12)
  rw [text] at reads1
  have noNul : 0 ∉ messageNumber.chars ++ [letter i] := by
    rw [List.mem_append, List.mem_singleton]
    exact not_or.mpr ⟨messageNumber.noNul, digit.symm⟩
  have short : (messageNumber.chars ++ [letter i]).length < 64 := by
    rw [List.length_append]
    exact show 10 < 64 by decide
  obtain ⟨m2, eq2, reads2, -⟩ := strcat_reads reads1 noNul short fromProducer
  exact ⟨m2, by rw [messageText, eq]; dsimp only; rw [eq1]; exact eq2, reads2⟩

theorem reads_range {m : Buffer} {l : List Byte} (h : Reads m 0 l) : (List.range (l.length + 1)).map m = l ++ [0] := by
  apply List.ext_getElem
  · simp
  · intro k below below'
    rw [List.length_map, List.length_range] at below
    have here := h k (by omega)
    rw [Nat.zero_add] at here
    rw [List.getElem_map, List.getElem_range, here]
    rcases Nat.lt_or_ge k l.length with inside | last
    · rw [List.getElem_append_left inside]
      exact (List.getElem_eq_getD 0).symm
    · obtain rfl : k = l.length := by omega
      rw [List.getD_eq_default _ _ last, List.getElem_append_right last]
      simp

theorem received_text (buffer : Buffer) {l : List Byte} (noNul : 0 ∉ l) (short : l.length < 256) :
    (Shell.stringAt (put buffer 0 (l ++ [0])) 0 256).chars = l := by
  have reads : Reads (put buffer 0 (l ++ [0])) 0 l := by
    rw [← put_append, ← update_eq_put]
    exact put_reads buffer 0 l
  exact reads.takeWhile_eq noNul short

end Text

section Mail

variable {h : History} {pid i : Nat} {s : Processes} {op : ProcessOp}

/-- Nobody has the pid, so that there is no mail. -/
def NoMail (pid : Nat) (h : History) : Prop :=
  (∀ i, Used h.processes i → (inSlot h.processes i).pid ≠ pid) → h.sent = [] ∧ h.received = []

theorem Mailed.fifo (m : Mailed pid h) (used : Used h.processes i) (mine : (inSlot h.processes i).pid = pid) :
    ∃ i, i ≠ 0 ∧ Fifo h pid i := by
  obtain ⟨inv, ⟨fresh, -⟩ | there | ⟨-, gone⟩⟩ := m
  · have below := inv.slots.pidLt i used
    omega
  · exact there
  · exact absurd mine (gone i used)

theorem NoMail.step (n : NoMail pid h) (m : Mailed pid h) (few : h.processes.nextPid + op.creations < 2 ^ 32)
    (ok : h.allowed pid op) : NoMail pid (h.step pid op) := by
  intro absent
  by_cases there : ∃ i, Used h.processes i ∧ (inSlot h.processes i).pid = pid
  · obtain ⟨i, used, mine⟩ := there
    obtain ⟨j, zero, f⟩ := m.fifo used mine
    have f' := f.step m.1 zero few ok
    exact absurd f'.pid (absent j f'.used)
  · have none : ∀ i, Used h.processes i → (inSlot h.processes i).pid ≠ pid := fun i used mine => there ⟨i, used, mine⟩
    obtain ⟨noSent, noReceived⟩ := sentBy_of_absent op m.1 none
    obtain ⟨sent, received⟩ := n none
    exact ⟨by rw [History.step, sent, noSent]; rfl, by rw [History.step, received, noReceived]; rfl⟩

theorem send_absent (none : ∀ i, Used s i → (inSlot s i).pid ≠ pid) (bytes : Buffer) {length : Nat} (some : length ≠ 0)
    (small : length ≤ MAX_MESSAGE_SIZE) : processSendMessage s pid (Option.some bytes) length = (s, -2) := by
  have lost : s.processGet pid = 0 := by
    by_contra found
    obtain ⟨j, used, mine, -⟩ := processGet_slot found
    exact none j used mine
  have valid : ¬(length = 0 ∨ MAX_MESSAGE_SIZE < length) := not_or.mpr ⟨some, Nat.not_lt.mpr small⟩
  simp only [processSendMessage]
  rw [if_neg valid, if_pos (Or.inl lost)]

theorem Fifo.send_accepted (f : Fifo h pid i) (inv : Inv h.processes) (zero : i ≠ 0)
    (room : h.sent.length < h.received.length + MESSAGE_QUEUE_SIZE) (bytes : Buffer) {length : Nat} (some : length ≠ 0)
    (small : length ≤ MAX_MESSAGE_SIZE) : (processSendMessage h.processes pid (Option.some bytes) length).2 = 0 := by
  have get : h.processes.processGet pid = h.processes.table i := by
    rw [← f.pid, inv.slots.processGet_pid f.used]
  have queue : (inSlot h.processes i).msgQueue ≠ 0 := by
    obtain ⟨l, blocks⟩ := inv.blocks
    have there := blocks.full i .queue f.used zero
    rwa [block, if_neg zero] at there
  have count := (f.mailLaw inv zero).count
  rw [processSendMessage_put bytes some small (by rw [get]; exact f.used.2) (by rw [get]; exact queue)]
  rw [get]
  exact show (mailbox h.processes i).count < MESSAGE_QUEUE_SIZE by omega

end Mail

def Producing.attempts : Producing → Nat
  | .waiting => 0
  | .sending i => i
  | .pausing i => i + 1
  | .finished => 5

def message (first i : Nat) : Sent := ⟨first, numbered i ++ [0]⟩

/-- What the parties have written down. The first messages may be lost, as there is no consumer
yet; the others are under way or printed, in their order. -/
structure Tally (first : Nat) (x : Exchange) : Prop where
  errors : ∀ code ∈ x.errors, code = -2
  attempted : x.errors.length + x.history.sent.length = x.producer.attempts
  most : x.producer.attempts ≤ 5
  sent : x.history.sent = (List.range x.history.sent.length).map fun k => message first (x.errors.length + k)
  count : x.receivedCount = x.history.received.length
  fewer : x.history.received.length ≤ x.history.sent.length
  printed : x.printed = (List.range x.receivedCount).map fun k => (first, numbered (x.errors.length + k))
  finished : x.consumer = .finished → 5 ≤ x.receivedCount

def Spawning.Follows (first nextPid : Nat) : Spawning → Prop
  | .producer => nextPid = first
  | .consumer p => p = first ∧ nextPid = first + 1
  | .finished p c => p = first ∧ c = first + 1
  | .failed => True

/-- The state of a run that has taken pids up to `n`. -/
structure Exchanged (first n : Nat) (x : Exchange) : Prop where
  mailed : Mailed (first + 1) x.history
  noMail : NoMail (first + 1) x.history
  tally : Tally first x
  shell : x.shell.Follows first x.processes.nextPid
  pids : x.processes.nextPid ≤ n

section Steps

variable {first n : Nat} {x : Exchange} {op : ProcessOp}

theorem call_eq {sent : List Sent} {received : List Received} (sends : sentBy (first + 1) x.processes op = sent)
    (receives : receivedBy (first + 1) x.processes op = received) : x.call (first + 1) op =
      { x with history := ⟨x.processes.step op, x.history.sent ++ sent, x.history.received ++ received⟩ } := by
  rw [← sends, ← receives]
  rfl

theorem Spawning.Follows.later {shell : Spawning} {n m : Nat} (f : shell.Follows first n)
    (same : n = m ∨ ∃ p c, shell = .finished p c) : shell.Follows first m := by
  rcases same with rfl | ⟨p, c, rfl⟩
  · exact f
  · exact f

theorem Exchanged.nextPid (e : Exchanged first n x) (few : x.processes.nextPid + op.creations < 2 ^ 32)
    (ok : x.history.allowed (first + 1) op) (none : op.creations = 0) :
    (x.processes.step op).nextPid = x.processes.nextPid := by
  have moved : Moved op.kills op.creations x.processes (x.processes.step op) :=
    step_moved e.mailed.1 few (ok.processes e.mailed.1)
  exact Nat.le_antisymm (by have most := moved.pids; omega) moved.later.pids

theorem Exchanged.quiet (e : Exchanged first n x) (op : ProcessOp) (few : n + op.creations < 2 ^ 32)
    (ok : x.history.allowed (first + 1) op)
    (silent : sentBy (first + 1) x.processes op = [] ∧ receivedBy (first + 1) x.processes op = [])
    {shell : Spawning} {producer : Producing} {consumer : Consuming}
    (spawned : shell.Follows first (x.processes.step op).nextPid) (attempts : producer.attempts = x.producer.attempts)
    (finished : consumer = .finished → 5 ≤ x.receivedCount) :
    Exchanged first (n + op.creations)
      { x.call (first + 1) op with shell := shell, producer := producer, consumer := consumer } := by
  have few' : x.processes.nextPid + op.creations < 2 ^ 32 := Nat.lt_of_le_of_lt (Nat.add_le_add_right e.pids _) few
  have moved : Moved op.kills op.creations x.processes (x.processes.step op) :=
    step_moved e.mailed.1 few' (ok.processes e.mailed.1)
  have mailed := e.mailed.step few' ok
  have noMail := e.noMail.step e.mailed few' ok
  have t := e.tally
  have same := call_eq silent.1 silent.2
  rw [List.append_nil, List.append_nil] at same
  have history : x.history.step (first + 1) op = ⟨x.processes.step op, x.history.sent, x.history.received⟩ :=
    congrArg Exchange.history same
  rw [history] at mailed noMail
  rw [same]
  exact ⟨mailed, noMail, ⟨t.errors, attempts ▸ t.attempted, attempts ▸ t.most, t.sent, t.count, t.fewer, t.printed, finished⟩,
    spawned, Nat.le_trans moved.pids (Nat.add_le_add_right e.pids _)⟩

theorem Exchanged.withBuffer (e : Exchanged first n x) (buffer : Buffer) : Exchanged first n { x with buffer := buffer } :=
  ⟨e.mailed, e.noMail, ⟨e.tally.errors, e.tally.attempted, e.tally.most, e.tally.sent, e.tally.count, e.tally.fewer,
    e.tally.printed, e.tally.finished⟩, e.shell, e.pids⟩

theorem Exchanged.mono (e : Exchanged first n x) {m : Nat} (le : n ≤ m) : Exchanged first m x :=
  ⟨e.mailed, e.noMail, e.tally, e.shell, Nat.le_trans e.pids le⟩

theorem create_pid {s : Processes} (inv : Inv s) (few : s.nextPid + 1 < 2 ^ 32) {name : CStr} {entry priority : Nat}
    {stackSize : Word} (fits : StackFits stackSize) (made : (processCreateWithPriority s name entry stackSize priority).2 ≠ 0) :
    (processCreateWithPriority s name entry stackSize priority).2 = s.nextPid ∧
      (processCreateWithPriority s name entry stackSize priority).1.nextPid = s.nextPid + 1 := by
  obtain ⟨l, blocks⟩ := inv.blocks
  simp only [processCreateWithPriority] at made ⊢
  rcases processCreate_spec inv.slots blocks few name entry fits with
    ⟨t, l', created, -⟩ | ⟨t, l', i, p, base, q, created, born⟩
  · rw [created, if_neg (Nat.lt_irrefl 0)] at made
    exact absurd rfl made
  · rw [created]
    split
    next => exact ⟨rfl, (processSetPriority_calm t s.nextPid priority).nextPid.trans born.nextPid⟩
    next => exact ⟨rfl, born.nextPid⟩

theorem Exchanged.spawn (e : Exchanged first n x) (few : n + 1 < 2 ^ 32) (entry : Nat) :
    Exchanged first (n + 1) (x.spawn (first + 1) entry) := by
  have pids := e.pids
  have follows := e.shell
  have fits : StackFits 4096 := ⟨by decide, by decide⟩
  rw [Exchange.spawn]
  split
  next here =>
    rw [here] at follows
    refine e.quiet (.processCreateWithPriority producerName entry 4096 10) few fits ⟨rfl, rfl⟩ ?_ rfl e.tally.finished
    split
    next => trivial
    next made =>
      obtain ⟨pid, next⟩ := create_pid e.mailed.1 (show x.processes.nextPid + 1 < 2 ^ 32 by omega) fits made
      exact ⟨pid.trans follows, next.trans (congrArg (· + 1) follows)⟩
  next p here =>
    rw [here] at follows
    refine e.quiet (.processCreateWithPriority consumerName entry 4096 10) few fits ⟨rfl, rfl⟩ ?_ rfl e.tally.finished
    split
    next => trivial
    next made =>
      obtain ⟨pid, -⟩ := create_pid e.mailed.1 (show x.processes.nextPid + 1 < 2 ^ 32 by omega) fits made
      exact ⟨follows.1, pid.trans follows.2⟩
  next => exact e.mono (Nat.le_succ n)

theorem Exchanged.own (e : Exchanged first n x) (few : n < 2 ^ 32) (op : ProcessOp) (ok : x.history.allowed (first + 1) op)
    (none : op.creations = 0)
    (silent : sentBy (first + 1) x.processes op = [] ∧ receivedBy (first + 1) x.processes op = [])
    {producer : Producing} {consumer : Consuming} (attempts : producer.attempts = x.producer.attempts)
    (finished : consumer = .finished → 5 ≤ x.receivedCount) :
    Exchanged first n { x.call (first + 1) op with producer := producer, consumer := consumer } := by
  have pids := e.pids
  have spawned := e.shell.later (Or.inl (e.nextPid (by omega) ok none).symm)
  have quiet := e.quiet op (by rwa [none]) ok silent spawned attempts finished
  rwa [none] at quiet

theorem Exchanged.accepted (e : Exchanged first n x) (few : n < 2 ^ 32) (here : x.pid = first) {i : Nat}
    (sending : x.producer = .sending i) (more : i < 5) {bytes : Buffer} (text : Reads bytes 0 (numbered i))
    (accepted : (processSendMessage x.processes (first + 1) (some bytes) 25).2 = 0) :
    Exchanged first n { x.call (first + 1) (.processSendMessage (first + 1) (some bytes) 25) with producer := .pausing i } := by
  have ok : x.history.allowed (first + 1) (.processSendMessage (first + 1) (some bytes) 25) := Nat.succ_ne_zero first
  have few' : x.processes.nextPid + (ProcessOp.processSendMessage (first + 1) (some bytes) 25).creations < 2 ^ 32 :=
    Nat.lt_of_le_of_lt e.pids few
  have mailed := e.mailed.step few' ok
  have noMail := e.noMail.step e.mailed few' ok
  have stays := e.nextPid few' ok rfl
  have t := e.tally
  have attempted := t.attempted
  rw [sending, Producing.attempts] at attempted
  have sender : senderOf x.processes = first := by
    have inv : Inv x.processes := e.mailed.1
    obtain ⟨c, usedc, slot⟩ := inv.states.current
    rw [senderOf, if_pos (slot ▸ usedc.2)]
    exact here
  have range := reads_range text
  rw [numbered_length] at range
  have sends : sentBy (first + 1) x.processes (.processSendMessage (first + 1) (some bytes) 25) = [message first i] := by
    rw [sentBy, if_pos ⟨rfl, accepted⟩, sender, range, message]
  have receives : receivedBy (first + 1) x.processes (.processSendMessage (first + 1) (some bytes) 25) = [] := rfl
  have same := call_eq sends receives
  rw [List.append_nil] at same
  have history := congrArg Exchange.history same
  rw [show x.history.step (first + 1) _ = _ from history] at mailed noMail
  rw [same]
  have one : (x.history.sent ++ [message first i]).length = x.history.sent.length + 1 := List.length_append
  have all : x.history.sent ++ [message first i] =
      (List.range (x.history.sent ++ [message first i]).length).map fun k => message first (x.errors.length + k) := by
    rw [one, List.range_succ, List.map_append, ← t.sent, List.map_singleton, attempted]
  exact ⟨mailed, noMail, ⟨t.errors, by rw [one, ← Nat.add_assoc, attempted]; rfl, more, all, t.count,
    Nat.le_trans t.fewer (one ▸ Nat.le_succ _), t.printed, t.finished⟩, e.shell.later (Or.inl stays.symm),
    stays.le.trans e.pids⟩

theorem Exchanged.lost (e : Exchanged first n x) (few : n < 2 ^ 32) {i : Nat} (sending : x.producer = .sending i)
    (more : i < 5) (bytes : Buffer) (none : ∀ j, Used x.processes j → (inSlot x.processes j).pid ≠ first + 1) :
    Exchanged first n { x.call (first + 1) (.processSendMessage (first + 1) (some bytes) 25) with
      producer := .pausing i, errors := x.errors ++ [-2] } := by
  have ok : x.history.allowed (first + 1) (.processSendMessage (first + 1) (some bytes) 25) := Nat.succ_ne_zero first
  have few' : x.processes.nextPid + (ProcessOp.processSendMessage (first + 1) (some bytes) 25).creations < 2 ^ 32 :=
    Nat.lt_of_le_of_lt e.pids few
  have mailed := e.mailed.step few' ok
  have noMail := e.noMail.step e.mailed few' ok
  have stays := e.nextPid few' ok rfl
  have t := e.tally
  obtain ⟨noSent, noReceived⟩ := e.noMail none
  obtain ⟨sends, receives⟩ := sentBy_of_absent (.processSendMessage (first + 1) (some bytes) 25) e.mailed.1 none
  have same := call_eq sends receives
  rw [List.append_nil, List.append_nil, noSent, noReceived] at same
  have history := congrArg Exchange.history same
  rw [show x.history.step (first + 1) _ = _ from history] at mailed noMail
  rw [same]
  have attempted := t.attempted
  rw [sending, noSent, List.length_nil] at attempted
  have count := t.count
  rw [noReceived, List.length_nil] at count
  have printed := t.printed
  rw [count] at printed
  have errors : ∀ code ∈ x.errors ++ [-2], code = -2 := fun code mem =>
    (List.mem_append.mp mem).elim (t.errors code) fun last => List.mem_singleton.mp last
  have one : (x.errors ++ [-2]).length = i + 1 := by
    rw [List.length_append, List.length_singleton]
    exact congrArg (· + 1) attempted
  have nothing : x.printed = (List.range x.receivedCount).map fun k => (first, numbered ((x.errors ++ [-2]).length + k)) := by
    rw [count]
    exact printed
  exact ⟨mailed, noMail, ⟨errors, one, more, rfl, count, Nat.le_refl 0, nothing, t.finished⟩,
    e.shell.later (Or.inl stays.symm), stays.le.trans e.pids⟩

/-- The producer sends message `i`, which is lost only as long as there is no consumer. -/
theorem Exchanged.send (e : Exchanged first n x) (few : n < 2 ^ 32) (here : x.pid = first) {i : Nat}
    (sending : x.producer = .sending i) (more : i < 5) {bytes : Buffer} (text : Reads bytes 0 (numbered i)) :
    let result := (processSendMessage x.processes (first + 1) (some bytes) 25).2
    Exchanged first n { x.call (first + 1) (.processSendMessage (first + 1) (some bytes) 25) with
      producer := .pausing i
      errors := if result < 0 then x.errors ++ [result] else x.errors } := by
  intro result
  by_cases there : ∃ j, Used x.processes j ∧ (inSlot x.processes j).pid = first + 1
  · obtain ⟨j, used, mine⟩ := there
    obtain ⟨k, zero, f⟩ := e.mailed.fifo used mine
    have room : x.history.sent.length < x.history.received.length + MESSAGE_QUEUE_SIZE := by
      have attempted := e.tally.attempted
      have most := e.tally.most
      rw [MESSAGE_QUEUE_SIZE]
      omega
    have accepted : result = 0 := f.send_accepted e.mailed.1 zero room bytes (by decide) (by decide)
    rw [if_neg (by rw [accepted]; decide)]
    exact e.accepted few here sending more text accepted
  · have none : ∀ j, Used x.processes j → (inSlot x.processes j).pid ≠ first + 1 := fun j used mine => there ⟨j, used, mine⟩
    have lost : result = -2 := congrArg Prod.snd (send_absent none bytes (by decide) (by decide))
    rw [if_pos (by rw [lost]; decide), lost]
    exact e.lost few sending more bytes none

/-- The consumer prints the next message. -/
theorem Exchanged.receive (e : Exchanged first n x) (few : n < 2 ^ 32) (here : x.pid = first + 1)
    (receiving : x.consumer = .receiving) : Exchanged first n (x.consume (first + 1)) := by
  have nonzero : (x.processes.pcb x.processes.current).pid ≠ 0 := fun zero => Nat.succ_ne_zero first (here.symm.trans zero)
  have ok : x.history.allowed (first + 1) (.processReceiveMessage true 256) := nonzero
  have few' : x.processes.nextPid + (ProcessOp.processReceiveMessage true 256).creations < 2 ^ 32 :=
    Nat.lt_of_le_of_lt e.pids few
  have sends : sentBy (first + 1) x.processes (.processReceiveMessage true 256) = [] := rfl
  rw [Exchange.consume, receiving]
  dsimp only
  rcases processReceiveMessage_cases x.processes true 256 with ⟨-, code⟩ | ⟨-, -, result⟩
  · rw [if_neg (Int.not_lt.mpr (Int.le_of_lt code))]
    have receives : receivedBy (first + 1) x.processes (.processReceiveMessage true 256) = [] :=
      if_neg fun both => absurd both.2 (Int.not_le.mpr code)
    have quiet : Exchanged first n { x.call (first + 1) (.processReceiveMessage true 256) with consumer := .pausing } :=
      e.own few _ ok rfl ⟨sends, receives⟩ rfl fun done => Consuming.noConfusion done
    exact quiet.withBuffer _
  · have mailed := e.mailed.step few' ok
    have noMail := e.noMail.step e.mailed few' ok
    have stays := e.nextPid few' ok rfl
    have shell := e.shell.later (Or.inl stays.symm)
    have pids := stays.le.trans e.pids
    have t := e.tally
    have inv : Inv x.processes := e.mailed.1
    obtain ⟨c, used, slot⟩ := inv.states.current
    have mine : (inSlot x.processes c).pid = first + 1 := by
      rw [inSlot, slot]
      exact here
    obtain ⟨j, zero, f⟩ := e.mailed.fifo used mine
    have f' := f.step inv zero few' ok
    have receives : receivedBy (first + 1) x.processes (.processReceiveMessage true 256) =
        [⟨256, (min (headMessage x.processes).length 256 : Nat), (headMessage x.processes).sender,
          (content (headMessage x.processes)).bytes.take 256⟩] := by
      rw [receivedBy]
      simp only [result]
      exact if_pos ⟨here, Int.natCast_nonneg _⟩
    have same := call_eq sends receives
    rw [List.append_nil] at same
    have history := congrArg Exchange.history same
    rw [show x.history.step (first + 1) _ = _ from history] at mailed noMail f'
    obtain ⟨m, place, sender, bytes, code⟩ := f'.delivered x.history.received.length _ List.getElem?_concat_length
    have below : x.history.received.length < x.history.sent.length := (List.getElem?_eq_some_iff.mp place).1
    have is : some m = some (message first (x.errors.length + x.history.received.length)) := by
      rw [← place]
      dsimp only
      rw [t.sent, List.getElem?_map, List.getElem?_range below]
      rfl
    obtain rfl := Option.some.inj is
    have number : x.errors.length + x.history.received.length < 10 := by
      have attempted := t.attempted
      have most := t.most
      omega
    have length : (message first (x.errors.length + x.history.received.length)).bytes.length = 25 := by
      rw [message, List.length_append, numbered_length]
      rfl
    rw [length] at code
    dsimp only at sender bytes code
    rw [List.take_of_length_le (l := (message first _).bytes) (by rw [length]; decide)] at bytes
    rw [result]
    dsimp only
    rw [if_pos (by rw [code]; decide), bytes, sender, message, received_text x.buffer (numbered_noNul number)
      (by rw [numbered_length]; decide), same]
    have one : ∀ y : Received, (x.history.received ++ [y]).length = x.history.received.length + 1 := fun y => List.length_append
    have printed : x.printed ++ [(first, numbered (x.errors.length + x.history.received.length))] =
        (List.range (x.receivedCount + 1)).map fun k => (first, numbered (x.errors.length + k)) := by
      rw [List.range_succ, List.map_append, ← t.printed, List.map_singleton, t.count]
    exact ⟨mailed, noMail, ⟨t.errors, t.attempted, t.most, t.sent, by rw [one, t.count], by rw [one]; exact below, printed,
      fun done => Consuming.noConfusion done⟩, shell, pids⟩

theorem Exchanged.produce (e : Exchanged first n x) (few : n < 2 ^ 32) (inside : first + 1 < 2 ^ 32)
    (here : x.pid = first) (message numStr : Buffer) : Exchanged first n (x.produce (first + 1) message numStr) := by
  rw [Exchange.produce]
  split
  next waiting => exact e.own few (.processSleep 500) trivial rfl ⟨rfl, rfl⟩ (by rw [waiting]; rfl) e.tally.finished
  next i sending =>
    split
    next more =>
      obtain ⟨bytes, text, reads⟩ := messageText_reads message numStr (show i < 10 by omega)
      have length : strlen bytes 64 0 = some 24 := by
        rw [strlen_eq reads (numbered_noNul (by omega)) (by rw [numbered_length]; decide), numbered_length]
      rw [text]
      dsimp only
      rw [length]
      dsimp only
      rw [here, Nat.mod_eq_of_lt inside]
      exact e.send few here sending more reads
    next all =>
      have most := e.tally.most
      rw [sending, Producing.attempts] at most
      exact e.own few .processExit trivial rfl ⟨rfl, rfl⟩
        (by rw [sending]; exact (Nat.le_antisymm most (Nat.le_of_not_lt all)).symm) e.tally.finished
  next i pausing => exact e.own few (.processSleep 1000) trivial rfl ⟨rfl, rfl⟩ (by rw [pausing]; rfl) e.tally.finished
  next => exact e

theorem Exchanged.consume (e : Exchanged first n x) (few : n < 2 ^ 32) (here : x.pid = first + 1) :
    Exchanged first n (x.consume (first + 1)) := by
  cases place : x.consumer with
  | receiving => exact e.receive few here place
  | checking =>
    rw [Exchange.consume, place]
    dsimp only
    split
    next more =>
      have going : (if 0 < processHasMessages x.processes then Consuming.receiving else .yielding) ≠ .finished := by
        split <;> exact fun done => Consuming.noConfusion done
      exact ⟨e.mailed, e.noMail, ⟨e.tally.errors, e.tally.attempted, e.tally.most, e.tally.sent, e.tally.count,
        e.tally.fewer, e.tally.printed, fun done => absurd done going⟩, e.shell, e.pids⟩
    next all => exact e.own few .processExit trivial rfl ⟨rfl, rfl⟩ rfl fun _ => Nat.le_of_not_lt all
  | yielding =>
    rw [Exchange.consume, place]
    exact e.own few .processYield trivial rfl ⟨rfl, rfl⟩ rfl fun done => Consuming.noConfusion done
  | pausing =>
    rw [Exchange.consume, place]
    exact e.own few (.processSleep 100) trivial rfl ⟨rfl, rfl⟩ rfl fun done => Consuming.noConfusion done
  | finished =>
    rw [Exchange.consume, place]
    exact e

theorem sentBy_other {s : Processes} {pid : Nat} (send : ∀ message length, op ≠ .processSendMessage pid message length)
    (receive : ∀ buffer maxLength, op = .processReceiveMessage buffer maxLength → (s.pcb s.current).pid ≠ pid) :
    sentBy pid s op = [] ∧ receivedBy pid s op = [] := by
  constructor
  · cases op with
    | processSendMessage target message length =>
      cases message with
      | none => rfl
      | some bytes =>
        refine if_neg fun both => ?_
        obtain ⟨rfl, -⟩ := both
        exact send (some bytes) length rfl
    | _ => rfl
  · cases op with
    | processReceiveMessage buffer maxLength =>
      have other := receive buffer maxLength rfl
      simp only [receivedBy]
      exact if_neg fun both => other both.1
    | _ => rfl

theorem Exchanged.step (e : Exchanged first n x) {move : Move} (few : n + move.creations < 2 ^ 32)
    (inside : first + 1 < 2 ^ 32) (ok : x.allowed (first + 1) move) :
    Exchanged first (n + move.creations) (x.step (first + 1) move) := by
  cases move with
  | shell entry => exact e.spawn few entry
  | producer message numStr => exact e.produce few inside (Nat.succ.inj ok) message numStr
  | consumer => exact e.consume few ok
  | other op =>
    obtain ⟨ok, send, receive, creates⟩ := ok
    have spawned : x.shell.Follows first (x.processes.step op).nextPid := by
      refine e.shell.later ?_
      by_cases none : op.creations = 0
      · have pids := e.pids
        have few' : n + op.creations < 2 ^ 32 := few
        exact Or.inl (e.nextPid (by omega) ok none).symm
      · exact Or.inr (creates none)
    exact e.quiet op few ok (sentBy_other send receive) spawned rfl e.tally.finished

theorem run_exchanged {y : Exchange} {moves : List Move}
    (run : Exec (Exchange.allowed (first + 1)) (Exchange.step (first + 1)) x moves y) (e : Exchanged first n x)
    (few : n + spawned moves < 2 ^ 32) (inside : first + 1 < 2 ^ 32) : Exchanged first (n + spawned moves) y := by
  induction run generalizing n with
  | nil x => exact e
  | @cons x move moves y ok _ ih =>
    have total : spawned (move :: moves) = move.creations + spawned moves := List.sum_cons
    rw [total, ← Nat.add_assoc] at few ⊢
    exact ih (e.step (Nat.lt_of_le_of_lt (Nat.le_add_right ..) few) inside ok) few

theorem exchanged_start {s : Processes} (inv : Inv s) (buffer : Buffer) :
    Exchanged s.nextPid s.nextPid (Exchange.start s buffer) :=
  ⟨⟨inv, Or.inl ⟨Nat.le_succ _, rfl, rfl⟩⟩, fun _ => ⟨rfl, rfl⟩,
    ⟨nofun, rfl, Nat.zero_le _, rfl, rfl, Nat.le_refl _, rfl, nofun⟩, rfl, Nat.le_refl _⟩

end Steps

/-- Whatever the order of the calls, the consumer prints the messages of the producer in their
order, from the first one on that was sent when there was a consumer; if it comes to its end, it
has printed all five, and none was refused. -/
theorem ipctest_delivers (s0 s : Processes) (entry : Nat) (ops : List ProcessOp) (buffer : Buffer) (moves : List Move)
    (x : Exchange) (boot : Boot s0) (few : creations ops + spawned moves < 2 ^ 32 - 2)
    (run : Exec Processes.allowed Processes.step (processInit s0 entry) ops s)
    (run' : Exec (Exchange.allowed (s.nextPid + 1)) (Exchange.step (s.nextPid + 1)) (Exchange.start s buffer) moves x) :
    (∀ p c, x.shell = .finished p c → p = s.nextPid ∧ c = s.nextPid + 1) ∧ Tally s.nextPid x ∧
      (x.consumer = .finished → x.errors = [] ∧ x.printed = (List.range 5).map fun i => (s.nextPid, numbered i)) := by
  obtain ⟨l, p, base, started⟩ := processInit_started boot entry
  have before := run_moved run started.inv (by rw [started.nextPid]; omega)
  have pids := before.pids
  rw [started.nextPid] at pids
  have e := run_exchanged run' (exchanged_start before.inv buffer) (by omega) (by omega)
  have t := e.tally
  refine ⟨fun p c done => ?_, t, fun done => ?_⟩
  · have follows := e.shell
    rwa [done] at follows
  · have five := t.finished done
    have attempted := t.attempted
    have most := t.most
    have fewer := t.fewer
    rw [← t.count] at fewer
    have none : x.errors = [] := List.length_eq_zero_iff.mp (by omega)
    have printed := t.printed
    rw [none, List.length_nil, show x.receivedCount = 5 by omega] at printed
    simp only [Nat.zero_add] at printed
    exact ⟨none, printed⟩

/-- The consumer finds no message and sleeps, both processes are woken early, and the first message
is printed. -/
def firstMoves : List Move := [.shell 0x2000, .shell 0x3000, .other .processSchedule, .consumer, .consumer,
  .producer (fun _ => 0) (fun _ => 0), .other (.processWake 1), .consumer, .producer (fun _ => 0) (fun _ => 0),
  .other (.processWake 2), .producer (fun _ => 0) (fun _ => 0), .consumer, .consumer]

def afterMoves (k : Nat) : Exchange :=
  (firstMoves.take k).foldl (Exchange.step 2) (Exchange.start (processInit powerOn 0x1000) fun _ => 0)

def movers : List Nat := [0, 0, 0, 2, 2, 1, 2, 2, 1, 1, 1, 2, 2]

theorem afterMoves_pids : (List.range 13).map (fun k => (afterMoves k).pid) = movers := by decide +kernel

theorem firstMoves_run : Exec (Exchange.allowed 2) (Exchange.step 2)
    (Exchange.start (processInit powerOn 0x1000) fun _ => 0) firstMoves (afterMoves 13) := by
  have pid : ∀ k < 13, (afterMoves k).pid = movers.getD k 0 := by
    intro k lt
    rw [← afterMoves_pids, List.getD_eq_getElem?_getD, List.getElem?_map, List.getElem?_range lt]
    rfl
  refine exec_of_prefixes fun k lt => ?_
  have here := pid k lt
  have below : k < 13 := lt
  change (afterMoves k).allowed 2 _
  interval_cases k
  · exact here
  · exact here
  · exact ⟨trivial, nofun, nofun, fun creates => absurd rfl creates⟩
  · exact here
  · exact here
  · exact congrArg (· + 1) here
  · exact ⟨trivial, nofun, nofun, fun creates => absurd rfl creates⟩
  · exact here
  · exact congrArg (· + 1) here
  · exact ⟨trivial, nofun, nofun, fun creates => absurd rfl creates⟩
  · exact congrArg (· + 1) here
  · exact here
  · exact here

theorem ipctest_delivers_first :
    (afterMoves 13).printed = [(1, numbered 0)] ∧ Tally 1 (afterMoves 13) ∧
      ((afterMoves 13).consumer = .finished →
        (afterMoves 13).errors = [] ∧ (afterMoves 13).printed = (List.range 5).map fun i => (1, numbered i)) := by
  have number : (processInit powerOn 0x1000).nextPid = 1 := by decide +kernel
  have run := firstMoves_run
  have law := ipctest_delivers powerOn (processInit powerOn 0x1000) 0x1000 [] (fun _ => 0) firstMoves (afterMoves 13)
    powerOn_boot (by decide) (.nil _) (by rw [number]; exact run)
  rw [number] at law
  exact ⟨by decide +kernel, law.2⟩

end Wittche.Process
