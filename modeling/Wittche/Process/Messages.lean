import Wittche.Lib.RingBuffer
import Wittche.Process.Runs

/-! Message queues over whole runs. A queue of eight slots is a ring; what a process receives
is what was sent to it, in order, each message cut to the length that the receiver asks for. -/

namespace Wittche.Process
open Bytes CString Heap Segments Execution RingBuffer

structure Sent where
  sender : Nat
  bytes : List Byte

/-- What `process_receive_message` delivered, and the length it was asked for. -/
structure Received where
  maxLength : Nat
  code : Int
  sender : Nat
  bytes : List Byte

def content (m : Message) : Sent := ⟨m.sender, (List.range m.length).map m.data⟩

/-- The queue holds the messages `l`, the oldest first. -/
def Outstanding (queue : MessageQueue) (l : List Sent) : Prop :=
  Holds MESSAGE_QUEUE_SIZE (fun i => content (queue.messages i)) queue.head queue.tail queue.count l

theorem Outstanding.put {queue : MessageQueue} {l : List Sent} (h : Outstanding queue l)
    (room : queue.count < MESSAGE_QUEUE_SIZE) (sender : Nat) (bytes : Buffer) (length : Nat) :
    Outstanding (queue.put sender bytes length) (l ++ [⟨sender, (List.range length).map bytes⟩]) := by
  have pushed := h.push room ⟨sender, (List.range length).map bytes⟩
  have below : queue.tail < MESSAGE_QUEUE_SIZE := by
    rw [h.next]
    exact Nat.mod_lt _ (by decide)
  have fits : (queue.tail + 1) % 2 ^ 32 = queue.tail + 1 :=
    Nat.mod_eq_of_lt (by simp only [MESSAGE_QUEUE_SIZE] at below; omega)
  have copied : content ⟨sender, copy (queue.messages queue.tail).data 0 bytes length, length⟩ =
      ⟨sender, (List.range length).map bytes⟩ := by
    refine congrArg (Sent.mk sender) (List.map_congr_left fun i hi => ?_)
    have inside : 0 ≤ i ∧ i < 0 + length := ⟨Nat.zero_le i, by rw [Nat.zero_add]; exact List.mem_range.mp hi⟩
    exact (copy_inside inside).trans (by rw [Nat.sub_zero])
  have slots : (fun i => content ((queue.put sender bytes length).messages i)) =
      Function.update (fun i => content (queue.messages i)) queue.tail
        ⟨sender, (List.range length).map bytes⟩ := by
    rw [← copied]
    exact Function.comp_update content queue.messages queue.tail _
  rw [← slots, ← fits] at pushed
  exact pushed

theorem Outstanding.take {queue : MessageQueue} {x : Sent} {l : List Sent} (h : Outstanding queue (x :: l)) :
    content (queue.messages queue.head) = x ∧ Outstanding queue.take l := by
  obtain ⟨first, rest⟩ := h.pop
  have fits : (queue.head + 1) % 2 ^ 32 = queue.head + 1 :=
    Nat.mod_eq_of_lt (by have below := h.first; simp only [MESSAGE_QUEUE_SIZE] at below; omega)
  rw [← fits] at rest
  exact ⟨first, rest⟩

def delivered (m : Message) (maxLength : Nat) : Int × List Byte × Nat :=
  let length := if m.length < maxLength then m.length else maxLength
  (length, (List.range length).map m.data, m.sender)

theorem delivered_eq (m : Message) (maxLength : Nat) : delivered m maxLength =
    (((min m.length maxLength : Nat) : Int), (content m).bytes.take maxLength, m.sender) := by
  have short : (if m.length < maxLength then m.length else maxLength) = min m.length maxLength := by
    split <;> omega
  simp only [delivered, short, content, ← List.map_take, List.take_range, Nat.min_comm]

theorem delivered_congr {m m' : Message} (same : content m = content m') (maxLength : Nat) :
    delivered m maxLength = delivered m' maxLength := by
  have length : m.length = m'.length := by
    simpa [content] using congrArg (fun x => x.bytes.length) same
  have sender : m.sender = m'.sender := congrArg Sent.sender same
  rw [delivered_eq, delivered_eq, length, same, sender]

section Only

variable {K : Nat → Prop} {s t u : Processes}

def Releases (h h' : KernelHeap) : Prop := ∃ freed : List Nat, h' = freed.foldl Heap.kfree h

theorem Releases.refl (h : KernelHeap) : Releases h h := ⟨[], rfl⟩

theorem Releases.trans {h h' h'' : KernelHeap} (first : Releases h h') (second : Releases h' h'') : Releases h h'' := by
  obtain ⟨freed, rfl⟩ := first
  obtain ⟨freed', rfl⟩ := second
  exact ⟨freed ++ freed', (List.foldl_append ..).symm⟩

/-- Of the processes only those in `K` change, no message queue does, and of the heap blocks
some may be freed. -/
structure Only (K : Nat → Prop) (s t : Processes) : Prop where
  pcbs : ∀ p, ¬K p → t.pcb p = s.pcb p
  queue : t.queue = s.queue
  heap : Releases s.heap t.heap

theorem Only.refl (s : Processes) : Only K s s := ⟨fun _ _ => rfl, rfl, .refl _⟩

theorem Only.trans (h : Only K s t) (h' : Only K t u) : Only K s u :=
  ⟨fun p away => (h'.pcbs p away).trans (h.pcbs p away), h'.queue.trans h.queue, h.heap.trans h'.heap⟩

theorem only_setPcb {p : Nat} (mine : K p) (x : Pcb) : Only K s (s.setPcb p x) := by
  refine ⟨fun q away => setPcb_other s ?_ x, rfl, .refl _⟩
  rintro rfl
  exact away mine

theorem only_park (current : K s.current) : Only K s (park s) := by
  rw [park]
  split
  next => exact only_setPcb current _
  next => exact .refl s

theorem cleanup_releases (s : Processes) (slot p : Nat) : Releases s.heap (cleanup s slot p).heap := by
  rw [cleanup_eq]
  by_cases queue : (s.pcb p).msgQueue ≠ 0
  · exact ⟨[(s.pcb p).stackBase, (s.pcb p).msgQueue, p], congrArg (fun heap => Heap.kfree heap p) (if_pos queue)⟩
  · exact ⟨[(s.pcb p).stackBase, p], congrArg (fun heap => Heap.kfree heap p) (if_neg queue)⟩

theorem only_goOn (s : Processes) (p : Nat) (rest : Rest) : Only K s (goOn s p rest) := by
  cases rest with
  | back => exact .refl s
  | cleanup slot =>
    have heap := cleanup_releases s slot p
    rw [goOn, cleanup_eq] at *
    exact ⟨fun _ _ => rfl, rfl, heap⟩

theorem only_schedule (rest : Rest) (current : K s.current) (next : K (nextProcess (park s))) :
    Only K s (scheduleThen s rest) := by
  rw [scheduleThen]
  split
  next => exact only_goOn s _ rest
  next =>
    have parked := only_park current
    have running := parked.trans (only_setPcb next { (park s).pcb (nextProcess (park s)) with state := .running })
    simp only []
    split
    next =>
      rw [processSwitch]
      refine Only.trans ?_ (only_goOn _ _ _)
      exact ⟨running.pcbs, running.queue, running.heap⟩
    next => exact (parked.trans (only_setPcb (by rw [park_current]; exact current) _)).trans (only_goOn _ _ rest)

-- what a call that stops the current process changes
variable (current : K s.current) (next : ∀ x, K (nextProcess (park (s.setPcb s.current x))))
include current next

theorem only_stop (x : Pcb) (rest : Rest) : Only K s (scheduleThen (s.setPcb s.current x) rest) :=
  (only_setPcb current x).trans (only_schedule rest current (next x))

theorem only_kill (pid : Nat) : Only K s (processKill s pid) := by
  rcases processKill_cases s pid with same | ⟨i, -, -, ⟨-, -, result⟩ | ⟨-, result⟩⟩
  · rw [same]
    exact .refl s
  · rw [result]
    exact only_stop current next _ _
  · rw [result]
    exact only_goOn s _ (.cleanup i)

theorem only_sleep (ms : Nat) : Only K s (processSleep s ms) := by
  rcases processSleep_cases s ms with same | ⟨-, sleeps⟩
  · rw [same]
    exact .refl s
  · rw [sleeps]
    exact only_stop current next _ .back

end Only

section Calls

variable {s : Processes}

def senderOf (s : Processes) : Nat := if s.current ≠ 0 then (s.pcb s.current).pid else 0

theorem wakeReceiver_queue (s : Processes) (p : Nat) : (wakeReceiver s p).queue = s.queue := by
  rcases wakeReceiver_cases s p with same | ⟨-, woken⟩
  · rw [same]
  · rw [woken]
    rfl

/-- A message is refused and nothing happens, or it goes to the queue of the target. -/
theorem processSendMessage_cases (s : Processes) (target : Nat) (message : Option Buffer) (length : Nat) :
    (processSendMessage s target message length).1 = s ∧ (processSendMessage s target message length).2 < 0 ∨
    ∃ bytes, message = some bytes ∧ 1 ≤ length ∧ length ≤ MAX_MESSAGE_SIZE ∧ s.processGet target ≠ 0 ∧
      (s.queue (s.pcb (s.processGet target)).msgQueue).count < MESSAGE_QUEUE_SIZE ∧
      (processSendMessage s target message length).2 = 0 ∧
      (processSendMessage s target message length).1.queue =
        Function.update s.queue (s.pcb (s.processGet target)).msgQueue
          ((s.queue (s.pcb (s.processGet target)).msgQueue).put (senderOf s) bytes length) := by
  cases message with
  | none => exact Or.inl ⟨rfl, by simp [processSendMessage]⟩
  | some bytes =>
    simp only [processSendMessage]
    split
    next => exact Or.inl ⟨rfl, by simp⟩
    next valid =>
      split
      next => exact Or.inl ⟨rfl, by simp⟩
      next there =>
        split
        next => exact Or.inl ⟨rfl, by simp⟩
        next room =>
          obtain ⟨nonzero, small⟩ := not_or.mp valid
          refine Or.inr ⟨bytes, rfl, Nat.pos_of_ne_zero nonzero, Nat.not_lt.mp small, (not_or.mp there).1,
            Nat.not_le.mp room, rfl, ?_⟩
          rw [wakeReceiver_queue]
          rfl

theorem processSendMessage_put {target length : Nat} (bytes : Buffer) (some : length ≠ 0)
    (small : length ≤ MAX_MESSAGE_SIZE) (found : s.processGet target ≠ 0)
    (queue : (s.pcb (s.processGet target)).msgQueue ≠ 0)
    (room : (s.queue (s.pcb (s.processGet target)).msgQueue).count < MESSAGE_QUEUE_SIZE) :
    processSendMessage s target (Option.some bytes) length =
      (wakeReceiver (s.setQueue (s.pcb (s.processGet target)).msgQueue
        ((s.queue (s.pcb (s.processGet target)).msgQueue).put (senderOf s) bytes length)) (s.processGet target), 0) := by
  have valid : ¬(length = 0 ∨ MAX_MESSAGE_SIZE < length) := not_or.mpr ⟨some, Nat.not_lt.mpr small⟩
  simp only [processSendMessage]
  rw [if_neg valid, if_neg (not_or.mpr ⟨found, queue⟩), if_neg (Nat.not_le.mpr room)]
  rfl

def headMessage (s : Processes) : Message :=
  let queue := s.queue (s.pcb s.current).msgQueue
  queue.messages queue.head

/-- A receive is refused and nothing happens, or the message at the head is delivered. -/
theorem processReceiveMessage_cases (s : Processes) (buffer : Bool) (maxLength : Nat) :
    (processReceiveMessage s buffer maxLength).1 = s ∧ (processReceiveMessage s buffer maxLength).2.1 < 0 ∨
    s.current ≠ 0 ∧ (s.queue (s.pcb s.current).msgQueue).count ≠ 0 ∧
      processReceiveMessage s buffer maxLength =
        (s.setQueue (s.pcb s.current).msgQueue (s.queue (s.pcb s.current).msgQueue).take,
          ((min (headMessage s).length maxLength : Nat) : Int),
          (content (headMessage s)).bytes.take maxLength, (headMessage s).sender) := by
  simp only [processReceiveMessage]
  split
  next => exact Or.inl ⟨rfl, by simp⟩
  next there =>
    split
    next => exact Or.inl ⟨rfl, by simp⟩
    next =>
      split
      next => exact Or.inl ⟨rfl, by simp⟩
      next some =>
        rw [← delivered_eq]
        exact Or.inr ⟨(not_or.mp there).1, some, rfl⟩

theorem processReceiveMessage_take {maxLength : Nat} (there : s.current ≠ 0)
    (queue : (s.pcb s.current).msgQueue ≠ 0) (buffer : maxLength ≠ 0)
    (waiting : (s.queue (s.pcb s.current).msgQueue).count ≠ 0) :
    processReceiveMessage s true maxLength =
      (s.setQueue (s.pcb s.current).msgQueue (s.queue (s.pcb s.current).msgQueue).take,
        delivered (headMessage s) maxLength) := by
  simp only [processReceiveMessage]
  rw [if_neg (not_or.mpr ⟨there, queue⟩), if_neg (not_or.mpr ⟨Bool.true_eq_false_eq_False, buffer⟩), if_neg waiting]
  rfl

theorem processReceiveMessage_none (none : (s.pcb s.current).msgQueue = 0 ∨
    (s.queue (s.pcb s.current).msgQueue).count = 0) (buffer : Bool) (maxLength : Nat) :
    ∃ code : Int, (-3 ≤ code ∧ code < 0) ∧ processReceiveMessage s buffer maxLength = (s, code, [], 0) := by
  simp only [processReceiveMessage]
  split
  next => exact ⟨-1, by decide, rfl⟩
  next there =>
    split
    next => exact ⟨-2, by decide, rfl⟩
    next =>
      rw [if_pos (none.resolve_left (not_or.mp there).2)]
      exact ⟨-3, by decide, rfl⟩

theorem scheduleThen_queue (s : Processes) (rest : Rest) : (scheduleThen s rest).queue = s.queue :=
  (only_schedule (K := fun _ => True) rest trivial trivial).queue

theorem processKill_queue (s : Processes) (pid : Nat) : (processKill s pid).queue = s.queue :=
  (only_kill (K := fun _ => True) trivial (fun _ => trivial) pid).queue

theorem processExit_queue (s : Processes) : (processExit s).queue = s.queue := by
  rcases processExit_cases s with same | ⟨-, exits⟩
  · rw [same]
  · rw [exits]
    exact processKill_queue s _

theorem processSleep_queue (s : Processes) (ms : Nat) : (processSleep s ms).queue = s.queue :=
  (only_sleep (K := fun _ => True) trivial (fun _ => trivial) ms).queue

theorem processWake_queue (s : Processes) (pid : Nat) : (processWake s pid).1.queue = s.queue := by
  rcases processWake_cases s pid with same | ⟨-, done⟩
  · rw [same]
  · rw [done]
    rfl

theorem processSetPriority_queue (s : Processes) (pid priority : Nat) :
    (processSetPriority s pid priority).1.queue = s.queue := by
  rcases processSetPriority_cases s pid priority with same | done
  · rw [same]
  · rw [done]
    rfl

theorem processCheckSleeping_queue (s : Processes) : (processCheckSleeping s).queue = s.queue := by
  have loop : ∀ (slots : List Nat) (t : Processes), (slots.foldl wakeSlot t).queue = t.queue := by
    intro slots
    induction slots with
    | nil => exact fun t => rfl
    | cons i rest ih =>
      intro t
      rw [List.foldl_cons, ih, wakeSlot]
      simp only []
      split <;> rfl
  exact loop _ s

theorem processCreate_queue (inv : Inv s) (few : s.nextPid + 1 < 2 ^ 32) (name : CStr) (entry : Nat)
    {stackSize : Word} (fits : StackFits stackSize) {i : Nat} (used : Used s i) (zero : i ≠ 0) :
    (processCreate s name entry stackSize).1.queue (inSlot s i).msgQueue = s.queue (inSlot s i).msgQueue := by
  obtain ⟨l, blocks⟩ := inv.blocks
  rcases processCreate_spec inv.slots blocks few name entry fits with
    ⟨t, l', made, abandoned⟩ | ⟨t, l', j, p, base, q, made, born⟩
  · rw [made, abandoned.queue]
  · have queue : block s i .queue = (inSlot s i).msgQueue := if_neg zero
    have live := blocks.live i .queue used (blocks.full i .queue used zero)
    rw [queue] at live
    rw [made, born.queue, Function.update_of_ne]
    exact fun same => born.fresh.2.2 (same ▸ live)

end Calls

/-- The calls that concern the mail of one process, along a run. -/
structure History where
  processes : Processes
  sent : List Sent
  received : List Received

/-- A message that a call sends to the process `pid`. -/
def sentBy (pid : Nat) (s : Processes) : ProcessOp → List Sent
  | .processSendMessage target (some bytes) length =>
    if target = pid ∧ (processSendMessage s target (some bytes) length).2 = 0 then
      [⟨senderOf s, (List.range length).map bytes⟩]
    else []
  | _ => []

/-- A message that a call delivers to the process `pid`. -/
def receivedBy (pid : Nat) (s : Processes) : ProcessOp → List Received
  | .processReceiveMessage buffer maxLength =>
    let r := processReceiveMessage s buffer maxLength
    if (s.pcb s.current).pid = pid ∧ 0 ≤ r.2.1 then [⟨maxLength, r.2.1, r.2.2.2, r.2.2.1⟩] else []
  | _ => []

def History.step (pid : Nat) (h : History) (op : ProcessOp) : History :=
  ⟨h.processes.step op, h.sent ++ sentBy pid h.processes op, h.received ++ receivedBy pid h.processes op⟩

/-- Nobody kills the process, and nobody writes to the idle process or receives in its
place, which has no queue. -/
def History.allowed (pid : Nat) (h : History) : ProcessOp → Prop
  | .processSendMessage target _ _ => target ≠ 0
  | .processReceiveMessage _ _ => (h.processes.pcb h.processes.current).pid ≠ 0
  | .processKill target => target ≠ pid
  | op => h.processes.allowed op

def mailbox (s : Processes) (i : Nat) : MessageQueue := s.queue (inSlot s i).msgQueue

/-- The mail of the process `pid` in slot `i`: what was sent and not yet received is in the
queue, and what was received is what was sent. -/
structure Fifo (h : History) (pid i : Nat) : Prop where
  used : Used h.processes i
  pid : (inSlot h.processes i).pid = pid
  fewer : h.received.length ≤ h.sent.length
  queue : Outstanding (mailbox h.processes i) (h.sent.drop h.received.length)
  delivered : ∀ (k : Nat) (y : Received), h.received[k]? = some y → ∃ x, h.sent[k]? = some x ∧
    y.sender = x.sender ∧ y.bytes = x.bytes.take y.maxLength ∧ y.code = (min x.bytes.length y.maxLength : Nat)

section Fifo

variable {h : History} {pid i : Nat} {t : Processes}

theorem Fifo.frame (f : Fifo h pid i) (stays : Stays h.processes t i)
    (same : t.queue (inSlot h.processes i).msgQueue = h.processes.queue (inSlot h.processes i).msgQueue) :
    Fifo ⟨t, h.sent, h.received⟩ pid i := by
  refine ⟨stays.used, stays.process.pid.trans f.pid, f.fewer, ?_, f.delivered⟩
  have queue := f.queue
  rw [mailbox, ← same, ← stays.process.msgQueue] at queue
  exact queue

theorem Fifo.send (f : Fifo h pid i) (stays : Stays h.processes t i) {sender length : Nat} {bytes : Buffer}
    (room : (mailbox h.processes i).count < MESSAGE_QUEUE_SIZE)
    (put : t.queue (inSlot h.processes i).msgQueue = (mailbox h.processes i).put sender bytes length) :
    Fifo ⟨t, h.sent ++ [⟨sender, (List.range length).map bytes⟩], h.received⟩ pid i := by
  refine ⟨stays.used, stays.process.pid.trans f.pid, ?_, ?_, fun k y got => ?_⟩
  · rw [List.length_append]
    exact f.fewer.trans (Nat.le_add_right _ _)
  · have queue := f.queue.put room sender bytes length
    rw [← put, ← stays.process.msgQueue] at queue
    rw [List.drop_append_of_le_length f.fewer]
    exact queue
  · obtain ⟨x, there, rest⟩ := f.delivered k y got
    exact ⟨x, by rw [List.getElem?_append_left (List.getElem?_eq_some_iff.mp there).1, there], rest⟩

theorem Fifo.receive (f : Fifo h pid i) (stays : Stays h.processes t i) (maxLength : Nat)
    (some : (mailbox h.processes i).count ≠ 0)
    (take : t.queue (inSlot h.processes i).msgQueue = (mailbox h.processes i).take) :
    let msg := (mailbox h.processes i).messages (mailbox h.processes i).head
    Fifo ⟨t, h.sent, h.received ++ [⟨maxLength, (min msg.length maxLength : Nat), msg.sender,
      (content msg).bytes.take maxLength⟩]⟩ pid i := by
  intro msg
  have queue := f.queue
  cases out : h.sent.drop h.received.length with
  | nil =>
    rw [out] at queue
    exact absurd queue.length.symm some
  | cons x rest =>
    rw [out] at queue
    obtain ⟨first, queue⟩ := queue.take
    have more : h.received.length < h.sent.length := by
      by_contra none
      rw [List.drop_eq_nil_of_le (Nat.not_lt.mp none)] at out
      exact List.cons_ne_nil _ _ out.symm
    have here : h.sent[h.received.length]? = Option.some x := by
      rw [← List.head?_drop, out]
      rfl
    have left : h.sent.drop (h.received.length + 1) = rest := by
      rw [← List.tail_drop, out]
      rfl
    refine ⟨stays.used, stays.process.pid.trans f.pid, ?_, ?_, fun k y got => ?_⟩
    · rw [List.length_append]
      exact more
    · rw [← take, ← stays.process.msgQueue] at queue
      rw [List.length_append, List.length_singleton, left]
      exact queue
    · by_cases old : k < h.received.length
      · rw [List.getElem?_append_left old] at got
        exact f.delivered k y got
      · have last := (List.getElem?_eq_some_iff.mp got).1
        rw [List.length_append, List.length_singleton] at last
        obtain rfl : k = h.received.length := by omega
        rw [List.getElem?_append_right (Nat.le_refl _), Nat.sub_self] at got
        obtain rfl := Option.some.inj got
        refine ⟨x, here, ?_, ?_, ?_⟩
        · rw [← first]
          rfl
        · rw [← first]
        · rw [← first]
          simp [content, msg]

end Fifo

section Step

variable {s : Processes} {h : History} {pid i : Nat} {op : ProcessOp}

theorem History.allowed.processes (ok : h.allowed pid op) (inv : Inv h.processes) : h.processes.allowed op := by
  cases op with
  | processSendMessage target message length => exact Or.inl ok
  | processReceiveMessage buffer maxLength =>
    intro idle
    rw [History.allowed, idle, inv.slots.idlePid] at ok
    exact ok rfl
  | processKill target => exact trivial
  | _ => exact ok

theorem History.allowed.spares (ok : h.allowed pid op) : ¬op.kills pid := by
  cases op with
  | processKill target => exact fun same => ok same.symm
  | _ => exact id

theorem Inv.queues_apart (inv : Inv s) {j : Nat} (usedi : Used s i) (usedj : Used s j) (zero : i ≠ 0)
    (zero' : j ≠ 0) (other : j ≠ i) : (inSlot s i).msgQueue ≠ (inSlot s j).msgQueue := by
  obtain ⟨l, blocks⟩ := inv.blocks
  have queue : ∀ {k}, k ≠ 0 → block s k .queue = (inSlot s k).msgQueue := fun nonzero => if_neg nonzero
  intro same
  rw [← queue zero, ← queue zero'] at same
  exact other (blocks.apart i j .queue .queue usedi usedj (blocks.full i .queue usedi zero) same).1.symm

theorem processGet_slot {target : Nat} (found : s.processGet target ≠ 0) :
    ∃ j, Used s j ∧ (inSlot s j).pid = target ∧ s.processGet target = s.table j := by
  rw [Processes.processGet] at found ⊢
  cases search : s.slotOf target with
  | none => rw [search] at found; exact absurd rfl found
  | some j =>
    obtain ⟨used, same⟩ := slotOf_some search
    exact ⟨j, used, same, rfl⟩

theorem Fifo.step_send (f : Fifo h pid i) (inv : Inv h.processes) (zero : i ≠ 0) {target : Nat}
    (nonzero : target ≠ 0) (message : Option Buffer) (length : Nat) :
    Fifo (h.step pid (.processSendMessage target message length)) pid i := by
  have stays := ((processSendMessage_calm h.processes target message length).moved inv).stays i f.used id
  have none : receivedBy pid h.processes (.processSendMessage target message length) = [] := rfl
  rw [History.step, none, List.append_nil]
  rcases processSendMessage_cases h.processes target message length with
    ⟨same, code⟩ | ⟨bytes, rfl, -, -, found, room, code, queue⟩
  · have nothing : sentBy pid h.processes (.processSendMessage target message length) = [] := by
      cases message with
      | none => rfl
      | some bytes => exact if_neg fun ⟨_, zero⟩ => absurd zero (Int.ne_of_lt code)
    rw [nothing, List.append_nil]
    exact f.frame stays (congrFun (congrArg Processes.queue same) _)
  · obtain ⟨j, used, target', get⟩ := processGet_slot found
    rw [get] at room queue
    by_cases mine : j = i
    · subst mine
      have hit : target = pid := by rw [← target', f.pid]
      rw [sentBy, if_pos ⟨hit, code⟩]
      refine f.send stays room ?_
      rw [queue]
      exact Function.update_self ..
    · have miss : target ≠ pid := by
        rintro rfl
        exact mine (inv.slots.pids j i used f.used (target'.trans f.pid.symm))
      have zero' := (inv.slots.pid_ne_zero used).mp (target'.symm ▸ nonzero)
      rw [sentBy, if_neg fun both => miss both.1, List.append_nil]
      refine f.frame stays ?_
      change (processSendMessage h.processes target (some bytes) length).1.queue _ = _
      rw [queue]
      exact Function.update_of_ne (inv.queues_apart f.used used zero zero' mine) ..

theorem Fifo.step_receive (f : Fifo h pid i) (inv : Inv h.processes) (zero : i ≠ 0)
    (nonzero : (h.processes.pcb h.processes.current).pid ≠ 0) (buffer : Bool) (maxLength : Nat) :
    Fifo (h.step pid (.processReceiveMessage buffer maxLength)) pid i := by
  have stays := ((processReceiveMessage_calm h.processes buffer maxLength).moved inv).stays i f.used id
  obtain ⟨c, used, here⟩ := inv.states.current
  have current : h.processes.pcb h.processes.current = inSlot h.processes c := by rw [inSlot, here]
  have none : sentBy pid h.processes (.processReceiveMessage buffer maxLength) = [] := rfl
  rw [History.step, none, List.append_nil]
  simp only [receivedBy]
  rcases processReceiveMessage_cases h.processes buffer maxLength with ⟨same, code⟩ | ⟨-, some, result⟩
  · rw [if_neg fun both => absurd both.2 (Int.not_le.mpr code), List.append_nil]
    exact f.frame stays (congrFun (congrArg Processes.queue same) _)
  · have queue : (processReceiveMessage h.processes buffer maxLength).1.queue =
        Function.update h.processes.queue (inSlot h.processes c).msgQueue (mailbox h.processes c).take := by
      rw [result, current]
      rfl
    rw [current] at some nonzero
    by_cases mine : c = i
    · subst mine
      have delivered := f.receive stays maxLength some (by
        rw [queue]
        exact Function.update_self ..)
      have head : headMessage h.processes = (mailbox h.processes c).messages (mailbox h.processes c).head := by
        simp only [headMessage, current]
        rfl
      rw [if_pos ⟨by rw [current, f.pid], by rw [result]; exact Int.natCast_nonneg _⟩]
      rw [← head] at delivered
      have entry : (⟨maxLength, (processReceiveMessage h.processes buffer maxLength).2.1,
          (processReceiveMessage h.processes buffer maxLength).2.2.2,
          (processReceiveMessage h.processes buffer maxLength).2.2.1⟩ : Received) =
          ⟨maxLength, (min (headMessage h.processes).length maxLength : Nat), (headMessage h.processes).sender,
            (content (headMessage h.processes)).bytes.take maxLength⟩ := by
        rw [result]
      rw [entry]
      exact delivered
    · have miss : (h.processes.pcb h.processes.current).pid ≠ pid := by
        rw [current]
        intro same
        exact mine (inv.slots.pids c i used f.used (same.trans f.pid.symm))
      have zero' := (inv.slots.pid_ne_zero used).mp nonzero
      rw [if_neg fun both => miss both.1, List.append_nil]
      refine f.frame stays ?_
      change (processReceiveMessage h.processes buffer maxLength).1.queue _ = _
      rw [queue]
      exact Function.update_of_ne (inv.queues_apart f.used used zero zero' mine) ..

theorem step_queue (inv : Inv s) (few : s.nextPid + op.creations < 2 ^ 32) (ok : s.allowed op) (used : Used s i)
    (zero : i ≠ 0)
    (send : ∀ target message length, op ≠ .processSendMessage target message length)
    (receive : ∀ buffer maxLength, op ≠ .processReceiveMessage buffer maxLength) :
    (s.step op).queue (inSlot s i).msgQueue = s.queue (inSlot s i).msgQueue := by
  cases op with
  | processCreate name entry stackSize => exact processCreate_queue inv few name entry ok used zero
  | processCreateWithPriority name entry stackSize priority =>
    have made := processCreate_queue inv few name entry ok used zero
    simp only [Processes.step, processCreateWithPriority]
    split
    next => rw [processSetPriority_queue, made]
    next => exact made
  | processKill target => rw [Processes.step, processKill_queue]
  | processExit => rw [Processes.step, processExit_queue]
  | processSleep ms => rw [Processes.step, processSleep_queue]
  | processWake target => rw [Processes.step, processWake_queue]
  | processCheckSleeping => rw [Processes.step, processCheckSleeping_queue]
  | processSetPriority target priority => rw [Processes.step, processSetPriority_queue]
  | processSendMessage target message length => exact absurd rfl (send target message length)
  | processReceiveMessage buffer maxLength => exact absurd rfl (receive buffer maxLength)
  | processSchedule => rw [Processes.step, processSchedule, scheduleThen_queue]
  | processYield => rw [Processes.step, processYield, processSchedule, scheduleThen_queue]
  | tick ticks => rfl
  | kmalloc size => rfl
  | kfree p => rfl

theorem Fifo.step (f : Fifo h pid i) (inv : Inv h.processes) (zero : i ≠ 0)
    (few : h.processes.nextPid + op.creations < 2 ^ 32) (ok : h.allowed pid op) : Fifo (h.step pid op) pid i := by
  have moved := step_moved inv few (ok.processes inv)
  have stays := moved.stays i f.used (by rw [f.pid]; exact ok.spares)
  have quiet : sentBy pid h.processes op = [] ∧ receivedBy pid h.processes op = [] →
      (∀ target message length, op ≠ .processSendMessage target message length) →
      (∀ buffer maxLength, op ≠ .processReceiveMessage buffer maxLength) → Fifo (h.step pid op) pid i := by
    intro silent send receive
    rw [History.step, silent.1, silent.2, List.append_nil, List.append_nil]
    exact f.frame stays (step_queue inv few (ok.processes inv) f.used zero send receive)
  cases op with
  | processSendMessage target message length => exact f.step_send inv zero ok message length
  | processReceiveMessage buffer maxLength => exact f.step_receive inv zero ok buffer maxLength
  | _ => exact quiet ⟨rfl, rfl⟩ (by simp) (by simp)

theorem processCreate_mailbox (inv : Inv s) (few : s.nextPid + 1 < 2 ^ 32) (name : CStr) (entry : Nat)
    {stackSize : Word} (fits : StackFits stackSize) (used : Used (processCreate s name entry stackSize).1 i)
    (new : (inSlot (processCreate s name entry stackSize).1 i).pid = s.nextPid) :
    i ≠ 0 ∧ Outstanding (mailbox (processCreate s name entry stackSize).1 i) [] := by
  obtain ⟨l, blocks⟩ := inv.blocks
  have old : Used s i → (inSlot s i).pid ≠ s.nextPid := fun used => Nat.ne_of_lt (inv.slots.pidLt i used)
  rcases processCreate_spec inv.slots blocks few name entry fits with
    ⟨t, l', made, abandoned⟩ | ⟨t, l', j, p, base, q, made, born⟩
  · rw [made] at used new
    obtain ⟨used', -, process, -⟩ := (abandoned.turnover inv.slots.seats blocks).old i used id
    rw [process] at new
    exact absurd new (old used')
  · rw [made] at used new ⊢
    by_cases mine : i = j
    · subst mine
      refine ⟨((born.turnover inv.slots.seats blocks).start i rfl).1, ?_⟩
      have here : t.table i = p := by rw [born.table, Function.update_self]
      have queue : mailbox t i = { s.queue q with head := 0, tail := 0, count := 0 } := by
        rw [mailbox, inSlot, here, born.msgQueue, born.queue, Function.update_self]
      rw [queue]
      exact holds_nil (by decide)
    · obtain ⟨used', -, process, -⟩ := (born.turnover inv.slots.seats blocks).old i used mine
      rw [process] at new
      exact absurd new (old used')

/-- The mail of `pid` before the process is there, while it is there, and if its pid was
lost in a failed creation. -/
def Mailed (pid : Nat) (h : History) : Prop :=
  Inv h.processes ∧
    (h.processes.nextPid ≤ pid ∧ h.sent = [] ∧ h.received = [] ∨ (∃ i, i ≠ 0 ∧ Fifo h pid i) ∨
      pid < h.processes.nextPid ∧ ∀ i, Used h.processes i → (inSlot h.processes i).pid ≠ pid)

theorem sentBy_of_absent (op : ProcessOp) (inv : Inv s) (absent : ∀ i, Used s i → (inSlot s i).pid ≠ pid) :
    sentBy pid s op = [] ∧ receivedBy pid s op = [] := by
  constructor
  · cases op with
    | processSendMessage target message length =>
      cases message with
      | none => rfl
      | some bytes =>
        refine if_neg fun ⟨hit, code⟩ => ?_
        rcases processSendMessage_cases s target (some bytes) length with
          ⟨-, failed⟩ | ⟨-, -, -, -, found, -⟩
        · exact absurd code (Int.ne_of_lt failed)
        · obtain ⟨j, used, same, -⟩ := processGet_slot found
          exact absent j used (same.trans hit)
    | _ => rfl
  · cases op with
    | processReceiveMessage buffer maxLength =>
      obtain ⟨c, used, here⟩ := inv.states.current
      refine if_neg fun ⟨same, _⟩ => absent c used ?_
      rw [inSlot, here, same]
    | _ => rfl

theorem sentBy_of_fresh (op : ProcessOp) (inv : Inv s) (fresh : s.nextPid ≤ pid) :
    sentBy pid s op = [] ∧ receivedBy pid s op = [] :=
  sentBy_of_absent op inv fun _ used => Nat.ne_of_lt (Nat.lt_of_lt_of_le (inv.slots.pidLt _ used) fresh)

theorem step_newMailbox (inv : Inv s) (few : s.nextPid + op.creations < 2 ^ 32) (ok : s.allowed op)
    (used : Used (s.step op) i) (new : s.nextPid ≤ (inSlot (s.step op) i).pid) :
    i ≠ 0 ∧ Outstanding (mailbox (s.step op) i) [] := by
  have moved := step_moved inv few ok
  have below := moved.inv.slots.pidLt i used
  have pids := moved.pids
  have none : op.creations = 0 → i ≠ 0 ∧ Outstanding (mailbox (s.step op) i) [] := by
    intro zero
    omega
  cases op with
  | processCreate name entry stackSize =>
    refine processCreate_mailbox inv few name entry ok used ?_
    simp only [ProcessOp.creations, Processes.step] at pids below new
    omega
  | processCreateWithPriority name entry stackSize priority =>
    have fresh : ∀ {i}, Used (processCreate s name entry stackSize).1 i →
        s.nextPid ≤ (inSlot (processCreate s name entry stackSize).1 i).pid →
        i ≠ 0 ∧ Outstanding (mailbox (processCreate s name entry stackSize).1 i) [] := by
      intro i used new
      have made := processCreate_moved inv few name entry ok
      have pids := made.pids
      have below := made.inv.slots.pidLt i used
      exact processCreate_mailbox inv few name entry ok used (by omega)
    simp only [Processes.step, processCreateWithPriority] at used new ⊢
    split at used
    next created =>
      rw [if_pos created] at new ⊢
      have set := processSetPriority_calm (processCreate s name entry stackSize).1
        (processCreate s name entry stackSize).2 priority
      have queue := processSetPriority_queue (processCreate s name entry stackSize).1
        (processCreate s name entry stackSize).2 priority
      rw [(set.inSlot i).pid] at new
      rw [mailbox, queue, (set.inSlot i).msgQueue]
      exact fresh (set.used.mp used) new
    next failed =>
      rw [if_neg failed] at new ⊢
      exact fresh used new
  | _ => exact none rfl

theorem Mailed.step (m : Mailed pid h) (few : h.processes.nextPid + op.creations < 2 ^ 32)
    (ok : h.allowed pid op) : Mailed pid (h.step pid op) := by
  obtain ⟨inv, cases⟩ := m
  have moved := step_moved inv few (ok.processes inv)
  refine ⟨moved.inv, ?_⟩
  rcases cases with ⟨fresh, sent, received⟩ | ⟨i, zero, fifo⟩ | ⟨old, gone⟩
  · obtain ⟨noSent, noReceived⟩ := sentBy_of_fresh op inv fresh
    have history : h.step pid op = ⟨h.processes.step op, [], []⟩ := by
      rw [History.step, sent, received, noSent, noReceived]
      rfl
    rw [history]
    by_cases there : ∃ i, Used (h.processes.step op) i ∧ (inSlot (h.processes.step op) i).pid = pid
    · obtain ⟨i, used, same⟩ := there
      obtain ⟨zero, empty⟩ := step_newMailbox inv few (ok.processes inv) used (same.symm ▸ fresh)
      exact Or.inr (Or.inl ⟨i, zero, used, same, Nat.le_refl _, empty, fun k y got => by simp at got⟩)
    · by_cases later : (h.processes.step op).nextPid ≤ pid
      · exact Or.inl ⟨later, rfl, rfl⟩
      · exact Or.inr (Or.inr ⟨Nat.not_le.mp later, fun i used same => there ⟨i, used, same⟩⟩)
  · exact Or.inr (Or.inl ⟨i, zero, fifo.step inv zero few ok⟩)
  · refine Or.inr (Or.inr ⟨Nat.lt_of_lt_of_le old moved.later.pids, fun i used same => ?_⟩)
    obtain ⟨used', pid', -⟩ := moved.later.kept i used (same.symm ▸ old)
    exact gone i used' (pid'.trans same)

theorem run_mailed {h' : History} {ops : List ProcessOp}
    (run : Exec (History.allowed pid) (History.step pid) h ops h') (m : Mailed pid h)
    (few : h.processes.nextPid + creations ops < 2 ^ 32) : Mailed pid h' := by
  induction run with
  | nil h => exact m
  | @cons h op ops h' ok _ ih =>
    have total : creations (op :: ops) = op.creations + creations ops := List.sum_cons
    rw [total] at few
    have pids := (step_moved m.1 (show h.processes.nextPid + op.creations < 2 ^ 32 by omega) (ok.processes m.1)).pids
    refine ih (m.step (by omega) ok) ?_
    change (h.processes.step op).nextPid + _ < _
    omega

end Step

/-- What the mail of the process `pid` in slot `i` obeys: it is delivered in order, cut to the
length asked for, and the queue is full or empty when eight messages or none are on the way. -/
structure MailLaw (h : History) (pid i : Nat) : Prop where
  delivered : ∀ (k : Nat) (y : Received), h.received[k]? = some y → ∃ x, h.sent[k]? = some x ∧
    y.sender = x.sender ∧ y.bytes = x.bytes.take y.maxLength ∧ y.code = (min x.bytes.length y.maxLength : Nat)
  count : (mailbox h.processes i).count + h.received.length = h.sent.length
  room : (mailbox h.processes i).count ≤ MESSAGE_QUEUE_SIZE
  full : ∀ bytes length, 1 ≤ length → length ≤ MAX_MESSAGE_SIZE →
    ((processSendMessage h.processes pid (some bytes) length).2 = -3 ↔
      h.sent.length = h.received.length + MESSAGE_QUEUE_SIZE)
  empty : h.processes.table i = h.processes.current → ∀ maxLength, 1 ≤ maxLength →
    ((processReceiveMessage h.processes true maxLength).2.1 = -3 ↔ h.sent.length = h.received.length)
  refused : ∀ target message length, (processSendMessage h.processes target message length).2 < 0 →
    (processSendMessage h.processes target message length).1 = h.processes
  refused' : ∀ buffer maxLength, (processReceiveMessage h.processes buffer maxLength).2.1 < 0 →
    (processReceiveMessage h.processes buffer maxLength).1 = h.processes

theorem Fifo.mailLaw {h : History} {pid i : Nat} (f : Fifo h pid i) (inv : Inv h.processes) (zero : i ≠ 0) :
    MailLaw h pid i := by
  have length := f.queue.length
  rw [List.length_drop] at length
  have fewer := f.fewer
  have count : (mailbox h.processes i).count + h.received.length = h.sent.length := by omega
  have queue : (inSlot h.processes i).msgQueue ≠ 0 := by
    obtain ⟨l, blocks⟩ := inv.blocks
    have there := blocks.full i .queue f.used zero
    rwa [block, if_neg zero] at there
  have get : h.processes.processGet pid = h.processes.table i := by
    rw [← f.pid, inv.slots.processGet_pid f.used]
  have room := f.queue.room
  refine ⟨f.delivered, count, room, ?_, ?_, ?_, ?_⟩
  · intro bytes length pos small
    have here : ¬(h.processes.table i = 0 ∨ (h.processes.pcb (h.processes.table i)).msgQueue = 0) :=
      not_or.mpr ⟨f.used.2, queue⟩
    simp only [processSendMessage, get, if_neg here]
    rw [if_neg (by omega)]
    split
    next full =>
      have all : (mailbox h.processes i).count = MESSAGE_QUEUE_SIZE := Nat.le_antisymm room full
      exact iff_of_true rfl (by omega)
    next more =>
      have all : (mailbox h.processes i).count < MESSAGE_QUEUE_SIZE := Nat.not_le.mp more
      exact iff_of_false (by simp) (by omega)
  · intro here maxLength pos
    have there : ¬(h.processes.current = 0 ∨ (h.processes.pcb h.processes.current).msgQueue = 0) := by
      rw [← here]
      exact not_or.mpr ⟨f.used.2, queue⟩
    rw [processReceiveMessage, if_neg there, if_neg (by simp; omega)]
    simp only [← here]
    split
    next none =>
      have all : (mailbox h.processes i).count = 0 := none
      exact iff_of_true rfl (by omega)
    next some =>
      have all : (mailbox h.processes i).count ≠ 0 := some
      refine iff_of_false (fun code => ?_) (by omega)
      simp only [] at code
      omega
  · intro target message length code
    rcases processSendMessage_cases h.processes target message length with ⟨same, -⟩ | ⟨-, -, -, -, -, -, done, -⟩
    · exact same
    · exact absurd done (Int.ne_of_lt code)
  · intro buffer maxLength code
    rcases processReceiveMessage_cases h.processes buffer maxLength with ⟨same, -⟩ | ⟨-, -, done⟩
    · exact same
    · rw [done] at code
      exact absurd code (Int.not_lt.mpr (Int.natCast_nonneg _))

/-- In every state of a run the mail of a process is an exact queue of at most eight messages. -/
theorem mail_runs_fifo (s0 : Processes) (entry pid i : Nat) (ops : List ProcessOp) (h : History) (boot : Boot s0)
    (few : creations ops < 2 ^ 32 - 1)
    (run : Exec (History.allowed pid) (History.step pid) ⟨processInit s0 entry, [], []⟩ ops h)
    (used : Used h.processes i) (mine : (inSlot h.processes i).pid = pid) (nonzero : pid ≠ 0) :
    MailLaw h pid i := by
  obtain ⟨l, p, base, started⟩ := processInit_started boot entry
  have start : Mailed pid ⟨processInit s0 entry, [], []⟩ :=
    ⟨started.inv, Or.inl ⟨by rw [started.nextPid]; exact Nat.pos_of_ne_zero nonzero, rfl, rfl⟩⟩
  obtain ⟨inv, cases⟩ := run_mailed run start (by rw [started.nextPid]; omega)
  rcases cases with ⟨fresh, -⟩ | ⟨j, zero, fifo⟩ | ⟨-, gone⟩
  · have below := inv.slots.pidLt i used
    omega
  · obtain rfl := inv.slots.pids i j used fifo.used (mine.trans fifo.pid.symm)
    exact fifo.mailLaw inv zero
  · exact absurd mine (gone i used)

/-- The first process after boot, before and after a message of two bytes. -/
theorem mail_runs_fifo_first :
    let h := (History.step 1 (History.step 1 ⟨processInit powerOn 0x1000, [], []⟩
      (.processCreate taskName 0x2000 4096)) (.processSendMessage 1 (some fun _ => 7) 2))
    h.sent.length = 1 ∧ MailLaw h 1 1 := by
  refine ⟨by decide +kernel, mail_runs_fifo powerOn 0x1000 1 1
    [.processCreate taskName 0x2000 4096, .processSendMessage 1 (some fun _ => 7) 2] _ powerOn_boot (by decide)
    (.cons ⟨by decide, by decide⟩ (.cons (show (1 : Nat) ≠ 0 by decide) (.nil _))) (by decide +kernel)
    (by decide +kernel) (by decide)⟩

end Wittche.Process
