import Wittche.Process.Fairness
import Wittche.Process.LongRuns
import Wittche.Process.Messages

/-! What the calls of `process.c` show of the memory that `kmalloc` returns. It is not
cleared, and `process_init` leaves fields of the idle process as they were, its message
queue and its kernel stack among them. Two machines that differ in such memory only show
the same as long as none of these fields is read. -/

namespace Wittche.Process
open Bytes CString Heap Segments Execution

inductive Call
  | processCreate (name : CStr) (entry : Nat) (stackSize : Word)
  | processSendMessage (target : Nat) (message : Option Buffer) (length : Nat)
  | processReceiveMessage (buffer : Bool) (maxLength : Nat)
  | processWake (pid : Nat)
  | processKill (pid : Nat)
  | processSchedule

/-- What a call returns: a code, and the bytes and the sender of a message.
`process_kill` and `process_schedule` return nothing. -/
structure Result where
  code : Int
  bytes : List Byte
  sender : Nat

def Processes.call (s : Processes) : Call → Processes × Option Result
  | .processCreate name entry stackSize =>
    let r := processCreate s name entry stackSize
    (r.1, some ⟨r.2, [], 0⟩)
  | .processSendMessage target message length =>
    let r := processSendMessage s target message length
    (r.1, some ⟨r.2, [], 0⟩)
  | .processReceiveMessage buffer maxLength =>
    let r := processReceiveMessage s buffer maxLength
    (r.1, some ⟨r.2.1, r.2.2.1, r.2.2.2⟩)
  | .processWake pid =>
    let r := processWake s pid
    (r.1, some ⟨r.2, [], 0⟩)
  | .processKill pid => (processKill s pid, none)
  | .processSchedule => (processSchedule s, none)

/-- What is seen of a call: what it returns, the process that is current behind it, and, when
that is another one than before, the value given to `tss_set_kernel_stack` on the switch. -/
structure Shown where
  result : Option Result
  current : Nat
  kernelStack : Option Nat

def Processes.shown (s : Processes) (call : Call) : Shown :=
  let r := s.call call
  ⟨r.2, r.1.current, if r.1.current = s.current then none else some r.1.esp0⟩

/-- Two machines before `process_init` that differ in what memory holds, but not in the table,
the next pid and the blocks of the heap. -/
structure SameKernel (s t : Processes) : Prop where
  table : t.table = s.table
  nextPid : t.nextPid = s.nextPid
  heap : ∃ l, Tiled s.heap l ∧ Tiled t.heap l

/-- No call reads a field of the idle process that `process_init` has not set: no message
is sent to pid 0, the idle process receives none, and a process that kills itself has
another one but the idle process to give control to. New processes have room on their stacks. -/
def Avoids (s : Processes) : Call → Prop
  | .processCreate _ _ stackSize => StackFits stackSize
  | .processSendMessage target message length =>
    target ≠ 0 ∨ message = none ∨ length = 0 ∨ MAX_MESSAGE_SIZE < length
  | .processReceiveMessage _ _ => s.current ≠ s.idle
  | .processKill pid => pid ≠ 0 → ∀ i, s.slotOf pid = some i → s.table i = s.current →
    ∃ j, j ≠ 0 ∧ ReadyAt s j
  | _ => True

/-- The fields that `process_init` sets and the calls read. -/
structure SameBasics (x y : Pcb) : Prop where
  pid : y.pid = x.pid
  state : y.state = x.state
  priority : y.priority = x.priority
  stackBase : y.stackBase = x.stackBase

/-- The fields that the calls read and only `process_create` sets. -/
structure SameFields (x y : Pcb) : Prop where
  kernelStack : y.kernelStack = x.kernelStack
  wakeTime : y.wakeTime = x.wakeTime
  msgQueue : y.msgQueue = x.msgQueue

/-- The priority of the process in slot `i`, as long as nobody changes it. -/
def slotPriority (i : Nat) : Nat := if i = 0 then 0 else 5

/-- The process at `p` in slot `i` is the same in both machines, the idle process only in the
fields that are set. -/
structure SameSlot (s t : Processes) (i p : Nat) : Prop where
  basics : SameBasics (s.pcb p) (t.pcb p)
  priority : (s.pcb p).priority = slotPriority i
  rest : t.rest p = s.rest p
  fields : i ≠ 0 → SameFields (s.pcb p) (t.pcb p)
  queue : i ≠ 0 → ∃ messages, Outstanding (s.queue (s.pcb p).msgQueue) messages ∧
    Outstanding (t.queue (s.pcb p).msgQueue) messages

/-- The two machines, with the blocks `l` in their heaps. -/
structure Twin (s t : Processes) (l : List Seg) : Prop where
  table : t.table = s.table
  count : t.count = s.count
  nextPid : t.nextPid = s.nextPid
  current : t.current = s.current
  idle : t.idle = s.idle
  tiled : Tiled t.heap l
  slots : ∀ i, Used s i → SameSlot s t i (s.table i)

section Twin

variable {s t : Processes} {l : List Seg}

theorem Twin.slotOf (h : Twin s t l) (pid : Nat) : t.slotOf pid = s.slotOf pid := by
  simp only [Processes.slotOf, Processes.findSlot, h.table]
  refine Scan.firstFrom_congr fun i _ lt => ?_
  by_cases used : s.table i = 0
  · simp [used]
  · rw [(h.slots i ⟨by simpa using lt, used⟩).basics.pid]

theorem Twin.processGet (h : Twin s t l) (pid : Nat) : t.processGet pid = s.processGet pid := by
  rw [Processes.processGet, Processes.processGet, h.slotOf, h.table]

theorem Twin.update (h : Twin s t l) (p : Nat) (f : Pcb → Pcb)
    (basics : ∀ x y, SameBasics x y → SameBasics (f x) (f y))
    (fields : ∀ x y, SameFields x y → SameFields (f x) (f y)) (priority : ∀ x, (f x).priority = x.priority)
    (queue : ∀ x, (f x).msgQueue = x.msgQueue) : Twin (s.setPcb p (f (s.pcb p))) (t.setPcb p (f (t.pcb p))) l := by
  refine ⟨h.table, h.count, h.nextPid, h.current, h.idle, h.tiled, fun i used => ?_⟩
  obtain ⟨basics', priority', rest, fields', queues⟩ := h.slots i used
  change SameSlot _ _ i (s.table i)
  by_cases here : s.table i = p
  · subst here
    constructor
    · rw [setPcb_self, setPcb_self]
      exact basics _ _ basics'
    · rw [setPcb_self, priority]
      exact priority'
    · exact rest
    · rw [setPcb_self, setPcb_self]
      exact fun other => fields _ _ (fields' other)
    · rw [setPcb_self, queue]
      exact queues
  · constructor
    · rwa [setPcb_other s here, setPcb_other t here]
    · rwa [setPcb_other s here]
    · exact rest
    · rwa [setPcb_other s here, setPcb_other t here]
    · rwa [setPcb_other s here]

theorem Twin.setState (h : Twin s t l) (p : Nat) (state : State) : Twin (s.setState p state) (t.setState p state) l :=
  h.update p (fun x => { x with state := state }) (fun _ _ same => ⟨same.pid, rfl, same.priority, same.stackBase⟩)
    (fun _ _ same => ⟨same.kernelStack, same.wakeTime, same.msgQueue⟩) (fun _ => rfl) fun _ => rfl

theorem Twin.setQueue (h : Twin s t l) {q : Nat} {x y : MessageQueue} {messages : List Sent}
    (left : Outstanding x messages) (right : Outstanding y messages) : Twin (s.setQueue q x) (t.setQueue q y) l := by
  refine ⟨h.table, h.count, h.nextPid, h.current, h.idle, h.tiled, fun i used => ?_⟩
  obtain ⟨basics, priority, rest, fields, queue⟩ := h.slots i used
  refine ⟨basics, priority, rest, fields, fun other => ?_⟩
  change ∃ messages, Outstanding (Function.update s.queue q x (s.pcb (s.table i)).msgQueue) messages ∧
    Outstanding (Function.update t.queue q y (s.pcb (s.table i)).msgQueue) messages
  by_cases mine : (s.pcb (s.table i)).msgQueue = q
  · rw [mine, Function.update_self, Function.update_self]
    exact ⟨messages, left, right⟩
  · rw [Function.update_of_ne mine, Function.update_of_ne mine]
    exact queue other

theorem Twin.wake (h : Twin s t l) (pid : Nat) :
    (processWake t pid).2 = (processWake s pid).2 ∧ Twin (processWake s pid).1 (processWake t pid).1 l := by
  simp only [processWake, h.processGet]
  by_cases there : s.processGet pid = 0
  · simp only [if_pos there]
    exact ⟨trivial, h⟩
  · obtain ⟨i, used, -, here⟩ := processGet_slot there
    simp only [if_neg there]
    rw [here, (h.slots i used).basics.state]
    split
    next =>
      refine ⟨rfl, h.update (s.table i) (fun x => { x with state := .ready, wakeTime := 0 }) ?_ ?_ ?_ ?_⟩
      · exact fun _ _ same => ⟨same.pid, rfl, same.priority, same.stackBase⟩
      · exact fun _ _ same => ⟨same.kernelStack, rfl, same.msgQueue⟩
      · exact fun _ => rfl
      · exact fun _ => rfl
    next => exact ⟨rfl, h⟩

theorem Twin.wakeUp (h : Twin s t l) {i : Nat} (used : Used s i) (other : i ≠ 0) :
    Twin (wakeReceiver s (s.table i)) (wakeReceiver t (s.table i)) l := by
  rw [wakeReceiver, wakeReceiver, (h.slots i used).basics.state, ((h.slots i used).fields other).wakeTime]
  split
  next => exact h.setState _ _
  next => exact h

theorem Twin.sender (h : Twin s t l) (states : States s) : senderOf t = senderOf s := by
  obtain ⟨i, used, here⟩ := states.current
  have pid := (h.slots i used).basics.pid
  rw [here] at pid
  rw [senderOf, senderOf, h.current, pid]

theorem Twin.send (h : Twin s t l) (kept : Kept s l) {target : Nat} {message : Option Buffer}
    {length : Nat} (ok : Avoids s (.processSendMessage target message length)) :
    (processSendMessage t target message length).2 = (processSendMessage s target message length).2 ∧
      Twin (processSendMessage s target message length).1 (processSendMessage t target message length).1 l := by
  cases message with
  | none => exact ⟨rfl, h⟩
  | some bytes =>
    by_cases valid : length = 0 ∨ MAX_MESSAGE_SIZE < length
    · simp only [processSendMessage, if_pos valid]
      exact ⟨trivial, h⟩
    · have target_ne : target ≠ 0 := by
        rcases ok with nonzero | null | wrong
        · exact nonzero
        · cases null
        · exact absurd wrong valid
      simp only [processSendMessage, if_neg valid, h.processGet]
      by_cases there : s.processGet target = 0
      · simp only [if_pos (Or.inl there)]
        exact ⟨trivial, h⟩
      · obtain ⟨i, used, named, here⟩ := processGet_slot there
        have other := kept.slot_ne_zero (named ▸ target_ne)
        obtain ⟨messages, left, right⟩ := (h.slots i used).queue other
        have counts : (t.queue (s.pcb (s.table i)).msgQueue).count = (s.queue (s.pcb (s.table i)).msgQueue).count :=
          right.length.symm.trans left.length
        simp only [here, ((h.slots i used).fields other).msgQueue, counts]
        split
        next => exact ⟨rfl, h⟩
        next =>
          split
          next => exact ⟨rfl, h⟩
          next room =>
            refine ⟨rfl, ?_⟩
            have sender := h.sender kept.states
            rw [senderOf, senderOf] at sender
            rw [sender]
            refine (h.setQueue (left.put (Nat.not_le.mp room) _ bytes length) ?_).wakeUp used other
            exact right.put (by rw [counts]; exact Nat.not_le.mp room) _ bytes length

theorem Twin.receive (h : Twin s t l) (kept : Kept s l) (buffer : Bool) (maxLength : Nat)
    (busy : s.current ≠ s.idle) :
    (processReceiveMessage t buffer maxLength).2 = (processReceiveMessage s buffer maxLength).2 ∧
      Twin (processReceiveMessage s buffer maxLength).1 (processReceiveMessage t buffer maxLength).1 l := by
  obtain ⟨i, used, here⟩ := kept.states.current
  have other : i ≠ 0 := by
    rintro rfl
    exact busy (here.symm.trans kept.seats.idleSlot)
  obtain ⟨messages, left, right⟩ := (h.slots i used).queue other
  have counts : (t.queue (s.pcb (s.table i)).msgQueue).count = (s.queue (s.pcb (s.table i)).msgQueue).count :=
    right.length.symm.trans left.length
  simp only [processReceiveMessage, h.current]
  rw [← here, ((h.slots i used).fields other).msgQueue, counts]
  split
  next => exact ⟨rfl, h⟩
  next =>
    split
    next => exact ⟨rfl, h⟩
    next =>
      split
      next => exact ⟨rfl, h⟩
      next some =>
        cases messages with
        | nil => exact absurd left.length.symm some
        | cons m rest =>
          obtain ⟨head, left'⟩ := left.take
          obtain ⟨head', right'⟩ := right.take
          refine ⟨?_, h.setQueue left' right'⟩
          exact delivered_congr (head'.trans head.symm) maxLength

end Twin

section Schedule

variable {s t : Processes} {l : List Seg}

theorem Twin.seats (h : Twin s t l) (seats : Seats s) : Seats t := by
  refine ⟨?_, ?_, ?_⟩
  · rw [h.table, h.idle, seats.idleSlot]
  · rw [h.idle]
    exact seats.idleThere
  · rw [h.count, seats.count, usedSlots, usedSlots, h.table]

theorem Twin.used (h : Twin s t l) {i : Nat} : Used t i ↔ Used s i := by
  rw [Used, Used, h.table]

theorem Twin.states (h : Twin s t l) (seats : Seats s) (states : States s) : States t := by
  refine ⟨?_, ?_, ?_, ?_⟩
  · have state := (h.slots 0 seats.used_zero).basics.state
    rw [seats.idleSlot] at state
    rw [h.idle, state]
    exact states.idleAlive
  · obtain ⟨i, used, here⟩ := states.current
    exact ⟨i, h.used.mpr used, by rw [h.table, h.current, here]⟩
  · intro i used other
    rw [h.table, h.current] at other
    rw [inSlot, h.table, (h.slots i (h.used.mp used)).basics.state]
    exact states.running i (h.used.mp used) other
  · intro i used alive
    rw [inSlot, h.table, (h.slots i (h.used.mp used)).basics.state] at alive
    rw [h.table, (h.slots i (h.used.mp used)).rest]
    exact states.rest i (h.used.mp used) alive

theorem Twin.parked (h : Twin s t l) (states : States s) : Twin (park s) (park t) l := by
  obtain ⟨i, used, here⟩ := states.current
  have state := (h.slots i used).basics.state
  rw [here] at state
  rw [park, park, h.current, state]
  split
  next => exact h.setState _ _
  next => exact h

theorem Twin.next (h : Twin s t l) : nextProcess t = nextProcess s := by
  have turn : ∀ best, ∀ i ∈ List.range MAX_PROCESSES, consider t best i = consider s best i := by
    intro best i inside
    simp only [consider, h.table, h.current, Processes.findSlot]
    by_cases used : s.table i = 0
    · simp [used]
    · obtain ⟨-, state, priority, -⟩ := (h.slots i ⟨List.mem_range.mp inside, used⟩).basics
      rw [state, priority]
  simp only [nextProcess, h.idle]
  rw [List.foldl_ext (consider t) (consider s) (0, 0) turn]

theorem Twin.switch (h : Twin s t l) (states : States s) (rest : Rest) (next : Nat) :
    Twin (switched s rest next) (switched t rest next) l := by
  obtain ⟨table, count, nextPid, -, idle, tiled, slots⟩ := (h.parked states).setState next .running
  refine ⟨table, count, nextPid, rfl, idle, tiled, fun i used => ?_⟩
  obtain ⟨basics, priority, -, fields, queue⟩ := slots i used
  refine ⟨basics, priority, ?_, fields, queue⟩
  have here : (switched s rest next).table = s.table := (park_sameSlots s).table
  have same : (park t).rest (s.table i) = (park s).rest (s.table i) := by
    rw [park_rest, park_rest]
    exact (h.slots i ((park_sameSlots s).used.mp used)).rest
  rw [here]
  change Function.update (Function.update (park t).rest (park t).current rest) next .back (s.table i) =
    Function.update (Function.update (park s).rest (park s).current rest) next .back (s.table i)
  rw [park_current, park_current, h.current]
  simp only [Function.update_apply, same]

theorem Twin.next_slot (h : Twin s t l) (some : ∃ i, i ≠ 0 ∧ ReadyAt s i) :
    ∃ m, m ≠ 0 ∧ Used s m ∧ nextProcess s = s.table m := by
  obtain ⟨i, other, ready⟩ := some
  obtain ⟨m, next, picked⟩ := nextProcess_picked ⟨i, ready⟩
  refine ⟨m, ?_, picked.ready.1, next⟩
  rintro rfl
  have high := picked.highest i ready.1.1 ready
  rw [inSlot, inSlot, (h.slots i ready.1).priority, (h.slots 0 picked.ready.1).priority, slotPriority, if_neg other] at high
  exact absurd high (by decide)

theorem Twin.next_busy (h : Twin s t l) (blocks : Blocks s l) (seats : Seats s) (some : ∃ i, i ≠ 0 ∧ ReadyAt s i) :
    nextProcess s ≠ s.idle := by
  obtain ⟨m, other, used, next⟩ := h.next_slot some
  rw [next, ← seats.idleSlot]
  exact fun same => other (blocks.apart m 0 .pcb .pcb used seats.used_zero used.2 same).1

theorem Twin.schedule (h : Twin s t l) (seats : Seats s) (states : States s) {rest : Rest}
    (left : rest = .back ∨ (s.pcb s.current).state = .terminated) :
    Twin (scheduleThen s rest) (scheduleThen t rest) l ∧
      (nextProcess (park s) ≠ s.idle → (scheduleThen s rest).current ≠ s.current →
        (scheduleThen t rest).esp0 = (scheduleThen s rest).esp0) := by
  have left' : rest = .back ∨ (t.pcb t.current).state = .terminated := by
    obtain ⟨i, used, here⟩ := states.current
    have state := (h.slots i used).basics.state
    rw [here] at state
    rwa [h.current, state]
  have parked := h.parked states
  rw [scheduleThen_eq seats states left, scheduleThen_eq (h.seats seats) (h.states seats states) left',
    parked.next, h.current]
  split
  next =>
    refine ⟨h.switch states rest _, fun busy _ => ?_⟩
    obtain ⟨m, used, here, -⟩ := park_next seats states
    have table := congrFun (park_sameSlots s).table m
    have other : m ≠ 0 := by
      rintro rfl
      exact busy (here.symm.trans (table.trans seats.idleSlot))
    have stack := (((parked.setState (nextProcess (park s)) .running).slots m used).fields other).kernelStack
    have same : ((park s).setState (nextProcess (park s)) .running).table m = nextProcess (park s) := here
    rw [same] at stack
    exact stack
  next =>
    refine ⟨parked.setState _ _, fun _ away => absurd ?_ away⟩
    exact park_current s

end Schedule

section Create

variable {s t s' t' : Processes} {l l' : List Seg} {p : Nat}

theorem Twin.touched (h : Twin s t l) (blocks : Blocks s l) (fresh : p ∉ pointers l) (touches : Touches p s s')
    (touches' : Touches p t t') (nextPid : t'.nextPid = s'.nextPid) (queues : ∀ b ∈ pointers l, s'.queue b = s.queue b)
    (queues' : ∀ b ∈ pointers l, t'.queue b = t.queue b) (tiled : Tiled t'.heap l') : Twin s' t' l' := by
  refine ⟨?_, ?_, nextPid, ?_, ?_, tiled, fun i used' => ?_⟩
  · rw [touches'.table, touches.table, h.table]
  · rw [touches'.count, touches.count, h.count]
  · rw [touches'.current, touches.current, h.current]
  · rw [touches'.idle, touches.idle, h.idle]
  · have used : Used s i := by
      rwa [Used, touches.table] at used'
    have away : s.table i ≠ p := fun same => fresh (same ▸ blocks.pcb_live used)
    have left := touches.pcbs _ away
    have right := touches'.pcbs _ away
    obtain ⟨basics, priority, rest, fields, queue⟩ := h.slots i used
    rw [touches.table]
    constructor
    · rwa [left, right]
    · rwa [left]
    · rwa [touches.rests _ away, touches'.rests _ away]
    · rwa [left, right]
    · intro other
      have live : (s.pcb (s.table i)).msgQueue ∈ pointers l := by
        have own : block s i .queue = (s.pcb (s.table i)).msgQueue := if_neg other
        rw [← own]
        exact blocks.live i .queue used (blocks.full i .queue used other)
      rw [left, queues _ live, queues' _ live]
      exact queue other

theorem Twin.enter (h : Twin s t l) {i : Nat} (new : SameSlot s t i p) :
    Twin { s with table := Function.update s.table i p, count := s.count + 1 }
      { t with table := Function.update t.table i p, count := t.count + 1 } l := by
  refine ⟨by rw [h.table], by rw [h.count], h.nextPid, h.current, h.idle, h.tiled, fun j used => ?_⟩
  by_cases mine : j = i
  · subst mine
    simp only [Function.update_self]
    exact ⟨new.basics, new.priority, new.rest, new.fields, new.queue⟩
  · have old : Used s j := by
      simpa only [Used, Function.update_of_ne mine] using used
    obtain ⟨basics, priority, rest, fields, queue⟩ := h.slots j old
    simp only [Function.update_of_ne mine]
    exact ⟨basics, priority, rest, fields, queue⟩

theorem prepared_slot {i : Nat} (zero : i ≠ 0) (nextPid : t.nextPid = s.nextPid)
    (stackBase : (t.pcb p).stackBase = (s.pcb p).stackBase) (heap heap' : KernelHeap) (q : Nat) (name : CStr)
    (entry : Nat) (stackSize : Word) :
    SameSlot (prepared s heap p q name entry stackSize) (prepared t heap' p q name entry stackSize) i p := by
  have pcb : ∀ (u : Processes) (heap : KernelHeap), (prepared u heap p q name entry stackSize).pcb p =
      { (initPcb u p name stackSize).pcb p with
        msgQueue := q
        pageDirectory := u.directory
        cpuState := startState entry
          ((((u.pcb p).stackBase + stackSize.toNat) % 2 ^ 32 + 2 ^ 32 - 4) % 2 ^ 32) } := by
    intro u heap
    simp [prepared, startProcess, Processes.pushEntry, Processes.setQueue, initPcb, Processes.setPcb]
  have queue : ∀ (u : Processes) (heap : KernelHeap),
      Outstanding ((prepared u heap p q name entry stackSize).queue q) [] := by
    intro u heap
    have empty : (prepared u heap p q name entry stackSize).queue q =
        { u.queue q with head := 0, tail := 0, count := 0 } := Function.update_self ..
    rw [empty]
    exact RingBuffer.holds_nil (by decide)
  have rest : ∀ (u : Processes) (heap : KernelHeap), (prepared u heap p q name entry stackSize).rest p = .back :=
    fun u heap => Function.update_self ..
  refine ⟨?_, ?_, (rest t heap').trans (rest s heap).symm, fun _ => ?_, fun _ => ⟨[], ?_⟩⟩
  · rw [pcb, pcb]
    constructor <;> simp [initPcb, nextPid, stackBase]
  · rw [pcb, slotPriority, if_neg zero]
    simp [initPcb]
  · rw [pcb, pcb]
    constructor <;> simp [initPcb, stackBase]
  · rw [pcb]
    exact ⟨queue s heap, queue t heap'⟩

theorem kmalloc_both (tiled : Tiled s.heap l) (tiled' : Tiled t.heap l) (size : Word) :
    s.kmalloc size = (s, 0) ∧ t.kmalloc size = (t, 0) ∨
      ∃ k k' p l', s.kmalloc size = ({ s with heap := k }, p) ∧ t.kmalloc size = ({ t with heap := k' }, p) ∧ p ≠ 0 ∧
        Tiled k l' ∧ Tiled k' l' ∧ p ∉ pointers l ∧ ∀ b, b ∈ pointers l' ↔ b = p ∨ b ∈ pointers l := by
  rw [Processes.kmalloc, Processes.kmalloc]
  rcases kmalloc_congr tiled tiled' size with ⟨failed, failed'⟩ | ⟨k, k', p, l', got, got', rest⟩
  · rw [failed, failed']
    exact Or.inl ⟨rfl, rfl⟩
  · rw [got, got']
    exact Or.inr ⟨k, k', p, l', rfl, rfl, rest⟩

theorem prepared_tiled {l2 : List Seg} {k : KernelHeap} {base q n : Nat} {stackSize : Word} (tiled : Tiled s.heap l)
    (got : Heap.kmalloc s.heap SIZEOF_MESSAGE_QUEUE = (k, q)) (tiled' : Tiled k l2)
    (block : (base, n) ∈ heapBlocks s.heap) (fits : StackFits stackSize) (large : stackSize.toNat ≤ n)
    (stackBase : (s.pcb p).stackBase = base) (name : CStr) (entry : Nat) :
    Tiled (prepared s k p q name entry stackSize).heap l2 := by
  rw [prepared_heap, stackBase]
  exact stackWord_stored tiled' (tiled.kmalloc_keeps got block) fits large _

theorem Twin.finish (h : Twin s t l) (kept : Kept s l) (room : s.count < MAX_PROCESSES) {s2 t2 : Processes}
    {l2 : List Seg} {base : Nat} (touches : Touches p s s2) (touches' : Touches p t t2)
    (nextPid : s2.nextPid = s.nextPid) (nextPid' : t2.nextPid = t.nextPid) (queue : s2.queue = s.queue)
    (queue' : t2.queue = t.queue) (tiled : Tiled s2.heap l2) (tiled' : Tiled t2.heap l2)
    (members : ∀ b, b ∈ pointers l2 ↔ b = base ∨ b = p ∨ b ∈ pointers l) (fresh : p ∉ pointers l)
    (apart : base ≠ p) (stackBase : (s2.pcb p).stackBase = base) (stackBase' : (t2.pcb p).stackBase = base)
    {stackSize : Word} (block : ∃ n, (base, n) ∈ heapBlocks s2.heap ∧ stackSize.toNat ≤ n) (fits : StackFits stackSize)
    (name : CStr) (entry : Nat) :
    (finishProcess t2 p name entry stackSize).2 = (finishProcess s2 p name entry stackSize).2 ∧
      ∃ l', Tiled (finishProcess s2 p name entry stackSize).1.heap l' ∧
        Twin (finishProcess s2 p name entry stackSize).1 (finishProcess t2 p name entry stackSize).1 l' := by
  have number : t2.nextPid = s2.nextPid := by
    rw [nextPid, nextPid', h.nextPid]
  have next : (t2.nextPid + 1) % 2 ^ 32 = (s2.nextPid + 1) % 2 ^ 32 := by
    rw [number]
  have filled := touches.initPcb name stackSize
  have filled' := touches'.initPcb name stackSize
  rcases kmalloc_both (s := initPcb s2 p name stackSize) (t := initPcb t2 p name stackSize) tiled tiled'
    SIZEOF_MESSAGE_QUEUE with ⟨failed, failed'⟩ | ⟨k, k', q, l3, got, got', there, tiled3, tiled3', fresh3, -⟩
  · rw [finishProcess_failed failed, finishProcess_failed failed', stackBase, stackBase']
    obtain ⟨l3, freed, freed', left⟩ := kfree_congr tiled tiled' ((members base).mpr (Or.inl rfl))
    obtain ⟨l4, freed4, freed4', -⟩ := kfree_congr freed freed'
      ((left p).mpr ⟨(members p).mpr (Or.inr (Or.inl rfl)), apart.symm⟩)
    refine ⟨rfl, l4, freed4, ?_⟩
    refine h.touched kept.blocks fresh ((filled.setPcb _).heap _) ((filled'.setPcb _).heap _) next ?_ ?_ freed4'
    · exact fun b _ => congrFun queue b
    · exact fun b _ => congrFun queue' b
  · have own : q ∉ pointers l := fun held => fresh3 ((members q).mpr (Or.inr (Or.inr held)))
    obtain ⟨n, block, large⟩ := block
    have block' : (base, n) ∈ heapBlocks t2.heap := tiled.heapBlocks_eq tiled' ▸ block
    have stored := prepared_tiled tiled (heap_kmalloc (s := initPcb s2 p name stackSize) got) tiled3 block fits large
      stackBase name entry
    have stored' := prepared_tiled tiled' (heap_kmalloc (s := initPcb t2 p name stackSize) got') tiled3' block' fits large
      stackBase' name entry
    have both : Twin (prepared s2 k p q name entry stackSize) (prepared t2 k' p q name entry stackSize) l3 := by
      refine h.touched kept.blocks fresh (prepared_touches touches k q name entry stackSize)
        (prepared_touches touches' k' q name entry stackSize) next ?_ ?_ stored'
      · intro b held
        have away : b ≠ q := fun same => own (same ▸ held)
        rw [← queue]
        exact Function.update_of_ne away ..
      · intro b held
        have away : b ≠ q := fun same => own (same ▸ held)
        rw [← queue']
        exact Function.update_of_ne away ..
    obtain ⟨i, found, lt, free, -⟩ := findSlot_null kept.seats room
    have zero : i ≠ 0 := by
      rintro rfl
      exact kept.seats.used_zero.2 free
    have search : ∀ u : Processes, u.table = s.table → u.findSlot (fun q => decide (q = 0)) = some i := by
      intro u same
      rw [← found, Processes.findSlot, Processes.findSlot, same]
    have new := prepared_slot zero number (stackBase'.trans stackBase.symm) k k' q name entry stackSize
    rw [finishProcess_prepared got there, finishProcess_prepared got' there, enterProcess, enterProcess,
      search _ (prepared_touches touches k q name entry stackSize).table,
      search _ ((prepared_touches touches' k' q name entry stackSize).table.trans h.table)]
    exact ⟨new.basics.pid, l3, stored, both.enter new⟩

theorem Twin.create (h : Twin s t l) (kept : Kept s l) (name : CStr) (entry : Nat) {stackSize : Word}
    (fits : StackFits stackSize) :
    (processCreate t name entry stackSize).2 = (processCreate s name entry stackSize).2 ∧
      ∃ l', Tiled (processCreate s name entry stackSize).1.heap l' ∧
        Twin (processCreate s name entry stackSize).1 (processCreate t name entry stackSize).1 l' := by
  by_cases room : MAX_PROCESSES ≤ s.count
  · have room' : MAX_PROCESSES ≤ t.count := by rwa [h.count]
    rw [processCreate_full room, processCreate_full room']
    exact ⟨rfl, l, kept.blocks.tiled, h⟩
  have room' : ¬MAX_PROCESSES ≤ t.count := by rwa [h.count]
  rcases kmalloc_both kept.blocks.tiled h.tiled SIZEOF_PROCESS with
    ⟨failed, failed'⟩ | ⟨k1, k1', p, l1, got, got', there, tiled1, tiled1', fresh, members⟩
  · rw [processCreate_noPcb room failed, processCreate_noPcb room' failed']
    exact ⟨rfl, l, kept.blocks.tiled, h⟩
  rcases kmalloc_both (s := { s with heap := k1 }) (t := { t with heap := k1' }) tiled1 tiled1' stackSize with
    ⟨failed, failed'⟩ | ⟨k2, k2', base, l2, got2, got2', there2, tiled2, tiled2', fresh2, members2⟩
  · rw [processCreate_noStack room got there failed, processCreate_noStack room' got' there failed']
    obtain ⟨l2, freed, freed', -⟩ := kfree_congr tiled1 tiled1' ((members p).mpr (Or.inl rfl))
    refine ⟨rfl, l2, freed, ?_⟩
    exact h.touched kept.blocks fresh ((((Touches.refl p s).heap k1).setPcb _).heap _)
      ((((Touches.refl p t).heap k1').setPcb _).heap _) h.nextPid (fun _ _ => rfl) (fun _ _ => rfl) freed'
  · rw [processCreate_finish room got there got2 there2, processCreate_finish room' got' there got2' there2]
    have apart : base ≠ p := fun clash => fresh2 ((members base).mpr (Or.inl clash))
    have all : ∀ b, b ∈ pointers l2 ↔ b = base ∨ b = p ∨ b ∈ pointers l := by
      intro b
      rw [members2, members]
    exact h.finish kept (Int.not_le.mp room) (((Touches.refl p s).heap k2).setPcb _)
      (((Touches.refl p t).heap k2').setPcb _) rfl rfl rfl rfl tiled2 tiled2' all fresh apart
      (by rw [setPcb_self]) (by rw [setPcb_self])
      (tiled1.kmalloc_large (heap_kmalloc (s := { s with heap := k1 }) got2) there2 fits.2) fits name entry

end Create

section Kill

variable {s t : Processes} {l : List Seg} {i : Nat}

theorem Twin.blocks (h : Twin s t l) (blocks : Blocks s l) : Blocks t l := by
  have same : ∀ {i}, Used s i → ∀ part, block t i part = block s i part := by
    intro i used part
    cases part with
    | pcb => exact congrFun h.table i
    | stack =>
      simp only [block, inSlot, h.table]
      exact (h.slots i used).basics.stackBase
    | queue =>
      simp only [block, inSlot, h.table]
      split
      next => rfl
      next other => exact ((h.slots i used).fields other).msgQueue
  refine ⟨h.tiled, ?_, ?_, ?_⟩
  · intro i part used there
    rw [same (h.used.mp used)] at there ⊢
    exact blocks.live i part (h.used.mp used) there
  · intro i j part part' usedi usedj there equal
    rw [same (h.used.mp usedi)] at there equal
    rw [same (h.used.mp usedj)] at equal
    exact blocks.apart i j part part' (h.used.mp usedi) (h.used.mp usedj) there equal
  · intro i part used other
    rw [same (h.used.mp used)]
    exact blocks.full i part (h.used.mp used) other

theorem Twin.cleanup (h : Twin s t l) (blocks : Blocks s l) (used : Used s i) (zero : i ≠ 0) :
    ∃ l', Tiled (cleanup s i (s.table i)).heap l' ∧ Twin (cleanup s i (s.table i)) (cleanup t i (s.table i)) l' := by
  obtain ⟨l', buried⟩ := cleanup_buried blocks used zero
  obtain ⟨l'', buried'⟩ := cleanup_buried (h.blocks blocks) (h.used.mpr used) zero
  rw [h.table] at buried'
  obtain ⟨basics, -, -, fields, -⟩ := h.slots i used
  obtain ⟨⟨pcb, stack, queue⟩, ⟨stackPcb, queuePcb, queueStack⟩, there⟩ := blocks.three used zero
  obtain ⟨l1, tiled1, tiled1', members1⟩ := kfree_congr blocks.tiled h.tiled stack
  obtain ⟨l2, tiled2, tiled2', members2⟩ := kfree_congr tiled1 tiled1' ((members1 _).mpr ⟨queue, queueStack⟩)
  obtain ⟨l3, tiled3, tiled3', -⟩ := kfree_congr tiled2 tiled2'
    ((members2 _).mpr ⟨(members1 _).mpr ⟨pcb, stackPcb.symm⟩, queuePcb.symm⟩)
  rw [inSlot] at there
  have heap' : Tiled (Process.cleanup t i (s.table i)).heap l3 := by
    rw [cleanup_heap (by rw [(fields zero).msgQueue]; exact there), (fields zero).msgQueue, basics.stackBase]
    exact tiled3'
  refine ⟨l3, by rw [cleanup_heap there]; exact tiled3, ?_, ?_, ?_, ?_, ?_, heap', fun j used' => ?_⟩
  · rw [buried'.table, buried.table, h.table]
  · rw [buried'.count, buried.count, h.count]
  · rw [buried'.nextPid, buried.nextPid, h.nextPid]
  · rw [buried'.current, buried.current, h.current]
  · rw [buried'.idle, buried.idle, h.idle]
  · rw [Used, buried.table] at used'
    have away : j ≠ i := by
      rintro rfl
      exact used'.2 (Function.update_self ..)
    rw [Function.update_of_ne away] at used'
    obtain ⟨basics, priority, rest, fields, queues⟩ := h.slots j used'
    rw [buried.table, Function.update_of_ne away]
    refine ⟨?_, ?_, ?_, ?_, ?_⟩
    · rwa [buried.pcb, buried'.pcb]
    · rwa [buried.pcb]
    · rwa [buried.rest, buried'.rest]
    · rwa [buried.pcb, buried'.pcb]
    · have kept := (only_goOn (K := fun _ => True) s (s.table i) (.cleanup i)).queue
      have kept' := (only_goOn (K := fun _ => True) t (s.table i) (.cleanup i)).queue
      rw [goOn] at kept kept'
      rwa [buried.pcb, kept, kept']

end Kill

section Calls

variable {s t : Processes} {l l' : List Seg}

/-- The two machines, as far as the calls can tell. -/
def Related (s t : Processes) : Prop := ∃ l, Kept s l ∧ Twin s t l

theorem related_of_tiled (kept : Kept s l) (twin : Twin s t l') (tiled : Tiled s.heap l') : Related s t := by
  obtain rfl := kept.blocks.tiled.unique tiled
  exact ⟨l, kept, twin⟩

theorem Related.shown_eq (h : Related s t) {call : Call} (next : Related (s.call call).1 (t.call call).1)
    (result : (t.call call).2 = (s.call call).2)
    (stack : (s.call call).1.current ≠ s.current → (t.call call).1.esp0 = (s.call call).1.esp0) :
    s.shown call = t.shown call := by
  obtain ⟨l, -, twin⟩ := h
  obtain ⟨l', -, twin'⟩ := next
  rw [Processes.shown, Processes.shown, result, twin'.current, twin.current]
  by_cases stay : (s.call call).1.current = s.current
  · simp only [if_pos stay]
  · simp only [if_neg stay, stack stay]

theorem schedule_busy (kept : Kept s l) (twin : Twin s t l)
    (away : (scheduleThen s .back).current ≠ s.current) : nextProcess (park s) ≠ s.idle := by
  have same := park_sameSlots s
  by_cases idle : s.current = s.idle
  · rw [scheduleThen_current kept.seats kept.states (Or.inl rfl), idle] at away
    exact away
  · obtain ⟨c, used, here⟩ := kept.states.current
    have other : c ≠ 0 := by
      rintro rfl
      exact idle (here.symm.trans kept.seats.idleSlot)
    have runs : s.current ≠ 0 ∧ (s.pcb s.current).state = .running := ⟨here ▸ used.2, kept.awake.resolve_left idle⟩
    have ready : ReadyAt (park s) c := by
      refine ⟨same.used.mpr used, ?_⟩
      rw [inSlot, same.table, here, park, if_pos runs, setState_self]
    have busy := (twin.parked kept.states).next_busy (kept.blocks.congr same) (kept.seats.congr same) ⟨c, other, ready⟩
    rwa [same.idle] at busy

theorem Related.schedule (h : Related s t) : Related (processSchedule s) (processSchedule t) ∧
    ((processSchedule s).current ≠ s.current → (processSchedule t).esp0 = (processSchedule s).esp0) := by
  obtain ⟨l, kept, twin⟩ := h
  obtain ⟨next, stack⟩ := twin.schedule kept.seats kept.states (Or.inl (Eq.refl Rest.back))
  exact ⟨⟨l, Kept.schedule kept.seats kept.idlePid kept.blocks kept.states (Or.inl rfl), next⟩,
    fun away => stack (schedule_busy kept twin away) away⟩

theorem Related.suspend (h : Related s t) (busy : s.current ≠ s.idle) (some : ∃ j, j ≠ 0 ∧ ReadyAt s j) (rest : Rest) :
    Related (scheduleThen (s.setState s.current .terminated) rest)
        (scheduleThen (t.setState t.current .terminated) rest) ∧
      ((scheduleThen (s.setState s.current .terminated) rest).current ≠ s.current →
        (scheduleThen (t.setState t.current .terminated) rest).esp0 =
          (scheduleThen (s.setState s.current .terminated) rest).esp0) := by
  obtain ⟨l, kept, twin⟩ := h
  have same := sameSlots_setState s s.current .terminated
  have seats := kept.seats.congr same
  have blocks := kept.blocks.congr same
  have states : States (s.setState s.current .terminated) :=
    kept.states.stopped kept.alive (Ne.symm busy) { s.pcb s.current with state := .terminated }
  have idlePid : ((s.setState s.current .terminated).pcb (s.setState s.current .terminated).idle).pid = 0 := by
    rw [same.idle, (same.process _).pid]
    exact kept.idlePid
  have left : rest = .back ∨ ((s.setState s.current .terminated).pcb
      (s.setState s.current .terminated).current).state = .terminated := Or.inr (setState_self ..)
  have both := twin.setState s.current .terminated
  have parked := park_sameSlots (s.setState s.current .terminated)
  rw [twin.current]
  obtain ⟨next, stack⟩ := both.schedule seats states left
  refine ⟨⟨l, Kept.schedule seats idlePid blocks states left, next⟩, stack ?_⟩
  -- the process that was ready before is still ready, since the current one was running
  obtain ⟨j, other, used, ready⟩ := some
  have away : s.table j ≠ s.current := by
    intro here
    rw [inSlot, here, kept.awake.resolve_left busy] at ready
    exact absurd ready (by decide)
  have still : ReadyAt (park (s.setState s.current .terminated)) j := by
    refine ⟨parked.used.mpr (same.used.mpr used), ?_⟩
    rw [inSlot, parked.table, same.table]
    rcases park_state (s.setState s.current .terminated) (s.table j) with kept | ⟨clash, -⟩
    · rw [kept, setState_other s away]
      exact ready
    · exact absurd clash away
  have next := (both.parked states).next_busy (blocks.congr parked) (seats.congr parked) ⟨j, other, still⟩
  rwa [parked.idle] at next

theorem Related.kill (h : Related s t) {pid : Nat} (ok : Avoids s (.processKill pid)) :
    Related (processKill s pid) (processKill t pid) ∧
      ((processKill s pid).current ≠ s.current → (processKill t pid).esp0 = (processKill s pid).esp0) := by
  have stays : Related s t ∧ (s.current ≠ s.current → t.esp0 = s.esp0) := ⟨h, fun away => absurd rfl away⟩
  obtain ⟨l, kept, twin⟩ := h
  rw [processKill, processKill, twin.slotOf, twin.table, twin.current]
  split
  next => exact stays
  next nonzero =>
    cases found : s.slotOf pid with
    | none => exact stays
    | some i =>
      obtain ⟨used, named⟩ := slotOf_some found
      have zero : i ≠ 0 := kept.slot_ne_zero (named ▸ nonzero)
      simp only []
      split
      next here =>
        have busy : s.current ≠ s.idle := by
          rw [← here, ← kept.seats.idleSlot]
          exact fun same => zero (kept.blocks.apart i 0 .pcb .pcb used kept.seats.used_zero used.2 same).1
        have done := Related.suspend ⟨l, kept, twin⟩ busy (ok nonzero i found here) (.cleanup i)
        rw [twin.current] at done
        exact done
      next other =>
        obtain ⟨l', buried⟩ := cleanup_buried kept.blocks used zero
        obtain ⟨l'', tiled, next⟩ := twin.cleanup kept.blocks used zero
        refine ⟨related_of_tiled (kept.turnover (buried.turnover kept.seats kept.blocks used zero other)) next tiled,
          fun away => absurd buried.current away⟩

/-- One call: both machines show the same, and are as alike as before. -/
theorem Related.call (h : Related s t) {call : Call} (ok : Avoids s call) :
    s.shown call = t.shown call ∧ Related (s.call call).1 (t.call call).1 := by
  obtain ⟨l, kept, twin⟩ := h
  have related : Related s t := ⟨l, kept, twin⟩
  have stack : ∀ {u v : Processes}, u.current = s.current → u.current ≠ s.current → v.esp0 = u.esp0 :=
    fun same away => absurd same away
  cases call with
  | processCreate name entry stackSize =>
    obtain ⟨l', kept'⟩ := kept.create name entry ok
    obtain ⟨code, l'', tiled, twin'⟩ := twin.create kept name entry ok
    have next := related_of_tiled kept' twin' tiled
    refine ⟨related.shown_eq next ?_ (stack (processCreate_current kept name entry ok)), next⟩
    simp only [Processes.call, code]
  | processSendMessage target message length =>
    have calm := processSendMessage_calm s target message length
    obtain ⟨code, twin'⟩ := twin.send kept ok
    have next : Related _ _ := ⟨l, kept.calm calm, twin'⟩
    refine ⟨related.shown_eq next ?_ (stack calm.current), next⟩
    simp only [Processes.call, code]
  | processReceiveMessage buffer maxLength =>
    have calm := processReceiveMessage_calm s buffer maxLength
    obtain ⟨code, twin'⟩ := twin.receive kept buffer maxLength ok
    have next : Related _ _ := ⟨l, kept.calm calm, twin'⟩
    refine ⟨related.shown_eq next ?_ (stack calm.current), next⟩
    simp only [Processes.call, code]
  | processWake pid =>
    have calm := processWake_calm s pid
    obtain ⟨code, twin'⟩ := twin.wake pid
    have next : Related _ _ := ⟨l, kept.calm calm, twin'⟩
    refine ⟨related.shown_eq next ?_ (stack calm.current), next⟩
    simp only [Processes.call, code]
  | processKill pid =>
    obtain ⟨next, same⟩ := related.kill ok
    exact ⟨related.shown_eq next rfl same, next⟩
  | processSchedule =>
    obtain ⟨next, same⟩ := related.schedule
    exact ⟨related.shown_eq next rfl same, next⟩

end Calls

section Init

variable {s t : Processes} {l : List Seg}

theorem startIdle_twin (empty : ∀ i < MAX_PROCESSES, s.table i = 0) (table : t.table = s.table)
    (nextPid : t.nextPid = s.nextPid) (idle : t.idle = s.idle) (p base entry : Nat)
    (tiled : Tiled (startIdle t p base entry).heap l) :
    Twin (startIdle s p base entry) (startIdle t p base entry) l := by
  obtain ⟨tableS, countS, nextPidS, currentS, idleS, restS, -⟩ := startIdle_fields s p base entry
  obtain ⟨tableT, countT, nextPidT, currentT, idleT, restT, -⟩ := startIdle_fields t p base entry
  obtain ⟨pidS, stateS, priorityS, stackBaseS, -⟩ := startIdle_pcb s p base entry
  obtain ⟨pidT, stateT, priorityT, stackBaseT, -⟩ := startIdle_pcb t p base entry
  refine ⟨by rw [tableS, tableT, table], countT.trans countS.symm, by rw [nextPidS, nextPidT, nextPid],
    currentT.trans currentS.symm, by rw [idleS, idleT, idle], tiled, fun i used => ?_⟩
  rw [Used, tableS] at used
  by_cases zero : i = 0
  · subst zero
    rw [tableS, Function.update_self]
    refine ⟨⟨pidT.trans pidS.symm, stateT.trans stateS.symm, priorityT.trans priorityS.symm,
      stackBaseT.trans stackBaseS.symm⟩, priorityS, ?_, fun other => absurd rfl other, fun other => absurd rfl other⟩
    rw [restS, restT, Function.update_self, Function.update_self]
  · rw [Function.update_of_ne zero] at used
    exact absurd (empty i used.1) used.2

theorem processInit_eq {k : KernelHeap} {p base : Nat} {u : Processes} (entry : Nat)
    (got : s.clearTable.kmalloc SIZEOF_PROCESS = ({ s.clearTable with heap := k }, p)) (there : p ≠ 0)
    (got' : { s.clearTable with heap := k, idle := p }.kmalloc 4096 = (u, base)) :
    processInit s entry = startIdle u p base entry := by
  rw [processInit, got]
  simp only [if_neg there]
  rw [got']

theorem processInit_related (boot : Boot s) (same : SameKernel s t) (entry : Nat) :
    Related (processInit s entry) (processInit t entry) := by
  obtain ⟨l', kept⟩ := processInit_kept boot entry
  obtain ⟨l0, tiled, tiled'⟩ := same.heap
  have empty : ∀ i < MAX_PROCESSES, s.clearTable.table i = 0 := fun i lt => if_pos lt
  have table : t.clearTable.table = s.clearTable.table := by
    simp only [Processes.clearTable, same.table]
  rcases kmalloc_both (s := s.clearTable) (t := t.clearTable) tiled tiled' SIZEOF_PROCESS with
    ⟨failed, -⟩ | ⟨k, k', p, l1, got, got', there, tiled1, tiled1', -, -⟩
  · exact absurd (congrArg Prod.snd failed) boot.room
  rcases kmalloc_both (s := { s.clearTable with heap := k, idle := p })
    (t := { t.clearTable with heap := k', idle := p }) tiled1 tiled1' 4096 with
    ⟨failed, failed'⟩ | ⟨k2, k2', base, l2, got2, got2', there2, tiled2, tiled2', -, -⟩
  · rw [processInit_eq entry got there failed] at kept ⊢
    rw [processInit_eq entry got' there failed']
    have stack {heap : KernelHeap} : (0 : Nat) ≠ 0 → ∃ n, (0, n) ∈ heapBlocks heap ∧ 4096 ≤ n := absurd rfl
    exact related_of_tiled kept (startIdle_twin (s := { s.clearTable with heap := k, idle := p })
      (t := { t.clearTable with heap := k', idle := p }) empty table same.nextPid rfl p 0 entry
      (startIdle_tiled (s := { t.clearTable with heap := k', idle := p }) tiled1' entry stack))
      (startIdle_tiled (s := { s.clearTable with heap := k, idle := p }) tiled1 entry stack)
  · rw [processInit_eq entry got there got2] at kept ⊢
    rw [processInit_eq entry got' there got2']
    have block := tiled1.kmalloc_large (heap_kmalloc (s := { s.clearTable with heap := k, idle := p }) got2) there2
      (by decide)
    have block' := tiled1'.kmalloc_large (heap_kmalloc (s := { t.clearTable with heap := k', idle := p }) got2') there2
      (by decide)
    exact related_of_tiled kept (startIdle_twin (s := { s.clearTable with heap := k2, idle := p })
      (t := { t.clearTable with heap := k2', idle := p }) empty table same.nextPid rfl p base entry
      (startIdle_tiled (s := { t.clearTable with heap := k2', idle := p }) tiled2' entry fun _ => block'))
      (startIdle_tiled (s := { s.clearTable with heap := k2, idle := p }) tiled2 entry fun _ => block)

end Init

/-- Two machines with other contents in the memory that `kmalloc` hands out show the same:
in every run from `process_init` on in which no call reads what is not set, the results, the
current processes and the kernel stacks are those of the other machine. -/
theorem runs_hide_stale_memory (s t u : Processes) (entry : Nat) (calls : List Call) (boot : Boot s)
    (same : SameKernel s t)
    (run : Exec Avoids (fun s call => (s.call call).1) (processInit s entry) calls u) :
    seen Processes.shown (fun s call => (s.call call).1) (processInit s entry) calls =
      seen Processes.shown (fun s call => (s.call call).1) (processInit t entry) calls :=
  run.seen_eq (fun _ _ _ related ok => related.call ok) (processInit_related boot same entry)

/-- At boot, with another number in memory where the idle process gets its message queue. -/
def staleQueue : Processes := { powerOn with pcb := fun p => { powerOn.pcb p with msgQueue := 0x00300000 } }

theorem staleQueue_same : SameKernel powerOn staleQueue := ⟨rfl, rfl, _, heapInit_tiled _, heapInit_tiled _⟩

/-- Two processes; one sends a message to the other and kills itself, and the other one
receives it. -/
theorem runs_hide_stale_memory_message :
    let calls : List Call := [.processCreate taskName 0x2000 4096, .processCreate taskName 0x3000 4096, .processSchedule,
      .processSendMessage 1 (some fun _ => 7) 3, .processKill 2, .processReceiveMessage true 8]
    seen Processes.shown (fun s call => (s.call call).1) (processInit powerOn 0x1000) calls =
      seen Processes.shown (fun s call => (s.call call).1) (processInit staleQueue 0x1000) calls := by
  refine runs_hide_stale_memory powerOn staleQueue _ 0x1000 _ powerOn_boot staleQueue_same
    (.cons ⟨by decide, by decide⟩ (.cons ⟨by decide, by decide⟩ (.cons trivial
      (.cons (Or.inl (by decide)) (.cons ?_ (.cons ?_ (.nil _)))))))
  · intro _ i _ _
    exact ⟨1, by decide, by unfold ReadyAt; decide +kernel⟩
  · unfold Avoids
    decide +kernel

/-- A message to pid 0: what it returns is decided by what was in memory. -/
theorem stale_queue_shows : Boot powerOn ∧ SameKernel powerOn staleQueue ∧
    seen Processes.shown (fun s call => (s.call call).1) (processInit powerOn 0x1000)
        [.processSendMessage 0 (some fun _ => 7) 1] ≠
      seen Processes.shown (fun s call => (s.call call).1) (processInit staleQueue 0x1000)
        [.processSendMessage 0 (some fun _ => 7) 1] := by
  refine ⟨powerOn_boot, staleQueue_same, fun same => ?_⟩
  have codes := congrArg (List.map fun x => x.result.map Result.code) same
  exact absurd codes (by decide +kernel)

end Wittche.Process
