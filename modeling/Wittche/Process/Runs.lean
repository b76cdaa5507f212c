import Wittche.Process.Create
import Wittche.Process.Exit

/-! Runs of process calls from `process_init` on, in any order, with timer ticks and other
users of the kernel heap in between. Every call is made by the current process. -/

namespace Wittche.Process
open Bytes CString Heap Segments Execution

inductive ProcessOp
  | processCreate (name : CStr) (entry : Nat) (stackSize : Word)
  | processCreateWithPriority (name : CStr) (entry : Nat) (stackSize : Word) (priority : Nat)
  | processKill (pid : Nat)
  | processExit
  | processSleep (ms : Nat)
  | processWake (pid : Nat)
  | processCheckSleeping
  | processSetPriority (pid priority : Nat)
  | processSendMessage (target : Nat) (message : Option Buffer) (length : Nat)
  | processReceiveMessage (buffer : Bool) (maxLength : Nat)
  | processSchedule
  | processYield
  | tick (ticks : Nat)
  | kmalloc (size : Word)
  | kfree (p : Nat)

def Processes.step (s : Processes) : ProcessOp → Processes
  | .processCreate name entry stackSize => (processCreate s name entry stackSize).1
  | .processCreateWithPriority name entry stackSize priority =>
    (processCreateWithPriority s name entry stackSize priority).1
  | .processKill pid => processKill s pid
  | .processExit => processExit s
  | .processSleep ms => processSleep s ms
  | .processWake pid => (processWake s pid).1
  | .processCheckSleeping => processCheckSleeping s
  | .processSetPriority pid priority => (processSetPriority s pid priority).1
  | .processSendMessage target message length => (processSendMessage s target message length).1
  | .processReceiveMessage buffer maxLength => (processReceiveMessage s buffer maxLength).1
  | .processSchedule => processSchedule s
  | .processYield => processYield s
  | .tick ticks => { s with ticks := ticks }
  | .kmalloc size => (s.kmalloc size).1
  | .kfree p => s.kfree p

/-- Other users of the heap free what is theirs. New processes have room on their stacks, and
the idle process, whose `msg_queue` is never set, sends nothing through it and gets nothing. -/
def Processes.allowed (s : Processes) : ProcessOp → Prop
  | .processCreate _ _ stackSize => StackFits stackSize
  | .processCreateWithPriority _ _ stackSize _ => StackFits stackSize
  | .processSendMessage target message length => target ≠ 0 ∨ message = none ∨ length = 0 ∨ MAX_MESSAGE_SIZE < length
  | .processReceiveMessage _ _ => s.current ≠ s.idle
  | .kfree p => p = 0 ∨ Allocated s.heap p ∧ ∀ i part, Used s i → block s i part ≠ p
  | _ => True

def ProcessOp.creations : ProcessOp → Nat
  | .processCreate .. => 1
  | .processCreateWithPriority .. => 1
  | _ => 0

def ProcessOp.kills : ProcessOp → Nat → Prop
  | .processKill pid => (· = pid)
  | _ => fun _ => False

def creations (ops : List ProcessOp) : Nat := (ops.map ProcessOp.creations).sum

theorem creations_append (ops ops' : List ProcessOp) :
    creations (ops ++ ops') = creations ops + creations ops' := by
  rw [creations, List.map_append, List.sum_append, creations, creations]

section Step

variable {s t : Processes}

theorem Inv.heap_moved (inv : Inv s) {l l' : List Seg} {heap : KernelHeap} (blocks : Blocks s l)
    (tiled : Tiled heap l')
    (kept : ∀ i part, Used s i → block s i part ∈ pointers l → block s i part ∈ pointers l') :
    Moved (fun _ => False) 0 s { s with heap := heap } := by
  obtain ⟨slots, -, states, alive⟩ := inv
  refine ⟨⟨⟨slots.idleSlot, slots.idleThere, slots.idlePid, slots.pids, slots.pidLt, slots.priorities,
    slots.count⟩, ⟨l', tiled, ?_, blocks.apart, blocks.full⟩,
    ⟨states.idleAlive, states.current, states.running, states.rest⟩, alive⟩,
    ⟨Nat.le_refl _, fun i used _ => ⟨used, rfl, id⟩⟩, Nat.le_refl _, fun i used _ => ⟨used, rfl, .refl _, id⟩⟩
  exact fun i part used there => kept i part used (blocks.live i part used there)

theorem kmalloc_moved (inv : Inv s) (size : Word) : Moved (fun _ => False) 0 s (s.kmalloc size).1 := by
  obtain ⟨l, blocks⟩ := inv.blocks
  rcases kmalloc_cases blocks.tiled size with failed | ⟨heap, p, l', got, -, tiled, -, members⟩
  · rw [failed]
    exact .refl inv
  · rw [got]
    exact inv.heap_moved blocks tiled fun i part _ held => (members _).mpr (Or.inr held)

theorem kfree_moved (inv : Inv s) {p : Nat} (ok : s.allowed (.kfree p)) :
    Moved (fun _ => False) 0 s (s.kfree p) := by
  obtain ⟨l, blocks⟩ := inv.blocks
  rcases ok with rfl | ⟨⟨l', tiled', live⟩, foreign⟩
  · exact .refl inv
  · obtain rfl := tiled'.unique blocks.tiled
    obtain ⟨l'', tiled, members⟩ := kfree_live blocks.tiled live
    exact inv.heap_moved blocks tiled fun i part used held => (members _).mpr ⟨held, foreign i part used⟩

/-- What one call can do. -/
theorem step_moved (inv : Inv s) {op : ProcessOp} (few : s.nextPid + op.creations < 2 ^ 32)
    (ok : s.allowed op) : Moved op.kills op.creations s (s.step op) := by
  cases op with
  | processCreate name entry stackSize => exact processCreate_moved inv few name entry ok
  | processCreateWithPriority name entry stackSize priority =>
    exact processCreateWithPriority_moved inv few name entry ok priority
  | processKill pid => exact processKill_moved inv pid
  | processExit => exact processExit_moved inv
  | processSleep ms => exact processSleep_moved inv ms
  | processWake pid => exact (processWake_calm s pid).moved inv
  | processCheckSleeping => exact (processCheckSleeping_calm s).moved inv
  | processSetPriority pid priority => exact (processSetPriority_calm s pid priority).moved inv
  | processSendMessage target message length => exact (processSendMessage_calm s target message length).moved inv
  | processReceiveMessage buffer maxLength => exact (processReceiveMessage_calm s buffer maxLength).moved inv
  | processSchedule => exact processSchedule_moved inv
  | processYield => exact processSchedule_moved inv
  | tick ticks => exact (calm_timer s ticks).moved inv
  | kmalloc size => exact kmalloc_moved inv size
  | kfree p => exact kfree_moved inv ok

/-- What a whole run can do, as long as the pids last. -/
theorem run_moved {ops : List ProcessOp} (run : Exec Processes.allowed Processes.step s ops t) (inv : Inv s)
    (few : s.nextPid + creations ops < 2 ^ 32) :
    Moved (fun pid => ∃ op ∈ ops, op.kills pid) (creations ops) s t := by
  induction run with
  | nil s => exact (Moved.refl inv).mono (fun _ => False.elim) (Nat.le_refl 0)
  | @cons s op ops t ok _ ih =>
    have total : creations (op :: ops) = op.creations + creations ops := List.sum_cons
    rw [total] at few ⊢
    have first := step_moved inv (by omega) ok
    have pids := first.pids
    refine (first.trans (ih first.inv (by omega))).mono ?_ (Nat.le_refl _)
    rintro pid (hit | ⟨op', inside, hit⟩)
    · exact ⟨op, List.mem_cons_self, hit⟩
    · exact ⟨op', List.mem_cons_of_mem _ inside, hit⟩

end Step

/-- `process.c` before `process_init`, with room in the heap for the idle process. -/
structure Boot (s : Processes) : Prop where
  nextPid : s.nextPid = 1
  tiled : ∃ l, Tiled s.heap l
  room : (Heap.kmalloc s.heap SIZEOF_PROCESS).2 ≠ 0

/-- The table that `process_init` leaves: the idle process, with or without a stack. -/
structure Started (t : Processes) (l : List Seg) (p base : Nat) : Prop where
  nextPid : t.nextPid = 1
  slot : t.table 0 = p
  empty : ∀ i < MAX_PROCESSES, i ≠ 0 → t.table i = 0
  idle : t.idle = p
  current : t.current = p
  count : t.count = 1
  rest : t.rest p = .back
  pid : (t.pcb p).pid = 0
  state : (t.pcb p).state = .ready
  priority : (t.pcb p).priority = 0
  stackBase : (t.pcb p).stackBase = base
  tiled : Tiled t.heap l
  there : p ≠ 0
  pcb : p ∈ pointers l
  stack : base ≠ 0 → base ∈ pointers l ∧ base ≠ p

theorem Started.inv {t : Processes} {l : List Seg} {p base : Nat} (h : Started t l p base) : Inv t := by
  have only : ∀ {i}, Used t i → i = 0 := fun {i} used => by_contra fun other => used.2 (h.empty i used.1 other)
  have here : inSlot t 0 = t.pcb p := by rw [inSlot, h.slot]
  have used0 : Used t 0 := ⟨by decide, by rw [h.slot]; exact h.there⟩
  refine ⟨⟨?_, ?_, ?_, ?_, ?_, ?_, ?_⟩, ⟨l, h.tiled, ?_, ?_, ?_⟩, ⟨?_, ⟨0, used0, ?_⟩, ?_, ?_⟩, ?_⟩
  · rw [h.slot, h.idle]
  · rw [h.idle]
    exact h.there
  · rw [h.idle, h.pid]
  · exact fun i j usedi usedj _ => (only usedi).trans (only usedj).symm
  · intro i used
    rw [only used, here, h.pid, h.nextPid]
    decide
  · intro i used
    rw [only used, here, h.priority]
    decide
  · have single : usedSlots t = {0} := by
      ext i
      rw [mem_usedSlots, Finset.mem_singleton]
      exact ⟨only, fun zero => zero ▸ used0⟩
    rw [h.count, single, Finset.card_singleton]
    rfl
  · intro i part used
    rw [only used]
    cases part with
    | pcb =>
      intro _
      simpa only [block, h.slot] using h.pcb
    | stack =>
      simp only [block, here, h.stackBase]
      exact fun there => (h.stack there).1
    | queue => exact fun there => absurd rfl there
  · intro i j part part' usedi usedj
    rw [only usedi, only usedj]
    have pcb : block t 0 .pcb = p := h.slot
    have stack : block t 0 .stack = base := by rw [block, here, h.stackBase]
    have queue : block t 0 .queue = 0 := rfl
    have differ : base ≠ 0 → base ≠ p := fun there => (h.stack there).2
    cases part <;> cases part' <;> simp only [pcb, stack, queue] <;> intro there same
    · trivial
    · exact absurd same.symm (differ (same ▸ there))
    · exact absurd same there
    · exact absurd same (differ there)
    · trivial
    · exact absurd same there
    all_goals exact absurd rfl there
  · exact fun i part used zero => absurd (only used) zero
  · rw [h.idle]
    exact Or.inl h.state
  · rw [h.slot, h.current]
  · intro i used away
    rw [only used, h.slot, h.current] at away
    exact absurd rfl away
  · intro i used _
    rw [only used, h.slot, h.rest]
  · rw [h.current, h.state]
    decide

theorem startIdle_heap (s : Processes) (p base entry : Nat) : (startIdle s p base entry).heap =
    s.heap.store ((base + 4096 + 2 ^ 32 - 4) % 2 ^ 32) (BitVec.ofNat 32 entry) := by
  rw [startIdle, Processes.pushEntry, Processes.setPcb]

theorem startIdle_fields (s : Processes) (p base entry : Nat) :
    (startIdle s p base entry).table = Function.update s.table 0 p ∧ (startIdle s p base entry).count = 1 ∧
      (startIdle s p base entry).nextPid = s.nextPid ∧ (startIdle s p base entry).current = p ∧
      (startIdle s p base entry).idle = s.idle ∧ (startIdle s p base entry).rest = Function.update s.rest p .back ∧
      (startIdle s p base entry).directory = s.directory ∧ (startIdle s p base entry).ticks = s.ticks := by
  rw [startIdle, Processes.pushEntry]
  generalize KernelHeap.store _ _ _ = heap
  exact ⟨rfl, rfl, rfl, rfl, rfl, rfl, rfl, rfl⟩

theorem startIdle_pcb (s : Processes) (p base entry : Nat) :
    ((startIdle s p base entry).pcb p).pid = 0 ∧ ((startIdle s p base entry).pcb p).state = .ready ∧
      ((startIdle s p base entry).pcb p).priority = 0 ∧ ((startIdle s p base entry).pcb p).stackBase = base ∧
      ((startIdle s p base entry).pcb p).pageDirectory = s.directory := by
  simp only [startIdle, Processes.pushEntry, Processes.setPcb, Function.update_self, and_self]

/-- The word on the stack of the idle process is in its block. Without a block it is in front of
the heap. -/
theorem startIdle_tiled {s : Processes} {l : List Seg} {p base : Nat} (tiled : Tiled s.heap l) (entry : Nat)
    (stack : base ≠ 0 → ∃ n, (base, n) ∈ heapBlocks s.heap ∧ 4096 ≤ n) : Tiled (startIdle s p base entry).heap l := by
  rw [startIdle_heap]
  refine tiled.store _ ?_
  by_cases none : base = 0
  · left
    rw [none]
    decide
  · right
    obtain ⟨n, block, large⟩ := stack none
    obtain ⟨-, low, high⟩ := tiled.pointer_bounds (tiled.allocated_iff.mp block.1)
    have size : n = payloadSize s.heap base := block.2
    refine ⟨base, n, block, ?_⟩
    simp only [HEAP_START, HEAP_END, HEAP_SIZE] at low high
    omega

theorem startIdle_started {s : Processes} {l : List Seg} {p base : Nat} (nextPid : s.nextPid = 1)
    (empty : ∀ i < MAX_PROCESSES, s.table i = 0) (idle : s.idle = p) (there : p ≠ 0)
    (pcb : p ∈ pointers l) (stack : base ≠ 0 → base ∈ pointers l ∧ base ≠ p) (entry : Nat)
    (tiled : Tiled (startIdle s p base entry).heap l) :
    Started (startIdle s p base entry) l p base := by
  obtain ⟨table, count, number, current, idle', rest, -⟩ := startIdle_fields s p base entry
  obtain ⟨pid, state, priority, stackBase, -⟩ := startIdle_pcb s p base entry
  refine ⟨number.trans nextPid, ?_, fun i lt other => ?_, idle'.trans idle, current, count, ?_, pid, state, priority,
    stackBase, tiled, there, pcb, stack⟩
  · rw [table, Function.update_self]
  · rw [table, Function.update_of_ne other]
    exact empty i lt
  · rw [rest, Function.update_self]

theorem processInit_started {s : Processes} (boot : Boot s) (entry : Nat) :
    ∃ l p base, Started (processInit s entry) l p base := by
  obtain ⟨l, tiled⟩ := boot.tiled
  have empty : ∀ i < MAX_PROCESSES, s.clearTable.table i = 0 := fun i lt => if_pos lt
  rw [processInit]
  rcases kmalloc_cases (s := s.clearTable) tiled SIZEOF_PROCESS with
    failed | ⟨h1, p, l1, got, nonzero, tiled1, -, members⟩
  · exact absurd (congrArg Prod.snd failed) boot.room
  have own : p ∈ pointers l1 := (members p).mpr (Or.inl rfl)
  rw [got]
  simp only [if_neg nonzero]
  rcases kmalloc_cases (s := { s.clearTable with heap := h1, idle := p }) tiled1 4096 with
    failed | ⟨h2, base, l2, got', there, tiled2, fresh, members'⟩
  · rw [failed]
    exact ⟨l1, p, 0, startIdle_started (s := { s.clearTable with heap := h1, idle := p }) boot.nextPid empty rfl
      nonzero own (fun there => absurd rfl there) entry
      (startIdle_tiled (s := { s.clearTable with heap := h1, idle := p }) tiled1 entry fun there => absurd rfl there)⟩
  · have block := tiled1.kmalloc_large (heap_kmalloc (s := { s.clearTable with heap := h1, idle := p }) got') there (by decide)
    rw [got']
    exact ⟨l2, p, base, startIdle_started (s := { s.clearTable with heap := h2, idle := p }) boot.nextPid empty rfl
      nonzero ((members' p).mpr (Or.inr own))
      (fun _ => ⟨(members' base).mpr (Or.inl rfl), fun clash => fresh (clash ▸ own)⟩) entry
      (startIdle_tiled (s := { s.clearTable with heap := h2, idle := p }) tiled2 entry fun _ => block)⟩

/-- The process table as the calls of `process.c` rely on it. -/
structure ProcessLaw (s : Processes) : Prop where
  idleSlot : s.table 0 = s.idle ∧ s.idle ≠ 0
  idlePid : (s.pcb s.idle).pid = 0
  idleAlive : (s.pcb s.idle).state ≠ .blocked ∧ (s.pcb s.idle).state ≠ .terminated
  current : ∃ i, Used s i ∧ s.table i = s.current
  running : ∀ i, Used s i → s.table i ≠ s.current → (inSlot s i).state ≠ .running
  count : s.count = (usedSlots s).card
  /-- The slot search of `process_create`, with any processes at the addresses in the table. -/
  room : s.count < MAX_PROCESSES → ∀ t : Processes, t.table = s.table →
    ∃ i, t.findSlot (fun q => decide (q = 0)) = some i
  pids : ∀ i j, Used s i → Used s j → (inSlot s i).pid = (inSlot s j).pid → i = j
  priorities : ∀ i, Used s i → (inSlot s i).priority ≤ 255

theorem Inv.processLaw {s : Processes} (inv : Inv s) : ProcessLaw s := by
  obtain ⟨slots, -, states, -⟩ := inv
  refine ⟨⟨slots.idleSlot, slots.idleThere⟩, slots.idlePid, ?_, states.current, states.running, slots.count, ?_,
    slots.pids, slots.priorities⟩
  · rcases states.idleAlive with ready | running
    · rw [ready]
      decide
    · rw [running]
      decide
  · intro room t same
    obtain ⟨i, found, -⟩ := findSlot_null slots.seats room
    exact ⟨i, by rw [← found, Processes.findSlot, Processes.findSlot, same]⟩

/-- Every run keeps the law of the process table, and a process that is terminated in one
state of the run is terminated, or gone, in every later one. -/
theorem process_runs_keep_law (s0 s t : Processes) (entry : Nat) (ops ops' : List ProcessOp) (boot : Boot s0)
    (few : creations (ops ++ ops') < 2 ^ 32 - 1)
    (run : Exec Processes.allowed Processes.step (processInit s0 entry) ops s)
    (run' : Exec Processes.allowed Processes.step s ops' t) :
    ProcessLaw s ∧ ∀ i j, Used s i → (inSlot s i).state = .terminated → Used t j →
      (inSlot t j).pid = (inSlot s i).pid → (inSlot t j).state = .terminated ∧ t.table j ≠ t.current := by
  rw [creations_append] at few
  obtain ⟨l, p, base, started⟩ := processInit_started boot entry
  have before := run_moved run started.inv (by rw [started.nextPid]; omega)
  have pids := before.pids
  rw [started.nextPid] at pids
  have after := run_moved run' before.inv (by omega)
  refine ⟨before.inv.processLaw, fun i j used dead used' same => ?_⟩
  have slots := before.inv.slots
  obtain ⟨old, pid, gone⟩ := after.later.kept j used' (by rw [same]; exact slots.pidLt i used)
  obtain rfl := slots.pids i j used old (same.symm.trans pid.symm)
  refine ⟨gone dead, fun here => after.inv.alive ?_⟩
  rw [← here]
  exact gone dead

/-- The globals of `process.c` at boot, with zeros in memory. -/
def powerOn : Processes where
  heap := heapInit fun _ => 0
  pcb := fun _ => ⟨0, fun _ => 0, .ready, ⟨0, 0, 0, 0, 0, 0, 0, 0, 0, 0⟩, 0, 0, 0, 0, 0, 0, 0, 0, 0, 0, 0⟩
  queue := fun _ => ⟨fun _ => ⟨0, fun _ => 0, 0⟩, 0, 0, 0⟩
  table := fun _ => 0
  count := 0
  nextPid := 1
  current := 0
  idle := 0
  rest := fun _ => .back
  ticks := 0
  esp0 := 0
  directory := 0
  freed := []

theorem powerOn_boot : Boot powerOn := ⟨rfl, ⟨_, heapInit_tiled _⟩, by decide⟩

def taskName : CStr := ⟨[0x61], by decide⟩

/-- A first process exits, and the idle process is scheduled again. -/
theorem process_runs_keep_law_exit :
    let s := (((processInit powerOn 0x1000).step (.processCreate taskName 0x2000 4096)).step
      .processSchedule).step .processExit
    let t := s.step .processSchedule
    ProcessLaw s ∧ ∀ i j, Used s i → (inSlot s i).state = .terminated → Used t j →
      (inSlot t j).pid = (inSlot s i).pid → (inSlot t j).state = .terminated ∧ t.table j ≠ t.current :=
  process_runs_keep_law powerOn _ _ 0x1000
    [.processCreate taskName 0x2000 4096, .processSchedule, .processExit] [.processSchedule] powerOn_boot
    (by decide) (.cons ⟨by decide, by decide⟩ (.cons trivial (.cons trivial (.nil _)))) (.cons trivial (.nil _))

/-- A process whose stack size wraps in `kmalloc`, killed again, and four more: the word on the
first stack is the size of its block, and two processes get the same PCB. -/
def wrappedStack : List ProcessOp :=
  [.processCreate taskName 0x12000 0xFFFFFFF4, .processKill 1, .processCreate taskName 0x12000 4096,
    .processCreate taskName 0x12000 65160, .processCreate taskName 0x12000 3904, .processCreate taskName 0x12000 4096]

theorem wrappedStack_shared :
    let s := wrappedStack.foldl Processes.step (processInit powerOn 0x11000)
    s.table 2 = s.table 4 ∧ s.table 2 ≠ 0 := by
  decide +kernel

def ProcessOp.OfProcess : ProcessOp → Prop
  | .tick _ => False
  | .kmalloc _ => False
  | .kfree _ => False
  | _ => True

/-- With any stack size the law of the process table can break. -/
theorem wrapped_stack_breaks_law : ¬∀ s0 entry ops s, Boot s0 → creations ops < 2 ^ 32 - 1 →
    Exec (fun _ op => op.OfProcess) Processes.step (processInit s0 entry) ops s → ProcessLaw s := by
  intro every
  have calls : ∀ op ∈ wrappedStack, Processes → op.OfProcess := by simp [wrappedStack, ProcessOp.OfProcess]
  have law := every powerOn 0x11000 wrappedStack _ powerOn_boot (by decide) (exec_foldl calls _)
  obtain ⟨same, there⟩ := wrappedStack_shared
  have two := law.pids 2 4 ⟨by decide, there⟩ ⟨by decide, same ▸ there⟩ (by rw [inSlot, inSlot, same])
  exact absurd two (by decide)

end Wittche.Process
