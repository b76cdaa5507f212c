import Wittche.Heap.Blocks
import Wittche.Process.Turnover

/-! `process_create` takes three heap blocks and a slot. Every failure gives back what it
took, and with a free slot in the table the search for one succeeds. -/

namespace Wittche.Process
open Bytes CString Heap Segments

section Create

variable {s : Processes} {l : List Seg}

theorem findSlot_null (seats : Seats s) (room : s.count < MAX_PROCESSES) :
    ∃ i, s.findSlot (fun q => decide (q = 0)) = some i ∧ i < MAX_PROCESSES ∧ s.table i = 0 ∧
      ∀ j < i, s.table j ≠ 0 := by
  cases found : s.findSlot (fun q => decide (q = 0)) with
  | none =>
    have all : usedSlots s = Finset.range MAX_PROCESSES := by
      refine Finset.filter_true_of_mem fun i hi => ?_
      have busy := Scan.firstFrom_none.mp found i (Nat.zero_le i) (by
        rw [Nat.zero_add]
        exact Finset.mem_range.mp hi)
      exact of_decide_eq_false busy
    rw [seats.count, all, Finset.card_range] at room
    exact absurd room (Int.lt_irrefl _)
  | some i =>
    obtain ⟨-, lt, hit, before⟩ := Scan.firstFrom_some found
    exact ⟨i, rfl, by omega, of_decide_eq_true hit, fun j below => of_decide_eq_false (before j (Nat.zero_le j) below)⟩

section Ends

variable {p base : Nat} {name : CStr} {entry q : Nat} {stackSize : Word} {k : KernelHeap}

theorem processCreate_full (full : MAX_PROCESSES ≤ s.count) : processCreate s name entry stackSize = (s, 0) :=
  if_pos full

theorem processCreate_noPcb (room : ¬MAX_PROCESSES ≤ s.count) (failed : s.kmalloc SIZEOF_PROCESS = (s, 0)) :
    processCreate s name entry stackSize = (s, 0) := by
  rw [processCreate, if_neg room, failed]
  rfl

theorem processCreate_noStack (room : ¬MAX_PROCESSES ≤ s.count)
    (got : s.kmalloc SIZEOF_PROCESS = ({ s with heap := k }, p)) (there : p ≠ 0)
    (failed : { s with heap := k }.kmalloc stackSize = ({ s with heap := k }, 0)) :
    processCreate s name entry stackSize =
      (({ s with heap := k }.setPcb p { s.pcb p with stackBase := 0 }).kfree p, 0) := by
  rw [processCreate, if_neg room, got]
  simp only [if_neg there]
  rw [failed]
  rfl

theorem processCreate_finish {k' : KernelHeap} (room : ¬MAX_PROCESSES ≤ s.count)
    (got : s.kmalloc SIZEOF_PROCESS = ({ s with heap := k }, p)) (there : p ≠ 0)
    (got' : { s with heap := k }.kmalloc stackSize = ({ s with heap := k' }, base)) (there' : base ≠ 0) :
    processCreate s name entry stackSize =
      finishProcess ({ s with heap := k' }.setPcb p { s.pcb p with stackBase := base }) p name entry stackSize := by
  rw [processCreate, if_neg room, got]
  simp only [if_neg there]
  rw [got']
  simp only [if_neg there']

def prepared (s : Processes) (heap : KernelHeap) (p q : Nat) (name : CStr) (entry : Nat) (stackSize : Word) : Processes :=
  let s := { initPcb s p name stackSize with heap := heap }
  startProcess (s.setPcb p { s.pcb p with msgQueue := q }) p q entry stackSize

theorem prepared_pcb (s : Processes) (heap : KernelHeap) (p q : Nat) (name : CStr) (entry : Nat) (stackSize : Word) :
    let x := (prepared s heap p q name entry stackSize).pcb p
    x.pid = s.nextPid ∧ x.state = .ready ∧ x.priority ≤ 255 ∧ x.stackBase = (s.pcb p).stackBase ∧ x.msgQueue = q ∧
      x.pageDirectory = s.directory := by
  simp [prepared, startProcess, Processes.pushEntry, Processes.setQueue, initPcb, Processes.setPcb]

theorem finishProcess_failed {name : CStr} {entry : Nat} {stackSize : Word}
    (failed : (initPcb s p name stackSize).kmalloc SIZEOF_MESSAGE_QUEUE = (initPcb s p name stackSize, 0)) :
    finishProcess s p name entry stackSize =
      ((((initPcb s p name stackSize).setPcb p { (initPcb s p name stackSize).pcb p with msgQueue := 0 }).kfree
        (s.pcb p).stackBase).kfree p, 0) := by
  rw [finishProcess, failed]
  simp only [if_pos]
  rw [setPcb_self, initPcb, setPcb_self]

theorem finishProcess_prepared {name : CStr} {entry q : Nat} {stackSize : Word} {k : KernelHeap}
    (got : (initPcb s p name stackSize).kmalloc SIZEOF_MESSAGE_QUEUE = ({ initPcb s p name stackSize with heap := k }, q))
    (there : q ≠ 0) : finishProcess s p name entry stackSize = enterProcess (prepared s k p q name entry stackSize) p := by
  rw [finishProcess, got]
  simp only [if_neg there]
  rfl

end Ends

theorem kfree_undo {h : KernelHeap} {l l' : List Seg} {p : Nat} (tiled : Tiled h l') (fresh : p ∉ pointers l)
    (members : ∀ b, b ∈ pointers l' ↔ b = p ∨ b ∈ pointers l) :
    ∃ l'', Tiled (Heap.kfree h p) l'' ∧ ∀ b, b ∈ pointers l'' ↔ b ∈ pointers l := by
  obtain ⟨l'', tiled', members'⟩ := kfree_live tiled ((members p).mpr (Or.inl rfl))
  refine ⟨l'', tiled', fun b => ?_⟩
  rw [members', members]
  constructor
  · rintro ⟨same | there, other⟩
    · exact absurd same other
    · exact there
  · exact fun there => ⟨Or.inr there, fun same => fresh (same ▸ there)⟩

/-- The state with another `next_pid`: a counter that has wrapped is put back. -/
def Processes.renumber (s : Processes) (n : Nat) : Processes := { s with nextPid := n }

/-- Only the process at `p`, queues and stacks may have changed. -/
structure Touches (p : Nat) (s t : Processes) : Prop where
  table : t.table = s.table
  count : t.count = s.count
  idle : t.idle = s.idle
  current : t.current = s.current
  pcbs : ∀ b, b ≠ p → t.pcb b = s.pcb b
  rests : ∀ b, b ≠ p → t.rest b = s.rest b
  directory : t.directory = s.directory

section Touches

variable {p : Nat} {t : Processes}

theorem Touches.refl (p : Nat) (s : Processes) : Touches p s s :=
  ⟨rfl, rfl, rfl, rfl, fun _ _ => rfl, fun _ _ => rfl, rfl⟩

theorem Touches.heap (h : Touches p s t) (heap : KernelHeap) : Touches p s { t with heap := heap } :=
  ⟨h.table, h.count, h.idle, h.current, h.pcbs, h.rests, h.directory⟩

theorem Touches.renumber (h : Touches p s t) (n : Nat) : Touches p s (t.renumber n) :=
  ⟨h.table, h.count, h.idle, h.current, h.pcbs, h.rests, h.directory⟩

theorem Touches.setPcb (h : Touches p s t) (x : Pcb) : Touches p s (t.setPcb p x) :=
  ⟨h.table, h.count, h.idle, h.current,
    fun b away => (Function.update_of_ne away ..).trans (h.pcbs b away), h.rests, h.directory⟩

theorem Touches.initPcb (h : Touches p s t) (name : CStr) (stackSize : Word) :
    Touches p s (initPcb t p name stackSize) :=
  ⟨h.table, h.count, h.idle, h.current,
    fun b away => (Function.update_of_ne away ..).trans (h.pcbs b away), h.rests, h.directory⟩

theorem Touches.setQueue (h : Touches p s t) (q : Nat) (x : MessageQueue) : Touches p s (t.setQueue q x) :=
  ⟨h.table, h.count, h.idle, h.current, h.pcbs, h.rests, h.directory⟩

theorem Touches.setRest (h : Touches p s t) (rest : Rest) :
    Touches p s { t with rest := Function.update t.rest p rest } :=
  ⟨h.table, h.count, h.idle, h.current, h.pcbs,
    fun b away => (Function.update_of_ne away ..).trans (h.rests b away), h.directory⟩

theorem Touches.startProcess (h : Touches p s t) (q entry : Nat) (stackSize : Word) :
    Touches p s (startProcess t p q entry stackSize) :=
  (((h.setQueue q _).setPcb _).heap _).setRest .back

theorem prepared_touches {s2 : Processes} (touches : Touches p s s2) (heap : KernelHeap) (q : Nat) (name : CStr)
    (entry : Nat) (stackSize : Word) : Touches p s (prepared s2 heap p q name entry stackSize) :=
  (((touches.initPcb name stackSize).heap heap).setPcb _).startProcess q entry stackSize

end Touches

/-- The state with another heap: that of `kmalloc`, before a word is stored in it. -/
def Processes.withHeap (s : Processes) (heap : KernelHeap) : Processes := { s with heap := heap }

theorem enterProcess_born {s0 t : Processes} {l0 l' : List Seg} {p base q : Nat} {heap : KernelHeap} (seats : Seats s0)
    (room : s0.count < MAX_PROCESSES) (touches : Touches p s0 t)
    (tiled : Tiled heap l') (rest : t.rest p = .back)
    (members : ∀ b, b ∈ pointers l' ↔ b = q ∨ b = base ∨ b = p ∨ b ∈ pointers l0)
    (nonzero : p ≠ 0 ∧ base ≠ 0 ∧ q ≠ 0)
    (fresh : p ∉ pointers l0 ∧ base ∉ pointers l0 ∧ q ∉ pointers l0)
    (apart : base ≠ p ∧ q ≠ p ∧ q ≠ base) (pid : (t.pcb p).pid = s0.nextPid)
    (state : (t.pcb p).state = .ready) (priority : (t.pcb p).priority ≤ 255)
    (stackBase : (t.pcb p).stackBase = base) (msgQueue : (t.pcb p).msgQueue = q)
    (queue : t.queue = Function.update s0.queue q { s0.queue q with head := 0, tail := 0, count := 0 }) :
    ∃ t' i, enterProcess t p = (t', s0.nextPid) ∧ t'.nextPid = t.nextPid ∧ t'.heap = t.heap ∧ t'.pcb p = t.pcb p ∧
      (∀ j < i, s0.table j ≠ 0) ∧ Born s0 ((t'.withHeap heap).renumber (s0.nextPid + 1)) l0 l' i p base q := by
  obtain ⟨i, found, lt, free, before⟩ := findSlot_null seats room
  have search : t.findSlot (fun q => decide (q = 0)) = some i := by
    rw [← found, Processes.findSlot, Processes.findSlot, touches.table]
  rw [enterProcess, search]
  simp only [pid]
  refine ⟨_, i, rfl, rfl, rfl, rfl, before, ⟨lt, free⟩, ?_, ?_, touches.idle, touches.current, rest, touches.rests, rfl, tiled,
    members, nonzero, fresh, apart, pid, state, priority, stackBase, msgQueue, touches.pcbs,
    touches.directory, queue⟩
  · rw [← touches.table]
    rfl
  · rw [← touches.count]
    rfl

theorem kmalloc_cases (tiled : Tiled s.heap l) (size : Word) :
    s.kmalloc size = (s, 0) ∨ ∃ h p l', s.kmalloc size = ({ s with heap := h }, p) ∧ p ≠ 0 ∧ Tiled h l' ∧
      p ∉ pointers l ∧ ∀ b, b ∈ pointers l' ↔ b = p ∨ b ∈ pointers l := by
  rcases kmalloc_live tiled size with failed | ⟨h, p, l', got, nonzero, tiled', fresh, members⟩
  · left
    rw [Processes.kmalloc, failed]
  · refine Or.inr ⟨h, p, l', ?_, nonzero, tiled', fresh, members⟩
    rw [Processes.kmalloc, got]

theorem heap_kmalloc {size : Word} {heap : KernelHeap} {p : Nat} (got : s.kmalloc size = ({ s with heap := heap }, p)) :
    Heap.kmalloc s.heap size = (heap, p) := by
  have first : (Heap.kmalloc s.heap size).1 = heap := congrArg (fun r => r.1.heap) got
  have second : (Heap.kmalloc s.heap size).2 = p := congrArg Prod.snd got
  exact Prod.ext first second

theorem kmalloc_of_heap {size : Word} {heap : KernelHeap} {p : Nat} (got : Heap.kmalloc s.heap size = (heap, p)) :
    s.kmalloc size = ({ s with heap := heap }, p) := by
  rw [Processes.kmalloc, got]

theorem Touches.abandoned {p : Nat} {t : Processes} {l' : List Seg} (touches : Touches p s t)
    (fresh : p ∉ pointers l) (nextPid : s.nextPid ≤ t.nextPid ∧ t.nextPid ≤ s.nextPid + 1) (tiled : Tiled t.heap l')
    (back : ∀ b, b ∈ pointers l' ↔ b ∈ pointers l) (queue : t.queue = s.queue) : Abandoned s t l l' := by
  have own : ∀ b ∈ pointers l, b ≠ p := fun b held clash => fresh (clash ▸ held)
  exact ⟨touches.table, touches.count, touches.idle, touches.current,
    fun b held => touches.rests b (own b held), nextPid, tiled, back,
    fun b held => touches.pcbs b (own b held), queue⟩

def stackWord (base : Nat) (stackSize : Word) : Nat := ((base + stackSize.toNat) % 2 ^ 32 + 2 ^ 32 - 4) % 2 ^ 32

theorem prepared_heap (s : Processes) (heap : KernelHeap) (p q : Nat) (name : CStr) (entry : Nat) (stackSize : Word) :
    (prepared s heap p q name entry stackSize).heap =
      heap.store (stackWord (s.pcb p).stackBase stackSize) (BitVec.ofNat 32 entry) := by
  simp [prepared, startProcess, Processes.pushEntry, Processes.setQueue, initPcb, Processes.setPcb, stackWord]

theorem finishProcess_spec {s2 : Processes} {l2 : List Seg} {p base : Nat} (seats : Seats s)
    (room : s.count < MAX_PROCESSES) (touches : Touches p s s2)
    (nextPid : s2.nextPid = s.nextPid) (queue : s2.queue = s.queue) (tiled : Tiled s2.heap l2)
    (members : ∀ b, b ∈ pointers l2 ↔ b = base ∨ b = p ∨ b ∈ pointers l) (nonzero : p ≠ 0 ∧ base ≠ 0)
    (fresh : p ∉ pointers l ∧ base ∉ pointers l) (apart : base ≠ p) (stackBase : (s2.pcb p).stackBase = base)
    (name : CStr) (entry : Nat) (stackSize : Word) :
    (∃ t l', (Heap.kmalloc s2.heap SIZEOF_MESSAGE_QUEUE).2 = 0 ∧ t.heap = Heap.kfree (Heap.kfree s2.heap base) p ∧
      finishProcess s2 p name entry stackSize = (t, 0) ∧ t.nextPid = (s.nextPid + 1) % 2 ^ 32 ∧
      Abandoned s (t.renumber (s.nextPid + 1)) l l') ∨
      ∃ h t l' i q, Heap.kmalloc s2.heap SIZEOF_MESSAGE_QUEUE = (h, q) ∧ q ≠ 0 ∧
        t.heap = h.store (stackWord base stackSize) (BitVec.ofNat 32 entry) ∧
        (t.pcb p).pageDirectory = s.directory ∧
        (∀ j < i, s.table j ≠ 0) ∧ finishProcess s2 p name entry stackSize = (t, s.nextPid) ∧
        t.nextPid = (s.nextPid + 1) % 2 ^ 32 ∧
        Born s ((t.withHeap h).renumber (s.nextPid + 1)) l l' i p base q := by
  have next : (s2.nextPid + 1) % 2 ^ 32 = (s.nextPid + 1) % 2 ^ 32 := by
    rw [nextPid]
  have filled := touches.initPcb name stackSize
  rcases kmalloc_cases (s := initPcb s2 p name stackSize) (l := l2) tiled SIZEOF_MESSAGE_QUEUE with
    failed | ⟨h3, q, l3, got, nonzero', tiled3, fresh', members'⟩
  · -- the stack and the PCB are given back
    left
    rw [finishProcess_failed failed, stackBase]
    obtain ⟨l3, tiled3, members3⟩ := kfree_live tiled ((members base).mpr (Or.inl rfl))
    have left : ∀ b, b ∈ pointers l3 ↔ b = p ∨ b ∈ pointers l := by
      intro b
      rw [members3, members]
      constructor
      · rintro ⟨same | held, other⟩
        · exact absurd same other
        · exact held
      · rintro (rfl | held)
        · exact ⟨Or.inr (Or.inl rfl), apart.symm⟩
        · exact ⟨Or.inr (Or.inr held), fun same => fresh.2 (same ▸ held)⟩
    obtain ⟨l', tiled', back⟩ := kfree_undo tiled3 fresh.1 left
    exact ⟨_, l', congrArg Prod.snd failed, rfl, rfl, next, (((filled.setPcb _).heap _).renumber _).abandoned fresh.1
      ⟨Nat.le_succ _, Nat.le_refl _⟩ tiled' back queue⟩
  · right
    rw [finishProcess_prepared got nonzero']
    have own : q ≠ p := fun clash => fresh' ((members q).mpr (Or.inr (Or.inl clash)))
    have own' : q ≠ base := fun clash => fresh' ((members q).mpr (Or.inl clash))
    have fresh3 : q ∉ pointers l := fun held => fresh' ((members q).mpr (Or.inr (Or.inr held)))
    have members3 : ∀ b, b ∈ pointers l3 ↔ b = q ∨ b = base ∨ b = p ∨ b ∈ pointers l := by
      intro b
      rw [members', members]
    have started := prepared_touches touches h3 q name entry stackSize
    have queue4 : (prepared s2 h3 p q name entry stackSize).queue =
        Function.update s.queue q { s.queue q with head := 0, tail := 0, count := 0 } := by
      rw [← queue]
      rfl
    obtain ⟨pid, state, priority, stack, mine, space⟩ := prepared_pcb s2 h3 p q name entry stackSize
    rw [nextPid] at pid
    rw [stackBase] at stack
    rw [touches.directory] at space
    obtain ⟨t, i, made, number, heap, same, before, born⟩ := enterProcess_born seats room started tiled3
      (Function.update_self ..) members3 ⟨nonzero.1, nonzero.2, nonzero'⟩ ⟨fresh.1, fresh.2, fresh3⟩ ⟨apart, own, own'⟩
      pid state priority stack mine queue4
    have stored := heap.trans (prepared_heap s2 h3 p q name entry stackSize)
    rw [stackBase] at stored
    exact ⟨h3, t, l3, i, q, heap_kmalloc (s := initPcb s2 p name stackSize) got, nonzero', stored, same ▸ space,
      before, made, number.trans next, born⟩

def Processes.hasRoom (s : Processes) (stackSize : Word) : Prop :=
  let pcb := Heap.kmalloc s.heap SIZEOF_PROCESS
  let stack := Heap.kmalloc pcb.1 stackSize
  s.count < MAX_PROCESSES ∧ pcb.2 ≠ 0 ∧ stack.2 ≠ 0 ∧ (Heap.kmalloc stack.1 SIZEOF_MESSAGE_QUEUE).2 ≠ 0

/-- The heap with three blocks more: the PCB, the stack and the message queue. -/
structure Granted (h h' : KernelHeap) (stackSize : Word) (p base q : Nat) : Prop where
  pcb : (Heap.kmalloc h SIZEOF_PROCESS).2 = p
  stack : (Heap.kmalloc (Heap.kmalloc h SIZEOF_PROCESS).1 stackSize).2 = base
  queue : Heap.kmalloc (Heap.kmalloc (Heap.kmalloc h SIZEOF_PROCESS).1 stackSize).1 SIZEOF_MESSAGE_QUEUE = (h', q)

/-- `process_create` with any `next_pid`, also the last one before it wraps, and any stack size:
the heap is that of `kmalloc` with the word on the stack stored in it. -/
theorem processCreate_grants (seats : Seats s) (blocks : Blocks s l) (name : CStr) (entry : Nat) (stackSize : Word) :
    (∃ t l' n, ¬s.hasRoom stackSize ∧ heapBlocks t.heap = heapBlocks s.heap ∧
      processCreate s name entry stackSize = (t, 0) ∧
      (t.nextPid = n ∨ t.nextPid = n % 2 ^ 32) ∧ Abandoned s (t.renumber n) l l') ∨
      ∃ h t l' i p base q, s.hasRoom stackSize ∧ Granted s.heap h stackSize p base q ∧
        t.heap = h.store (stackWord base stackSize) (BitVec.ofNat 32 entry) ∧
        (t.pcb p).pageDirectory = s.directory ∧ (∀ j < i, s.table j ≠ 0) ∧
        processCreate s name entry stackSize = (t, s.nextPid) ∧ t.nextPid = (s.nextPid + 1) % 2 ^ 32 ∧
        Born s ((t.withHeap h).renumber (s.nextPid + 1)) l l' i p base q := by
  have same : Abandoned s (s.renumber s.nextPid) l l :=
    ⟨rfl, rfl, rfl, rfl, fun _ _ => rfl, ⟨Nat.le_refl _, Nat.le_succ _⟩, blocks.tiled, fun _ => Iff.rfl,
      fun _ _ => rfl, rfl⟩
  by_cases room : MAX_PROCESSES ≤ s.count
  · exact Or.inl ⟨s, l, s.nextPid, fun has => absurd room (Int.not_le.mpr has.1), rfl, processCreate_full room,
      Or.inl rfl, same⟩
  rcases kmalloc_cases blocks.tiled SIZEOF_PROCESS with failed | ⟨h1, p, l1, got, nonzero, tiled1, fresh, members⟩
  · exact Or.inl ⟨s, l, s.nextPid, fun has => has.2.1 (congrArg Prod.snd failed), rfl,
      processCreate_noPcb room failed, Or.inl rfl, same⟩
  have heap1 : (Heap.kmalloc s.heap SIZEOF_PROCESS).1 = h1 := congrArg Prod.fst (heap_kmalloc got)
  have some1 : (Heap.kmalloc s.heap SIZEOF_PROCESS).2 = p := congrArg Prod.snd (heap_kmalloc got)
  have undo1 : heapBlocks (Heap.kfree h1 p) = heapBlocks s.heap := by
    rw [← heap1, ← some1]
    exact blocks.tiled.kfree_kmalloc (some1 ▸ nonzero)
  rcases kmalloc_cases (s := { s with heap := h1 }) tiled1 stackSize with
    failed | ⟨h2, base, l2, got', nonzero', tiled2, fresh', members'⟩
  · obtain ⟨l', tiled, back⟩ := kfree_undo tiled1 fresh members
    have touches := ((Touches.refl p s).heap h1).setPcb { s.pcb p with stackBase := 0 }
    refine Or.inl ⟨_, l', s.nextPid, fun has => has.2.2.1 ?_, undo1, processCreate_noStack room got nonzero failed, Or.inl rfl,
      ((touches.heap _).renumber _).abandoned fresh
      ⟨Nat.le_refl _, Nat.le_succ _⟩ tiled back rfl⟩
    rw [heap1]
    exact congrArg Prod.snd failed
  have heap2 : (Heap.kmalloc h1 stackSize).1 = h2 := congrArg Prod.fst (heap_kmalloc (s := { s with heap := h1 }) got')
  have some2 : (Heap.kmalloc h1 stackSize).2 = base := congrArg Prod.snd (heap_kmalloc (s := { s with heap := h1 }) got')
  have room' : s.hasRoom stackSize ↔ (Heap.kmalloc h2 SIZEOF_MESSAGE_QUEUE).2 ≠ 0 := by
    simp only [Processes.hasRoom, heap1, some1, heap2, some2, nonzero, nonzero', Int.not_le.mp room, true_and, ne_eq,
      not_false_eq_true]
  rw [processCreate_finish room got nonzero got' nonzero', room']
  have apart : base ≠ p := fun clash => fresh' ((members base).mpr (Or.inl clash))
  have fresh2 : base ∉ pointers l := fun held => fresh' ((members base).mpr (Or.inr held))
  have members2 : ∀ b, b ∈ pointers l2 ↔ b = base ∨ b = p ∨ b ∈ pointers l := by
    intro b
    rw [members', members]
  have touches := ((Touches.refl p s).heap h2).setPcb { s.pcb p with stackBase := base }
  rcases finishProcess_spec seats (Int.not_le.mp room) touches rfl rfl tiled2 members2 ⟨nonzero, nonzero'⟩
    ⟨fresh, fresh2⟩ apart (by rw [setPcb_self]) name entry stackSize with
    ⟨t, l', none, heap, made, number, abandoned⟩ |
      ⟨h3, t, l', i, q, got2, some, stored, space, before, made, number, born⟩
  · have undo2 : heapBlocks (Heap.kfree h2 base) = heapBlocks h1 := by
      rw [← heap2, ← some2]
      exact tiled1.kfree_kmalloc (some2 ▸ nonzero')
    have live2 : Allocated h2 base := ⟨l2, tiled2, (members2 base).mpr (Or.inl rfl)⟩
    have live1 : Allocated h1 p := ⟨l1, tiled1, (members p).mpr (Or.inl rfl)⟩
    obtain ⟨l3, tiled3⟩ := (tiled2.kfree_blocks live2).1
    refine Or.inl ⟨t, l', _, not_not.mpr none, ?_, made, Or.inr number, abandoned⟩
    rw [heap, ← undo1]
    exact tiled3.kfree_same tiled1 undo2 ((allocated_congr undo2).mpr live1)
  · have granted : Granted s.heap h3 stackSize p base q := by
      refine ⟨some1, ?_, ?_⟩
      · rw [heap1, some2]
      · rw [heap1, heap2]
        exact got2
    refine Or.inr ⟨h3, t, l', i, p, base, q, ?_, granted, stored, space, before, made, number, born⟩
    rw [show Heap.kmalloc h2 SIZEOF_MESSAGE_QUEUE = (h3, q) from got2]
    exact some

/-- Stacks with room for the words that `process_create` and `process_switch` push, of a size
that does not wrap around in `kmalloc`. -/
def StackFits (stackSize : Word) : Prop := 8 ≤ stackSize.toNat ∧ stackSize.toNat ≤ MAX_REQUEST

theorem Granted.blocks {h h' : KernelHeap} {l : List Seg} {stackSize : Word} {p base q : Nat}
    (granted : Granted h h' stackSize p base q) (tiled : Tiled h l) (some : p ≠ 0 ∧ base ≠ 0 ∧ q ≠ 0)
    (fits : stackSize.toNat ≤ MAX_REQUEST) :
    ∃ pcb stack queue, SIZEOF_PROCESS.toNat ≤ pcb ∧ stackSize.toNat ≤ stack ∧ SIZEOF_MESSAGE_QUEUE.toNat ≤ queue ∧
      heapBlocks h' = insert (p, pcb) (insert (base, stack) (insert (q, queue) (heapBlocks h))) := by
  obtain ⟨rfl, rfl, got⟩ := granted
  rcases tiled.kmalloc_blocks SIZEOF_PROCESS with failed | ⟨l1, pcb, tiled1, -, -, large1, blocks1⟩
  · exact absurd (congrArg Prod.snd failed) some.1
  rcases tiled1.kmalloc_blocks stackSize with failed | ⟨l2, stack, tiled2, -, -, large2, blocks2⟩
  · exact absurd (congrArg Prod.snd failed) some.2.1
  rcases tiled2.kmalloc_blocks SIZEOF_MESSAGE_QUEUE with failed | ⟨l3, queue, -, -, -, large3, blocks3⟩
  · rw [got] at failed
    exact absurd (congrArg Prod.snd failed) some.2.2
  rw [got, blocks2, blocks1] at blocks3
  refine ⟨pcb, stack, queue, large1 (by decide), large2 fits, large3 (by decide), ?_⟩
  rw [blocks3]
  ext b
  simp only [Set.mem_insert_iff]
  constructor
  · rintro (queue | stack | pcb | old)
    · exact Or.inr (Or.inr (Or.inl queue))
    · exact Or.inr (Or.inl stack)
    · exact Or.inl pcb
    · exact Or.inr (Or.inr (Or.inr old))
  · rintro (pcb | stack | queue | old)
    · exact Or.inr (Or.inr (Or.inl pcb))
    · exact Or.inr (Or.inl stack)
    · exact Or.inl queue
    · exact Or.inr (Or.inr (Or.inr old))

theorem stackWord_inside {h : KernelHeap} {l : List Seg} {base n : Nat} {stackSize : Word} (tiled : Tiled h l)
    (block : (base, n) ∈ heapBlocks h) (fits : StackFits stackSize) (large : stackSize.toNat ≤ n) :
    base ≤ stackWord base stackSize ∧ stackWord base stackSize + 4 ≤ base + n := by
  obtain ⟨live, size⟩ := block
  obtain ⟨-, low, high⟩ := tiled.pointer_bounds (tiled.allocated_iff.mp live)
  have size' : n = payloadSize h base := size
  obtain ⟨small, -⟩ := fits
  simp only [HEAP_START, HEAP_END, HEAP_SIZE] at low high
  rw [stackWord]
  omega

theorem stackWord_stored {h : KernelHeap} {l : List Seg} {base n : Nat} {stackSize : Word} (tiled : Tiled h l)
    (block : (base, n) ∈ heapBlocks h) (fits : StackFits stackSize) (large : stackSize.toNat ≤ n) (w : Word) :
    Tiled (h.store (stackWord base stackSize) w) l :=
  tiled.store w (Or.inr ⟨base, n, block, stackWord_inside tiled block fits large⟩)

theorem Granted.stored {h h' : KernelHeap} {l l' : List Seg} {stackSize : Word} {p base q : Nat}
    (granted : Granted h h' stackSize p base q) (tiled : Tiled h l) (tiled' : Tiled h' l')
    (some : p ≠ 0 ∧ base ≠ 0 ∧ q ≠ 0) (fits : StackFits stackSize) (w : Word) :
    Tiled (h'.store (stackWord base stackSize) w) l' := by
  obtain ⟨pcb, stack, queue, -, large, -, blocks⟩ := granted.blocks tiled some fits.2
  have block : (base, stack) ∈ heapBlocks h' := by
    rw [blocks]
    exact Or.inr (Or.inl rfl)
  exact stackWord_stored tiled' block fits large w

theorem Born.stored {t : Processes} {l' : List Seg} {i p base q n : Nat} {h : KernelHeap}
    (born : Born s ((t.withHeap h).renumber n) l l' i p base q) (tiled : Tiled t.heap l') :
    Born s (t.renumber n) l l' i p base q :=
  ⟨born.free, born.table, born.count, born.idle, born.current, born.rest, born.rests, born.nextPid, tiled,
    born.pointers, born.nonzero, born.fresh, born.apart, born.pid, born.state, born.priority, born.stackBase,
    born.msgQueue, born.pcbs, born.directory, born.queue⟩

theorem processCreate_cases (seats : Seats s) (blocks : Blocks s l) (name : CStr) (entry : Nat) {stackSize : Word}
    (fits : StackFits stackSize) :
    (∃ t l' n, ¬s.hasRoom stackSize ∧ heapBlocks t.heap = heapBlocks s.heap ∧
      processCreate s name entry stackSize = (t, 0) ∧
      (t.nextPid = n ∨ t.nextPid = n % 2 ^ 32) ∧ Abandoned s (t.renumber n) l l') ∨
      ∃ h t l' i p base q, s.hasRoom stackSize ∧ Granted s.heap h stackSize p base q ∧
        heapBlocks t.heap = heapBlocks h ∧ (t.pcb p).pageDirectory = s.directory ∧ (∀ j < i, s.table j ≠ 0) ∧
        processCreate s name entry stackSize = (t, s.nextPid) ∧ t.nextPid = (s.nextPid + 1) % 2 ^ 32 ∧
        Born s (t.renumber (s.nextPid + 1)) l l' i p base q := by
  rcases processCreate_grants seats blocks name entry stackSize with
    failed | ⟨h, t, l', i, p, base, q, room, granted, stored, space, before, made, number, born⟩
  · exact Or.inl failed
  · have tiled' : Tiled h l' := born.tiled
    have tiled : Tiled t.heap l' := by
      rw [stored]
      exact granted.stored blocks.tiled tiled' born.nonzero fits _
    exact Or.inr ⟨h, t, l', i, p, base, q, room, granted, tiled.heapBlocks_eq tiled', space, before, made, number,
      born.stored tiled⟩

theorem processCreate_wrap (seats : Seats s) (blocks : Blocks s l) (name : CStr) (entry : Nat) {stackSize : Word}
    (fits : StackFits stackSize) :
    (∃ t l' n, processCreate s name entry stackSize = (t, 0) ∧ (t.nextPid = n ∨ t.nextPid = n % 2 ^ 32) ∧
      Abandoned s (t.renumber n) l l') ∨
      ∃ t l' i p base q, processCreate s name entry stackSize = (t, s.nextPid) ∧
        t.nextPid = (s.nextPid + 1) % 2 ^ 32 ∧ Born s (t.renumber (s.nextPid + 1)) l l' i p base q := by
  rcases processCreate_cases seats blocks name entry fits with
    ⟨t, l', n, -, -, done⟩ | ⟨h, t, l', i, p, base, q, -, -, -, -, -, done⟩
  · exact Or.inl ⟨t, l', n, done⟩
  · exact Or.inr ⟨t, l', i, p, base, q, done⟩

theorem processCreate_spec (slots : Slots s) (blocks : Blocks s l) (few : s.nextPid + 1 < 2 ^ 32) (name : CStr)
    (entry : Nat) {stackSize : Word} (fits : StackFits stackSize) :
    (∃ t l', processCreate s name entry stackSize = (t, 0) ∧ Abandoned s t l l') ∨
      ∃ t l' i p base q, processCreate s name entry stackSize = (t, s.nextPid) ∧
        Born s t l l' i p base q := by
  rcases processCreate_wrap slots.seats blocks name entry fits with
    ⟨t, l', n, made, number, abandoned⟩ | ⟨t, l', i, p, base, q, made, number, born⟩
  · have small : n ≤ s.nextPid + 1 := abandoned.nextPid.2
    have back : t.renumber n = t := by
      rw [Nat.mod_eq_of_lt (by omega), or_self] at number
      rw [Processes.renumber, ← number]
    rw [back] at abandoned
    exact Or.inl ⟨t, l', made, abandoned⟩
  · have back : t.renumber (s.nextPid + 1) = t := by
      rw [Nat.mod_eq_of_lt few] at number
      rw [Processes.renumber, ← number]
    rw [back] at born
    exact Or.inr ⟨t, l', i, p, base, q, made, born⟩

theorem processCreate_moved (inv : Inv s) (few : s.nextPid + 1 < 2 ^ 32) (name : CStr) (entry : Nat)
    {stackSize : Word} (fits : StackFits stackSize) : Moved (fun _ => False) 1 s (processCreate s name entry stackSize).1 := by
  obtain ⟨l, blocks⟩ := inv.blocks
  rcases processCreate_spec inv.slots blocks few name entry fits with
    ⟨t, l', made, abandoned⟩ | ⟨t, l', i, p, base, q, made, born⟩
  · rw [made]
    refine (abandoned.turnover inv.slots.seats blocks).moved inv blocks abandoned.nextPid.2 fun j used _ => ⟨?_, id⟩
    exact ⟨used.1, by rw [abandoned.table]; exact used.2⟩
  · rw [made]
    have turnover := born.turnover inv.slots.seats blocks
    refine turnover.moved inv blocks (Nat.le_of_eq born.nextPid) fun j used _ => ?_
    have other : j ≠ i := by
      rintro rfl
      exact used.2 born.free.2
    exact ⟨⟨used.1, by rw [born.table, Function.update_of_ne other]; exact used.2⟩, other⟩

theorem processCreateWithPriority_moved (inv : Inv s) (few : s.nextPid + 1 < 2 ^ 32) (name : CStr) (entry : Nat)
    {stackSize : Word} (fits : StackFits stackSize) (priority : Nat) :
    Moved (fun _ => False) 1 s (processCreateWithPriority s name entry stackSize priority).1 := by
  have made := processCreate_moved inv few name entry fits
  simp only [processCreateWithPriority]
  split
  next =>
    have set := processSetPriority_calm (processCreate s name entry stackSize).1
      (processCreate s name entry stackSize).2 priority
    exact (made.trans (set.moved made.inv)).mono (fun _ => by simp) (Nat.le_refl _)
  next => exact made

section Same

variable {t s' t' : Processes} {p : Nat}

theorem SameSlots.slotOf (h : SameSlots s t) (pid : Nat) : t.slotOf pid = s.slotOf pid := by
  simp only [Processes.slotOf, Processes.findSlot, h.table, (h.process _).pid]

theorem SameSlots.touched (h : SameSlots s t) (touches : Touches p s s') (touches' : Touches p t t')
    (nextPid : t'.nextPid = s'.nextPid) (heap : t'.heap = s'.heap) (own : SameProcess (s'.pcb p) (t'.pcb p))
    (low : (t'.pcb p).priority ≤ 255) : SameSlots s' t' := by
  refine ⟨?_, ?_, nextPid, ?_, heap, fun b => ?_, fun b => ?_⟩
  · rw [touches'.table, touches.table, h.table]
  · rw [touches'.count, touches.count, h.count]
  · rw [touches'.idle, touches.idle, h.idle]
  · by_cases mine : b = p
    · exact mine ▸ own
    · rw [touches.pcbs b mine, touches'.pcbs b mine]
      exact h.process b
  · by_cases mine : b = p
    · exact fun _ => mine ▸ low
    · rw [touches.pcbs b mine, touches'.pcbs b mine]
      exact h.priority b

/-- What `process_create` has been given when it succeeds. -/
structure Creates (s : Processes) (stackSize : Word) (h1 h2 h3 : KernelHeap) (p base q i : Nat) : Prop where
  room : ¬MAX_PROCESSES ≤ s.count
  pcb : Heap.kmalloc s.heap SIZEOF_PROCESS = (h1, p)
  stack : Heap.kmalloc h1 stackSize = (h2, base)
  queue : Heap.kmalloc h2 SIZEOF_MESSAGE_QUEUE = (h3, q)
  nonzero : p ≠ 0 ∧ base ≠ 0 ∧ q ≠ 0
  slot : s.findSlot (fun q => decide (q = 0)) = some i

def created (s : Processes) (name : CStr) (entry : Nat) (stackSize : Word) (h2 h3 : KernelHeap) (p base q : Nat) :
    Processes :=
  prepared ({ s with heap := h2 }.setPcb p { s.pcb p with stackBase := base }) h3 p q name entry stackSize

variable {name : CStr} {entry : Nat} {stackSize : Word} {h1 h2 h3 : KernelHeap} {base q i : Nat}

theorem created_touches : Touches p s (created s name entry stackSize h2 h3 p base q) :=
  prepared_touches (((Touches.refl p s).heap h2).setPcb _) h3 q name entry stackSize

theorem Creates.eq (c : Creates s stackSize h1 h2 h3 p base q i) : processCreate s name entry stackSize =
    ({ created s name entry stackSize h2 h3 p base q with
        table := Function.update s.table i p, count := s.count + 1 }, s.nextPid) := by
  have pcb := kmalloc_of_heap c.pcb
  have stack : { s with heap := h1 }.kmalloc stackSize = ({ s with heap := h2 }, base) :=
    kmalloc_of_heap (s := { s with heap := h1 }) c.stack
  have queue : ∀ u : Processes, u.heap = h2 → u.kmalloc SIZEOF_MESSAGE_QUEUE = ({ u with heap := h3 }, q) := by
    rintro u rfl
    exact kmalloc_of_heap c.queue
  have touches : Touches p s (created s name entry stackSize h2 h3 p base q) := created_touches
  have search : (created s name entry stackSize h2 h3 p base q).findSlot (fun q => decide (q = 0)) = some i := by
    rw [← c.slot, Processes.findSlot, Processes.findSlot, touches.table]
  have pid : ((created s name entry stackSize h2 h3 p base q).pcb p).pid = s.nextPid := (prepared_pcb ..).1
  rw [processCreate_finish c.room pcb c.nonzero.1 stack c.nonzero.2.1, finishProcess_prepared (queue _ rfl) c.nonzero.2.2]
  change enterProcess (created s name entry stackSize h2 h3 p base q) p = _
  rw [enterProcess, search]
  dsimp only
  rw [pid, touches.table, touches.count]

theorem Creates.congr (c : Creates s stackSize h1 h2 h3 p base q i) (h : SameSlots s t) :
    Creates t stackSize h1 h2 h3 p base q i := by
  refine ⟨?_, ?_, c.stack, c.queue, c.nonzero, ?_⟩
  · rw [h.count]
    exact c.room
  · rw [h.heap]
    exact c.pcb
  · rw [← c.slot, Processes.findSlot, Processes.findSlot, h.table]

theorem created_fields (nextPid : t.nextPid = s.nextPid) :
    (created t name entry stackSize h2 h3 p base q).nextPid = (created s name entry stackSize h2 h3 p base q).nextPid ∧
      (created t name entry stackSize h2 h3 p base q).heap = (created s name entry stackSize h2 h3 p base q).heap ∧
      SameProcess ((created s name entry stackSize h2 h3 p base q).pcb p)
        ((created t name entry stackSize h2 h3 p base q).pcb p) ∧
      ((created t name entry stackSize h2 h3 p base q).pcb p).priority ≤ 255 := by
  obtain ⟨pid, -, -, stackBase, queue, -⟩ :=
    prepared_pcb ({ s with heap := h2 }.setPcb p { s.pcb p with stackBase := base }) h3 p q name entry stackSize
  obtain ⟨pid', -, low, stackBase', queue', -⟩ :=
    prepared_pcb ({ t with heap := h2 }.setPcb p { t.pcb p with stackBase := base }) h3 p q name entry stackSize
  rw [setPcb_self] at stackBase stackBase'
  refine ⟨?_, ?_, ⟨pid'.trans (nextPid.trans pid.symm), stackBase'.trans stackBase.symm, queue'.trans queue.symm⟩, low⟩
  · have next : ∀ u : Processes, (created u name entry stackSize h2 h3 p base q).nextPid = (u.nextPid + 1) % 2 ^ 32 := by
      intro u
      rw [created, prepared, startProcess, Processes.pushEntry]
      generalize KernelHeap.store _ _ _ = heap
      rfl
    rw [next, next, nextPid]
  · rw [created, created, prepared_heap, prepared_heap, setPcb_self, setPcb_self]

theorem SameSlots.create (h : SameSlots s t) (c : Creates s stackSize h1 h2 h3 p base q i) (name : CStr) (entry : Nat) :
    SameSlots (processCreate s name entry stackSize).1 (processCreate t name entry stackSize).1 ∧
      (processCreate t name entry stackSize).2 = (processCreate s name entry stackSize).2 := by
  have touches : ∀ u, Touches p u (created u name entry stackSize h2 h3 p base q) := fun _ => created_touches
  obtain ⟨nextPid, heap, own, low⟩ := created_fields h.nextPid
  have same := h.touched (touches s) (touches t) nextPid heap own low
  rw [c.eq, (c.congr h).eq, h.nextPid, h.table, h.count]
  exact ⟨⟨rfl, rfl, same.nextPid, same.idle, same.heap, same.process, same.priority⟩, rfl⟩

theorem creates_of_made (made : (processCreate s name entry stackSize).2 ≠ 0) :
    ∃ h1 h2 h3 p base q i, Creates s stackSize h1 h2 h3 p base q i := by
  have room : ¬MAX_PROCESSES ≤ s.count := fun full => made (congrArg Prod.snd (processCreate_full full))
  obtain ⟨h1, p, pcb⟩ : ∃ h1 p, Heap.kmalloc s.heap SIZEOF_PROCESS = (h1, p) := ⟨_, _, rfl⟩
  obtain ⟨h2, base, stack⟩ : ∃ h2 base, Heap.kmalloc h1 stackSize = (h2, base) := ⟨_, _, rfl⟩
  obtain ⟨h3, q, queue⟩ : ∃ h3 q, Heap.kmalloc h2 SIZEOF_MESSAGE_QUEUE = (h3, q) := ⟨_, _, rfl⟩
  have first := kmalloc_of_heap pcb
  have second : { s with heap := h1 }.kmalloc stackSize = ({ s with heap := h2 }, base) :=
    kmalloc_of_heap (s := { s with heap := h1 }) stack
  have third : ∀ u : Processes, u.heap = h2 → u.kmalloc SIZEOF_MESSAGE_QUEUE = ({ u with heap := h3 }, q) := by
    rintro u rfl
    exact kmalloc_of_heap queue
  have pcbThere : p ≠ 0 := by
    rintro rfl
    rw [processCreate, if_neg room, first] at made
    exact made rfl
  have stackThere : base ≠ 0 := by
    rintro rfl
    rw [processCreate, if_neg room, first] at made
    simp only [if_neg pcbThere, second] at made
    exact made rfl
  rw [processCreate_finish room first pcbThere second stackThere] at made
  have queueThere : q ≠ 0 := by
    rintro rfl
    rw [finishProcess, third _ rfl] at made
    exact made rfl
  rw [finishProcess_prepared (third _ rfl) queueThere] at made
  change (enterProcess (created s name entry stackSize h2 h3 p base q) p).2 ≠ 0 at made
  cases slot : s.findSlot (fun q => decide (q = 0)) with
  | none =>
    have none : ∀ u : Processes, u.table = s.table → u.findSlot (fun q => decide (q = 0)) = none := by
      intro u same
      rw [← slot, Processes.findSlot, Processes.findSlot, same]
    have touches : Touches p s (created s name entry stackSize h2 h3 p base q) := created_touches
    rw [enterProcess, none _ touches.table] at made
    exact absurd rfl made
  | some i => exact ⟨h1, h2, h3, p, base, q, i, room, pcb, stack, queue, ⟨pcbThere, stackThere, queueThere⟩, slot⟩

theorem Creates.current (c : Creates s stackSize h1 h2 h3 p base q i) :
    (processCreate s name entry stackSize).1.current = s.current := by
  have touches : Touches p s (created s name entry stackSize h2 h3 p base q) := created_touches
  rw [c.eq]
  exact touches.current

end Same

end Create

end Wittche.Process
