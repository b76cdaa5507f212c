import Wittche.Process.LongRuns

/-! What `process_create` takes from the heap and from the table, `process_kill` gives back:
the PCB, the stack, the message queue and the slot, however long the process has been there.
The pid is the only link between the two calls, and after `2 ^ 32` creations it is no longer
a name for one process. -/

namespace Wittche.Process
open Bytes CString Heap Segments Execution

structure SameHoldings (s t : Processes) : Prop where
  blocks : heapBlocks t.heap = heapBlocks s.heap
  table : t.table = s.table
  count : t.count = s.count

/-- There are three blocks more, large enough for a PCB, for the stack and for a message queue,
and the PCB is in slot `i`. -/
structure Added (s t : Processes) (stackSize : Word) (pid i p base q : Nat) : Prop where
  blocks : ∃ pcb stack queue, SIZEOF_PROCESS.toNat ≤ pcb ∧ stackSize.toNat ≤ stack ∧
    SIZEOF_MESSAGE_QUEUE.toNat ≤ queue ∧
    heapBlocks t.heap = insert (p, pcb) (insert (base, stack) (insert (q, queue) (heapBlocks s.heap)))
  fresh : ¬Allocated s.heap p ∧ ¬Allocated s.heap base ∧ ¬Allocated s.heap q
  apart : base ≠ p ∧ q ≠ p ∧ q ≠ base
  free : i < MAX_PROCESSES ∧ s.table i = 0
  table : t.table = Function.update s.table i p
  count : t.count = s.count + 1
  process : p ≠ 0 ∧ (t.pcb p).pid = pid ∧ (t.pcb p).stackBase = base ∧ (t.pcb p).msgQueue = q

/-- `process_create` has done nothing, or all. -/
def CreationBalanced (s : Processes) (stackSize : Word) (r : Processes × Nat) : Prop :=
  (r.2 = 0 → SameHoldings s r.1) ∧ (r.2 ≠ 0 → ∃ i p base q, Added s r.1 stackSize r.2 i p base q)

/-- The three blocks and the slot were there and are gone, and nothing else is. -/
structure Removed (s t : Processes) (i p base q : Nat) : Prop where
  there : s.table i = p ∧ Allocated s.heap p ∧ Allocated s.heap base ∧ Allocated s.heap q
  blocks : heapBlocks t.heap = heapBlocks s.heap \ {b | b.1 = p ∨ b.1 = base ∨ b.1 = q}
  table : t.table = Function.update s.table i 0
  count : t.count = s.count - 1

section Calls

variable {s t u : Processes} {l l' : List Seg} {i p base q n : Nat} {stackSize : Word}

theorem Born.added (born : Born s (t.renumber n) l l' i p base q) (blocks : Blocks s l) {h : KernelHeap}
    (granted : Granted s.heap h stackSize p base q) (same : heapBlocks t.heap = heapBlocks h)
    (fits : StackFits stackSize) :
    Added s t stackSize s.nextPid i p base q := by
  have fresh : ∀ {b}, b ∉ Heap.pointers l → ¬Allocated s.heap b := by
    intro b
    rw [blocks.tiled.allocated_iff]
    exact id
  exact ⟨same ▸ granted.blocks blocks.tiled born.nonzero fits.2,
    ⟨fresh born.fresh.1, fresh born.fresh.2.1, fresh born.fresh.2.2⟩, born.apart, born.free, born.table, born.count,
    ⟨born.nonzero.1, born.pid, born.stackBase, born.msgQueue⟩⟩

theorem creationBalanced_iff (kept : Kept s l) (name : CStr) (entry : Nat) (fits : StackFits stackSize) :
    CreationBalanced s stackSize (processCreate s name entry stackSize) ↔
      ¬(s.nextPid = 0 ∧ s.hasRoom stackSize) := by
  rcases processCreate_cases kept.seats kept.blocks name entry fits with
    ⟨t, l', n, full, same, made, -, abandoned⟩ | ⟨h, t, l', i, p, base, q, room, granted, heap, -, -, made, -, born⟩
  · rw [made]
    exact iff_of_true ⟨fun _ => ⟨same, abandoned.table, abandoned.count⟩, fun some => absurd rfl some⟩
      fun both => full both.2
  · rw [made]
    by_cases zero : s.nextPid = 0
    · refine iff_of_false (fun balanced => ?_) (not_not.mpr ⟨zero, room⟩)
      have table := congrFun (balanced.1 zero).table i
      have seat : t.table i = p := (congrFun born.table i).trans (Function.update_self ..)
      exact born.nonzero.1 (seat.symm.trans (table.trans born.free.2))
    · exact iff_of_true ⟨fun none => absurd none zero,
        fun _ => ⟨i, p, base, q, born.added kept.blocks granted heap fits⟩⟩ fun both => zero both.1

theorem cleanup_removed (kept : Kept s l) (used : Used s i) (zero : i ≠ 0) :
    Removed s (cleanup s i (s.table i)) i (s.table i) (inSlot s i).stackBase (inSlot s i).msgQueue := by
  obtain ⟨l', buried⟩ := cleanup_buried kept.blocks used zero
  obtain ⟨own, apart, there⟩ := kept.blocks.three used zero
  have live : ∀ {b}, b ∈ Heap.pointers l → Allocated s.heap b := fun held => ⟨l, kept.blocks.tiled, held⟩
  refine ⟨⟨rfl, live own.1, live own.2.1, live own.2.2⟩, ?_, buried.table, buried.count⟩
  rw [cleanup_heap there]
  exact kept.blocks.tiled.kfree_three ⟨live own.1, live own.2.1, live own.2.2⟩ apart

/-- `process_kill` removes the process exactly when no slot in front has its pid. -/
theorem removed_iff (kept : Kept s l) (used : Used s i) (named : (inSlot s i).pid ≠ 0) (away : s.table i ≠ s.current) :
    Removed s (processKill s (inSlot s i).pid) i (s.table i) (inSlot s i).stackBase (inSlot s i).msgQueue ↔
      ∀ j < i, Used s j → (inSlot s j).pid ≠ (inSlot s i).pid := by
  rw [← slotOf_first_iff used]
  constructor
  · intro removed
    by_contra other
    have stays := (processKill_lasts kept (inSlot s i).pid).stays i used fun found => other found.1
    have table := congrFun removed.table i
    rw [Function.update_self] at table
    exact stays.used.2 table
  · intro found
    rw [processKill_cleanup named found away]
    exact cleanup_removed kept used (kept.slot_ne_zero named)

end Calls

section Rounds

variable {s t u : Processes} {l l' : List Seg} {i p base q : Nat} {stackSize : Word}

theorem Added.seat {pid : Nat} (added : Added s t stackSize pid i p base q) : Used t i ∧ t.table i = p ∧
    (inSlot t i).pid = pid ∧ (inSlot t i).stackBase = base ∧ (inSlot t i).msgQueue = q := by
  have seat : t.table i = p := (congrFun added.table i).trans (Function.update_self ..)
  rw [inSlot, seat]
  exact ⟨⟨added.free.1, fun none => added.process.1 (seat.symm.trans none)⟩, rfl, added.process.2⟩

theorem Added.not_current {pid : Nat} (added : Added s t stackSize pid i p base q) (kept : Kept s l) :
    s.current ≠ p := by
  obtain ⟨c, used, current⟩ := kept.states.current
  rw [← current]
  exact fun clash => added.fresh.1 (clash ▸ ⟨l, kept.blocks.tiled, kept.blocks.pcb_live used⟩)

theorem Added.first {pid : Nat} (added : Added s t stackSize pid i p base q) (stays : ∀ j, Used s j → Stays s t j)
    (alone : ∀ j, Used s j → (inSlot s j).pid ≠ pid) : ∀ j < i, Used t j → (inSlot t j).pid ≠ pid := by
  intro j below used
  have table := congrFun added.table j
  rw [Function.update_of_ne (Nat.ne_of_lt below)] at table
  have old : Used s j := ⟨used.1, table ▸ used.2⟩
  rw [(stays j old).process.pid]
  exact alone j old

theorem Added.undone {pid : Nat} (added : Added s t stackSize pid i p base q) (removed : Removed t u i p base q) :
    SameHoldings s u := by
  obtain ⟨pcb, stack, queue, -, -, -, more⟩ := added.blocks
  refine ⟨?_, ?_, ?_⟩
  · rw [removed.blocks, more]
    ext b
    simp only [Set.mem_sdiff, Set.mem_insert_iff, Set.mem_ofPred_eq]
    constructor
    · rintro ⟨rfl | rfl | rfl | old, away⟩
      · exact absurd (Or.inl rfl) away
      · exact absurd (Or.inr (Or.inl rfl)) away
      · exact absurd (Or.inr (Or.inr rfl)) away
      · exact old
    · intro old
      refine ⟨Or.inr (Or.inr (Or.inr old)), ?_⟩
      rintro (rfl | rfl | rfl)
      · exact added.fresh.1 old.1
      · exact added.fresh.2.1 old.1
      · exact added.fresh.2.2 old.1
  · rw [removed.table, added.table, Function.update_idem, ← added.free.2, Function.update_eq_self]
  · rw [removed.count, added.count]
    omega

/-- A process is created and killed at once, and nothing is left of it but its pid. -/
theorem round_restores (kept : Kept s l) (room : s.hasRoom stackSize) (fits : StackFits stackSize)
    (named : s.nextPid ≠ 0) (alone : ∀ j, Used s j → (inSlot s j).pid ≠ s.nextPid) (name : CStr) (entry : Nat) :
    let u := processKill (processCreate s name entry stackSize).1 s.nextPid
    Kept u l ∧ u.table = s.table ∧ u.count = s.count ∧ u.nextPid = (s.nextPid + 1) % 2 ^ 32 := by
  have lasts : Lasts (fun _ => False) s (processCreate s name entry stackSize).1 :=
    processCreate_lasts kept name entry fits
  rcases processCreate_cases kept.seats kept.blocks name entry fits with
    ⟨t, l', n, full, -⟩ | ⟨h, t, l', i, p, base, q, -, granted, heap, -, -, made, number, born⟩
  · exact absurd room full
  rw [made] at lasts ⊢
  obtain ⟨⟨l1, kept1⟩, stays⟩ := lasts
  have added := born.added kept.blocks granted heap fits
  obtain ⟨used, seat, pid, stack, queue⟩ := added.seat
  have away : t.table i ≠ t.current := by
    have same : t.current = s.current := born.current
    rw [seat, same]
    exact (added.not_current kept).symm
  have found : t.slotOf s.nextPid = some i := by
    have first := added.first (fun j old => stays j old id) alone
    rw [← pid] at first ⊢
    exact (slotOf_first_iff used).mpr first
  have killed := processKill_cleanup named found away
  have removed : Removed t (processKill t s.nextPid) i p base q := by
    have gone := cleanup_removed kept1 used (kept1.slot_ne_zero (pid ▸ named))
    rw [stack, queue] at gone
    rw [killed, ← seat]
    exact gone
  obtain ⟨blocks, table, count⟩ := added.undone removed
  obtain ⟨l2, kept2⟩ := (processKill_lasts kept1 s.nextPid).kept
  obtain ⟨l3, buried⟩ := cleanup_buried kept1.blocks used (kept1.slot_ne_zero (pid ▸ named))
  obtain rfl := kept2.blocks.tiled.eq_of_blocks kept.blocks.tiled blocks
  refine ⟨kept2, table, count, ?_⟩
  rw [← number, killed]
  exact buried.nextPid

theorem hasRoom_congr (tiled : Tiled s.heap l) (tiled' : Tiled t.heap l) (count : t.count = s.count)
    (room : s.hasRoom stackSize) : t.hasRoom stackSize := by
  obtain ⟨few, pcb, stack, queue⟩ := room
  rw [Processes.hasRoom, count]
  rcases kmalloc_congr tiled tiled' SIZEOF_PROCESS with
    ⟨failed, -⟩ | ⟨k, k', p, l1, got, got', there, tiled1, tiled1', -⟩
  · exact absurd (congrArg Prod.snd failed) pcb
  rw [got] at stack queue
  rw [got']
  rcases kmalloc_congr tiled1 tiled1' stackSize with
    ⟨failed, -⟩ | ⟨k2, k2', base, l2, got2, got2', there2, tiled2, tiled2', -⟩
  · exact absurd (congrArg Prod.snd failed) stack
  rw [got2] at queue
  rw [got2']
  rcases kmalloc_congr tiled2 tiled2' SIZEOF_MESSAGE_QUEUE with
    ⟨failed, -⟩ | ⟨k3, k3', q, l3, got3, got3', there3, -⟩
  · exact absurd (congrArg Prod.snd failed) queue
  rw [got3']
  exact ⟨few, there, there2, there3⟩

end Rounds

/-- In every state behind `process_init`, creation takes nothing or three blocks and a slot,
unless it succeeds with `next_pid` wrapped to 0; and a kill of the process while another one
runs gives back just these, whatever happened in between, unless a process in a slot in front
has got the same pid. -/
theorem create_kill_balance_iff (s0 s : Processes) (entry0 : Nat) (ops : List ProcessOp) (name : CStr) (entry : Nat)
    (stackSize : Word) (boot : Boot s0) (run : Exec Processes.allowed Processes.step (processInit s0 entry0) ops s)
    (size : 8 ≤ stackSize.toNat ∧ stackSize.toNat ≤ HEAP_SIZE) :
    (CreationBalanced s stackSize (processCreate s name entry stackSize) ↔
      ¬(s.nextPid = 0 ∧ s.hasRoom stackSize)) ∧
    ∀ pid i p base q ops' u, (processCreate s name entry stackSize).2 = pid → pid ≠ 0 →
      Added s (processCreate s name entry stackSize).1 stackSize pid i p base q →
      Exec (Spares i) Processes.step (processCreate s name entry stackSize).1 ops' u → u.current ≠ p →
      (Removed u (processKill u pid) i p base q ↔ ∀ j < i, Used u j → (inSlot u j).pid ≠ pid) := by
  obtain ⟨l, kept⟩ := run_kept run (processInit_kept boot entry0)
  have fits : StackFits stackSize := ⟨size.1, size.2.trans (by decide)⟩
  refine ⟨creationBalanced_iff kept name entry fits, ?_⟩
  rintro pid i p base q ops' u - named added run' away
  have kept' := kept.create name entry fits
  revert added run' kept'
  generalize (processCreate s name entry stackSize).1 = t
  intro added run' kept'
  obtain ⟨used, seat, here, stack, queue⟩ := added.seat
  obtain ⟨⟨l', last⟩, stays⟩ := run_stays run' kept' used
  have slot : u.table i = p := stays.table.trans seat
  have named' : (inSlot u i).pid = pid := stays.process.pid.trans here
  have stack' : (inSlot u i).stackBase = base := stays.process.stackBase.trans stack
  have queue' : (inSlot u i).msgQueue = q := stays.process.msgQueue.trans queue
  have removed := removed_iff last stays.used (by rw [named']; exact named) (by rw [slot]; exact away.symm)
  rw [named', stack', queue', slot] at removed
  exact removed

def started : Processes := processInit powerOn 0x1000

theorem started_alone : ∀ j < MAX_PROCESSES, j ≠ 0 → started.table j = 0 := by decide +kernel

theorem alone_of_table {s : Processes} {l : List Seg} (kept : Kept s l) (table : s.table = started.table)
    (named : s.nextPid ≠ 0) : ∀ j, Used s j → (inSlot s j).pid ≠ s.nextPid := by
  intro j used
  have idle : j = 0 := by
    by_contra other
    refine used.2 ?_
    rw [table]
    exact started_alone j used.1 other
  rw [idle, inSlot, kept.seats.idleSlot, kept.idlePid]
  exact named.symm

theorem started_creates : (processCreate started taskName 0x2000 4096).2 = 1 := by decide +kernel

/-- The first process behind boot is created and killed. -/
theorem create_kill_balance_iff_first :
    CreationBalanced started 4096 (processCreate started taskName 0x2000 4096) ∧
      ∃ i p base q, Removed (processCreate started taskName 0x2000 4096).1
        (processKill (processCreate started taskName 0x2000 4096).1 1) i p base q := by
  obtain ⟨balanced, killed⟩ := create_kill_balance_iff powerOn started 0x1000 [] taskName 0x2000 4096 powerOn_boot
    (.nil _) (by decide)
  obtain ⟨l, kept⟩ : ∃ l, Kept started l := processInit_kept powerOn_boot 0x1000
  have number : started.nextPid = 1 := by decide +kernel
  have created := balanced.mpr fun both => absurd (number.symm.trans both.1) (by decide)
  obtain ⟨i, p, base, q, added⟩ := created.2 (by rw [started_creates]; decide)
  rw [started_creates] at added
  have lasts : Lasts (fun _ => False) started (processCreate started taskName 0x2000 4096).1 :=
    processCreate_lasts kept taskName 0x2000 ⟨by decide, by decide⟩
  have alone := alone_of_table kept rfl (by rw [number]; decide)
  rw [number] at alone
  refine ⟨created, i, p, base, q, (killed 1 i p base q [] _ started_creates (by decide) added (.nil _) ?_).mpr
    (added.first (fun j old => lasts.stays j old id) alone)⟩
  rw [processCreate_current kept _ _ ⟨by decide, by decide⟩]
  exact added.not_current kept

theorem rounds_reach {l : List Seg} (kept : Kept started l) (room : started.hasRoom 4096) (n : Nat) (few : n < 2 ^ 32) :
    ∃ ops s, Exec Processes.allowed Processes.step started ops s ∧ Kept s l ∧ s.table = started.table ∧
      s.count = started.count ∧ s.nextPid = (n + 1) % 2 ^ 32 := by
  induction n with
  | zero => exact ⟨[], started, .nil _, kept, rfl, rfl, by decide +kernel⟩
  | succ n ih =>
    obtain ⟨ops, s, run, kept', table, count, number⟩ := ih (by omega)
    have named : s.nextPid ≠ 0 := by omega
    have round := round_restores kept' (hasRoom_congr kept.blocks.tiled kept'.blocks.tiled count room) ⟨by decide, by decide⟩
      named (alone_of_table kept' table named) taskName 0x2000
    have two : Exec Processes.allowed Processes.step s
        [.processCreate taskName 0x2000 4096, .processKill s.nextPid]
        (processKill (processCreate s taskName 0x2000 4096).1 s.nextPid) :=
      .cons ⟨by decide, by decide⟩ (.cons trivial (.nil _))
    refine ⟨_, _, run.append two, round.1, round.2.1.trans table, round.2.2.1.trans count, ?_⟩
    refine round.2.2.2.trans ?_
    omega

/-- The pid counter wraps: a process is created with the pid 0, and the caller is told that
nothing was. -/
theorem wrapped_creation_unbalanced :
    ¬∀ s0 entry0 ops s name entry stackSize, Boot s0 →
      Exec Processes.allowed Processes.step (processInit s0 entry0) ops s →
      4 ≤ stackSize.toNat ∧ stackSize.toNat ≤ HEAP_SIZE →
      CreationBalanced s stackSize (processCreate s name entry stackSize) := by
  intro law
  obtain ⟨l, kept⟩ : ∃ l, Kept started l := processInit_kept powerOn_boot 0x1000
  have fits : StackFits 4096 := ⟨by decide, by decide⟩
  have room : started.hasRoom 4096 := by
    rcases processCreate_cases kept.seats kept.blocks taskName 0x2000 fits with
      ⟨t, l', n, -, -, made, -⟩ | ⟨h, t, l', i, p, base, q, room, -⟩
    · have zero : (1 : Nat) = 0 := started_creates.symm.trans (congrArg Prod.snd made)
      exact absurd zero (by decide)
    · exact room
  obtain ⟨ops, s, run, kept', -, count, number⟩ := rounds_reach kept room (2 ^ 32 - 1) (by decide)
  have balanced := law powerOn 0x1000 ops s taskName 0x2000 4096 powerOn_boot run (by decide)
  refine (creationBalanced_iff kept' taskName 0x2000 fits).mp balanced ⟨number, ?_⟩
  exact hasRoom_congr kept.blocks.tiled kept'.blocks.tiled count room

end Wittche.Process
