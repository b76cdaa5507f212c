import Mathlib.Data.Finset.Card
import Wittche.Heap.Invariant
import Wittche.Process.Model

/-! The invariant of the process table, in three parts: the slots with their pids, the
heap blocks of the processes, and the states. Calls that leave the slots alone are calm:
they wake blocked processes and set priorities, and nothing else. -/

namespace Wittche.Process
open Bytes CString Heap Segments

def Used (s : Processes) (i : Nat) : Prop := i < MAX_PROCESSES ∧ s.table i ≠ 0

instance (s : Processes) (i : Nat) : Decidable (Used s i) := inferInstanceAs (Decidable (_ ∧ _))

def inSlot (s : Processes) (i : Nat) : Pcb := s.pcb (s.table i)

def usedSlots (s : Processes) : Finset Nat := (Finset.range MAX_PROCESSES).filter fun i => s.table i ≠ 0

section SlotOf

variable {s : Processes} {i : Nat}

theorem slotOf_some {pid : Nat} (found : s.slotOf pid = some i) : Used s i ∧ (inSlot s i).pid = pid := by
  obtain ⟨-, lt, hit, -⟩ := Scan.firstFrom_some found
  obtain ⟨there, same⟩ := of_decide_eq_true hit
  exact ⟨⟨by omega, there⟩, same⟩

theorem slotOf_used (used : Used s i) : ∃ j ≤ i, s.slotOf (inSlot s i).pid = some j ∧
    ∀ k < j, Used s k → (inSlot s k).pid ≠ (inSlot s i).pid := by
  cases found : s.slotOf (inSlot s i).pid with
  | none =>
    have miss := Scan.firstFrom_none.mp found i (Nat.zero_le i) (by
      rw [Nat.zero_add]
      exact used.1)
    exact absurd ⟨used.2, rfl⟩ (of_decide_eq_false miss)
  | some j =>
    obtain ⟨-, -, -, first⟩ := Scan.firstFrom_some found
    refine ⟨j, Nat.not_lt.mp fun above => ?_, rfl, fun k below used' same => ?_⟩
    · exact of_decide_eq_false (first i (Nat.zero_le i) above) ⟨used.2, rfl⟩
    · exact of_decide_eq_false (first k (Nat.zero_le k) below) ⟨used'.2, same⟩

theorem slotOf_first_iff (used : Used s i) : s.slotOf (inSlot s i).pid = some i ↔
    ∀ j < i, Used s j → (inSlot s j).pid ≠ (inSlot s i).pid := by
  obtain ⟨j, le, found, before⟩ := slotOf_used used
  constructor
  · intro here
    rw [Option.some.inj (found.symm.trans here)] at before
    exact before
  · intro first
    obtain ⟨used', same⟩ := slotOf_some found
    rcases Nat.lt_or_eq_of_le le with below | rfl
    · exact absurd same (first j below used')
    · exact found

end SlotOf

theorem mem_usedSlots {s : Processes} {i : Nat} : i ∈ usedSlots s ↔ Used s i := by
  rw [usedSlots, Finset.mem_filter, Finset.mem_range, Used]

structure Slots (s : Processes) : Prop where
  idleSlot : s.table 0 = s.idle
  idleThere : s.idle ≠ 0
  idlePid : (s.pcb s.idle).pid = 0
  pids : ∀ i j, Used s i → Used s j → (inSlot s i).pid = (inSlot s j).pid → i = j
  pidLt : ∀ i, Used s i → (inSlot s i).pid < s.nextPid
  priorities : ∀ i, Used s i → (inSlot s i).priority ≤ 255
  count : s.count = (usedSlots s).card

/-- The part of `Slots` that no wrapped pid can break: the idle process in its slot, and the
number of slots in use. -/
structure Seats (s : Processes) : Prop where
  idleSlot : s.table 0 = s.idle
  idleThere : s.idle ≠ 0
  count : s.count = (usedSlots s).card

theorem Slots.seats {s : Processes} (slots : Slots s) : Seats s := ⟨slots.idleSlot, slots.idleThere, slots.count⟩

theorem Slots.slotOf_pid {s : Processes} (slots : Slots s) {i : Nat} (used : Used s i) :
    s.slotOf (inSlot s i).pid = some i :=
  (slotOf_first_iff used).mpr fun j below used' same => Nat.ne_of_lt below (slots.pids j i used' used same)

theorem Seats.used_zero {s : Processes} (seats : Seats s) : Used s 0 :=
  ⟨by decide, by rw [seats.idleSlot]; exact seats.idleThere⟩

inductive Part
  | pcb
  | stack
  | queue

/-- The block of slot `i`, or 0: the idle process has no message queue. -/
def block (s : Processes) (i : Nat) : Part → Nat
  | .pcb => s.table i
  | .stack => (inSlot s i).stackBase
  | .queue => if i = 0 then 0 else (inSlot s i).msgQueue

/-- The blocks of the processes are allocated, and no two of them are the same. -/
structure Blocks (s : Processes) (l : List Seg) : Prop where
  tiled : Tiled s.heap l
  live : ∀ i part, Used s i → block s i part ≠ 0 → block s i part ∈ pointers l
  apart : ∀ i j part part', Used s i → Used s j → block s i part ≠ 0 →
    block s i part = block s j part' → i = j ∧ part = part'
  full : ∀ i part, Used s i → i ≠ 0 → block s i part ≠ 0

structure States (s : Processes) : Prop where
  idleAlive : (s.pcb s.idle).state = .ready ∨ (s.pcb s.idle).state = .running
  current : ∃ i, Used s i ∧ s.table i = s.current
  running : ∀ i, Used s i → s.table i ≠ s.current → (inSlot s i).state ≠ .running
  rest : ∀ i, Used s i → (inSlot s i).state ≠ .terminated → s.rest (s.table i) = .back

structure Inv (s : Processes) : Prop where
  slots : Slots s
  blocks : ∃ l, Blocks s l
  states : States s
  alive : (s.pcb s.current).state ≠ .terminated

/-- Seen later, a process that was terminated is still terminated, or gone. -/
structure Later (s t : Processes) : Prop where
  pids : s.nextPid ≤ t.nextPid
  kept : ∀ i, Used t i → (inSlot t i).pid < s.nextPid → Used s i ∧
    (inSlot s i).pid = (inSlot t i).pid ∧
    ((inSlot s i).state = .terminated → (inSlot t i).state = .terminated)

theorem Later.trans {s t u : Processes} (h : Later s t) (h' : Later t u) : Later s u := by
  refine ⟨h.pids.trans h'.pids, fun i used low => ?_⟩
  obtain ⟨used', pid, dead⟩ := h'.kept i used (Nat.lt_of_lt_of_le low h.pids)
  obtain ⟨used'', pid', dead'⟩ := h.kept i used' (by rw [pid]; exact low)
  exact ⟨used'', pid'.trans pid, fun gone => dead (dead' gone)⟩

/-- A change to one process that keeps its pid and its blocks. -/
structure SameProcess (x y : Pcb) : Prop where
  pid : y.pid = x.pid
  stackBase : y.stackBase = x.stackBase
  msgQueue : y.msgQueue = x.msgQueue

theorem SameProcess.refl (x : Pcb) : SameProcess x x := ⟨rfl, rfl, rfl⟩

theorem SameProcess.trans {x y z : Pcb} (h : SameProcess x y) (h' : SameProcess y z) : SameProcess x z :=
  ⟨h'.pid.trans h.pid, h'.stackBase.trans h.stackBase, h'.msgQueue.trans h.msgQueue⟩

/-- The slots stay as they are, with the same processes in them. -/
structure SameSlots (s t : Processes) : Prop where
  table : t.table = s.table
  count : t.count = s.count
  nextPid : t.nextPid = s.nextPid
  idle : t.idle = s.idle
  heap : t.heap = s.heap
  process : ∀ p, SameProcess (s.pcb p) (t.pcb p)
  priority : ∀ p, (s.pcb p).priority ≤ 255 → (t.pcb p).priority ≤ 255

theorem SameSlots.refl (s : Processes) : SameSlots s s :=
  ⟨rfl, rfl, rfl, rfl, rfl, fun _ => .refl _, fun _ => id⟩

theorem SameSlots.trans {s t u : Processes} (h : SameSlots s t) (h' : SameSlots t u) : SameSlots s u :=
  ⟨h'.table.trans h.table, h'.count.trans h.count, h'.nextPid.trans h.nextPid, h'.idle.trans h.idle,
    h'.heap.trans h.heap, fun p => (h.process p).trans (h'.process p),
    fun p low => h'.priority p (h.priority p low)⟩

section

variable {s t : Processes}

theorem SameSlots.used (h : SameSlots s t) {i : Nat} : Used t i ↔ Used s i := by
  rw [Used, Used, h.table]

theorem SameSlots.inSlot (h : SameSlots s t) (i : Nat) : SameProcess (inSlot s i) (inSlot t i) := by
  rw [Process.inSlot, Process.inSlot, h.table]
  exact h.process _

theorem SameSlots.block (h : SameSlots s t) (i : Nat) (part : Part) : block t i part = block s i part := by
  cases part with
  | pcb => exact congrFun h.table i
  | stack => exact (h.inSlot i).stackBase
  | queue =>
    simp only [Process.block]
    rw [(h.inSlot i).msgQueue]

theorem Seats.congr (seats : Seats s) (h : SameSlots s t) : Seats t := by
  refine ⟨?_, ?_, ?_⟩
  · rw [h.table, h.idle]
    exact seats.idleSlot
  · rw [h.idle]
    exact seats.idleThere
  · rw [h.count, seats.count, usedSlots, usedSlots, h.table]

theorem Slots.congr (slots : Slots s) (h : SameSlots s t) : Slots t := by
  have pid := fun i => (h.inSlot i).pid
  obtain ⟨idleSlot, idleThere, count⟩ := slots.seats.congr h
  refine ⟨idleSlot, idleThere, ?_, ?_, ?_, ?_, count⟩
  · rw [h.idle, (h.process _).pid]
    exact slots.idlePid
  · intro i j usedi usedj same
    rw [pid, pid] at same
    exact slots.pids i j (h.used.mp usedi) (h.used.mp usedj) same
  · intro i used
    rw [pid, h.nextPid]
    exact slots.pidLt i (h.used.mp used)
  · intro i used
    have old := slots.priorities i (h.used.mp used)
    rw [Process.inSlot, h.table]
    exact h.priority _ old

theorem Blocks.congr {l : List Seg} (blocks : Blocks s l) (h : SameSlots s t) : Blocks t l := by
  refine ⟨?_, ?_, ?_, ?_⟩
  · rw [h.heap]
    exact blocks.tiled
  · intro i part used there
    rw [h.block] at there ⊢
    exact blocks.live i part (h.used.mp used) there
  · intro i j part part' usedi usedj there same
    rw [h.block] at there
    rw [h.block, h.block] at same
    exact blocks.apart i j part part' (h.used.mp usedi) (h.used.mp usedj) there same
  · intro i part used nonzero
    rw [h.block]
    exact blocks.full i part (h.used.mp used) nonzero

/-- Nothing happens but that blocked processes may become ready. -/
structure Calm (s t : Processes) : Prop extends SameSlots s t where
  current : t.current = s.current
  rest : t.rest = s.rest
  states : ∀ p, (t.pcb p).state = (s.pcb p).state ∨
    (s.pcb p).state = .blocked ∧ (t.pcb p).state = .ready

theorem Calm.refl (s : Processes) : Calm s s := ⟨.refl s, rfl, rfl, fun _ => Or.inl rfl⟩

theorem Calm.trans {u : Processes} (h : Calm s t) (h' : Calm t u) : Calm s u := by
  refine ⟨h.toSameSlots.trans h'.toSameSlots, h'.current.trans h.current, h'.rest.trans h.rest, fun p => ?_⟩
  rcases h'.states p with same | ⟨blocked, ready⟩
  · rw [same]
    exact h.states p
  · rcases h.states p with same | ⟨-, ready'⟩
    · exact Or.inr ⟨by rw [← same]; exact blocked, ready⟩
    · rw [blocked] at ready'
      exact absurd ready' (by decide)

theorem Calm.state_iff (h : Calm s t) (p : Nat) {state : State} (running : state ≠ .ready)
    (blocked : state ≠ .blocked) : (t.pcb p).state = state ↔ (s.pcb p).state = state := by
  rcases h.states p with same | ⟨old, new⟩
  · rw [same]
  · rw [old, new]
    exact ⟨fun h => absurd h.symm running, fun h => absurd h.symm blocked⟩

theorem States.calm (states : States s) (h : Calm s t) : States t := by
  refine ⟨?_, ?_, ?_, ?_⟩
  · rw [h.idle]
    rcases h.states s.idle with same | ⟨blocked, -⟩
    · rw [same]
      exact states.idleAlive
    · rcases states.idleAlive with ready | running
      · rw [blocked] at ready
        exact absurd ready (by decide)
      · rw [blocked] at running
        exact absurd running (by decide)
  · obtain ⟨i, used, here⟩ := states.current
    exact ⟨i, h.used.mpr used, by rw [h.table, h.current, here]⟩
  · intro i used other
    rw [h.table, h.current] at other
    have old := states.running i (h.used.mp used) other
    rw [inSlot, h.table]
    exact fun now => old ((h.state_iff _ (by decide) (by decide)).mp now)
  · intro i used alive
    rw [inSlot, h.table] at alive
    rw [h.table, h.rest]
    exact states.rest i (h.used.mp used) fun dead =>
      alive ((h.state_iff _ (by decide) (by decide)).mpr dead)

theorem Inv.calm (inv : Inv s) (h : Calm s t) : Inv t := by
  obtain ⟨l, blocks⟩ := inv.blocks
  refine ⟨inv.slots.congr h.toSameSlots, ⟨l, blocks.congr h.toSameSlots⟩, inv.states.calm h, ?_⟩
  rw [h.current]
  exact fun dead => inv.alive ((h.state_iff _ (by decide) (by decide)).mp dead)

/-- The process of slot `i` is still there, and terminated if it was. -/
structure Stays (s t : Processes) (i : Nat) : Prop where
  used : Used t i
  table : t.table i = s.table i
  process : SameProcess (inSlot s i) (inSlot t i)
  dead : (inSlot s i).state = .terminated → (inSlot t i).state = .terminated

theorem Stays.refl {i : Nat} (used : Used s i) : Stays s s i := ⟨used, rfl, .refl _, id⟩

theorem Stays.trans {u : Processes} {i : Nat} (h : Stays s t i) (h' : Stays t u i) : Stays s u i :=
  ⟨h'.used, h'.table.trans h.table, h.process.trans h'.process, fun dead => h'.dead (h.dead dead)⟩

/-- What a call may do that takes at most `n` pids and kills nobody else but the pids
in `killed`. -/
structure Moved (killed : Nat → Prop) (n : Nat) (s t : Processes) : Prop where
  inv : Inv t
  later : Later s t
  pids : t.nextPid ≤ s.nextPid + n
  stays : ∀ i, Used s i → ¬killed (inSlot s i).pid → Stays s t i

theorem Moved.trans {killed killed' : Nat → Prop} {n n' : Nat} {u : Processes} (h : Moved killed n s t)
    (h' : Moved killed' n' t u) : Moved (fun pid => killed pid ∨ killed' pid) (n + n') s u := by
  refine ⟨h'.inv, h.later.trans h'.later, ?_, fun i used spared => ?_⟩
  · have first := h.pids
    have second := h'.pids
    omega
  · have here := h.stays i used fun hit => spared (Or.inl hit)
    exact here.trans (h'.stays i here.used fun hit => spared (Or.inr (here.process.pid ▸ hit)))

theorem Moved.mono {killed killed' : Nat → Prop} {n n' : Nat} (h : Moved killed n s t)
    (more : ∀ pid, killed pid → killed' pid) (le : n ≤ n') : Moved killed' n' s t :=
  ⟨h.inv, h.later, h.pids.trans (Nat.add_le_add_left le _),
    fun i used spared => h.stays i used fun hit => spared (more _ hit)⟩

theorem SameSlots.stays (h : SameSlots s t)
    (dead : ∀ p, (s.pcb p).state = .terminated → (t.pcb p).state = .terminated) {i : Nat} (used : Used s i) :
    Stays s t i := by
  refine ⟨h.used.mpr used, congrFun h.table i, h.inSlot i, ?_⟩
  rw [Process.inSlot, Process.inSlot, h.table]
  exact dead _

theorem SameSlots.moved (h : SameSlots s t) (inv : Inv t)
    (dead : ∀ p, (s.pcb p).state = .terminated → (t.pcb p).state = .terminated) :
    Moved (fun _ => False) 0 s t := by
  refine ⟨inv, ⟨Nat.le_of_eq h.nextPid.symm, fun i used _ => ?_⟩, Nat.le_of_eq h.nextPid,
    fun i used _ => h.stays dead used⟩
  have old := h.used.mp used
  exact ⟨old, (h.inSlot i).pid.symm, (h.stays dead old).dead⟩

theorem Moved.refl (inv : Inv s) : Moved (fun _ => False) 0 s s :=
  (SameSlots.refl s).moved inv fun _ => id

theorem Calm.moved (h : Calm s t) (inv : Inv s) : Moved (fun _ => False) 0 s t :=
  h.toSameSlots.moved (inv.calm h) fun p => (h.state_iff p (by decide) (by decide)).mpr

end

end Wittche.Process
