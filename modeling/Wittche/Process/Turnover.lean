import Wittche.Process.Schedule

/-! Processes come and go. A call may fail and give back what it took, put a new process
into a free slot, or empty a slot; in each case the other slots keep their processes,
and the invariant holds again. -/

namespace Wittche.Process
open Bytes CString Heap Segments

section

variable {s t : Processes} {l l' : List Seg} {i j p base q : Nat}

theorem Blocks.pcb_live (blocks : Blocks s l) (used : Used s i) : s.table i ∈ pointers l :=
  blocks.live i .pcb used used.2

theorem Blocks.three (blocks : Blocks s l) (used : Used s i) (zero : i ≠ 0) :
    (s.table i ∈ pointers l ∧ (inSlot s i).stackBase ∈ pointers l ∧ (inSlot s i).msgQueue ∈ pointers l) ∧
      ((inSlot s i).stackBase ≠ s.table i ∧ (inSlot s i).msgQueue ≠ s.table i ∧
        (inSlot s i).msgQueue ≠ (inSlot s i).stackBase) ∧ (inSlot s i).msgQueue ≠ 0 := by
  have full := fun part => blocks.full i part used zero
  have own := fun part => blocks.live i part used (full part)
  have differ : ∀ part part', part ≠ part' → block s i part ≠ block s i part' := fun part part' other same =>
    other (blocks.apart i i part part' used used (full part) same).2
  have queue : block s i .queue = (inSlot s i).msgQueue := if_neg zero
  rw [← queue]
  exact ⟨⟨own .pcb, own .stack, own .queue⟩,
    ⟨differ .stack .pcb (by simp), differ .queue .pcb (by simp), differ .queue .stack (by simp)⟩, full .queue⟩

theorem Slots.processGet_pid {s : Processes} (slots : Slots s) {i : Nat} (used : Used s i) :
    s.processGet (inSlot s i).pid = s.table i := by
  rw [Processes.processGet, slots.slotOf_pid used]

theorem Slots.pid_ne_zero (slots : Slots s) (used : Used s i) : (inSlot s i).pid ≠ 0 ↔ i ≠ 0 := by
  have idle : (inSlot s 0).pid = 0 := by
    rw [inSlot, slots.idleSlot, slots.idlePid]
  constructor
  · rintro nonzero rfl
    exact nonzero idle
  · intro other none
    exact other (slots.pids i 0 used slots.seats.used_zero (none.trans idle.symm))

/-- A call that failed: the slots and their processes are as before, and the same
pointers are live. -/
structure Abandoned (s t : Processes) (l l' : List Seg) : Prop where
  table : t.table = s.table
  count : t.count = s.count
  idle : t.idle = s.idle
  current : t.current = s.current
  rests : ∀ b ∈ Heap.pointers l, t.rest b = s.rest b
  nextPid : s.nextPid ≤ t.nextPid ∧ t.nextPid ≤ s.nextPid + 1
  tiled : Tiled t.heap l'
  pointers : ∀ b, b ∈ pointers l' ↔ b ∈ Heap.pointers l
  pcbs : ∀ b ∈ Heap.pointers l, t.pcb b = s.pcb b
  queue : t.queue = s.queue

/-- A new process in slot `i` with its three blocks. -/
structure Born (s t : Processes) (l l' : List Seg) (i p base q : Nat) : Prop where
  free : i < MAX_PROCESSES ∧ s.table i = 0
  table : t.table = Function.update s.table i p
  count : t.count = s.count + 1
  idle : t.idle = s.idle
  current : t.current = s.current
  rest : t.rest p = .back
  rests : ∀ b, b ≠ p → t.rest b = s.rest b
  nextPid : t.nextPid = s.nextPid + 1
  tiled : Tiled t.heap l'
  pointers : ∀ b, b ∈ pointers l' ↔ b = q ∨ b = base ∨ b = p ∨ b ∈ Heap.pointers l
  nonzero : p ≠ 0 ∧ base ≠ 0 ∧ q ≠ 0
  fresh : p ∉ Heap.pointers l ∧ base ∉ Heap.pointers l ∧ q ∉ Heap.pointers l
  apart : base ≠ p ∧ q ≠ p ∧ q ≠ base
  pid : (t.pcb p).pid = s.nextPid
  state : (t.pcb p).state = .ready
  priority : (t.pcb p).priority ≤ 255
  stackBase : (t.pcb p).stackBase = base
  msgQueue : (t.pcb p).msgQueue = q
  pcbs : ∀ b, b ≠ p → t.pcb b = s.pcb b
  directory : t.directory = s.directory
  queue : t.queue = Function.update s.queue q { s.queue q with head := 0, tail := 0, count := 0 }

/-- The process in slot `i` is gone, and its blocks are free. -/
structure Buried (s t : Processes) (l l' : List Seg) (i : Nat) : Prop where
  table : t.table = Function.update s.table i 0
  count : t.count = s.count - 1
  nextPid : t.nextPid = s.nextPid
  idle : t.idle = s.idle
  current : t.current = s.current
  rest : t.rest = s.rest
  pcb : t.pcb = s.pcb
  tiled : Tiled t.heap l'
  pointers : ∀ b, b ∈ pointers l' ↔ b ∈ Heap.pointers l ∧ ∀ part, b ≠ block s i part

/-- Slots get free, and slots in `New` get new processes; the others stay. -/
structure Turnover (s t : Processes) (l l' : List Seg) (New : Nat → Prop) : Prop where
  idle : t.idle = s.idle
  current : t.current = s.current
  nextPid : s.nextPid ≤ t.nextPid
  count : t.count = (usedSlots t).card
  tiled : Tiled t.heap l'
  old : ∀ i, Used t i → ¬New i → Used s i ∧ t.table i = s.table i ∧ inSlot t i = inSlot s i ∧
    t.rest (t.table i) = s.rest (s.table i)
  stays : ∀ i, Used s i → s.table i = s.idle ∨ s.table i = s.current → Used t i ∧ ¬New i
  kept : ∀ i part, Used t i → ¬New i → block s i part ∈ pointers l → block s i part ∈ pointers l'
  once : ∀ i j, New i → New j → i = j
  pid : ∀ i, New i → s.nextPid ≤ (inSlot t i).pid ∧ (inSlot t i).pid < t.nextPid
  start : ∀ i, New i → i ≠ 0 ∧ (inSlot t i).state = .ready ∧ (inSlot t i).priority ≤ 255 ∧
    t.rest (t.table i) = .back
  blocks : ∀ i part, New i → block t i part ≠ 0 ∧ block t i part ∈ pointers l' ∧ block t i part ∉ pointers l
  distinct : ∀ i part part', New i → block t i part = block t i part' → part = part'

section Turnover

variable {New : Nat → Prop}

theorem Turnover.block_old (h : Turnover s t l l' New) (used : Used t i) (old : ¬New i) (part : Part) :
    block t i part = block s i part := by
  obtain ⟨-, table, process, -⟩ := h.old i used old
  cases part with
  | pcb => exact table
  | stack => simp only [block, process]
  | queue => simp only [block, process]

theorem Turnover.stay (h : Turnover s t l l' New) (used : Used s i)
    (named : s.table i = s.idle ∨ s.table i = s.current) :
    Used t i ∧ ¬New i ∧ t.table i = s.table i ∧ t.pcb (s.table i) = s.pcb (s.table i) := by
  obtain ⟨used', old⟩ := h.stays i used named
  obtain ⟨-, table, process, -⟩ := h.old i used' old
  rw [inSlot, table] at process
  exact ⟨used', old, table, process⟩

theorem Turnover.idle_stays (h : Turnover s t l l' New) (seats : Seats s) :
    t.table 0 = s.idle ∧ t.pcb s.idle = s.pcb s.idle := by
  obtain ⟨-, -, table, pcb⟩ := h.stay seats.used_zero (Or.inl seats.idleSlot)
  rw [seats.idleSlot] at table pcb
  exact ⟨table, pcb⟩

theorem Turnover.seats (h : Turnover s t l l' New) (seats : Seats s) : Seats t := by
  refine ⟨?_, ?_, h.count⟩
  · rw [(h.idle_stays seats).1, h.idle]
  · rw [h.idle]
    exact seats.idleThere

theorem Turnover.slots (h : Turnover s t l l' New) (slots : Slots s) : Slots t := by
  have pcb0 := (h.idle_stays slots.seats).2
  obtain ⟨idleSlot, idleThere, count⟩ := h.seats slots.seats
  have lower : ∀ {i}, Used t i → ¬New i → (inSlot t i).pid < s.nextPid := by
    intro i used old
    obtain ⟨used', -, process, -⟩ := h.old i used old
    rw [process]
    exact slots.pidLt i used'
  refine ⟨idleSlot, idleThere, ?_, ?_, ?_, ?_, count⟩
  · rw [h.idle, pcb0]
    exact slots.idlePid
  · intro i j usedi usedj same
    by_cases newi : New i
    · by_cases newj : New j
      · exact h.once i j newi newj
      · have low := lower usedj newj
        have high := (h.pid i newi).1
        omega
    · by_cases newj : New j
      · have low := lower usedi newi
        have high := (h.pid j newj).1
        omega
      · obtain ⟨oldi, -, processi, -⟩ := h.old i usedi newi
        obtain ⟨oldj, -, processj, -⟩ := h.old j usedj newj
        rw [processi, processj] at same
        exact slots.pids i j oldi oldj same
  · intro i used
    by_cases new : New i
    · exact (h.pid i new).2
    · exact Nat.lt_of_lt_of_le (lower used new) h.nextPid
  · intro i used
    by_cases new : New i
    · exact (h.start i new).2.2.1
    · obtain ⟨used', -, process, -⟩ := h.old i used new
      rw [process]
      exact slots.priorities i used'

theorem Turnover.blocks_inv (h : Turnover s t l l' New) (blocks : Blocks s l) : Blocks t l' := by
  have there : ∀ {i part}, Used t i → ¬New i → block t i part ≠ 0 → block t i part ∈ pointers l := by
    intro i part used old nonzero
    rw [h.block_old used old] at nonzero ⊢
    exact blocks.live i part (h.old i used old).1 nonzero
  refine ⟨h.tiled, ?_, ?_, ?_⟩
  · intro i part used nonzero
    by_cases new : New i
    · exact (h.blocks i part new).2.1
    · have held := there used new nonzero
      rw [h.block_old used new] at held ⊢
      exact h.kept i part used new held
  · intro i j part part' usedi usedj nonzero same
    by_cases newi : New i
    · by_cases newj : New j
      · obtain rfl := h.once i j newi newj
        exact ⟨rfl, h.distinct i part part' newi same⟩
      · refine absurd (there usedj newj ?_) (same ▸ (h.blocks i part newi).2.2)
        rw [← same]
        exact nonzero
    · by_cases newj : New j
      · exact absurd (same ▸ there usedi newi nonzero) (h.blocks j part' newj).2.2
      · rw [h.block_old usedi newi] at nonzero same
        rw [h.block_old usedj newj] at same
        exact blocks.apart i j part part' (h.old i usedi newi).1 (h.old j usedj newj).1 nonzero same
  · intro i part used nonzero
    by_cases new : New i
    · exact (h.blocks i part new).1
    · rw [h.block_old used new]
      exact blocks.full i part (h.old i used new).1 nonzero

theorem Turnover.states (h : Turnover s t l l' New) (seats : Seats s) (states : States s) : States t := by
  have pcb0 := (h.idle_stays seats).2
  obtain ⟨c, usedc, here⟩ := states.current
  obtain ⟨usedc', -, tablec, -⟩ := h.stay usedc (Or.inr here)
  refine ⟨?_, ⟨c, usedc', by rw [tablec, here, h.current]⟩, ?_, ?_⟩
  · rw [h.idle, pcb0]
    exact states.idleAlive
  · intro i used other
    by_cases new : New i
    · rw [(h.start i new).2.1]
      decide
    · obtain ⟨used', table, process, -⟩ := h.old i used new
      rw [table, h.current] at other
      rw [process]
      exact states.running i used' other
  · intro i used alive
    by_cases new : New i
    · exact (h.start i new).2.2.2
    · obtain ⟨used', -, process, rest⟩ := h.old i used new
      rw [process] at alive
      rw [rest]
      exact states.rest i used' alive

theorem Turnover.inv (h : Turnover s t l l' New) (inv : Inv s) (blocks : Blocks s l) : Inv t := by
  refine ⟨h.slots inv.slots, ⟨l', h.blocks_inv blocks⟩, h.states inv.slots.seats inv.states, ?_⟩
  obtain ⟨c, usedc, here⟩ := inv.states.current
  obtain ⟨-, -, -, pcbc⟩ := h.stay usedc (Or.inr here)
  rw [here] at pcbc
  rw [h.current, pcbc]
  exact inv.alive

theorem Turnover.later (h : Turnover s t l l' New) : Later s t := by
  refine ⟨h.nextPid, fun i used low => ?_⟩
  by_cases new : New i
  · have high := (h.pid i new).1
    omega
  · obtain ⟨used', -, process, -⟩ := h.old i used new
    rw [process]
    exact ⟨used', rfl, id⟩

theorem Turnover.stays_old (h : Turnover s t l l' New) (used : Used t i) (old : ¬New i) : Stays s t i := by
  obtain ⟨-, table, process, -⟩ := h.old i used old
  refine ⟨used, table, ?_, ?_⟩
  · rw [process]
    exact .refl _
  · rw [process]
    exact id

theorem Turnover.moved {killed : Nat → Prop} {n : Nat} (h : Turnover s t l l' New) (inv : Inv s)
    (blocks : Blocks s l) (pids : t.nextPid ≤ s.nextPid + n)
    (spared : ∀ i, Used s i → ¬killed (inSlot s i).pid → Used t i ∧ ¬New i) : Moved killed n s t := by
  refine ⟨h.inv inv blocks, h.later, pids, fun i used away => ?_⟩
  obtain ⟨used', old⟩ := spared i used away
  exact h.stays_old used' old

end Turnover

theorem Abandoned.turnover (h : Abandoned s t l l') (seats : Seats s) (blocks : Blocks s l) :
    Turnover s t l l' fun _ => False := by
  have used : ∀ {i}, Used t i ↔ Used s i := by
    intro i
    rw [Used, Used, h.table]
  refine ⟨h.idle, h.current, h.nextPid.1, ?_, h.tiled, ?_, ?_, ?_, ?_, ?_, ?_, ?_, ?_⟩
  · rw [h.count, seats.count, usedSlots, usedSlots, h.table]
  · intro i usedi _
    have old := used.mp usedi
    refine ⟨old, congrFun h.table i, ?_, by rw [h.table, h.rests _ (blocks.pcb_live old)]⟩
    rw [inSlot, h.table]
    exact h.pcbs _ (blocks.pcb_live old)
  · exact fun i usedi _ => ⟨used.mpr usedi, id⟩
  · exact fun i part _ _ held => (h.pointers _).mpr held
  all_goals exact fun _ => by tauto

theorem Born.turnover (h : Born s t l l' i p base q) (seats : Seats s) (blocks : Blocks s l) :
    Turnover s t l l' fun j => j = i := by
  obtain ⟨nonzero, nonzero', nonzero''⟩ := h.nonzero
  have here : t.table i = p := by
    rw [h.table, Function.update_self]
  have there : ∀ {j}, j ≠ i → t.table j = s.table j := by
    intro j other
    rw [h.table, Function.update_of_ne other]
  have zero : i ≠ 0 := by
    rintro rfl
    exact seats.used_zero.2 h.free.2
  have parts : block t i .pcb = p ∧ block t i .stack = base ∧ block t i .queue = q := by
    refine ⟨here, ?_, ?_⟩
    · simp only [block, inSlot, here, h.stackBase]
    · simp only [block, inSlot, here, h.msgQueue, if_neg zero]
  have grown : usedSlots t = insert i (usedSlots s) := by
    ext j
    rw [Finset.mem_insert, mem_usedSlots, mem_usedSlots, Used, Used]
    by_cases mine : j = i
    · subst mine
      simp [here, nonzero, h.free.1]
    · simp [there mine, mine]
  refine ⟨h.idle, h.current, ?_, ?_, h.tiled, ?_, ?_, ?_, ?_, ?_, ?_, ?_, ?_⟩
  · rw [h.nextPid]
    exact Nat.le_succ _
  · rw [h.count, seats.count, grown, Finset.card_insert_of_notMem fun mine =>
      (mem_usedSlots.mp mine).2 h.free.2]
    push_cast
    rfl
  · intro j used other
    have old : Used s j := ⟨used.1, by rw [← there other]; exact used.2⟩
    have away : s.table j ≠ p := fun same => h.fresh.1 (same ▸ blocks.pcb_live old)
    refine ⟨old, there other, ?_, ?_⟩
    · rw [inSlot, there other, h.pcbs _ away]
      rfl
    · rw [there other, h.rests _ away]
  · intro j used _
    have other : j ≠ i := by
      rintro rfl
      exact used.2 h.free.2
    exact ⟨⟨used.1, by rw [there other]; exact used.2⟩, other⟩
  · exact fun j part _ _ held => (h.pointers _).mpr (Or.inr (Or.inr (Or.inr held)))
  · exact fun j k same same' => same.trans same'.symm
  · rintro j rfl
    rw [inSlot, here, h.pid, h.nextPid]
    omega
  · rintro j rfl
    refine ⟨zero, ?_, ?_, ?_⟩
    · rw [inSlot, here, h.state]
    · rw [inSlot, here]
      exact h.priority
    · rw [here, h.rest]
  · rintro j part rfl
    obtain ⟨fresh, fresh', fresh''⟩ := h.fresh
    rw [h.pointers]
    cases part <;> simp [*]
  · rintro j part part' rfl same
    obtain ⟨apart, apart', apart''⟩ := h.apart
    obtain ⟨pcb, stack, queue⟩ := parts
    cases part <;> cases part' <;> simp_all [eq_comm]

theorem Buried.turnover (h : Buried s t l l' i) (seats : Seats s) (blocks : Blocks s l) (used : Used s i)
    (zero : i ≠ 0) (other : s.table i ≠ s.current) : Turnover s t l l' fun _ => False := by
  have gone : t.table i = 0 := by
    rw [h.table, Function.update_self]
  have there : ∀ {j}, j ≠ i → t.table j = s.table j := by
    intro j away
    rw [h.table, Function.update_of_ne away]
  have remains : ∀ {j}, Used t j → j ≠ i := by
    rintro j usedj rfl
    exact usedj.2 gone
  have shrunk : usedSlots t = (usedSlots s).erase i := by
    ext j
    rw [Finset.mem_erase, mem_usedSlots, mem_usedSlots, Used, Used]
    by_cases mine : j = i
    · subst mine
      simp [gone]
    · simp [there mine, mine]
  refine ⟨h.idle, h.current, Nat.le_of_eq h.nextPid.symm, ?_, h.tiled, ?_, ?_, ?_, ?_, ?_, ?_, ?_, ?_⟩
  · have mine := mem_usedSlots.mpr used
    have pos := Finset.card_pos.mpr ⟨i, mine⟩
    rw [h.count, seats.count, shrunk, Finset.card_erase_of_mem mine]
    omega
  · intro j usedj _
    have away := remains usedj
    have old : Used s j := ⟨usedj.1, by rw [← there away]; exact usedj.2⟩
    refine ⟨old, there away, ?_, by rw [there away, h.rest]⟩
    rw [inSlot, there away, h.pcb]
    rfl
  · intro j usedj named
    have away : j ≠ i := by
      rintro rfl
      rcases named with idle | current
      · rw [← seats.idleSlot] at idle
        exact zero (blocks.apart j 0 .pcb .pcb used seats.used_zero used.2 idle).1
      · exact other current
    exact ⟨⟨usedj.1, by rw [there away]; exact usedj.2⟩, id⟩
  · intro j part usedj _ held
    have away := remains usedj
    have old : Used s j := ⟨usedj.1, by rw [← there away]; exact usedj.2⟩
    refine (h.pointers _).mpr ⟨held, fun part' same => away ?_⟩
    exact (blocks.apart j i part part' old used (pointers_pos held) same).1
  all_goals exact fun _ => by tauto

end

end Wittche.Process
