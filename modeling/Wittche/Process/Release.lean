import Wittche.Process.Runs

/-! What a process leaves behind that exits. The cleanup stands behind the switch to another
process, and a terminated process is never switched to: the slot and the blocks stay until
somebody else kills the pid. -/

namespace Wittche.Process
open Bytes CString Heap Segments Execution

/-- The end of the process in slot `i`, as `process_kill` of another process reaches it. -/
structure Released (s t : Processes) (i : Nat) : Prop where
  slot : t.table i = 0
  count : t.count = s.count - 1
  blocks : ∀ part, ¬Allocated t.heap (block s i part)

def living (s : Processes) : Finset Nat := (usedSlots s).filter fun i => (inSlot s i).state ≠ .terminated

section

variable {s t : Processes} {i : Nat}

theorem Inv.allocated (inv : Inv s) (used : Used s i) (zero : i ≠ 0) (part : Part) :
    Allocated s.heap (block s i part) := by
  obtain ⟨l, blocks⟩ := inv.blocks
  exact ⟨l, blocks.tiled, blocks.live i part used (blocks.full i part used zero)⟩

theorem Stays.block (h : Stays s t i) (part : Part) : block t i part = block s i part := by
  cases part with
  | pcb => exact h.table
  | stack => exact h.process.stackBase
  | queue =>
    simp only [Process.block]
    rw [h.process.msgQueue]

theorem living_lt_count (slots : Slots s) (used : Used s i) (dead : (inSlot s i).state = .terminated) :
    ((living s).card : Int) < s.count := by
  rw [slots.count, Int.ofNat_lt]
  refine Finset.card_lt_card (Finset.filter_ssubset.mpr ⟨i, mem_usedSlots.mpr used, ?_⟩)
  rw [dead]
  exact fun alive => alive rfl

theorem Inv.slot_ne_zero (inv : Inv s) (here : s.table i = s.current) (busy : (s.pcb s.current).pid ≠ 0) : i ≠ 0 := by
  rintro rfl
  rw [← here, inv.slots.idleSlot, inv.slots.idlePid] at busy
  exact busy rfl

end

/-- `process_exit`, and `process_kill` of the own pid, release nothing. Control goes to another
process, and in every later state of the run, up to a `process_kill` of the pid, the slot is
taken and the blocks are allocated; with all slots taken nothing can be created, although
fewer processes are living. -/
theorem self_kill_releases_nothing (s0 s t u : Processes) (entry i : Nat) (ops ops' : List ProcessOp)
    (boot : Boot s0) (few : creations (ops ++ ops') < 2 ^ 32 - 1)
    (run : Exec Processes.allowed Processes.step (processInit s0 entry) ops s)
    (used : Used s i) (here : s.table i = s.current) (busy : (s.pcb s.current).pid ≠ 0)
    (self : t = processExit s ∨ t = processKill s (s.pcb s.current).pid)
    (run' : Exec Processes.allowed Processes.step t ops' u)
    (spared : ∀ op ∈ ops', ¬op.kills (s.pcb s.current).pid) :
    t.current ≠ s.current ∧ t.table i ≠ 0 ∧ t.count ≠ s.count - 1 ∧ ¬Released s t i ∧
      u.table i = s.current ∧ (inSlot u i).state = .terminated ∧
      (∀ part, Allocated u.heap (block s i part)) ∧
      (u.count = MAX_PROCESSES → (living u).card < MAX_PROCESSES ∧
        ∀ name entry stackSize, processCreate u name entry stackSize = (u, 0)) := by
  rw [creations_append] at few
  obtain ⟨l, p, base, started⟩ := processInit_started boot entry
  have before := run_moved run started.inv (by rw [started.nextPid]; omega)
  have pids := before.pids
  rw [started.nextPid] at pids
  have zero := before.inv.slot_ne_zero here busy
  have suspended : Suspended s t := by
    rcases self with rfl | rfl
    · exact processExit_self before.inv busy
    · exact processKill_self before.inv busy
  have after := run_moved run' suspended.moved.inv (by rw [suspended.nextPid]; omega)
  have stop := suspended.moved.stays i used (fun hit => hit)
  have pid : (inSlot t i).pid = (s.pcb s.current).pid := by rw [stop.process.pid, inSlot, here]
  have stay := after.stays i stop.used (by
    rw [pid]
    rintro ⟨op, inside, hit⟩
    exact spared op inside hit)
  have dead : (inSlot t i).state = .terminated := by
    rw [inSlot, stop.table, here]
    exact suspended.dead
  have gone := stay.dead dead
  have taken : t.table i ≠ 0 := stop.used.2
  refine ⟨suspended.away, taken, ?_, fun released => taken released.slot, ?_, gone, ?_, ?_⟩
  · rw [suspended.count]
    omega
  · rw [stay.table, stop.table, here]
  · intro part
    rw [← stop.block, ← stay.block]
    exact after.inv.allocated stay.used zero part
  · intro full
    have fewer := living_lt_count after.inv.slots stay.used gone
    rw [full] at fewer
    exact ⟨Int.ofNat_lt.mp fewer, fun name entry stackSize => by rw [processCreate, if_pos (Int.le_of_eq full.symm)]⟩

def firstRuns : Processes :=
  ((processInit powerOn 0x1000).step (.processCreate taskName 0x2000 4096)).step .processSchedule

theorem firstRuns_current : Used firstRuns 1 ∧ firstRuns.table 1 = firstRuns.current ∧
    (firstRuns.pcb firstRuns.current).pid ≠ 0 := by
  decide +kernel

theorem self_kill_releases_nothing_first :
    (processExit firstRuns).current ≠ firstRuns.current ∧
      ¬Released firstRuns (processExit firstRuns) 1 := by
  obtain ⟨used, here, busy⟩ := firstRuns_current
  obtain ⟨away, -, -, kept, -⟩ := self_kill_releases_nothing powerOn firstRuns (processExit firstRuns)
    (processExit firstRuns) 0x1000 1 [.processCreate taskName 0x2000 4096, .processSchedule] [] powerOn_boot
    (by decide) (.cons ⟨by decide, by decide⟩ (.cons trivial (.nil _))) used here busy (Or.inl rfl) (.nil _) (by simp)
  exact ⟨away, kept⟩

/-- After its exit the first process has its slot, counts, and has its three blocks. -/
theorem exit_keeps_slot :
    (processExit firstRuns).current ≠ firstRuns.current ∧
      (processExit firstRuns).table 1 = firstRuns.current ∧
      (processExit firstRuns).count = firstRuns.count ∧
      (∀ part ∈ [Part.pcb, .stack, .queue],
        isFree (processExit firstRuns).heap.mem (block firstRuns 1 part - HEADER_SIZE) = 0) ∧
      ¬Released firstRuns (processExit firstRuns) 1 := by
  have taken : (processExit firstRuns).table 1 ≠ 0 := by decide +kernel
  refine ⟨by decide +kernel, by decide +kernel, by decide +kernel, ?_, fun released => taken released.slot⟩
  decide +kernel

end Wittche.Process
