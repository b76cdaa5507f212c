import Wittche.Process.Turnover

/-! Processes that are killed, that exit and that sleep. `process_kill` of another process
frees its blocks and its slot. A process that kills itself is suspended before its cleanup. -/

namespace Wittche.Process
open Bytes CString Heap Segments

section Kill

variable {s : Processes} {l : List Seg} {i : Nat}

theorem cleanup_heap {p : Nat} (there : (s.pcb p).msgQueue ≠ 0) : (cleanup s i p).heap =
    Heap.kfree (Heap.kfree (Heap.kfree s.heap (s.pcb p).stackBase) (s.pcb p).msgQueue) p := by
  rw [cleanup_eq]
  exact congrArg (fun heap => Heap.kfree heap p) (if_pos there)

theorem cleanup_buried (blocks : Blocks s l) (used : Used s i) (zero : i ≠ 0) :
    ∃ l', Buried s (cleanup s i (s.table i)) l l' i := by
  obtain ⟨⟨pcb, stack, queue⟩, ⟨stackPcb, queuePcb, queueStack⟩, there⟩ := blocks.three used zero
  obtain ⟨l1, tiled1, members1⟩ := kfree_live blocks.tiled stack
  obtain ⟨l2, tiled2, members2⟩ := kfree_live tiled1 ((members1 _).mpr ⟨queue, queueStack⟩)
  obtain ⟨l3, tiled3, members3⟩ := kfree_live tiled2
    ((members2 _).mpr ⟨(members1 _).mpr ⟨pcb, stackPcb.symm⟩, queuePcb.symm⟩)
  have part : block s i .queue = (inSlot s i).msgQueue := if_neg zero
  have all : ∀ b, b ∈ pointers l3 ↔ b ∈ pointers l ∧ ∀ part, b ≠ block s i part := by
    intro b
    rw [members3, members2, members1, ← part]
    constructor
    · rintro ⟨⟨⟨held, stack⟩, queue⟩, pcb⟩
      exact ⟨held, fun part => by cases part <;> assumption⟩
    · exact fun ⟨held, away⟩ => ⟨⟨⟨held, away .stack⟩, away .queue⟩, away .pcb⟩
  refine ⟨l3, ?_⟩
  rw [inSlot] at there
  rw [cleanup_eq, if_pos there]
  exact ⟨rfl, rfl, rfl, rfl, rfl, rfl, rfl, tiled3, all⟩

theorem States.stopped (states : States s) (alive : (s.pcb s.current).state ≠ .terminated) (idle : s.idle ≠ s.current)
    (x : Pcb) : States (s.setPcb s.current x) := by
  have other : ∀ p, p ≠ s.current → (s.setPcb s.current x).pcb p = s.pcb p := fun p away =>
    setPcb_other s away x
  refine ⟨?_, states.current, ?_, ?_⟩
  · change ((s.setPcb s.current x).pcb s.idle).state = _ ∨ ((s.setPcb s.current x).pcb s.idle).state = _
    rw [other _ idle]
    exact states.idleAlive
  · intro j used away
    change ((s.setPcb s.current x).pcb (s.table j)).state ≠ _
    rw [other (s.table j) away]
    exact states.running j used away
  · intro j used live
    refine states.rest j used fun dead => live ?_
    by_cases mine : s.table j = s.current
    · rw [inSlot, mine] at dead
      exact absurd dead alive
    · change ((s.setPcb s.current x).pcb (s.table j)).state = _
      rw [other _ mine]
      exact dead

theorem Inv.stop (inv : Inv s) (busy : (s.pcb s.current).pid ≠ 0) {x : Pcb} {rest : Rest}
    (same : SameProcess (s.pcb s.current) x) (priority : x.priority = (s.pcb s.current).priority)
    (left : rest = .back ∨ x.state = .terminated) :
    Scheduled (s.setPcb s.current x) (scheduleThen (s.setPcb s.current x) rest) := by
  have slots := sameSlots_setPcb s s.current same (by rw [priority]; exact id)
  have idle : s.idle ≠ s.current := by
    intro clash
    rw [← clash] at busy
    exact busy inv.slots.idlePid
  refine scheduleThen_spec (inv.slots.seats.congr slots) (inv.states.stopped inv.alive idle x) ?_
  refine left.imp_right fun dead => ?_
  change ((s.setPcb s.current x).pcb s.current).state = _
  rw [setPcb_self, dead]

/-- A process that kills itself: its slot stays as it is and control goes to another process. -/
structure Suspended (s t : Processes) : Prop extends SameSlots s t where
  dead : (t.pcb s.current).state = .terminated
  away : t.current ≠ s.current
  moved : Moved (fun _ => False) 0 s t

theorem Inv.suspend (inv : Inv s) (busy : (s.pcb s.current).pid ≠ 0) (rest : Rest) :
    Suspended s (scheduleThen (s.setState s.current .terminated) rest) := by
  have same := sameSlots_setState s s.current .terminated
  have done : Scheduled (s.setState s.current .terminated)
      (scheduleThen (s.setState s.current .terminated) rest) :=
    inv.stop busy ⟨rfl, rfl, rfl⟩ rfl (Or.inr rfl)
  have dead := done.dead s.current (by rw [setState_self])
  have all := same.trans done.toSameSlots
  obtain ⟨l, blocks⟩ := inv.blocks
  have next := done.inv (inv.slots.congr same) ⟨l, blocks.congr same⟩
  refine ⟨all, dead, ?_, all.moved next fun p gone => done.dead p ?_⟩
  · intro back
    exact done.alive (by rw [back]; exact dead)
  · by_cases mine : p = s.current
    · rw [mine, setState_self]
    · rw [setState_other s mine]
      exact gone

theorem Inv.slotOf_current (inv : Inv s) :
    ∃ i, s.slotOf (s.pcb s.current).pid = some i ∧ Used s i ∧ s.table i = s.current := by
  obtain ⟨c, used, here⟩ := inv.states.current
  have found := inv.slots.slotOf_pid used
  rw [inSlot, here] at found
  exact ⟨c, found, used, here⟩

theorem processKill_self (inv : Inv s) (busy : (s.pcb s.current).pid ≠ 0) :
    Suspended s (processKill s (s.pcb s.current).pid) := by
  obtain ⟨i, found, -, here⟩ := inv.slotOf_current
  rw [processKill, if_neg busy, found]
  simp only [if_pos here]
  exact inv.suspend busy _

theorem processExit_self (inv : Inv s) (busy : (s.pcb s.current).pid ≠ 0) :
    Suspended s (processExit s) := by
  obtain ⟨i, used, here⟩ := inv.states.current
  have there : s.current ≠ 0 := here ▸ used.2
  rw [processExit, if_neg there, if_neg busy]
  exact processKill_self inv busy

theorem processKill_moved (inv : Inv s) (pid : Nat) : Moved (· = pid) 0 s (processKill s pid) := by
  rcases processKill_cases s pid with same | ⟨i, nonzero, found, kill⟩
  · rw [same]
    exact (Moved.refl inv).mono (fun _ => False.elim) (Nat.le_refl 0)
  obtain ⟨used, named⟩ := slotOf_some found
  rcases kill with ⟨busy, -, result⟩ | ⟨other, result⟩
  · rw [result]
    exact (inv.suspend busy (.cleanup i)).moved.mono (fun _ => False.elim) (Nat.le_refl 0)
  · obtain ⟨l, blocks⟩ := inv.blocks
    have zero : i ≠ 0 := by
      rintro rfl
      rw [inSlot, inv.slots.idleSlot, inv.slots.idlePid] at named
      exact nonzero named.symm
    obtain ⟨l', buried⟩ := cleanup_buried blocks used zero
    have turnover := buried.turnover inv.slots.seats blocks used zero other
    rw [result]
    refine turnover.moved inv blocks (Nat.le_of_eq buried.nextPid) fun j used' spared => ⟨⟨used'.1, ?_⟩, id⟩
    rw [buried.table, Function.update_of_ne (by rintro rfl; exact spared named)]
    exact used'.2

theorem processExit_moved (inv : Inv s) : Moved (fun _ => False) 0 s (processExit s) := by
  rcases processExit_cases s with same | ⟨busy, -⟩
  · rw [same]
    exact .refl inv
  · exact (processExit_self inv busy).moved

theorem processSleep_moved (inv : Inv s) (ms : Nat) : Moved (fun _ => False) 0 s (processSleep s ms) := by
  rcases processSleep_cases s ms with same | ⟨busy, sleeps⟩
  · rw [same]
    exact .refl inv
  · have same : SameProcess (s.pcb s.current) { s.pcb s.current with
        wakeTime := (s.ticks + ms) % 2 ^ 32, state := .blocked } := ⟨rfl, rfl, rfl⟩
    have done := inv.stop busy same rfl (Or.inl (Eq.refl Rest.back))
    have slots := sameSlots_setPcb s s.current same id
    obtain ⟨l, blocks⟩ := inv.blocks
    have next := done.inv (inv.slots.congr slots) ⟨l, blocks.congr slots⟩
    rw [sleeps]
    refine (slots.trans done.toSameSlots).moved next fun p gone => done.dead p ?_
    by_cases mine : p = s.current
    · rw [mine] at gone
      exact absurd gone inv.alive
    · rw [setPcb_other s mine]
      exact gone

end Kill

end Wittche.Process
