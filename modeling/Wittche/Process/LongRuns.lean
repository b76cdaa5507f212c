import Wittche.Process.Runs

/-! Runs of any length. `next_pid` wraps, so that two processes may have the same pid, and a
call that names it reaches the first of them. What no wrapped pid can break is kept by every
call, and a process stays in its slot as long as no call kills the process of that slot. -/

namespace Wittche.Process
open Bytes CString Heap Segments Execution

/-- What the calls keep with any number of processes created. -/
structure Kept (s : Processes) (l : List Seg) : Prop where
  seats : Seats s
  idlePid : (s.pcb s.idle).pid = 0
  blocks : Blocks s l
  states : States s
  awake : s.current = s.idle ∨ (s.pcb s.current).state = .running

section Kept

variable {s t : Processes} {l l' : List Seg}

theorem Kept.alive (kept : Kept s l) : (s.pcb s.current).state ≠ .terminated := by
  rcases kept.awake with idle | running
  · rw [idle]
    rcases kept.states.idleAlive with ready | running
    · simp [ready]
    · simp [running]
  · simp [running]

theorem Kept.slot_ne_zero (kept : Kept s l) {i : Nat} (named : (inSlot s i).pid ≠ 0) : i ≠ 0 := by
  rintro rfl
  rw [inSlot, kept.seats.idleSlot] at named
  exact named kept.idlePid

theorem Kept.calm (kept : Kept s l) (h : Calm s t) : Kept t l := by
  refine ⟨kept.seats.congr h.toSameSlots, ?_, kept.blocks.congr h.toSameSlots, kept.states.calm h, ?_⟩
  · rw [h.idle, (h.process _).pid]
    exact kept.idlePid
  · rw [h.current, h.idle]
    exact kept.awake.imp_right (h.state_iff _ (by decide) (by decide)).mpr

theorem Kept.turnover {New : Nat → Prop} (kept : Kept s l) (h : Turnover s t l l' New) : Kept t l' := by
  obtain ⟨c, used, here⟩ := kept.states.current
  obtain ⟨-, -, -, pcb⟩ := h.stay used (Or.inr here)
  rw [here] at pcb
  refine ⟨h.seats kept.seats, ?_, h.blocks_inv kept.blocks, h.states kept.seats kept.states, ?_⟩
  · rw [h.idle, (h.idle_stays kept.seats).2]
    exact kept.idlePid
  · rw [h.current, h.idle, pcb]
    exact kept.awake

theorem Kept.schedule (seats : Seats s) (idlePid : (s.pcb s.idle).pid = 0) (blocks : Blocks s l) (states : States s)
    {rest : Rest} (left : rest = .back ∨ (s.pcb s.current).state = .terminated) : Kept (scheduleThen s rest) l := by
  have done := scheduleThen_spec seats states left
  refine ⟨seats.congr done.toSameSlots, ?_, blocks.congr done.toSameSlots, done.states,
    Or.inr (scheduleThen_running seats states left)⟩
  rw [done.idle, (done.process _).pid]
  exact idlePid

theorem Kept.of_renumber {n : Nat} (kept : Kept (t.renumber n) l) : Kept t l := by
  obtain ⟨seats, idlePid, blocks, states, awake⟩ := kept
  exact ⟨⟨seats.idleSlot, seats.idleThere, seats.count⟩, idlePid,
    ⟨blocks.tiled, blocks.live, blocks.apart, blocks.full⟩,
    ⟨states.idleAlive, states.current, states.running, states.rest⟩, awake⟩

theorem Kept.create (kept : Kept s l) (name : CStr) (entry : Nat) {stackSize : Word} (fits : StackFits stackSize) :
    ∃ l', Kept (processCreate s name entry stackSize).1 l' := by
  rcases processCreate_wrap kept.seats kept.blocks name entry fits with
    ⟨t, l', n, made, -, abandoned⟩ | ⟨t, l', i, p, base, q, made, -, born⟩
  · rw [made]
    exact ⟨l', .of_renumber (kept.turnover (abandoned.turnover kept.seats kept.blocks))⟩
  · rw [made]
    exact ⟨l', .of_renumber (kept.turnover (born.turnover kept.seats kept.blocks))⟩

theorem processCreate_current (kept : Kept s l) (name : CStr) (entry : Nat) {stackSize : Word}
    (fits : StackFits stackSize) :
    (processCreate s name entry stackSize).1.current = s.current := by
  rcases processCreate_wrap kept.seats kept.blocks name entry fits with
    ⟨t, l', n, made, -, abandoned⟩ | ⟨t, l', i, p, base, q, made, -, born⟩
  · rw [made]
    exact abandoned.current
  · rw [made]
    exact born.current

theorem Kept.idle_ne_current (kept : Kept s l) (busy : (s.pcb s.current).pid ≠ 0) : s.idle ≠ s.current := by
  intro clash
  rw [← clash] at busy
  exact busy kept.idlePid

theorem Kept.stop (kept : Kept s l) (busy : s.idle ≠ s.current) {x : Pcb} {rest : Rest}
    (same : SameProcess (s.pcb s.current) x) (priority : x.priority = (s.pcb s.current).priority)
    (left : rest = .back ∨ x.state = .terminated) : Kept (scheduleThen (s.setPcb s.current x) rest) l := by
  have slots := sameSlots_setPcb s s.current same (by rw [priority]; exact id)
  refine Kept.schedule (kept.seats.congr slots) ?_ (kept.blocks.congr slots)
    (kept.states.stopped kept.alive busy x) (left.imp_right fun dead => ?_)
  · rw [slots.idle, (slots.process _).pid]
    exact kept.idlePid
  · change ((s.setPcb s.current x).pcb s.current).state = _
    rw [setPcb_self, dead]

/-- What a call may do that takes nobody away but the processes in the slots `gone`. -/
structure Lasts (gone : Nat → Prop) (s t : Processes) : Prop where
  kept : ∃ l, Kept t l
  stays : ∀ i, Used s i → ¬gone i → Stays s t i

theorem Lasts.refl {gone : Nat → Prop} (kept : Kept s l) : Lasts gone s s :=
  ⟨⟨l, kept⟩, fun _ used _ => .refl used⟩

theorem Kept.lasts_calm {gone : Nat → Prop} (kept : Kept s l) (h : Calm s t) : Lasts gone s t :=
  ⟨⟨l, kept.calm h⟩, fun _ used _ =>
    h.toSameSlots.stays (fun p => (h.state_iff p (by decide) (by decide)).mpr) used⟩

theorem Kept.lasts_turnover {gone New : Nat → Prop} (kept : Kept s l) (h : Turnover s t l l' New)
    (spared : ∀ i, Used s i → ¬gone i → Used t i ∧ ¬New i) : Lasts gone s t :=
  ⟨⟨l', kept.turnover h⟩, fun i used away => h.stays_old (spared i used away).1 (spared i used away).2⟩

theorem Kept.lasts_schedule {gone : Nat → Prop} (kept : Kept s l) : Lasts gone s (processSchedule s) := by
  have done := scheduleThen_spec kept.seats kept.states (Or.inl (Eq.refl Rest.back))
  exact ⟨⟨l, .schedule kept.seats kept.idlePid kept.blocks kept.states (Or.inl rfl)⟩,
    fun _ used _ => done.toSameSlots.stays done.dead used⟩

theorem Kept.lasts_stop {gone : Nat → Prop} (kept : Kept s l) (busy : s.idle ≠ s.current) {x : Pcb} {rest : Rest}
    (same : SameProcess (s.pcb s.current) x) (priority : x.priority = (s.pcb s.current).priority)
    (left : rest = .back ∨ x.state = .terminated) : Lasts gone s (scheduleThen (s.setPcb s.current x) rest) := by
  have slots := sameSlots_setPcb s s.current same (by rw [priority]; exact id)
  have left' : rest = .back ∨ ((s.setPcb s.current x).pcb s.current).state = .terminated := by
    rwa [setPcb_self]
  have done := scheduleThen_spec (kept.seats.congr slots) (kept.states.stopped kept.alive busy x) left'
  refine ⟨⟨l, kept.stop busy same priority left⟩, fun i used _ =>
    (slots.trans done.toSameSlots).stays (fun p dead => done.dead p ?_) used⟩
  by_cases mine : p = s.current
  · rw [mine] at dead
    exact absurd dead kept.alive
  · rwa [setPcb_other s mine]

end Kept

section Step

variable {s t : Processes} {l : List Seg}

/-- The slots that a call empties: a process that kills itself keeps its slot. -/
def ProcessOp.empties (s : Processes) : ProcessOp → Nat → Prop
  | .processKill pid => fun i => s.slotOf pid = some i ∧ s.table i ≠ s.current
  | .processExit => fun i => s.slotOf (s.pcb s.current).pid = some i ∧ s.table i ≠ s.current
  | _ => fun _ => False

def ProcessOp.ends (s : Processes) : ProcessOp → Nat → Prop
  | .processKill pid => fun i => s.slotOf pid = some i
  | .processExit => fun i => s.slotOf (s.pcb s.current).pid = some i
  | _ => fun _ => False

theorem processCreate_lasts {gone : Nat → Prop} (kept : Kept s l) (name : CStr) (entry : Nat) {stackSize : Word}
    (fits : StackFits stackSize) :
    Lasts gone s (processCreate s name entry stackSize).1 := by
  refine ⟨kept.create name entry fits, fun i used _ => ?_⟩
  rcases processCreate_wrap kept.seats kept.blocks name entry fits with
    ⟨t, l', n, made, -, abandoned⟩ | ⟨t, l', j, p, base, q, made, -, born⟩
  · rw [made]
    have old : Used (t.renumber n) i := ⟨used.1, by rw [abandoned.table]; exact used.2⟩
    obtain ⟨used', table, process, dead⟩ := (abandoned.turnover kept.seats kept.blocks).stays_old old id
    exact ⟨used', table, process, dead⟩
  · rw [made]
    have other : i ≠ j := by
      rintro rfl
      exact used.2 born.free.2
    have old : Used (t.renumber (s.nextPid + 1)) i :=
      ⟨used.1, by rw [born.table, Function.update_of_ne other]; exact used.2⟩
    obtain ⟨used', table, process, dead⟩ := (born.turnover kept.seats kept.blocks).stays_old old other
    exact ⟨used', table, process, dead⟩

theorem Lasts.calm {gone : Nat → Prop} {u : Processes} (h : Lasts gone s t) (calm : Calm t u) : Lasts gone s u := by
  obtain ⟨⟨l, kept⟩, stays⟩ := h
  refine ⟨⟨l, kept.calm calm⟩, fun i used away => ?_⟩
  have here := stays i used away
  exact here.trans (calm.toSameSlots.stays (fun p => (calm.state_iff p (by decide) (by decide)).mpr) here.used)

theorem processKill_lasts (kept : Kept s l) (pid : Nat) :
    Lasts (fun i => s.slotOf pid = some i ∧ s.table i ≠ s.current) s (processKill s pid) := by
  rcases processKill_cases s pid with same | ⟨i, nonzero, found, kill⟩
  · rw [same]
    exact .refl kept
  obtain ⟨used, named⟩ := slotOf_some found
  rcases kill with ⟨busy, -, result⟩ | ⟨other, result⟩
  · rw [result]
    exact kept.lasts_stop (kept.idle_ne_current busy) ⟨rfl, rfl, rfl⟩ rfl (Or.inr rfl)
  · have zero := kept.slot_ne_zero (named ▸ nonzero)
    obtain ⟨l', buried⟩ := cleanup_buried kept.blocks used zero
    rw [result]
    refine kept.lasts_turnover (buried.turnover kept.seats kept.blocks used zero other) fun j used' spared => ?_
    refine ⟨⟨used'.1, ?_⟩, id⟩
    rw [buried.table, Function.update_of_ne (by rintro rfl; exact spared ⟨found, other⟩)]
    exact used'.2

theorem processExit_lasts (kept : Kept s l) :
    Lasts (fun i => s.slotOf (s.pcb s.current).pid = some i ∧ s.table i ≠ s.current) s (processExit s) := by
  rcases processExit_cases s with same | ⟨-, exits⟩
  · rw [same]
    exact .refl kept
  · rw [exits]
    exact processKill_lasts kept _

theorem processSleep_lasts {gone : Nat → Prop} (kept : Kept s l) (ms : Nat) : Lasts gone s (processSleep s ms) := by
  rcases processSleep_cases s ms with same | ⟨busy, sleeps⟩
  · rw [same]
    exact .refl kept
  · rw [sleeps]
    exact kept.lasts_stop (kept.idle_ne_current busy) ⟨rfl, rfl, rfl⟩ rfl (Or.inl rfl)

theorem Kept.lasts_heap {gone : Nat → Prop} (kept : Kept s l) {l' : List Seg} {heap : KernelHeap} (tiled : Tiled heap l')
    (held : ∀ i part, Used s i → block s i part ∈ pointers l → block s i part ∈ pointers l') :
    Lasts gone s { s with heap := heap } := by
  obtain ⟨seats, idlePid, blocks, states, awake⟩ := kept
  refine ⟨⟨l', ⟨seats.idleSlot, seats.idleThere, seats.count⟩, idlePid, ⟨tiled, ?_, blocks.apart, blocks.full⟩,
    ⟨states.idleAlive, states.current, states.running, states.rest⟩, awake⟩,
    fun _ used _ => ⟨used, rfl, .refl _, id⟩⟩
  exact fun i part used there => held i part used (blocks.live i part used there)

theorem kmalloc_lasts {gone : Nat → Prop} (kept : Kept s l) (size : Word) : Lasts gone s (s.kmalloc size).1 := by
  rcases kmalloc_cases kept.blocks.tiled size with failed | ⟨heap, p, l', got, -, tiled, -, members⟩
  · rw [failed]
    exact .refl kept
  · rw [got]
    exact kept.lasts_heap tiled fun i part _ held => (members _).mpr (Or.inr held)

theorem kfree_lasts {gone : Nat → Prop} (kept : Kept s l) {p : Nat} (ok : s.allowed (.kfree p)) :
    Lasts gone s (s.kfree p) := by
  rcases ok with rfl | ⟨⟨l', tiled', live⟩, foreign⟩
  · exact .refl kept
  · obtain rfl := tiled'.unique kept.blocks.tiled
    obtain ⟨l'', tiled, members⟩ := kfree_live kept.blocks.tiled live
    exact kept.lasts_heap tiled fun i part used held => (members _).mpr ⟨held, foreign i part used⟩

/-- What one call can do, with any number of processes created before. -/
theorem step_empties (kept : Kept s l) {op : ProcessOp} (ok : s.allowed op) :
    Lasts (op.empties s) s (s.step op) := by
  cases op with
  | processCreate name entry stackSize => exact processCreate_lasts kept name entry ok
  | processCreateWithPriority name entry stackSize priority =>
    have made : Lasts (fun _ => False) s (processCreate s name entry stackSize).1 :=
      processCreate_lasts kept name entry ok
    simp only [Processes.step, processCreateWithPriority]
    split
    next => exact made.calm (processSetPriority_calm ..)
    next => exact made
  | processKill pid => exact processKill_lasts kept pid
  | processExit => exact processExit_lasts kept
  | processSleep ms => exact processSleep_lasts kept ms
  | processWake pid => exact kept.lasts_calm (processWake_calm s pid)
  | processCheckSleeping => exact kept.lasts_calm (processCheckSleeping_calm s)
  | processSetPriority pid priority => exact kept.lasts_calm (processSetPriority_calm s pid priority)
  | processSendMessage target message length => exact kept.lasts_calm (processSendMessage_calm s target message length)
  | processReceiveMessage buffer maxLength => exact kept.lasts_calm (processReceiveMessage_calm s buffer maxLength)
  | processSchedule => exact kept.lasts_schedule
  | processYield => exact kept.lasts_schedule
  | tick ticks => exact kept.lasts_calm (calm_timer s ticks)
  | kmalloc size => exact kmalloc_lasts kept size
  | kfree p => exact kfree_lasts kept ok

theorem step_lasts (kept : Kept s l) {op : ProcessOp} (ok : s.allowed op) : Lasts (op.ends s) s (s.step op) := by
  obtain ⟨kept', stays⟩ := step_empties kept ok
  refine ⟨kept', fun i used spared => stays i used fun emptied => spared ?_⟩
  cases op with
  | processKill pid => exact emptied.1
  | processExit => exact emptied.1
  | _ => exact emptied

theorem run_kept {ops : List ProcessOp} (run : Exec Processes.allowed Processes.step s ops t)
    (kept : ∃ l, Kept s l) : ∃ l, Kept t l := by
  have keep : ∀ s op, (∃ l, Kept s l) → s.allowed op → ∃ l, Kept (s.step op) l := by
    rintro s op ⟨l, kept⟩ ok
    exact (step_lasts kept ok).kept
  exact run.invariant keep kept

/-- Calls that leave the process of slot `i` in the table. -/
def Spares (i : Nat) (s : Processes) (op : ProcessOp) : Prop := s.allowed op ∧ ¬op.empties s i

/-- Whatever else is created, killed, allocated and freed, the process keeps its slot and its
blocks. -/
theorem run_stays {i : Nat} {ops : List ProcessOp} (run : Exec (Spares i) Processes.step s ops t)
    (kept : ∃ l, Kept s l) (used : Used s i) : (∃ l, Kept t l) ∧ Stays s t i := by
  induction run with
  | nil s => exact ⟨kept, .refl used⟩
  | cons allowed rest ih =>
    obtain ⟨l, kept⟩ := kept
    obtain ⟨kept', stays⟩ := step_empties kept allowed.1
    have here := stays i used allowed.2
    obtain ⟨last, there⟩ := ih kept' here.used
    exact ⟨last, here.trans there⟩

theorem Inv.kept {s : Processes} (inv : Inv s) (awake : s.current = s.idle ∨ (s.pcb s.current).state = .running) :
    ∃ l, Kept s l := by
  obtain ⟨l, blocks⟩ := inv.blocks
  exact ⟨l, inv.slots.seats, inv.slots.idlePid, blocks, inv.states, awake⟩

theorem processInit_kept {s : Processes} (boot : Boot s) (entry : Nat) : ∃ l, Kept (processInit s entry) l := by
  obtain ⟨l, p, base, started⟩ := processInit_started boot entry
  exact started.inv.kept (Or.inl (started.current.trans started.idle.symm))

end Step

end Wittche.Process
