import Wittche.Process.Table

/-! The calls that leave the slots of the process table alone: waking, messages and
priorities, which are calm, and scheduling, which passes control to a process that is
ready. -/

namespace Wittche.Process
open Bytes CString Heap Segments

section Outcomes

variable (s : Processes)

theorem cleanup_eq (slot p : Nat) : cleanup s slot p = { s with
    heap := Heap.kfree (if (s.pcb p).msgQueue ≠ 0 then Heap.kfree (Heap.kfree s.heap (s.pcb p).stackBase) (s.pcb p).msgQueue
      else Heap.kfree s.heap (s.pcb p).stackBase) p
    freed := if (s.pcb p).isUserMode ≠ 0 ∧ (s.pcb p).pageDirectory ≠ 0 then (s.pcb p).pageDirectory :: s.freed
      else s.freed
    table := Function.update s.table slot 0
    count := s.count - 1 } := by
  simp only [cleanup]
  split <;> split <;> rfl

theorem goOn_eq (p : Nat) (rest : Rest) : ∃ heap freed table count,
    goOn s p rest = { s with heap := heap, freed := freed, table := table, count := count } := by
  cases rest with
  | back => exact ⟨_, _, _, _, rfl⟩
  | cleanup slot => exact ⟨_, _, _, _, cleanup_eq s slot p⟩

/-- `process_kill` does nothing, ends the current process or cleans up behind another one. -/
theorem processKill_cases (pid : Nat) : processKill s pid = s ∨ ∃ i, pid ≠ 0 ∧ s.slotOf pid = some i ∧
    ((s.pcb s.current).pid ≠ 0 ∧ s.table i = s.current ∧
        processKill s pid = scheduleThen (s.setState s.current .terminated) (.cleanup i) ∨
      s.table i ≠ s.current ∧ processKill s pid = cleanup s i (s.table i)) := by
  rw [processKill]
  split
  next => exact Or.inl rfl
  next nonzero =>
    cases found : s.slotOf pid with
    | none => exact Or.inl rfl
    | some i =>
      refine Or.inr ⟨i, nonzero, rfl, ?_⟩
      by_cases here : s.table i = s.current
      · have named := (slotOf_some found).2
        rw [inSlot, here] at named
        exact Or.inl ⟨named ▸ nonzero, here, if_pos here⟩
      · exact Or.inr ⟨here, if_neg here⟩

variable {s} in
theorem processKill_cleanup {pid i : Nat} (named : pid ≠ 0) (found : s.slotOf pid = some i)
    (away : s.table i ≠ s.current) : processKill s pid = cleanup s i (s.table i) := by
  rw [processKill, if_neg named, found]
  exact if_neg away

theorem processExit_cases : processExit s = s ∨
    (s.pcb s.current).pid ≠ 0 ∧ processExit s = processKill s (s.pcb s.current).pid := by
  rw [processExit]
  split
  next => exact Or.inl rfl
  next =>
    split
    next => exact Or.inl rfl
    next busy => exact Or.inr ⟨busy, rfl⟩

theorem processSleep_cases (ms : Nat) : processSleep s ms = s ∨ (s.pcb s.current).pid ≠ 0 ∧
    processSleep s ms = scheduleThen (s.setPcb s.current { s.pcb s.current with
      wakeTime := (s.ticks + ms) % 2 ^ 32
      state := .blocked }) .back := by
  rw [processSleep]
  split
  next => exact Or.inl rfl
  next =>
    split
    next => exact Or.inl rfl
    next busy => exact Or.inr ⟨busy, rfl⟩

theorem processWake_cases (pid : Nat) : (processWake s pid).1 = s ∨ (s.pcb (s.processGet pid)).state = .blocked ∧
    (processWake s pid).1 =
      s.setPcb (s.processGet pid) { s.pcb (s.processGet pid) with state := .ready, wakeTime := 0 } := by
  simp only [processWake]
  split
  next => exact Or.inl rfl
  next =>
    split
    next blocked => exact Or.inr ⟨blocked, rfl⟩
    next => exact Or.inl rfl

theorem processSetPriority_cases (pid priority : Nat) : (processSetPriority s pid priority).1 = s ∨
    (processSetPriority s pid priority).1 =
      s.setPcb (s.processGet pid) { s.pcb (s.processGet pid) with priority := clampPriority priority } := by
  simp only [processSetPriority]
  split
  next => exact Or.inl rfl
  next => exact Or.inr rfl

theorem wakeReceiver_cases (p : Nat) : wakeReceiver s p = s ∨
    (s.pcb p).state = .blocked ∧ wakeReceiver s p = s.setState p .ready := by
  rw [wakeReceiver]
  split
  next waiting => exact Or.inr ⟨waiting.1, rfl⟩
  next => exact Or.inl rfl

theorem processSendMessage_sent (target : Nat) (message : Option Buffer) (length : Nat) :
    (processSendMessage s target message length).1 = s ∨
    ∃ queue, (processSendMessage s target message length).1 =
      wakeReceiver (s.setQueue (s.pcb (s.processGet target)).msgQueue queue) (s.processGet target) := by
  cases message with
  | none => exact Or.inl rfl
  | some bytes =>
    simp only [processSendMessage]
    split
    next => exact Or.inl rfl
    next =>
      split
      next => exact Or.inl rfl
      next =>
        split
        next => exact Or.inl rfl
        next => exact Or.inr ⟨_, rfl⟩

end Outcomes

section Calm

variable {s : Processes}

theorem sameSlots_setPcb (s : Processes) (p : Nat) {x : Pcb} (same : SameProcess (s.pcb p) x)
    (priority : (s.pcb p).priority ≤ 255 → x.priority ≤ 255) : SameSlots s (s.setPcb p x) := by
  refine ⟨rfl, rfl, rfl, rfl, rfl, fun q => ?_, fun q => ?_⟩
  · by_cases here : q = p
    · subst here
      simpa [Processes.setPcb] using same
    · simpa [Processes.setPcb, here] using SameProcess.refl _
  · by_cases here : q = p
    · subst here
      simpa [Processes.setPcb] using priority
    · simp [Processes.setPcb, here]

@[simp] theorem setPcb_self (s : Processes) (p : Nat) (x : Pcb) : (s.setPcb p x).pcb p = x :=
  Function.update_self ..

theorem setPcb_other (s : Processes) {p q : Nat} (other : q ≠ p) (x : Pcb) :
    (s.setPcb p x).pcb q = s.pcb q :=
  Function.update_of_ne other ..

theorem sameSlots_setState (s : Processes) (p : Nat) (state : State) : SameSlots s (s.setState p state) :=
  sameSlots_setPcb s p ⟨rfl, rfl, rfl⟩ id

theorem calm_setPcb {p : Nat} {x : Pcb} (same : SameProcess (s.pcb p) x)
    (priority : (s.pcb p).priority ≤ 255 → x.priority ≤ 255)
    (state : x.state = (s.pcb p).state ∨ (s.pcb p).state = .blocked ∧ x.state = .ready) :
    Calm s (s.setPcb p x) := by
  refine ⟨sameSlots_setPcb s p same priority, rfl, rfl, fun q => ?_⟩
  by_cases here : q = p
  · subst here
    simpa [Processes.setPcb] using state
  · simp [Processes.setPcb, here]

theorem calm_wakeUp {p : Nat} (blocked : (s.pcb p).state = .blocked) (wakeTime : Nat) :
    Calm s (s.setPcb p { s.pcb p with state := .ready, wakeTime := wakeTime }) :=
  calm_setPcb ⟨rfl, rfl, rfl⟩ id (Or.inr ⟨blocked, rfl⟩)

theorem calm_setQueue (s : Processes) (q : Nat) (x : MessageQueue) : Calm s (s.setQueue q x) :=
  ⟨⟨rfl, rfl, rfl, rfl, rfl, fun _ => .refl _, fun _ => id⟩, rfl, rfl, fun _ => Or.inl rfl⟩

theorem processWake_calm (s : Processes) (pid : Nat) : Calm s (processWake s pid).1 := by
  rcases processWake_cases s pid with same | ⟨blocked, done⟩
  · rw [same]
    exact .refl s
  · rw [done]
    exact calm_wakeUp blocked 0

theorem wakeSlot_calm (s : Processes) (i : Nat) : Calm s (wakeSlot s i) := by
  simp only [wakeSlot]
  split
  next due => exact calm_wakeUp due.2.1 0
  next => exact .refl s

theorem processCheckSleeping_calm (s : Processes) : Calm s (processCheckSleeping s) := by
  have loop : ∀ (slots : List Nat) (t : Processes), Calm s t → Calm s (slots.foldl wakeSlot t) := by
    intro slots
    induction slots with
    | nil => exact fun t h => h
    | cons i rest ih => exact fun t h => ih (wakeSlot t i) (h.trans (wakeSlot_calm t i))
  exact loop _ s (.refl s)

theorem processSetPriority_calm (s : Processes) (pid priority : Nat) :
    Calm s (processSetPriority s pid priority).1 := by
  rcases processSetPriority_cases s pid priority with same | done
  · rw [same]
    exact .refl s
  · rw [done]
    refine calm_setPcb ⟨rfl, rfl, rfl⟩ (fun _ => ?_) (Or.inl rfl)
    simp only [clampPriority]
    split <;> omega

theorem wakeReceiver_calm (s : Processes) (p : Nat) : Calm s (wakeReceiver s p) := by
  rcases wakeReceiver_cases s p with same | ⟨blocked, woken⟩
  · rw [same]
    exact .refl s
  · rw [woken]
    exact calm_setPcb ⟨rfl, rfl, rfl⟩ id (Or.inr ⟨blocked, rfl⟩)

theorem wakeReceiver_other (s : Processes) {p b : Nat} (other : b ≠ p) : (wakeReceiver s p).pcb b = s.pcb b := by
  rcases wakeReceiver_cases s p with same | ⟨-, woken⟩
  · rw [same]
  · rw [woken]
    exact setPcb_other s other _

theorem processSendMessage_calm (s : Processes) (target : Nat) (message : Option Buffer) (length : Nat) :
    Calm s (processSendMessage s target message length).1 := by
  rcases processSendMessage_sent s target message length with same | ⟨queue, sent⟩
  · rw [same]
    exact .refl s
  · rw [sent]
    exact (calm_setQueue s _ _).trans (wakeReceiver_calm _ _)

theorem processReceiveMessage_calm (s : Processes) (buffer : Bool) (maxLength : Nat) :
    Calm s (processReceiveMessage s buffer maxLength).1 := by
  simp only [processReceiveMessage]
  split
  next => exact .refl s
  next =>
    split
    next => exact .refl s
    next =>
      split
      next => exact .refl s
      next => exact calm_setQueue s _ _

theorem calm_timer (s : Processes) (ticks : Nat) : Calm s { s with ticks := ticks } :=
  ⟨⟨rfl, rfl, rfl, rfl, rfl, fun _ => .refl _, fun _ => id⟩, rfl, rfl, fun _ => Or.inl rfl⟩

end Calm

section Choice

variable {s : Processes}

/-- What the search of `process_schedule` holds in its hands. -/
def Candidate (s : Processes) (p : Nat) : Prop := ∃ i, Used s i ∧ s.table i = p ∧ (s.pcb p).state = .ready

theorem consider_candidate {best : Nat × Nat} (h : best.1 = 0 ∨ Candidate s best.1) {i : Nat}
    (lt : i < MAX_PROCESSES) : (consider s best i).1 = 0 ∨ Candidate s (consider s best i).1 := by
  simp only [consider]
  split
  next ready =>
    have here : Candidate s (s.table i) := ⟨i, ⟨lt, ready.1⟩, rfl, ready.2⟩
    split
    next => exact Or.inr here
    next =>
      split
      next =>
        split
        next =>
          split
          next => exact Or.inr here
          next => exact h
        next => exact h
      next => exact h
  next => exact h

theorem nextProcess_cases (s : Processes) : nextProcess s = s.idle ∨ Candidate s (nextProcess s) := by
  have loop : ∀ (slots : List Nat) (best : Nat × Nat), (∀ i ∈ slots, i < MAX_PROCESSES) →
      (best.1 = 0 ∨ Candidate s best.1) →
      ((slots.foldl (consider s) best).1 = 0 ∨ Candidate s (slots.foldl (consider s) best).1) := by
    intro slots
    induction slots with
    | nil => exact fun best _ h => h
    | cons i rest ih =>
      intro best small h
      exact ih (consider s best i) (fun j hj => small j (List.mem_cons_of_mem _ hj))
        (consider_candidate h (small i List.mem_cons_self))
  have found := loop (List.range MAX_PROCESSES) (0, 0) (fun i hi => List.mem_range.mp hi) (Or.inl rfl)
  simp only [nextProcess]
  split
  next => exact Or.inl rfl
  next nonzero => exact Or.inr (found.resolve_left nonzero)

end Choice

section Schedule

variable {s : Processes}

@[simp] theorem setState_self (s : Processes) (p : Nat) (state : State) :
    ((s.setState p state).pcb p).state = state := by
  simp [Processes.setState, Processes.setPcb]

theorem setState_other (s : Processes) {p q : Nat} (other : q ≠ p) (state : State) :
    (s.setState p state).pcb q = s.pcb q := by
  simp [Processes.setState, Processes.setPcb, other]

theorem park_sameSlots (s : Processes) : SameSlots s (park s) := by
  rw [park]
  split
  next => exact sameSlots_setState s _ _
  next => exact .refl s

theorem park_current (s : Processes) : (park s).current = s.current := by
  rw [park]
  split <;> rfl

theorem park_rest (s : Processes) : (park s).rest = s.rest := by
  rw [park]
  split <;> rfl

theorem park_state (s : Processes) (p : Nat) : ((park s).pcb p).state = (s.pcb p).state ∨
    p = s.current ∧ (s.pcb p).state = .running ∧ ((park s).pcb p).state = .ready := by
  rw [park]
  split
  next busy =>
    by_cases here : p = s.current
    · subst here
      exact Or.inr ⟨rfl, busy.2, setState_self ..⟩
    · exact Or.inl (by rw [setState_other s here])
  next => exact Or.inl rfl

theorem park_dead {p : Nat} : ((park s).pcb p).state = .terminated ↔ (s.pcb p).state = .terminated := by
  rcases park_state s p with same | ⟨-, running, ready⟩
  · rw [same]
  · rw [running, ready]
    exact ⟨fun h => absurd h (by decide), fun h => absurd h (by decide)⟩

theorem park_idles (states : States s) {i : Nat} (used : Used s i) :
    ((park s).pcb (s.table i)).state ≠ .running := by
  obtain ⟨j, usedj, here⟩ := states.current
  have there : s.current ≠ 0 := by
    rw [← here]
    exact usedj.2
  by_cases mine : s.table i = s.current
  · rw [mine, park]
    split
    next => simp
    next busy => exact fun running => busy ⟨there, running⟩
  · rcases park_state s (s.table i) with same | ⟨clash, -⟩
    · rw [same]
      exact states.running i used mine
    · exact absurd clash mine

theorem park_next (seats : Seats s) (states : States s) : Candidate (park s) (nextProcess (park s)) := by
  have same := park_sameSlots s
  rcases nextProcess_cases (park s) with idle | found
  · have used := seats.used_zero
    have still := park_idles states used
    rw [idle, same.idle]
    refine ⟨0, same.used.mpr used, by rw [same.table, seats.idleSlot], ?_⟩
    rw [seats.idleSlot] at still
    rcases park_state s s.idle with kept | ⟨-, -, ready⟩
    · rw [kept] at still ⊢
      exact states.idleAlive.resolve_right still
    · exact ready
  · exact found

/-- What scheduling does: the slots stay, control goes to a process that is alive, and
terminated processes stay terminated. -/
structure Scheduled (s t : Processes) : Prop extends SameSlots s t where
  states : States t
  alive : (t.pcb t.current).state ≠ .terminated
  dead : ∀ p, (s.pcb p).state = .terminated → (t.pcb p).state = .terminated

theorem States.switched {t : Processes} (seats : Seats s) (states : States s) (same : SameSlots s t)
    (next : Candidate (park s) t.current)
    (pcbs : t.pcb = ((park s).setState t.current .running).pcb)
    (rest : ∀ i, Used s i → (inSlot s i).state ≠ .terminated → t.rest (s.table i) = .back) :
    Scheduled s t := by
  obtain ⟨i, used, here, ready⟩ := next
  have old := (park_sameSlots s).used.mp used
  rw [(park_sameSlots s).table] at here
  have other : ∀ p, p ≠ t.current → (t.pcb p).state = ((park s).pcb p).state := by
    intro p away
    rw [pcbs, setState_other _ away]
  have runs : (t.pcb t.current).state = .running := by
    rw [pcbs]
    exact setState_self ..
  have dead : ∀ p, (t.pcb p).state = .terminated ↔ (s.pcb p).state = .terminated := by
    intro p
    rw [← park_dead (s := s)]
    by_cases mine : p = t.current
    · rw [mine, runs, ready]
      exact ⟨fun h => absurd h (by decide), fun h => absurd h (by decide)⟩
    · rw [other p mine]
  refine ⟨same, ⟨?_, ⟨i, same.used.mpr old, by rw [same.table, here]⟩, ?_, ?_⟩, ?_, fun p => (dead p).mpr⟩
  · by_cases mine : s.idle = t.current
    · rw [same.idle, mine]
      exact Or.inr runs
    · have still := park_idles states seats.used_zero
      rw [seats.idleSlot] at still
      rw [same.idle, other _ mine]
      rcases park_state s s.idle with kept | ⟨-, -, now⟩
      · rw [kept] at still ⊢
        exact states.idleAlive
      · exact Or.inl now
  · intro j usedj away
    rw [same.table] at away
    rw [inSlot, same.table, other _ away]
    exact park_idles states (same.used.mp usedj)
  · intro j usedj live
    rw [inSlot, same.table, ne_eq, dead] at live
    rw [same.table]
    exact rest j (same.used.mp usedj) live
  · rw [runs]
    decide

theorem next_back (seats : Seats s) (states : States s) :
    (park s).rest (nextProcess (park s)) = .back := by
  have same := park_sameSlots s
  obtain ⟨i, used, here, ready⟩ := park_next seats states
  rw [park_rest, ← here, same.table]
  refine states.rest i (same.used.mp used) fun dead => ?_
  rw [inSlot, ← same.table, here, ← park_dead, ready] at dead
  exact absurd dead (by decide)

/-- The state in which `next` has control, and the process that had it has `rest` left. -/
def switched (s : Processes) (rest : Rest) (next : Nat) : Processes :=
  { handOver (park s) rest next with
    rest := Function.update (handOver (park s) rest next).rest next .back }

theorem processSwitch_next (seats : Seats s) (states : States s) {rest : Rest}
    (away : nextProcess (park s) ≠ s.current) :
    processSwitch (handOver (park s) rest (nextProcess (park s))) = switched s rest (nextProcess (park s)) := by
  have target : (handOver (park s) rest (nextProcess (park s))).rest
      (handOver (park s) rest (nextProcess (park s))).current = .back := by
    change Function.update (park s).rest (park s).current rest (nextProcess (park s)) = .back
    rw [park_current, Function.update_of_ne away, next_back seats states]
  rw [processSwitch, target, goOn]
  rfl

/-- `process_schedule` with a process that is to go on behind it. -/
theorem scheduleThen_eq {rest : Rest} (seats : Seats s) (states : States s)
    (left : rest = .back ∨ (s.pcb s.current).state = .terminated) :
    scheduleThen s rest = if nextProcess (park s) ≠ s.current then switched s rest (nextProcess (park s))
      else (park s).setState s.current .running := by
  have count : s.count ≠ 0 := by
    have pos := Finset.card_pos.mpr ⟨0, mem_usedSlots.mpr seats.used_zero⟩
    rw [seats.count]
    omega
  rw [scheduleThen, if_neg count]
  simp only [park_current]
  split
  next away => exact processSwitch_next seats states away
  next stay =>
    have back : rest = .back := by
      refine left.resolve_right fun dead => ?_
      obtain ⟨i, -, -, ready⟩ := park_next seats states
      rw [not_not.mp stay, park_dead.mpr dead] at ready
      exact absurd ready (by decide)
    rw [back, goOn]

theorem scheduleThen_current {rest : Rest} (seats : Seats s) (states : States s)
    (left : rest = .back ∨ (s.pcb s.current).state = .terminated) :
    (scheduleThen s rest).current = nextProcess (park s) := by
  rw [scheduleThen_eq seats states left]
  split
  next => rfl
  next stay => exact (park_current s).trans (not_not.mp stay).symm

theorem scheduleThen_running {rest : Rest} (seats : Seats s) (states : States s)
    (left : rest = .back ∨ (s.pcb s.current).state = .terminated) :
    ((scheduleThen s rest).pcb (scheduleThen s rest).current).state = .running := by
  rw [scheduleThen_current seats states left, scheduleThen_eq seats states left]
  split
  next => exact setState_self ..
  next stay =>
    rw [not_not.mp stay]
    exact setState_self ..

theorem scheduleThen_spec {rest : Rest} (seats : Seats s) (states : States s)
    (left : rest = .back ∨ (s.pcb s.current).state = .terminated) : Scheduled s (scheduleThen s rest) := by
  have same := park_sameSlots s
  have next := park_next seats states
  rw [scheduleThen_eq seats states left]
  split
  next away =>
    refine States.switched seats states (same.trans ?_) next rfl ?_
    · have kept := sameSlots_setState (park s) (nextProcess (park s)) .running
      exact ⟨rfl, rfl, rfl, rfl, rfl, kept.process, kept.priority⟩
    · intro j usedj live
      by_cases mine : s.table j = nextProcess (park s)
      · rw [mine]
        exact Function.update_self ..
      · change Function.update (Function.update _ _ _) (nextProcess (park s)) _ _ = _
        rw [Function.update_of_ne mine]
        by_cases own : s.table j = (park s).current
        · rw [own, Function.update_self]
          refine left.resolve_right fun dead => live ?_
          rw [inSlot, own, park_current]
          exact dead
        · rw [Function.update_of_ne own, park_rest]
          exact states.rest j usedj live
  next stay =>
    have stay' : nextProcess (park s) = s.current := not_not.mp stay
    have here : ((park s).setState s.current .running).current = s.current := park_current s
    refine States.switched seats states (same.trans (sameSlots_setState _ _ _)) ?_ ?_ ?_
    · rw [here, ← stay']
      exact next
    · rw [here]
    · intro j usedj live
      change (park s).rest _ = _
      rw [park_rest]
      exact states.rest j usedj live

theorem Scheduled.inv {t : Processes} (h : Scheduled s t) (slots : Slots s) (blocks : ∃ l, Blocks s l) : Inv t := by
  obtain ⟨l, blocks⟩ := blocks
  exact ⟨slots.congr h.toSameSlots, ⟨l, blocks.congr h.toSameSlots⟩, h.states, h.alive⟩

theorem processSchedule_moved (inv : Inv s) : Moved (fun _ => False) 0 s (processSchedule s) := by
  have done := scheduleThen_spec inv.slots.seats inv.states (Or.inl (Eq.refl Rest.back))
  exact done.toSameSlots.moved (done.inv inv.slots inv.blocks) done.dead

end Schedule

end Wittche.Process
