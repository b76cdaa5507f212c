import Wittche.Process.Fairness
import Wittche.Process.Interrupts
import Wittche.Process.LongRuns
import Wittche.Process.Messages

/-! How long a process sleeps. The wake time is a sum modulo 2^32, which
`process_check_sleeping` compares with the ticks by plain order, and a wake time of 0 means
that the process does not wait for a time. -/

namespace Wittche.Process
open Bytes CString Heap Segments Execution

def Processes.event (s : Processes) : SystemOp → Processes
  | .irq0 => timerHandler s
  | .call op => s.step op

/-- Only `timer_handler` counts the ticks and calls `process_check_sleeping`. -/
def Processes.mayEvent (s : Processes) : SystemOp → Prop
  | .irq0 => True
  | .call op => s.allowed op ∧ op ≠ .processCheckSleeping ∧ ∀ ticks, op ≠ .tick ticks

/-- The calls that wake the process at `p`, send it a message or kill it, and its own calls
that put it to sleep again or end it. -/
def ProcessOp.disturbs (s : Processes) (p : Nat) : ProcessOp → Prop
  | .processWake pid => s.processGet pid = p
  | .processSendMessage target _ _ => s.processGet target = p
  | .processKill pid => s.processGet pid = p
  | .processExit => s.processGet (s.pcb s.current).pid = p
  | .processSleep _ => s.current = p
  | _ => False

def Undisturbed (p : Nat) (s : Processes) : SystemOp → Prop
  | .irq0 => True
  | .call op => s.mayEvent (.call op) ∧ ¬op.disturbs s p

def ticksOf : List SystemOp → Nat
  | [] => 0
  | .irq0 :: ops => ticksOf ops + 1
  | .call _ :: ops => ticksOf ops

/-- The current process sleeps for `ms` ticks: behind the check of the `k`-th tick after its
call it is blocked exactly if `k < ms`. -/
def SleepsExactly (s : Processes) (ms : Nat) : Prop :=
  ∀ ops u, Exec (Undisturbed s.current) Processes.event (processSleep s ms) ops u →
    (((wakeSleepers u).pcb s.current).state = .blocked ↔ ticksOf ops + 1 < ms)

section Check

def woken (x : Pcb) (ticks : Nat) : Pcb :=
  if x.state = .blocked ∧ 0 < x.wakeTime ∧ x.wakeTime ≤ ticks then { x with state := .ready, wakeTime := 0 } else x

theorem woken_state (x : Pcb) (ticks : Nat) :
    (woken x ticks).state = .blocked ↔ x.state = .blocked ∧ ¬(0 < x.wakeTime ∧ x.wakeTime ≤ ticks) := by
  rw [woken]
  split
  next due => simp [due]
  next stay => exact ⟨fun blocked => ⟨blocked, fun due => stay ⟨blocked, due⟩⟩, And.left⟩

theorem woken_wakeTime (x : Pcb) (ticks : Nat) (blocked : (woken x ticks).state = .blocked) :
    (woken x ticks).wakeTime = x.wakeTime := by
  have stay := (woken_state x ticks).mp blocked
  rw [woken, if_neg fun due => stay.2 due.2]

@[simp] theorem woken_woken (x : Pcb) (ticks : Nat) : woken (woken x ticks) ticks = woken x ticks := by
  by_cases due : x.state = .blocked ∧ 0 < x.wakeTime ∧ x.wakeTime ≤ ticks
  · simp [woken, due]
  · simp only [woken, if_neg due]

theorem wakeSlot_eq {s : Processes} {i : Nat} (there : s.table i ≠ 0) :
    wakeSlot s i = s.setPcb (s.table i) (woken (s.pcb (s.table i)) s.ticks) := by
  simp only [wakeSlot, woken, there, ne_eq, not_false_eq_true, true_and]
  split
  next => rfl
  next =>
    rw [Processes.setPcb, Function.update_eq_self]

theorem foldl_wakeSlot (slots : List Nat) (s : Processes) (p : Nat) (there : p ≠ 0) :
    (slots.foldl wakeSlot s).ticks = s.ticks ∧ (slots.foldl wakeSlot s).pcb p =
      if ∃ i ∈ slots, s.table i = p then woken (s.pcb p) s.ticks else s.pcb p := by
  induction slots generalizing s with
  | nil => simp
  | cons i slots ih =>
    rw [List.foldl_cons]
    obtain ⟨ticks, pcb⟩ := ih (wakeSlot s i)
    rw [ticks, pcb]
    by_cases empty : s.table i = 0
    · have same : wakeSlot s i = s := if_neg fun h => h.1 empty
      have away : s.table i ≠ p := by
        rw [empty]
        exact there.symm
      simp [same, away]
    · rw [wakeSlot_eq empty]
      by_cases here : s.table i = p
      · subst here
        simp [Processes.setPcb]
      · simp [Processes.setPcb, Function.update_of_ne (Ne.symm here), here]

theorem processCheckSleeping_pcb {s : Processes} {i p : Nat} (used : Used s i) (here : s.table i = p) :
    (processCheckSleeping s).pcb p = woken (s.pcb p) s.ticks := by
  rw [processCheckSleeping, (foldl_wakeSlot _ s p (here ▸ used.2)).2,
    if_pos ⟨i, List.mem_range.mpr used.1, here⟩]

theorem processCheckSleeping_ticks (s : Processes) : (processCheckSleeping s).ticks = s.ticks :=
  (foldl_wakeSlot _ s 1 (by decide)).1

end Check

/-- A process is blocked if it was, and for the same time. -/
structure SameSleep (x y : Pcb) : Prop where
  blocked : y.state = .blocked ↔ x.state = .blocked
  wakeTime : y.wakeTime = x.wakeTime

theorem SameSleep.refl (x : Pcb) : SameSleep x x := ⟨Iff.rfl, rfl⟩

theorem SameSleep.trans {x y z : Pcb} (h : SameSleep x y) (h' : SameSleep y z) : SameSleep x z :=
  ⟨h'.blocked.trans h.blocked, h'.wakeTime.trans h.wakeTime⟩

section Calls

variable {s t : Processes} {l l' : List Seg} {p i : Nat}

theorem sleep_setPcb (away : p ≠ s.current) (x : Pcb) : SameSleep (s.pcb p) ((s.setPcb s.current x).pcb p) := by
  rw [setPcb_other s away]
  exact .refl _

theorem sleep_schedule {rest : Rest} (seats : Seats s) (states : States s)
    (left : rest = .back ∨ (s.pcb s.current).state = .terminated) (p : Nat) :
    SameSleep (s.pcb p) ((scheduleThen s rest).pcb p) := by
  rw [scheduleThen_pcb seats states left]
  refine ⟨?_, rfl⟩
  simp only [stateAfter]
  split
  next here =>
    obtain ⟨i, -, -, ready⟩ := park_next seats states
    rw [← here] at ready
    rcases park_state s p with same | ⟨-, running, -⟩
    · simp [← same, ready]
    · simp [running]
  next =>
    split
    next runs => simp [runs.2]
    next => exact Iff.rfl

theorem Kept.sleep_stop (kept : Kept s l) (busy : s.idle ≠ s.current) (away : p ≠ s.current) {x : Pcb} {rest : Rest}
    (same : SameProcess (s.pcb s.current) x) (priority : x.priority = (s.pcb s.current).priority)
    (left : rest = .back ∨ x.state = .terminated) :
    SameSleep (s.pcb p) ((scheduleThen (s.setPcb s.current x) rest).pcb p) := by
  have slots := sameSlots_setPcb s s.current same (by rw [priority]; exact id)
  have left' : rest = .back ∨ ((s.setPcb s.current x).pcb s.current).state = .terminated := by
    rwa [setPcb_self]
  exact (sleep_setPcb away x).trans
    (sleep_schedule (kept.seats.congr slots) (kept.states.stopped kept.alive busy x) left' p)

theorem sleep_setPriority (s : Processes) (pid priority p : Nat) :
    SameSleep (s.pcb p) ((processSetPriority s pid priority).1.pcb p) := by
  rcases processSetPriority_cases s pid priority with same | done
  · rw [same]
    exact .refl _
  · rw [done]
    by_cases here : p = s.processGet pid
    · rw [← here, setPcb_self]
      exact ⟨Iff.rfl, rfl⟩
    · rw [setPcb_other s here]
      exact .refl _

theorem sleep_create (kept : Kept s l) (used : Used s i) (name : CStr) (entry : Nat) {stackSize : Word}
    (fits : StackFits stackSize) :
    (processCreate s name entry stackSize).1.pcb (s.table i) = s.pcb (s.table i) := by
  have live := kept.blocks.pcb_live used
  rcases processCreate_wrap kept.seats kept.blocks name entry fits with
    ⟨t, l', n, made, -, abandoned⟩ | ⟨t, l', j, q, base, queue, made, -, born⟩
  · rw [made]
    exact abandoned.pcbs _ live
  · rw [made]
    refine born.pcbs _ fun same => born.fresh.1 ?_
    rw [← same]
    exact live

theorem sleep_kill (kept : Kept s l) {pid : Nat} (spared : s.processGet pid ≠ p) :
    SameSleep (s.pcb p) ((processKill s pid).pcb p) := by
  rcases processKill_cases s pid with same | ⟨j, nonzero, found, kill⟩
  · rw [same]
    exact .refl _
  obtain ⟨used, named⟩ := slotOf_some found
  rw [Processes.processGet, found] at spared
  rcases kill with ⟨busy, here, result⟩ | ⟨-, result⟩
  · rw [result]
    exact kept.sleep_stop (kept.idle_ne_current busy) (fun same => spared (here.trans same.symm))
      ⟨rfl, rfl, rfl⟩ rfl (Or.inr rfl)
  · obtain ⟨l', buried⟩ := cleanup_buried kept.blocks used (kept.slot_ne_zero (named ▸ nonzero))
    rw [result, buried.pcb]
    exact .refl _

theorem sleep_send {target : Nat} (spared : s.processGet target ≠ p) (message : Option Buffer) (length : Nat) :
    (processSendMessage s target message length).1.pcb p = s.pcb p := by
  rcases processSendMessage_sent s target message length with same | ⟨queue, sent⟩
  · rw [same]
  · rw [sent]
    exact wakeReceiver_other _ (Ne.symm spared)

theorem step_sleep (kept : Kept s l) (used : Used s i) {op : ProcessOp} (ok : s.mayEvent (.call op))
    (spared : ¬op.disturbs s (s.table i)) : SameSleep (s.pcb (s.table i)) ((s.step op).pcb (s.table i)) := by
  have same : ∀ {x : Pcb}, x = s.pcb (s.table i) → SameSleep (s.pcb (s.table i)) x := by
    rintro x rfl
    exact .refl _
  cases op with
  | processCreate name entry stackSize => exact same (sleep_create kept used name entry ok.1)
  | processCreateWithPriority name entry stackSize priority =>
    have made := same (sleep_create kept used name entry ok.1)
    simp only [Processes.step, processCreateWithPriority]
    split
    next => exact made.trans (sleep_setPriority ..)
    next => exact made
  | processKill pid => exact sleep_kill kept spared
  | processExit =>
    rw [Processes.step]
    rcases processExit_cases s with same | ⟨-, exits⟩
    · rw [same]
      exact .refl _
    · rw [exits]
      exact sleep_kill kept spared
  | processSleep ms =>
    rw [Processes.step]
    rcases processSleep_cases s ms with same | ⟨busy, sleeps⟩
    · rw [same]
      exact .refl _
    · rw [sleeps]
      exact kept.sleep_stop (kept.idle_ne_current busy) (Ne.symm spared) ⟨rfl, rfl, rfl⟩ rfl (Or.inl rfl)
  | processWake pid =>
    rw [Processes.step]
    rcases processWake_cases s pid with same | ⟨-, done⟩
    · rw [same]
      exact .refl _
    · rw [done]
      exact same (setPcb_other s (Ne.symm spared) _)
  | processCheckSleeping => exact absurd rfl ok.2.1
  | processSetPriority pid priority => exact sleep_setPriority s pid priority _
  | processSendMessage target message length => exact same (sleep_send spared message length)
  | processReceiveMessage buffer maxLength =>
    rcases processReceiveMessage_cases s buffer maxLength with ⟨refused, -⟩ | ⟨-, -, took⟩
    · exact same (congrArg (fun r => Processes.pcb r (s.table i)) refused)
    · exact same (congrArg (fun r => Processes.pcb r.1 (s.table i)) took)
  | processSchedule => exact sleep_schedule kept.seats kept.states (Or.inl rfl) _
  | processYield => exact sleep_schedule kept.seats kept.states (Or.inl rfl) _
  | tick ticks => exact absurd rfl (ok.2.2 ticks)
  | kmalloc size => exact .refl _
  | kfree p => exact .refl _

end Calls

section Ticks

variable {s : Processes}

theorem goOn_ticks (s : Processes) (p : Nat) (rest : Rest) : (goOn s p rest).ticks = s.ticks := by
  obtain ⟨heap, freed, table, count, result⟩ := goOn_eq s p rest
  rw [result]

theorem park_ticks (s : Processes) : (park s).ticks = s.ticks := by
  rw [park]
  split <;> rfl

theorem scheduleThen_ticks (s : Processes) (rest : Rest) : (scheduleThen s rest).ticks = s.ticks := by
  simp only [scheduleThen]
  split
  next => exact goOn_ticks s _ rest
  next =>
    split
    next => exact (goOn_ticks _ _ _).trans (park_ticks s)
    next => exact (goOn_ticks _ _ _).trans (park_ticks s)

theorem processKill_ticks (s : Processes) (pid : Nat) : (processKill s pid).ticks = s.ticks := by
  rcases processKill_cases s pid with same | ⟨i, -, -, ⟨-, -, result⟩ | ⟨-, result⟩⟩
  · rw [same]
  · rw [result]
    exact scheduleThen_ticks _ _
  · rw [result]
    exact goOn_ticks s _ (.cleanup i)

theorem processSetPriority_ticks (s : Processes) (pid priority : Nat) :
    (processSetPriority s pid priority).1.ticks = s.ticks := by
  rcases processSetPriority_cases s pid priority with same | done
  · rw [same]
  · rw [done]
    rfl

theorem wakeReceiver_ticks (s : Processes) (p : Nat) : (wakeReceiver s p).ticks = s.ticks := by
  rcases wakeReceiver_cases s p with same | ⟨-, woken⟩
  · rw [same]
  · rw [woken]
    rfl

theorem startProcess_ticks (s : Processes) (p q entry : Nat) (stackSize : Word) :
    (startProcess s p q entry stackSize).ticks = s.ticks := by
  rw [startProcess, Processes.pushEntry]
  generalize KernelHeap.store _ _ _ = heap
  rfl

theorem processCreate_ticks (s : Processes) (name : CStr) (entry : Nat) (stackSize : Word) :
    (processCreate s name entry stackSize).1.ticks = s.ticks := by
  have enter : ∀ (s : Processes) (p : Nat), (enterProcess s p).1.ticks = s.ticks := by
    intro s p
    rw [enterProcess]
    split <;> rfl
  simp only [processCreate, finishProcess]
  split
  next => rfl
  next =>
    split
    next => rfl
    next =>
      split
      next => rfl
      next =>
        split
        next => rfl
        next =>
          rw [enter, startProcess_ticks]
          rfl

theorem step_ticks {op : ProcessOp} (ok : s.mayEvent (.call op)) : (s.step op).ticks = s.ticks := by
  cases op with
  | processCreate name entry stackSize => exact processCreate_ticks s name entry stackSize
  | processCreateWithPriority name entry stackSize priority =>
    have made := processCreate_ticks s name entry stackSize
    simp only [Processes.step, processCreateWithPriority]
    split
    next => exact (processSetPriority_ticks _ _ _).trans made
    next => exact made
  | processKill pid => exact processKill_ticks s pid
  | processExit =>
    rw [Processes.step]
    rcases processExit_cases s with same | ⟨-, exits⟩
    · rw [same]
    · rw [exits]
      exact processKill_ticks s _
  | processSleep ms =>
    rw [Processes.step]
    rcases processSleep_cases s ms with same | ⟨-, sleeps⟩
    · rw [same]
    · rw [sleeps]
      exact scheduleThen_ticks _ _
  | processWake pid =>
    rw [Processes.step]
    rcases processWake_cases s pid with same | ⟨-, done⟩
    · rw [same]
    · rw [done]
      rfl
  | processCheckSleeping => exact absurd rfl ok.2.1
  | processSetPriority pid priority => exact processSetPriority_ticks s pid priority
  | processSendMessage target message length =>
    rw [Processes.step]
    rcases processSendMessage_sent s target message length with same | ⟨queue, sent⟩
    · rw [same]
    · rw [sent]
      exact wakeReceiver_ticks _ _
  | processReceiveMessage buffer maxLength =>
    rcases processReceiveMessage_cases s buffer maxLength with ⟨same, -⟩ | ⟨-, -, took⟩
    · exact congrArg Processes.ticks same
    · exact congrArg (fun r => Processes.ticks r.1) took
  | processSchedule => exact scheduleThen_ticks s _
  | processYield => exact scheduleThen_ticks s _
  | tick ticks => exact absurd rfl (ok.2.2 ticks)
  | kmalloc size => rfl
  | kfree p => rfl

end Ticks

section Sleeper

variable {s u : Processes} {p i t w j : Nat}

/-- One of the first `j` ticks behind tick `t` reaches the wake time `w`. -/
def DueBy (t w j : Nat) : Prop := ∃ k, 1 ≤ k ∧ k ≤ j ∧ 0 < w ∧ w ≤ (t + k) % 2 ^ 32

/-- The process in slot `i` has gone to sleep at tick `t` until `w`, and `j` ticks have come. -/
structure Sleeper (p i t w j : Nat) (u : Processes) : Prop where
  kept : ∃ l, Kept u l
  used : Used u i
  slot : u.table i = p
  ticks : u.ticks = (t + j) % 2 ^ 32
  blocked : (u.pcb p).state = .blocked ↔ ¬DueBy t w j
  wakeTime : (u.pcb p).state = .blocked → (u.pcb p).wakeTime = w

theorem dueBy_succ : DueBy t w (j + 1) ↔ DueBy t w j ∨ 0 < w ∧ w ≤ (t + (j + 1)) % 2 ^ 32 := by
  constructor
  · rintro ⟨k, first, last, due⟩
    rcases Nat.lt_succ_iff_lt_or_eq.mp (Nat.lt_succ_of_le last) with less | rfl
    · exact Or.inl ⟨k, first, Nat.le_of_lt_succ less, due⟩
    · exact Or.inr due
  · rintro (⟨k, first, last, due⟩ | due)
    · exact ⟨k, first, Nat.le_succ_of_le last, due⟩
    · exact ⟨j + 1, Nat.le_add_left 1 j, Nat.le_refl _, due⟩

theorem Sleeper.congr {v : Processes} (h : Sleeper p i t w j u) (kept : ∃ l, Kept v l) (stays : Stays u v i)
    (ticks : v.ticks = u.ticks) (same : SameSleep (u.pcb p) (v.pcb p)) : Sleeper p i t w j v := by
  refine ⟨kept, stays.used, stays.table.trans h.slot, ticks.trans h.ticks, same.blocked.trans h.blocked,
    fun blocked => ?_⟩
  rw [same.wakeTime]
  exact h.wakeTime (same.blocked.mp blocked)

theorem wakeSleepers_calm (u : Processes) : Calm u (wakeSleepers u) := by
  rw [wakeSleepers]
  exact (calm_timer u _).trans (processCheckSleeping_calm _)

theorem Sleeper.check (h : Sleeper p i t w j u) : Sleeper p i t w (j + 1) (wakeSleepers u) := by
  obtain ⟨l, kept⟩ := h.kept
  have now : (u.ticks + 1) % 2 ^ 32 = (t + (j + 1)) % 2 ^ 32 := by
    rw [h.ticks, Nat.mod_add_mod, Nat.add_assoc]
  have calm := wakeSleepers_calm u
  have lasts : Lasts (fun _ => False) u (wakeSleepers u) := kept.lasts_calm calm
  have stays := lasts.stays i h.used id
  have pcb : (wakeSleepers u).pcb p = woken (u.pcb p) ((t + (j + 1)) % 2 ^ 32) := by
    have used : Used { u with ticks := (u.ticks + 1) % 2 ^ 32 } i := h.used
    rw [← now, wakeSleepers, processCheckSleeping_pcb used h.slot]
  refine ⟨⟨l, kept.calm calm⟩, stays.used, stays.table.trans h.slot, ?_, ?_, ?_⟩
  · rw [wakeSleepers, processCheckSleeping_ticks, now]
  · rw [pcb, woken_state, dueBy_succ, not_or, h.blocked]
    refine and_congr_right fun early => ?_
    rw [h.wakeTime (h.blocked.mpr early)]
  · intro blocked
    rw [pcb] at blocked ⊢
    rw [woken_wakeTime _ _ blocked]
    exact h.wakeTime ((woken_state _ _).mp blocked).1

theorem not_ends {op : ProcessOp} (spared : ¬op.disturbs u (u.table i)) : ¬op.ends u i := by
  cases op with
  | processKill pid =>
    intro found
    refine spared ?_
    rw [ProcessOp.disturbs, Processes.processGet, found]
  | processExit =>
    intro found
    refine spared ?_
    rw [ProcessOp.disturbs, Processes.processGet, found]
  | _ => exact id

theorem ticksOf_cons (op : SystemOp) (ops : List SystemOp) : ticksOf (op :: ops) = ticksOf [op] + ticksOf ops := by
  cases op with
  | irq0 => exact Nat.add_comm ..
  | call op => exact (Nat.zero_add _).symm

theorem Sleeper.event (h : Sleeper p i t w j u) {op : SystemOp} (ok : Undisturbed p u op) :
    Sleeper p i t w (j + ticksOf [op]) (u.event op) := by
  cases op with
  | irq0 =>
    have checked := h.check
    obtain ⟨l, kept⟩ := checked.kept
    change Sleeper p i t w (j + 1) (timerHandler u)
    rw [timerHandler]
    generalize wakeSleepers u = v at checked kept
    split
    next =>
      have lasts : Lasts (fun _ => False) v (processSchedule v) := kept.lasts_schedule
      exact checked.congr lasts.kept (lasts.stays i checked.used id) (scheduleThen_ticks _ _)
        (sleep_schedule kept.seats kept.states (Or.inl rfl) p)
    next => exact checked
  | call op =>
    obtain ⟨may, spared⟩ := ok
    obtain ⟨l, kept⟩ := h.kept
    rw [← h.slot] at spared
    have lasts := step_lasts kept may.1
    have same := step_sleep kept h.used may spared
    rw [h.slot] at same
    exact h.congr lasts.kept (lasts.stays i h.used (not_ends spared)) (step_ticks may) same

theorem Sleeper.run (h : Sleeper p i t w j s) {ops : List SystemOp}
    (run : Exec (Undisturbed p) Processes.event s ops u) : Sleeper p i t w (j + ticksOf ops) u := by
  induction run generalizing j with
  | nil s => exact h
  | @cons s op ops u ok _ ih =>
    have next := ih (h.event ok)
    rw [Nat.add_assoc, ← ticksOf_cons] at next
    exact next

theorem processSleep_sleeper {l : List Seg} (kept : Kept s l) (clock : s.ticks < 2 ^ 32)
    (busy : (s.pcb s.current).pid ≠ 0) (used : Used s i) (here : s.table i = s.current) (ms : Nat) :
    Sleeper s.current i s.ticks ((s.ticks + ms) % 2 ^ 32) 0 (processSleep s ms) := by
  have lasts : Lasts (fun _ => False) s (processSleep s ms) := processSleep_lasts kept ms
  have stays := lasts.stays i used id
  have idle := kept.idle_ne_current busy
  rw [processSleep, if_neg kept.states.current_ne_zero, if_neg busy] at lasts stays ⊢
  generalize wake : (s.ticks + ms) % 2 ^ 32 = w at *
  have same : SameProcess (s.pcb s.current) { s.pcb s.current with wakeTime := w, state := .blocked } :=
    ⟨rfl, rfl, rfl⟩
  have slots := sameSlots_setPcb s s.current same id
  have asleep := sleep_schedule (kept.seats.congr slots) (kept.states.stopped kept.alive idle _)
    (Or.inl (Eq.refl Rest.back)) s.current
  rw [setPcb_self] at asleep
  have none : ¬DueBy s.ticks w 0 := by
    rintro ⟨k, first, last, -⟩
    omega
  refine ⟨lasts.kept, stays.used, stays.table.trans here, ?_, ?_, fun _ => asleep.wakeTime⟩
  · rw [Nat.add_zero, Nat.mod_eq_of_lt clock]
    exact scheduleThen_ticks _ _
  · exact iff_of_true (asleep.blocked.mpr rfl) none

theorem exec_ticks (p : Nat) (s : Processes) (k : Nat) :
    ∃ ops u, Exec (Undisturbed p) Processes.event s ops u ∧ ticksOf ops = k := by
  induction k generalizing s with
  | zero => exact ⟨[], s, .nil s, rfl⟩
  | succ k ih =>
    obtain ⟨ops, u, run, ticks⟩ := ih (s.event .irq0)
    refine ⟨.irq0 :: ops, u, .cons trivial run, ?_⟩
    rw [ticksOf, ticks]

/-- Whether a process sleeps as long as asked is decided by the ticks that reach its wake time. -/
theorem sleepsExactly_iff {l : List Seg} (kept : Kept s l) (clock : s.ticks < 2 ^ 32)
    (busy : (s.pcb s.current).pid ≠ 0) (ms : Nat) : SleepsExactly s ms ↔
      ∀ k, ¬DueBy s.ticks ((s.ticks + ms) % 2 ^ 32) (k + 1) ↔ k + 1 < ms := by
  obtain ⟨i, used, here⟩ := kept.states.current
  have start := processSleep_sleeper kept clock busy used here ms
  have check : ∀ {ops u}, Exec (Undisturbed s.current) Processes.event (processSleep s ms) ops u →
      (((wakeSleepers u).pcb s.current).state = .blocked ↔
        ¬DueBy s.ticks ((s.ticks + ms) % 2 ^ 32) (ticksOf ops + 1)) := by
    intro ops u run
    have now := (start.run run).check.blocked
    rwa [Nat.zero_add] at now
  constructor
  · intro exact k
    obtain ⟨ops, u, run, ticks⟩ := exec_ticks s.current (processSleep s ms) k
    rw [← ticks, ← check run]
    exact exact ops u run
  · intro all ops u run
    rw [check run]
    exact all (ticksOf ops)

end Sleeper

/-- The wake time is after all ticks before it, and not 0: the sum does not wrap, or it is the
last tick before the counter wraps itself. -/
def SleepFits (t ms : Nat) : Prop :=
  t + ms < 2 ^ 32 ∧ 0 < t + ms ∧ (t = 2 ^ 32 - 1 → 0 < ms) ∨ t = 2 ^ 32 - 1 ∧ 2 ≤ ms

instance (t ms : Nat) : Decidable (SleepFits t ms) := inferInstanceAs (Decidable (_ ∨ _))

section Wrap

variable {t ms : Nat}

theorem dueBy_of_fits (small : ms < 2 ^ 32) (fits : SleepFits t ms) (k : Nat) :
    ¬DueBy t ((t + ms) % 2 ^ 32) (k + 1) ↔ k + 1 < ms := by
  constructor
  · intro early
    by_contra late
    refine early ⟨max ms 1, ?_⟩
    rcases fits with ⟨below, pos, last⟩ | ⟨rfl, two⟩ <;> omega
  · rintro early ⟨n, first, last, -, due⟩
    rcases fits with ⟨below, pos, -⟩ | ⟨rfl, two⟩ <;> omega

theorem fits_of_dueBy (clock : t < 2 ^ 32) (small : ms < 2 ^ 32)
    (all : ∀ k, ¬DueBy t ((t + ms) % 2 ^ 32) (k + 1) ↔ k + 1 < ms) : SleepFits t ms := by
  -- a wake time of 0 is never reached
  have nonzero : (t + ms) % 2 ^ 32 ≠ 0 := by
    intro zero
    have late := (all ms).mp fun ⟨_, _, _, pos, _⟩ => by omega
    omega
  have once : DueBy t ((t + ms) % 2 ^ 32) 1 ↔ (t + ms) % 2 ^ 32 ≤ (t + 1) % 2 ^ 32 := by
    constructor
    · rintro ⟨k, first, last, -, due⟩
      obtain rfl : k = 1 := by omega
      exact due
    · exact fun due => ⟨1, Nat.le_refl 1, Nat.le_refl 1, Nat.pos_of_ne_zero nonzero, due⟩
  have first := all 0
  rw [Nat.zero_add, once] at first
  rw [SleepFits]
  omega

end Wrap

/-- What every event keeps. -/
def Clocked (s : Processes) : Prop := (∃ l, Kept s l) ∧ s.ticks < 2 ^ 32

theorem Clocked.event {s : Processes} (h : Clocked s) {op : SystemOp} (ok : s.mayEvent op) : Clocked (s.event op) := by
  obtain ⟨⟨l, kept⟩, clock⟩ := h
  cases op with
  | irq0 =>
    have checked : Clocked (wakeSleepers s) := by
      refine ⟨⟨l, kept.calm (wakeSleepers_calm s)⟩, ?_⟩
      rw [wakeSleepers, processCheckSleeping_ticks]
      exact Nat.mod_lt _ (by decide)
    change Clocked (timerHandler s)
    rw [timerHandler]
    generalize wakeSleepers s = v at checked
    split
    next =>
      obtain ⟨⟨l, kept⟩, clock⟩ := checked
      have lasts : Lasts (fun _ => False) v (processSchedule v) := kept.lasts_schedule
      refine ⟨lasts.kept, ?_⟩
      rw [processSchedule, scheduleThen_ticks]
      exact clock
    next => exact checked
  | call op =>
    refine ⟨(step_lasts kept ok.1).kept, ?_⟩
    change (s.step op).ticks < 2 ^ 32
    rw [step_ticks ok]
    exact clock

theorem processInit_ticks (s : Processes) (entry : Nat) : (processInit s entry).ticks = s.ticks := by
  simp only [processInit]
  split
  next => rfl
  next =>
    obtain ⟨-, -, -, -, -, -, -, ticks⟩ := startIdle_fields _ _ _ entry
    exact ticks

/-- In every state behind `process_init` a process other than the idle one sleeps exactly as
long as asked if and only if its wake time fits. -/
theorem sleep_exact_iff (s0 : Processes) (entry : Nat) (ops : List SystemOp) (s : Processes) (ms : Nat) (boot : Boot s0)
    (clock : s0.ticks < 2 ^ 32) (run : Exec Processes.mayEvent Processes.event (processInit s0 entry) ops s)
    (busy : (s.pcb s.current).pid ≠ 0) (small : ms < 2 ^ 32) :
    SleepsExactly s ms ↔ SleepFits s.ticks ms := by
  have start : Clocked (processInit s0 entry) := by
    refine ⟨processInit_kept boot entry, ?_⟩
    rw [processInit_ticks]
    exact clock
  obtain ⟨⟨l, kept⟩, now⟩ := run.invariant (fun s op inv ok => Clocked.event inv ok) start
  rw [sleepsExactly_iff kept now busy]
  exact ⟨fits_of_dueBy now small, dueBy_of_fits small⟩

/-- A first process, and `ticks` ticks after it has got control. -/
def upFor (ticks : Nat) : List SystemOp :=
  [.call (.processCreate taskName 0x2000 4096), .call .processYield] ++ List.replicate ticks .irq0

def after (s : Processes) (ops : List SystemOp) : Processes := ops.foldl Processes.event s

theorem exec_upFor (ticks : Nat) : Exec Processes.mayEvent Processes.event (processInit powerOn 0x1000) (upFor ticks)
    (after (processInit powerOn 0x1000) (upFor ticks)) := by
  refine exec_foldl (fun op inside s => ?_) _
  rcases List.mem_append.mp inside with call | tick
  · simp only [List.mem_cons, List.not_mem_nil, or_false] at call
    rcases call with rfl | rfl
    · exact ⟨⟨by decide, by decide⟩, by simp, by simp⟩
    · exact ⟨trivial, by simp, by simp⟩
  · rw [(List.mem_replicate.mp tick).2]
    trivial

theorem sleep_exact_iff_two_seconds : SleepsExactly (after (processInit powerOn 0x1000) (upFor 0)) 2000 :=
  (sleep_exact_iff powerOn 0x1000 (upFor 0) _ 2000 powerOn_boot (by decide) (exec_upFor 0) (by decide +kernel)
    (by decide)).mpr (by decide +kernel)

theorem not_sleepsExactly {s : Processes} {ms : Nat}
    (ready : ((wakeSleepers (processSleep s ms)).pcb s.current).state = .ready) (long : 1 < ms) :
    ¬SleepsExactly s ms := by
  intro sleeps
  have blocked := (sleeps [] _ (.nil _)).mpr long
  rw [ready] at blocked
  exact absurd blocked (by decide)

/-- The longest sleep, begun at tick 2, is over with the next tick. -/
theorem longest_sleep_ends_at_once :
    let s := after (processInit powerOn 0x1000) (upFor 2)
    Exec Processes.mayEvent Processes.event (processInit powerOn 0x1000) (upFor 2) s ∧ (s.pcb s.current).pid ≠ 0 ∧
      s.ticks = 2 ∧ ((wakeSleepers (processSleep s 4294967295)).pcb s.current).state = .ready ∧
      ¬SleepsExactly s 4294967295 := by
  intro s
  have ready : ((wakeSleepers (processSleep s 4294967295)).pcb s.current).state = .ready := by decide +kernel
  exact ⟨exec_upFor 2, by decide +kernel, by decide +kernel, ready, not_sleepsExactly ready (by decide)⟩

end Wittche.Process
