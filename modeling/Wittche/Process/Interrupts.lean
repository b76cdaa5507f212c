import Wittche.Process.Runs

/-! The timer interrupt, from `kernel/isr.c` and `kernel/timer.c`, over the processes.
`irq_handler` acknowledges the interrupt at its end, behind the call of `timer_handler`, which
may switch to another process. That process goes on where it was suspended: inside
`irq_handler`, where the acknowledgement comes next, or elsewhere. Between two steps the
current process executes outside `irq_handler`. -/

namespace Wittche.Process
open Bytes CString Heap Execution

/-- Where a suspended process goes on. -/
inductive Place
  | entry
  | call
  | handler
  deriving DecidableEq

structure System where
  processes : Processes
  /-- IRQ0 is in service at the 8259. -/
  inService : Bool
  place : Nat → Place

def picSendEoi (s : System) : System := { s with inService := false }

/-- `system_ticks++` and `process_check_sleeping` of `timer_handler`. -/
def wakeSleepers (s : Processes) : Processes :=
  processCheckSleeping { s with ticks := (s.ticks + 1) % 2 ^ 32 }

def timerHandler (s : Processes) : Processes :=
  let s := wakeSleepers s
  if s.ticks % 10 = 0 then processSchedule s else s

def goOnAt (s : System) : Place → System
  | .handler => picSendEoi s
  | .entry => s
  | .call => s

/-- A call in the current process that leaves the processes at `t`. If it has switched, the
process that made it is suspended at `here`. -/
def leave (s : System) (t : Processes) (here : Place) : System :=
  goOnAt { s with processes := t, place := Function.update s.place s.processes.current here }
    (s.place t.current)

/-- `irq_handler` for IRQ0. -/
def irqHandler (s : System) : System :=
  let t := timerHandler s.processes
  if t.current = s.processes.current then picSendEoi { s with processes := t }
  else leave { s with inService := true } t .handler

/-- A process that is new in the table has not run yet. -/
def newPlaces (s : System) (t : Processes) : System :=
  { s with place := fun p =>
      if ∃ i < MAX_PROCESSES, t.table i = p ∧ s.processes.table i = 0 then .entry else s.place p }

/-- A call of `process.c` outside of `irq_handler`. -/
def voluntary (s : System) (op : ProcessOp) : System :=
  let t := s.processes.step op
  let s := newPlaces s t
  if t.current = s.processes.current then { s with processes := t } else leave s t .call

inductive SystemOp
  | irq0
  | call (op : ProcessOp)

def System.step (s : System) : SystemOp → System
  | .irq0 => irqHandler s
  | .call op => voluntary s op

/-- The 8259 delivers no IRQ0 while one is in service, and only IRQ0 counts the ticks. -/
def System.allowed (s : System) : SystemOp → Prop
  | .irq0 => s.inService = false
  | .call op => s.processes.allowed op ∧ ∀ ticks, op ≠ .tick ticks

def System.start (s : Processes) (entry : Nat) : System :=
  ⟨processInit s entry, false, fun _ => .entry⟩

/-- The process that `timer_handler` leaves current. -/
def tickTarget (s : Processes) : Nat :=
  let s := wakeSleepers s
  if s.ticks % 10 = 0 ∧ s.count ≠ 0 then nextProcess (park s) else s.current

/-- The tick stays with the interrupted process or goes to one that was interrupted before. -/
def Prompt (s : System) : Prop :=
  tickTarget s.processes = s.processes.current ∨ s.place (tickTarget s.processes) = .handler

section

variable {s : System}

theorem goOn_current (s : Processes) (p : Nat) (rest : Rest) : (goOn s p rest).current = s.current := by
  obtain ⟨heap, freed, table, count, result⟩ := goOn_eq s p rest
  rw [result]

theorem processSchedule_current (s : Processes) :
    (processSchedule s).current = if s.count ≠ 0 then nextProcess (park s) else s.current := by
  rw [processSchedule, scheduleThen]
  by_cases none : s.count = 0
  · simp [none, goOn]
  · rw [if_neg none, if_pos none]
    simp only []
    split
    next =>
      rw [processSwitch, goOn_current]
      rfl
    next stay =>
      rw [goOn_current]
      exact (not_not.mp stay).symm

theorem timerHandler_current (s : Processes) : (timerHandler s).current = tickTarget s := by
  simp only [timerHandler, tickTarget]
  by_cases tenth : (wakeSleepers s).ticks % 10 = 0
  · rw [if_pos tenth, processSchedule_current]
    simp [tenth]
  · rw [if_neg tenth, if_neg fun both => tenth both.1]

theorem goOnAt_inService (place : Place) :
    (goOnAt s place).inService = false ↔ s.inService = false ∨ place = .handler := by
  cases place <;> simp [goOnAt, picSendEoi]

theorem irqHandler_inService (s : System) : (irqHandler s).inService = false ↔ Prompt s := by
  simp only [irqHandler, Prompt, timerHandler_current]
  split
  next stay => simp [picSendEoi, stay]
  next switch => simp [leave, goOnAt_inService, timerHandler_current, switch]

theorem voluntary_inService {op : ProcessOp} (idle : s.inService = false) :
    (voluntary s op).inService = false := by
  simp only [voluntary]
  split
  next => exact idle
  next => exact (goOnAt_inService _).mpr (Or.inl idle)

end

theorem run_acknowledged_iff {s t : System} {ops : List SystemOp}
    (run : Exec System.allowed System.step s ops t) :
    (∀ first rest u, ops = first ++ rest → Exec System.allowed System.step s first u → u.inService = false) ↔
    s.inService = false ∧
      ∀ first rest u, ops = first ++ .irq0 :: rest → Exec System.allowed System.step s first u → Prompt u := by
  induction run with
  | nil s =>
    constructor
    · exact fun all => ⟨all [] [] s rfl (.nil s), fun first rest u split => by simp at split⟩
    · rintro ⟨idle, -⟩ first rest u split run
      obtain ⟨rfl, rfl⟩ := List.append_eq_nil_iff.mp split.symm
      cases run
      exact idle
  | @cons s op ops t ok _ ih =>
    constructor
    · intro all
      have idle := all [] _ s rfl (.nil s)
      have after := ih.mp fun first rest u split run => all (op :: first) rest u (by rw [split]; rfl) (.cons ok run)
      refine ⟨idle, fun first rest u split run => ?_⟩
      cases run with
      | nil =>
        obtain ⟨rfl, -⟩ := List.cons.inj split
        exact (irqHandler_inService s).mp after.1
      | cons ok' run' =>
        obtain ⟨rfl, split'⟩ := List.cons.inj split
        exact after.2 _ rest u split' run'
    · rintro ⟨idle, prompt⟩ first rest u split run
      cases run with
      | nil => exact idle
      | cons ok' run' =>
        obtain ⟨rfl, split'⟩ := List.cons.inj split
        have next : (s.step op).inService = false := by
          cases op with
          | irq0 => exact (irqHandler_inService s).mpr (prompt [] ops s rfl (.nil s))
          | call op => exact voluntary_inService idle
        refine ih.mpr ⟨next, fun first rest u split run => ?_⟩ _ rest u split' run'
        exact prompt (op :: first) rest u (by rw [split]; rfl) (.cons ok run)

/-- In all states of a run no IRQ0 is in service, exactly if all its ticks are prompt. -/
theorem ticks_acknowledged_iff (s0 : Processes) (entry : Nat) (ops : List SystemOp) (s : System)
    (run : Exec System.allowed System.step (System.start s0 entry) ops s) :
    (∀ first rest t, ops = first ++ rest →
      Exec System.allowed System.step (System.start s0 entry) first t → t.inService = false) ↔
    ∀ first rest t, ops = first ++ .irq0 :: rest →
      Exec System.allowed System.step (System.start s0 entry) first t → Prompt t := by
  rw [run_acknowledged_iff run]
  exact and_iff_right rfl

/-- The first tick finds the idle process alone. -/
theorem ticks_acknowledged_iff_first : ((System.start powerOn 0x1000).step .irq0).inService = false := by
  have prompt : Prompt (System.start powerOn 0x1000) := Or.inl (by decide)
  refine (ticks_acknowledged_iff powerOn 0x1000 [.irq0] _ (.cons rfl (.nil _))).mpr ?_ [.irq0] [] _ rfl
    (.cons rfl (.nil _))
  intro first rest t split run
  cases run with
  | nil => exact prompt
  | cons _ run => simp at split

def ticked (s : System) : Nat → System
  | 0 => s
  | n + 1 => (ticked s n).step .irq0

theorem run_ticked {s0 s : System} {ops : List SystemOp} (run : Exec System.allowed System.step s0 ops s) (n : Nat)
    (idle : ∀ k < n, (ticked s k).inService = false) :
    Exec System.allowed System.step s0 (ops ++ List.replicate n .irq0) (ticked s n) := by
  induction n with
  | zero =>
    rw [List.replicate_zero, List.append_nil]
    exact run
  | succ n ih =>
    have before := ih fun k lt => idle k (Nat.lt_succ_of_lt lt)
    rw [List.replicate_succ', ← List.append_assoc]
    exact before.append (.cons (idle n (Nat.lt_succ_self n)) (.nil _))

/-- The tenth tick switches to a new process, which runs with IRQ0 in service. -/
theorem new_process_runs_in_service : ∃ s, Exec System.allowed System.step (System.start powerOn 0x1000)
    ([.call (.processCreate taskName 0x2000 4096)] ++ List.replicate 10 .irq0) s ∧
    s.processes.current = s.processes.table 1 ∧ s.inService = true := by
  have create : Exec System.allowed System.step (System.start powerOn 0x1000)
      [.call (.processCreate taskName 0x2000 4096)] _ := .cons ⟨⟨by decide, by decide⟩, fun _ => by simp⟩ (.nil _)
  exact ⟨_, run_ticked create 10 (by decide +kernel), by decide +kernel, by decide +kernel⟩

end Wittche.Process
