import Wittche.Paging.UserPages
import Wittche.Process.Runs

/-! User mode processes: `process_create_user_mode` and `process_kill` of `process.c` with the
demand paging of `paging.c`, over the process table and the page tables together. In
every run the pages that are taken behind the kernel belong to the processes that are
alive, each to one of them, and a process that is killed gives back its own. -/

namespace Wittche.Process
open Bytes CString Heap Pmm Paging Execution

def USER_CODE_BASE : Nat := 0x40000000
def USER_STACK_BASE : Nat := 0x80000000

/-- The two parts of the kernel; `current_directory` is in both. -/
structure Kernel where
  processes : Processes
  tables : PageTables

namespace Kernel

def setPcb (s : Kernel) (p : Nat) (x : Pcb) : Kernel := { s with processes := s.processes.setPcb p x }

def after (s : Kernel) (processes : Processes) : Kernel :=
  ⟨processes, pagingSwitchDirectory s.tables processes.directory⟩

/-- `process_kill`, with `paging_free_directory` for the directory it frees. -/
def processKill (s : Kernel) (pid : Nat) : Kernel :=
  let processes := Process.processKill { s.processes with freed := [] } pid
  let s := s.after processes
  { s with tables := processes.freed.foldr (fun dir tables => pagingFreeDirectory tables dir) s.tables }

def processSchedule (s : Kernel) : Kernel := s.after (Process.processSchedule s.processes)

def processSetPriority (s : Kernel) (pid priority : Nat) : Kernel :=
  { s with processes := (Process.processSetPriority s.processes pid priority).1 }

/-- The fields that `process_create_user_mode` sets last. -/
def enterUserMode (s : Kernel) (p priority : Nat) : Kernel :=
  let x := s.processes.pcb p
  s.setPcb p { x with
    userStack := USER_STACK_BASE
    priority := clampPriority priority
    cpuState := { x.cpuState with eip := USER_CODE_BASE, cs := 0x1B, ds := 0x23, es := 0x23, fs := 0x23, gs := 0x23,
                                  ss := 0x23 } }

/-- `process_create_user_mode` from the code page on: `dir` and `stack` are there. -/
def mapUser (s : Kernel) (p pid dir stack : Nat) (code : Nat → Nat) (priority : Nat) : Kernel × Nat :=
  match s.tables.allocPage with
  | (tables, page) =>
    if page = 0 then ({ s with tables := tables }.processKill pid, 0)
    else
      let tables := { tables with entries := Function.update tables.entries page code }
      let tables := pagingMapUserCode tables dir USER_CODE_BASE page PAGE_SIZE
      let tables := pagingMapUserCode tables dir (USER_STACK_BASE - PAGE_SIZE) stack PAGE_SIZE
      ({ s with tables := tables }.enterUserMode p priority, pid)

/-- `process_create_user_mode` from the user stack on, for the process at `p`. -/
def fillUser (img : Image) (s : Kernel) (p pid : Nat) (code : Nat → Nat) (priority : Nat) : Kernel × Nat :=
  let s := s.setPcb p { s.processes.pcb p with isUserMode := 1 }
  match s.tables.allocPage with
  | (tables, stack) =>
    if stack = 0 then ({ s with tables := tables }.processKill pid, 0)
    else
      match pagingCreateUserDirectory img tables with
      | (tables, dir) =>
        let s := { s with tables := tables }.setPcb p { s.processes.pcb p with pageDirectory := dir }
        if dir = 0 then (s.processKill pid, 0) else s.mapUser p pid dir stack code priority

/-- `process_create_user_mode`, with `wrapper` the address of `user_mode_entry_wrapper` and
`code` the words at `entry_point`. -/
def processCreateUserMode (img : Image) (wrapper : Nat) (s : Kernel) (name : CStr) (code : Nat → Nat)
    (stackSize : Word) (priority : Nat) : Kernel × Nat :=
  match processCreate s.processes name wrapper stackSize with
  | (processes, pid) =>
    let s := { s with processes := processes }
    if pid = 0 then (s, 0)
    else
      let p := s.processes.processGet pid
      if p = 0 then (s, 0) else fillUser img s p pid code priority

/-- `page_fault_handler` up to where it gives up and halts; `cr2` is the faulting address. -/
def pageFaultHandler (s : Kernel) (cr2 errorCode : Nat) : Kernel :=
  let x := s.processes.pcb s.processes.current
  let stackLimit := USER_STACK_BASE - 1024 * 1024
  let isStack := stackLimit ≤ cr2 ∧ cr2 < USER_STACK_BASE
  let isHeap := USER_CODE_BASE + 256 * 1024 ≤ cr2 ∧ cr2 < USER_STACK_BASE
  if errorCode &&& 0x1 = 0 ∧ (errorCode &&& 0x8) >>> 3 = 0 ∧ s.processes.current ≠ 0 ∧ x.isUserMode ≠ 0 ∧
      (isStack ∨ isHeap) then
    match s.tables.allocPage with
    | (tables, page) =>
      if page = 0 then { s with tables := tables }
      else { s with tables := pagingMapUserCode tables x.pageDirectory (cr2 &&& 0xFFFFF000) page PAGE_SIZE }
  else s

end Kernel

section Tables

variable {img : Image} {dirs : Set Nat}

/-- The page table work of `process_create_user_mode`: a page for the stack, a directory, a page
for the code, and both pages mapped. The number is the directory. -/
def newSpace (img : Image) (t : PageTables) (code : Nat → Nat) : PageTables × Nat :=
  let stack := t.allocPage.2
  let r := pagingCreateUserDirectory img t.allocPage.1
  let page := r.1.allocPage.2
  let filled := { r.1.allocPage.1 with entries := Function.update r.1.allocPage.1.entries page code }
  (pagingMapUserCode (pagingMapUserCode filled r.2 USER_CODE_BASE page PAGE_SIZE) r.2 (USER_STACK_BASE - PAGE_SIZE)
    stack PAGE_SIZE, r.2)

theorem newSpace_users {t : PageTables} (h : Users img t dirs fun _ => False) (code : Nat → Nat)
    (given : (newSpace img t code).1.refused = t.refused) :
    (newSpace img t code).2 ∉ dirs ∧ (newSpace img t code).1.current = t.current ∧
      Users img (newSpace img t code).1 (insert (newSpace img t code).2 dirs) (fun _ => False) ∧
      ∀ n, 4096 ≤ n → n ≠ USER_CODE_BASE / PAGE_SIZE → n ≠ (USER_STACK_BASE - PAGE_SIZE) / PAGE_SIZE →
        frameAt (newSpace img t code).1 (newSpace img t code).2 n = none := by
  let stack := t.allocPage.2
  let r := pagingCreateUserDirectory img t.allocPage.1
  let page := r.1.allocPage.2
  let filled := { r.1.allocPage.1 with entries := Function.update r.1.allocPage.1.entries page code }
  let mapped := pagingMapUserCode (pagingMapUserCode filled r.2 USER_CODE_BASE page PAGE_SIZE) r.2
    (USER_STACK_BASE - PAGE_SIZE) stack PAGE_SIZE
  have given' : mapped.refused = t.refused := given
  have first := refused_le_allocPage t
  have second : t.allocPage.1.refused ≤ r.1.refused := by
    rw [refused_createUserDirectory]
    exact refused_le_allocPage _
  have third : r.1.refused ≤ filled.refused := refused_le_allocPage r.1
  have fourth : filled.refused ≤ (pagingMapUserCode filled r.2 USER_CODE_BASE page PAGE_SIZE).refused :=
    refused_le_mapUserCode ..
  have fifth : (pagingMapUserCode filled r.2 USER_CODE_BASE page PAGE_SIZE).refused ≤ mapped.refused :=
    refused_le_mapUserCode ..
  have given1 : t.allocPage.1.refused = t.refused := by omega
  have given2 : r.1.refused = t.allocPage.1.refused := by omega
  have given3 : filled.refused = r.1.refused := by omega
  have given4 : (pagingMapUserCode filled r.2 USER_CODE_BASE page PAGE_SIZE).refused = filled.refused := by omega
  have given5 : mapped.refused = (pagingMapUserCode filled r.2 USER_CODE_BASE page PAGE_SIZE).refused := by omega
  obtain ⟨-, -, -, taken⟩ := h.allocPage given1
  obtain ⟨new, -, current, empty, created⟩ := taken.create given2
  obtain ⟨free, other, -, loose⟩ := created.allocPage given3
  obtain ⟨written, frames⟩ := loose.scribble (Or.inl rfl) code
  have own : r.2 ∈ insert r.2 dirs := Or.inl rfl
  have vacant : ∀ n, 4096 ≤ n → frameAt filled r.2 n = none := fun n high => (frames r.2 own n).trans (empty n high)
  have coded := written.mapUserCode other own (v := USER_CODE_BASE) (by decide) (by decide) (vacant _ (by decide))
    given4
  obtain ⟨coded', -, change⟩ := written.spaces.mapUserCode (Or.inr own) (by decide) (by decide) free.2.2 (by decide)
    (freeable_fits free) given4
  have spare : frameAt (pagingMapUserCode filled r.2 USER_CODE_BASE page PAGE_SIZE) r.2
      ((USER_STACK_BASE - PAGE_SIZE) / PAGE_SIZE) = none := by
    rw [change r.2 (Or.inr own), if_neg fun both => absurd both.2.2 (by decide)]
    exact vacant _ (by decide)
  have users := coded.mapUserCode id own (by decide) (by decide) spare given5
  have inside := (coded.ledger.apart stack (Or.inl rfl)).1
  obtain ⟨-, -, change'⟩ := coded'.mapUserCode (Or.inr own) (v := USER_STACK_BASE - PAGE_SIZE) (by decide) (by decide)
    inside.2.2 (by decide) (freeable_fits inside) given5
  refine ⟨new, current, users, fun n high notCode notStack => ?_⟩
  have one : (PAGE_SIZE + PAGE_SIZE - 1) / PAGE_SIZE = 1 := by decide
  calc
    frameAt mapped r.2 n = frameAt (pagingMapUserCode filled r.2 USER_CODE_BASE page PAGE_SIZE) r.2 n := by
      rw [change' r.2 (Or.inr own), one, if_neg (by omega)]
    _ = frameAt filled r.2 n := by rw [change r.2 (Or.inr own), one, if_neg (by omega)]
    _ = none := vacant n high

end Tables

/-- A process in user mode; the idle process is none, whatever is in its field. -/
def User (s : Processes) (i : Nat) : Prop := Used s i ∧ i ≠ 0 ∧ (inSlot s i).isUserMode ≠ 0

def userDirs (s : Processes) : Set Nat := { d | ∃ i, User s i ∧ (inSlot s i).pageDirectory = d }

/-- Both parts of the kernel in a run of user mode processes. -/
structure Populated (img : Image) (s : Kernel) : Prop where
  inv : ∃ n ≤ 2 ^ 32, s.processes.nextPid = n % 2 ^ 32 ∧ Inv (s.processes.renumber n)
  synced : s.tables.current = s.processes.directory
  here : s.processes.directory = (s.processes.pcb s.processes.current).pageDirectory
  idle : (inSlot s.processes 0).pageDirectory = img.kernelDirectory
  only : ∀ i, Used s.processes i → i ≠ 0 → (inSlot s.processes i).isUserMode ≠ 0
  apart : ∀ i j, User s.processes i → User s.processes j →
    (inSlot s.processes i).pageDirectory = (inSlot s.processes j).pageDirectory → i = j
  users : Users img s.tables (userDirs s.processes) fun _ => False

section Quiet

variable {s t u : Processes}

/-- The processes keep their slots and their address spaces. -/
structure Quiet (s t : Processes) : Prop where
  table : t.table = s.table
  mode : ∀ p, (t.pcb p).isUserMode = (s.pcb p).isUserMode
  space : ∀ p, (t.pcb p).pageDirectory = (s.pcb p).pageDirectory

theorem Quiet.trans (h : Quiet s t) (h' : Quiet t u) : Quiet s u :=
  ⟨h'.table.trans h.table, fun p => (h'.mode p).trans (h.mode p), fun p => (h'.space p).trans (h.space p)⟩

theorem Quiet.used (h : Quiet s t) (i : Nat) : Used t i ↔ Used s i := by
  rw [Used, Used, h.table]

theorem Quiet.slotMode (h : Quiet s t) (i : Nat) : (inSlot t i).isUserMode = (inSlot s i).isUserMode := by
  rw [inSlot, inSlot, h.table, h.mode]

theorem Quiet.slotSpace (h : Quiet s t) (i : Nat) : (inSlot t i).pageDirectory = (inSlot s i).pageDirectory := by
  rw [inSlot, inSlot, h.table, h.space]

theorem Quiet.user (h : Quiet s t) (i : Nat) : User t i ↔ User s i := by
  rw [User, User, h.used, h.slotMode]

theorem Quiet.userDirs (h : Quiet s t) : userDirs t = userDirs s := by
  ext d
  exact exists_congr fun i => by rw [h.user, h.slotSpace]

theorem quiet_setPcb {p : Nat} {x : Pcb} (mode : x.isUserMode = (s.pcb p).isUserMode)
    (space : x.pageDirectory = (s.pcb p).pageDirectory) : Quiet s (s.setPcb p x) := by
  refine ⟨rfl, fun q => ?_, fun q => ?_⟩
  · by_cases same : q = p
    · rw [same, setPcb_self, mode]
    · rw [setPcb_other s same]
  · by_cases same : q = p
    · rw [same, setPcb_self, space]
    · rw [setPcb_other s same]

theorem quiet_setState (s : Processes) (p : Nat) (state : State) : Quiet s (s.setState p state) :=
  quiet_setPcb rfl rfl

theorem quiet_park (s : Processes) : Quiet s (park s) := by
  rw [park]
  split
  next => exact quiet_setState s _ _
  next => exact ⟨rfl, fun _ => rfl, fun _ => rfl⟩

theorem park_directory (s : Processes) : (park s).directory = s.directory := by
  rw [park]
  split <;> rfl

theorem processSchedule_quiet (slots : Slots s) (states : States s) :
    Quiet s (processSchedule s) ∧
      ((processSchedule s).current = s.current ∧ (processSchedule s).directory = s.directory ∨
        (s.pcb (processSchedule s).current).pageDirectory = 0 ∨
        (processSchedule s).directory = (s.pcb (processSchedule s).current).pageDirectory) := by
  rw [processSchedule, scheduleThen_eq slots.seats states (Or.inl rfl)]
  split
  next away =>
    have parked := quiet_park s
    have quiet := parked.trans (quiet_setState (park s) (nextProcess (park s)) .running)
    refine ⟨⟨quiet.table, quiet.mode, quiet.space⟩, Or.inr ?_⟩
    by_cases none : (s.pcb (nextProcess (park s))).pageDirectory = 0
    · exact Or.inl none
    · refine Or.inr ?_
      rw [← quiet.space] at none
      exact (if_pos none).trans (quiet.space _)
  next stay =>
    refine ⟨(quiet_park s).trans (quiet_setState _ _ _), Or.inl ⟨park_current s, park_directory s⟩⟩

theorem processSetPriority_quiet (s : Processes) (pid priority : Nat) :
    Quiet s (processSetPriority s pid priority).1 := by
  rcases processSetPriority_cases s pid priority with same | done
  · rw [same]
    exact ⟨rfl, fun _ => rfl, fun _ => rfl⟩
  · rw [done]
    exact quiet_setPcb rfl rfl

end Quiet

section Renumber

variable (s : Processes) (n : Nat)

theorem park_renumber : park (s.renumber n) = (park s).renumber n := by
  by_cases busy : s.current ≠ 0 ∧ (s.pcb s.current).state = .running
  · have parked : park s = s.setState s.current .ready := if_pos busy
    rw [parked]
    exact if_pos busy
  · have parked : park s = s := if_neg busy
    rw [parked]
    exact if_neg busy

theorem cleanup_renumber (i p : Nat) : cleanup (s.renumber n) i p = (cleanup s i p).renumber n := by
  rw [cleanup_eq, cleanup_eq]
  rfl

theorem goOn_renumber (p : Nat) (rest : Rest) : goOn (s.renumber n) p rest = (goOn s p rest).renumber n := by
  cases rest with
  | back => rfl
  | cleanup slot => exact cleanup_renumber s n slot p

theorem handOver_renumber (rest : Rest) (next : Nat) :
    handOver (s.renumber n) rest next = (handOver s rest next).renumber n := rfl

theorem nextProcess_renumber : nextProcess (s.renumber n) = nextProcess s := rfl

theorem processSwitch_renumber : processSwitch (s.renumber n) = (processSwitch s).renumber n :=
  goOn_renumber { s with rest := Function.update s.rest s.current .back } n s.current (s.rest s.current)

theorem scheduleThen_renumber (rest : Rest) : scheduleThen (s.renumber n) rest = (scheduleThen s rest).renumber n := by
  simp only [scheduleThen, park_renumber, nextProcess_renumber]
  by_cases none : s.count = 0
  · rw [if_pos none, if_pos (show (s.renumber n).count = 0 from none)]
    exact goOn_renumber s n s.current rest
  · rw [if_neg none, if_neg (show (s.renumber n).count ≠ 0 from none)]
    by_cases away : nextProcess (park s) ≠ (park s).current
    · rw [if_pos away, if_pos (show nextProcess (park s) ≠ ((park s).renumber n).current from away),
        handOver_renumber, processSwitch_renumber]
    · rw [if_neg away, if_neg (show ¬nextProcess (park s) ≠ ((park s).renumber n).current from away)]
      exact goOn_renumber ((park s).setState (park s).current .running) n _ rest

end Renumber

section Step

variable {img : Image} {s : Kernel}

theorem Populated.space (h : Populated img s) {i : Nat} (used : Used s.processes i) :
    i = 0 ∧ (inSlot s.processes i).pageDirectory = img.kernelDirectory ∨
      User s.processes i ∧ (inSlot s.processes i).pageDirectory ∈ userDirs s.processes := by
  by_cases zero : i = 0
  · subst zero
    exact Or.inl ⟨rfl, h.idle⟩
  · have user : User s.processes i := ⟨used, zero, h.only i used zero⟩
    exact Or.inr ⟨user, i, user, rfl⟩

theorem Populated.space_ne_zero (h : Populated img s) {i : Nat} (used : Used s.processes i) :
    (inSlot s.processes i).pageDirectory ≠ 0 := by
  rcases h.space used with ⟨-, same⟩ | ⟨-, dir⟩
  · rw [same]
    have loaded := img.loaded.1
    omega
  · have high := (h.users.dir dir).1
    simp only [KERNEL_END] at high
    omega

/-- A step in which the processes keep their slots and address spaces, and the page tables
follow the current process. -/
theorem Populated.quiet (h : Populated img s) {t : Processes} (quiet : Quiet s.processes t)
    (inv : ∃ n ≤ 2 ^ 32, t.nextPid = n % 2 ^ 32 ∧ Inv (t.renumber n))
    (here : t.directory = (t.pcb t.current).pageDirectory) : Populated img (s.after t) := by
  have current : t.directory ∈ insert img.kernelDirectory (userDirs s.processes) := by
    obtain ⟨n, -, -, inv⟩ := inv
    obtain ⟨c, used, mine⟩ := inv.states.current
    have mine' : t.table c = t.current := mine
    rw [here, ← mine', ← inSlot, quiet.slotSpace]
    rcases h.space ((quiet.used c).mp used) with ⟨-, same⟩ | ⟨-, dir⟩
    · exact Or.inl same
    · exact Or.inr dir
  refine ⟨inv, rfl, here, (quiet.slotSpace 0).trans h.idle, fun i used other => ?_, fun i j usedi usedj same => ?_, ?_⟩
  · rw [Kernel.after, quiet.slotMode]
    exact h.only i ((quiet.used i).mp used) other
  · have same' : (inSlot t i).pageDirectory = (inSlot t j).pageDirectory := same
    rw [quiet.slotSpace, quiet.slotSpace] at same'
    exact h.apart i j ((quiet.user i).mp usedi) ((quiet.user j).mp usedj) same'
  · have dirs : userDirs (s.after t).processes = userDirs s.processes := quiet.userDirs
    rw [dirs]
    exact h.users.switch current

theorem Populated.schedule (h : Populated img s) : Populated img s.processSchedule := by
  obtain ⟨n, le, number, inv⟩ := h.inv
  have renumber := scheduleThen_renumber s.processes n .back
  obtain ⟨quiet', next⟩ := processSchedule_quiet inv.slots inv.states
  have moved := (processSchedule_moved inv).inv
  rw [Process.processSchedule, renumber] at quiet' next moved
  have quiet : Quiet s.processes (Process.processSchedule s.processes) :=
    ⟨quiet'.table, quiet'.mode, quiet'.space⟩
  have same : (Process.processSchedule s.processes).nextPid = s.processes.nextPid := by
    have back := scheduleThen_renumber s.processes s.processes.nextPid .back
    calc
      _ = (scheduleThen (s.processes.renumber s.processes.nextPid) .back).nextPid := rfl
      _ = s.processes.nextPid := by rw [back]; rfl
  refine h.quiet quiet ⟨n, le, same.trans number, moved⟩ ?_
  rw [quiet.space]
  rcases next with ⟨stay, kept⟩ | none | switched
  · have stay' : (Process.processSchedule s.processes).current = s.processes.current := stay
    rw [stay', ← h.here]
    exact kept
  · obtain ⟨c, used, mine⟩ := moved.states.current
    have used' : Used s.processes c := (quiet.used c).mp used
    refine absurd ?_ (h.space_ne_zero used')
    have mine' : s.processes.table c = (Process.processSchedule s.processes).current := by
      rw [← quiet.table]
      exact mine
    rw [inSlot, mine']
    exact none
  · exact switched

theorem Populated.setPriority (h : Populated img s) (pid priority : Nat) :
    Populated img (s.processSetPriority pid priority) := by
  obtain ⟨n, le, number, inv⟩ := h.inv
  have quiet := processSetPriority_quiet s.processes pid priority
  have calm := processSetPriority_calm s.processes pid priority
  have moved := inv.calm (processSetPriority_calm (s.processes.renumber n) pid priority)
  have same : (Process.processSetPriority (s.processes.renumber n) pid priority).1 =
      (Process.processSetPriority s.processes pid priority).1.renumber n := by
    by_cases none : s.processes.processGet pid = 0
    · simp only [Process.processSetPriority, if_pos none]
      exact congrArg Prod.fst (if_pos none)
    · simp only [Process.processSetPriority, if_neg none]
      exact congrArg Prod.fst (if_neg none)
  rw [same] at moved
  have kept : (Process.processSetPriority s.processes pid priority).1.directory = s.processes.directory := by
    rcases processSetPriority_cases s.processes pid priority with same | done
    · rw [same]
    · rw [done]
      rfl
  have step := h.quiet quiet ⟨n, le, calm.nextPid.trans number, moved⟩ (by
    rw [kept, h.here, calm.current, quiet.space])
  have after : s.after (Process.processSetPriority s.processes pid priority).1 =
      s.processSetPriority pid priority := by
    rw [Kernel.after, Kernel.processSetPriority, kept, ← h.synced]
    rfl
  rwa [after] at step

/-- The cleanup of `process_kill` leaves the other processes alone. -/
structure Cleaned (s t : Processes) (i : Nat) : Prop where
  table : t.table = Function.update s.table i 0
  pcb : t.pcb = s.pcb
  current : t.current = s.current
  directory : t.directory = s.directory
  nextPid : t.nextPid = s.nextPid
  count : t.count = s.count - 1

theorem cleanup_cleaned (s : Processes) (i p : Nat) : Cleaned s (cleanup s i p) i := by
  rw [cleanup_eq]
  exact ⟨rfl, rfl, rfl, rfl, rfl, rfl⟩

theorem Cleaned.used {s t : Processes} {i : Nat} (h : Cleaned s t i) (j : Nat) : Used t j ↔ Used s j ∧ j ≠ i := by
  by_cases mine : j = i
  · subst mine
    have gone : t.table j = 0 := by rw [h.table, Function.update_self]
    exact iff_of_false (fun used => used.2 gone) fun both => both.2 rfl
  · rw [Used, Used, h.table, Function.update_of_ne mine]
    exact ⟨fun used => ⟨used, mine⟩, fun both => both.1⟩

theorem Cleaned.slot {s t : Processes} {i j : Nat} (h : Cleaned s t i) (other : j ≠ i) : inSlot t j = inSlot s j := by
  rw [inSlot, inSlot, h.table, Function.update_of_ne other, h.pcb]

theorem Cleaned.user {s t : Processes} {i : Nat} (h : Cleaned s t i) (j : Nat) : User t j ↔ User s j ∧ j ≠ i := by
  rw [User, User, h.used]
  constructor
  · rintro ⟨⟨used, away⟩, zero, mode⟩
    rw [h.slot away] at mode
    exact ⟨⟨used, zero, mode⟩, away⟩
  · rintro ⟨⟨used, zero, mode⟩, away⟩
    rw [← h.slot away] at mode
    exact ⟨⟨used, away⟩, zero, mode⟩

theorem calm_freed (s : Processes) (freed : List Nat) : Calm s { s with freed := freed } :=
  ⟨⟨rfl, rfl, rfl, rfl, rfl, fun _ => .refl _, fun _ => id⟩, rfl, rfl, fun _ => Or.inl rfl⟩

/-- `process_kill` of a process that does not run: its slot is cleared, and its directory goes
to `paging_free_directory`. -/
theorem Kernel.processKill_other {s : Kernel} {pid i : Nat} (named : pid ≠ 0)
    (found : s.processes.slotOf pid = some i) (other : s.processes.table i ≠ s.processes.current) :
    s.processKill pid = ⟨cleanup { s.processes with freed := [] } i (s.processes.table i),
      if (inSlot s.processes i).isUserMode ≠ 0 ∧ (inSlot s.processes i).pageDirectory ≠ 0 then
        pagingFreeDirectory (pagingSwitchDirectory s.tables s.processes.directory) (inSlot s.processes i).pageDirectory
      else pagingSwitchDirectory s.tables s.processes.directory⟩ := by
  have found' : { s.processes with freed := [] }.slotOf pid = some i := found
  have result : Process.processKill { s.processes with freed := [] } pid =
      cleanup { s.processes with freed := [] } i (s.processes.table i) :=
    processKill_cleanup named found' other
  have directory := (cleanup_cleaned { s.processes with freed := [] } i (s.processes.table i)).directory
  have freed := congrArg Processes.freed (cleanup_eq { s.processes with freed := [] } i (s.processes.table i))
  simp only [Kernel.processKill, Kernel.after, result, directory]
  by_cases user : (inSlot s.processes i).isUserMode ≠ 0 ∧ (inSlot s.processes i).pageDirectory ≠ 0
  · rw [if_pos user, freed.trans (if_pos user)]
    rfl
  · rw [if_neg user, freed.trans (if_neg user)]
    rfl

theorem Populated.kill_eq (h : Populated img s) {i : Nat} (user : User s.processes i)
    (other : s.processes.table i ≠ s.processes.current) :
    s.processKill (inSlot s.processes i).pid =
      ⟨cleanup { s.processes with freed := [] } i (s.processes.table i),
        pagingFreeDirectory s.tables (inSlot s.processes i).pageDirectory⟩ := by
  obtain ⟨n, -, -, inv⟩ := h.inv
  have found : s.processes.slotOf (inSlot s.processes i).pid = some i := inv.slots.slotOf_pid user.1
  have nonzero : (inSlot s.processes i).pid ≠ 0 := (inv.slots.pid_ne_zero user.1).mpr user.2.1
  have same : pagingSwitchDirectory s.tables s.processes.directory = s.tables := by
    rw [pagingSwitchDirectory, ← h.synced]
  rw [Kernel.processKill_other nonzero found other, if_pos ⟨user.2.2, h.space_ne_zero user.1⟩, same]

theorem Populated.current_ne (h : Populated img s) {i : Nat} (user : User s.processes i)
    (other : s.processes.table i ≠ s.processes.current) :
    s.tables.current ≠ (inSlot s.processes i).pageDirectory := by
  intro clash
  obtain ⟨n, -, -, inv⟩ := h.inv
  obtain ⟨c, used, mine⟩ := inv.states.current
  have used' : Used s.processes c := used
  have mine' : s.processes.table c = s.processes.current := mine
  have same : (inSlot s.processes c).pageDirectory = (inSlot s.processes i).pageDirectory := by
    rw [← clash, h.synced, h.here, inSlot, mine']
  rcases h.space used' with ⟨-, kernel⟩ | ⟨user', -⟩
  · have high := (h.users.dir ⟨i, user, rfl⟩).1
    have below := img.directoryBelow
    rw [← same, kernel] at high
    simp only [PAGE_SIZE, KERNEL_END] at high below
    omega
  · rw [← h.apart c i user' user same] at other
    exact other mine'

theorem Populated.kill (h : Populated img s) {i : Nat} (user : User s.processes i)
    (other : s.processes.table i ≠ s.processes.current) :
    Populated img (s.processKill (inSlot s.processes i).pid) := by
  rw [h.kill_eq user other]
  obtain ⟨n, le, number, inv⟩ := h.inv
  have cleaned := cleanup_cleaned { s.processes with freed := [] } i (s.processes.table i)
  have inv' := inv.calm (calm_freed (s.processes.renumber n) [])
  have killed := (processKill_moved inv' (inSlot s.processes i).pid).inv
  have result : processKill { s.processes.renumber n with freed := [] } (inSlot s.processes i).pid =
      cleanup ({ s.processes with freed := [] }.renumber n) i (s.processes.table i) :=
    processKill_cleanup ((inv'.slots.pid_ne_zero user.1).mpr user.2.1) (inv'.slots.slotOf_pid user.1) other
  rw [result, cleanup_renumber] at killed
  have dirs : userDirs (cleanup { s.processes with freed := [] } i (s.processes.table i)) =
      userDirs s.processes \ {(inSlot s.processes i).pageDirectory} := by
    ext d
    constructor
    · rintro ⟨j, user', rfl⟩
      obtain ⟨old, away⟩ := (cleaned.user j).mp user'
      rw [cleaned.slot away]
      exact ⟨⟨j, old, rfl⟩, fun same => away (h.apart j i old user same)⟩
    · rintro ⟨⟨j, old, rfl⟩, away⟩
      have other : j ≠ i := fun same => away (congrArg (fun k => (inSlot s.processes k).pageDirectory) same)
      exact ⟨j, (cleaned.user j).mpr ⟨old, other⟩, congrArg Pcb.pageDirectory (cleaned.slot other)⟩
  refine ⟨⟨n, le, cleaned.nextPid.trans number, killed⟩, ?_, ?_, ?_, fun j used zero => ?_,
    fun j k userj userk same => ?_, ?_⟩
  · exact (freeDirectory_current ..).trans (h.synced.trans cleaned.directory.symm)
  · change (cleanup { s.processes with freed := [] } i (s.processes.table i)).directory = _
    rw [cleaned.directory, cleaned.pcb, cleaned.current]
    exact h.here
  · change (inSlot (cleanup { s.processes with freed := [] } i (s.processes.table i)) 0).pageDirectory = _
    rw [cleaned.slot user.2.1.symm]
    exact h.idle
  · obtain ⟨old, away⟩ := (cleaned.used j).mp used
    change (inSlot (cleanup { s.processes with freed := [] } i (s.processes.table i)) j).isUserMode ≠ 0
    rw [cleaned.slot away]
    exact h.only j old zero
  · obtain ⟨oldj, awayj⟩ := (cleaned.user j).mp userj
    obtain ⟨oldk, awayk⟩ := (cleaned.user k).mp userk
    change (inSlot (cleanup { s.processes with freed := [] } i (s.processes.table i)) j).pageDirectory =
      (inSlot (cleanup { s.processes with freed := [] } i (s.processes.table i)) k).pageDirectory at same
    rw [cleaned.slot awayj, cleaned.slot awayk] at same
    exact h.apart j k oldj oldk same
  · change Users img (pagingFreeDirectory s.tables (inSlot s.processes i).pageDirectory) (userDirs (cleanup _ _ _)) _
    rw [dirs]
    exact (h.users.free ⟨i, user, rfl⟩ (h.current_ne user other)).1

theorem Populated.retable (h : Populated img s) {tables : PageTables} (current : tables.current = s.tables.current)
    (users : Users img tables (userDirs s.processes) fun _ => False) :
    Populated img { s with tables := tables } :=
  ⟨h.inv, current.trans h.synced, h.here, h.idle, h.only, h.apart, users⟩

theorem Populated.fault (h : Populated img s) {i : Nat} (user : User s.processes i)
    (here : s.processes.table i = s.processes.current) {cr2 : Nat} (errorCode : Nat)
    (low : USER_CODE_BASE + 256 * 1024 ≤ cr2) (high : cr2 < USER_STACK_BASE)
    (absent : frameAt s.tables (inSlot s.processes i).pageDirectory (cr2 / PAGE_SIZE) = none)
    (given : (s.pageFaultHandler cr2 errorCode).tables.refused = s.tables.refused) :
    Populated img (s.pageFaultHandler cr2 errorCode) := by
  have page : (cr2 &&& 0xFFFFF000) / PAGE_SIZE = cr2 / PAGE_SIZE := by
    rw [and_frame]
    simp only [USER_STACK_BASE, PAGE_SIZE] at *
    omega
  have dir : (inSlot s.processes i).pageDirectory ∈ userDirs s.processes := ⟨i, user, rfl⟩
  revert given
  simp only [Kernel.pageFaultHandler]
  split
  next accepted =>
    by_cases none : s.tables.allocPage.2 = 0
    · rw [if_pos none]
      intro given
      have more : s.tables.allocPage.1.refused = s.tables.refused + 1 := if_pos none
      simp only [more] at given
      omega
    · rw [if_neg none]
      intro given
      have first := refused_le_allocPage s.tables
      have second := refused_le_mapUserCode s.tables.allocPage.1
        (s.processes.pcb s.processes.current).pageDirectory (cr2 &&& 0xFFFFF000) s.tables.allocPage.2 PAGE_SIZE
      have given1 : s.tables.allocPage.1.refused = s.tables.refused := by
        simp only [] at given
        omega
      obtain ⟨-, loose, -, taken⟩ := h.users.allocPage given1
      rw [inSlot, here] at absent dir
      refine h.retable rfl (taken.mapUserCode loose dir ?_ ?_ ?_ (given.trans given1.symm))
      · rw [page]
        simp only [USER_CODE_BASE, PAGE_SIZE] at *
        omega
      · refine Nat.lt_of_le_of_lt Nat.and_le_left (high.trans (by decide))
      · rw [page]
        exact absent
  next => exact fun _ => h

end Step

end Wittche.Process
