import Mathlib.Order.Interval.Finset.Nat
import Wittche.Paging.UserAccess
import Wittche.Process.UserMode

/-! Runs of user mode processes: they are made, they fault on pages they do not have yet, they
are scheduled and killed. -/

namespace Wittche.Process
open Bytes CString Heap Pmm Paging Execution

section Create

variable {img : Image} {s : Kernel}

theorem enterProcess_result (s : Processes) (p : Nat) :
    (enterProcess s p).2 = 0 ∨ (enterProcess s p).2 = (s.pcb p).pid := by
  rw [enterProcess]
  split
  · exact Or.inr rfl
  · exact Or.inl rfl

theorem finishProcess_result (s : Processes) (p : Nat) (name : CStr) (entry : Nat) (stackSize : Word) :
    (finishProcess s p name entry stackSize).2 = 0 ∨ (finishProcess s p name entry stackSize).2 = s.nextPid := by
  rw [finishProcess, Processes.kmalloc]
  by_cases none : (Heap.kmalloc (initPcb s p name stackSize).heap SIZEOF_MESSAGE_QUEUE).2 = 0
  · exact Or.inl (congrArg Prod.snd (if_pos none))
  · simp only [if_neg none]
    refine (enterProcess_result _ _).imp_right fun same => same.trans ?_
    simp [startProcess, Processes.pushEntry, Processes.setQueue, initPcb, Processes.setPcb]

theorem processCreate_result (s : Processes) (name : CStr) (entry : Nat) (stackSize : Word) :
    (processCreate s name entry stackSize).2 = 0 ∨ (processCreate s name entry stackSize).2 = s.nextPid := by
  rw [processCreate]
  by_cases full : MAX_PROCESSES ≤ s.count
  · exact Or.inl (congrArg Prod.snd (if_pos full))
  rw [if_neg full]
  have first : (s.kmalloc SIZEOF_PROCESS).1.nextPid = s.nextPid := rfl
  generalize s.kmalloc SIZEOF_PROCESS = r at first ⊢
  obtain ⟨s1, p⟩ := r
  simp only [] at first ⊢
  by_cases none : p = 0
  · rw [if_pos none]
    exact Or.inl rfl
  rw [if_neg none]
  have second : (s1.kmalloc stackSize).1.nextPid = s1.nextPid := rfl
  generalize s1.kmalloc stackSize = r at second ⊢
  obtain ⟨s2, base⟩ := r
  simp only [] at second ⊢
  by_cases none' : base = 0
  · rw [if_pos none']
    exact Or.inl rfl
  rw [if_neg none', ← first, ← second]
  exact finishProcess_result _ p name entry stackSize

/-- The fields of a user process on the directory `dir`. -/
def inUserMode (x : Pcb) (dir priority : Nat) : Pcb :=
  { x with
    isUserMode := 1
    pageDirectory := dir
    userStack := USER_STACK_BASE
    priority := clampPriority priority
    cpuState := { x.cpuState with eip := USER_CODE_BASE, cs := 0x1B, ds := 0x23, es := 0x23, fs := 0x23, gs := 0x23,
                                  ss := 0x23 } }

theorem inUserMode_fields (x : Pcb) (dir priority : Nat) : SameProcess x (inUserMode x dir priority) ∧
    (inUserMode x dir priority).state = x.state ∧ (inUserMode x dir priority).priority ≤ 255 ∧
    (inUserMode x dir priority).isUserMode ≠ 0 ∧ (inUserMode x dir priority).pageDirectory = dir := by
  have clamped : clampPriority priority ≤ 255 := by
    rw [clampPriority]
    split <;> omega
  exact ⟨⟨rfl, rfl, rfl⟩, rfl, clamped, Nat.one_ne_zero, rfl⟩

theorem fillUser_pages {p : Nat} (pid : Nat) (code : Nat → Nat) (priority : Nat) (some : s.tables.allocPage.2 ≠ 0)
    (some' : (pagingCreateUserDirectory img s.tables.allocPage.1).2 ≠ 0)
    (some'' : (pagingCreateUserDirectory img s.tables.allocPage.1).1.allocPage.2 ≠ 0) :
    Kernel.fillUser img s p pid code priority =
      (⟨s.processes.setPcb p (inUserMode (s.processes.pcb p) (newSpace img s.tables code).2 priority),
        (newSpace img s.tables code).1⟩, pid) := by
  let dir := (pagingCreateUserDirectory img s.tables.allocPage.1).2
  let user := s.processes.setPcb p { s.processes.pcb p with isUserMode := 1 }
  have result : Kernel.fillUser img s p pid code priority =
      Kernel.mapUser ⟨user.setPcb p { user.pcb p with pageDirectory := dir },
        (pagingCreateUserDirectory img s.tables.allocPage.1).1⟩ p pid dir s.tables.allocPage.2 code priority :=
    (if_neg some).trans (if_neg some')
  have mapped : Kernel.mapUser ⟨user.setPcb p { user.pcb p with pageDirectory := dir },
        (pagingCreateUserDirectory img s.tables.allocPage.1).1⟩ p pid dir s.tables.allocPage.2 code priority =
      (Kernel.enterUserMode ⟨user.setPcb p { user.pcb p with pageDirectory := dir },
        (newSpace img s.tables code).1⟩ p priority, pid) := if_neg some''
  refine (result.trans mapped).trans (congrArg (·, pid) ?_)
  simp only [Kernel.enterUserMode, Kernel.setPcb, Processes.setPcb, user, Function.update_idem, Function.update_self]
  rfl

theorem fillUser_eq {p : Nat} (pid : Nat) (code : Nat → Nat) (priority : Nat) (some : s.tables.allocPage.2 ≠ 0)
    (some' : (pagingCreateUserDirectory img s.tables.allocPage.1).2 ≠ 0)
    (some'' : (pagingCreateUserDirectory img s.tables.allocPage.1).1.allocPage.2 ≠ 0) :
    ∃ x : Pcb, SameProcess (s.processes.pcb p) x ∧ x.state = (s.processes.pcb p).state ∧ x.priority ≤ 255 ∧
      x.isUserMode ≠ 0 ∧ x.pageDirectory = (newSpace img s.tables code).2 ∧
      Kernel.fillUser img s p pid code priority =
        (⟨s.processes.setPcb p x, (newSpace img s.tables code).1⟩, pid) := by
  obtain ⟨process, state, low, user, space⟩ :=
    inUserMode_fields (s.processes.pcb p) (newSpace img s.tables code).2 priority
  exact ⟨_, process, state, low, user, space, fillUser_pages pid code priority some some' some''⟩

theorem processCreateUserMode_made {wrapper pid : Nat} {name : CStr} {stackSize : Word} {t : Processes}
    (made : processCreate s.processes name wrapper stackSize = (t, pid)) (named : pid ≠ 0) (there : t.processGet pid ≠ 0)
    (code : Nat → Nat) (priority : Nat) : s.processCreateUserMode img wrapper name code stackSize priority =
      Kernel.fillUser img ⟨t, s.tables⟩ (t.processGet pid) pid code priority := by
  rw [Kernel.processCreateUserMode, made]
  exact (if_neg named).trans (if_neg there)

theorem fillUser_made {p pid : Nat} {code : Nat → Nat} {priority : Nat}
    (made : (Kernel.fillUser img s p pid code priority).2 ≠ 0) :
    s.tables.allocPage.2 ≠ 0 ∧ (pagingCreateUserDirectory img s.tables.allocPage.1).2 ≠ 0 ∧
      (pagingCreateUserDirectory img s.tables.allocPage.1).1.allocPage.2 ≠ 0 := by
  have some : s.tables.allocPage.2 ≠ 0 := fun none => made (congrArg Prod.snd (if_pos none))
  have some' : (pagingCreateUserDirectory img s.tables.allocPage.1).2 ≠ 0 := fun none =>
    made ((congrArg Prod.snd (if_neg some)).trans (congrArg Prod.snd (if_pos none)))
  refine ⟨some, some', fun none => made ?_⟩
  exact (congrArg Prod.snd (if_neg some)).trans
    ((congrArg Prod.snd (if_neg some')).trans (congrArg Prod.snd (if_pos none)))

/-- A new user process in slot `i`, on the directory `dir`. -/
structure Joined (s t : Processes) (i dir : Nat) : Prop where
  free : ¬Used s i
  zero : i ≠ 0
  used : ∀ j, Used t j ↔ j = i ∨ Used s j
  seat : ∀ j, Used s j → t.table j = s.table j
  slot : ∀ j, Used s j → inSlot t j = inSlot s j
  mode : (inSlot t i).isUserMode ≠ 0
  space : (inSlot t i).pageDirectory = dir

section Joined

variable {p t : Processes} {i dir : Nat}

theorem Joined.user (h : Joined p t i dir) (j : Nat) : User t j ↔ j = i ∨ User p j := by
  rw [User, User, h.used]
  constructor
  · rintro ⟨same | used, zero, mode⟩
    · exact Or.inl same
    · rw [h.slot j used] at mode
      exact Or.inr ⟨used, zero, mode⟩
  · rintro (rfl | ⟨used, zero, mode⟩)
    · exact ⟨Or.inl rfl, h.zero, h.mode⟩
    · exact ⟨Or.inr used, zero, by rwa [h.slot j used]⟩

theorem Joined.userDirs (h : Joined p t i dir) : userDirs t = insert dir (userDirs p) := by
  ext d
  constructor
  · rintro ⟨j, user, rfl⟩
    rcases (h.user j).mp user with rfl | old
    · exact Or.inl h.space
    · exact Or.inr ⟨j, old, by rw [h.slot j old.1]⟩
  · rintro (rfl | ⟨j, old, rfl⟩)
    · exact ⟨i, (h.user i).mpr (Or.inl rfl), h.space⟩
    · exact ⟨j, (h.user j).mpr (Or.inr old), by rw [h.slot j old.1]⟩

theorem Populated.join (h : Populated img s) (joined : Joined s.processes t i dir)
    (inv : ∃ n ≤ 2 ^ 32, t.nextPid = n % 2 ^ 32 ∧ Inv (t.renumber n)) (current : t.current = s.processes.current)
    (directory : t.directory = s.processes.directory) {tables : PageTables}
    (synced : tables.current = s.tables.current) (new : dir ∉ Process.userDirs s.processes)
    (users : Users img tables (insert dir (Process.userDirs s.processes)) fun _ => False) :
    Populated img ⟨t, tables⟩ := by
  obtain ⟨n, le, number, inv⟩ := inv
  obtain ⟨m, -, -, old⟩ := h.inv
  have used0 : Used s.processes 0 := old.slots.seats.used_zero
  refine ⟨⟨n, le, number, inv⟩, ?_, ?_, ?_, fun j used zero => ?_, fun j k userj userk same => ?_, ?_⟩
  · rw [synced, directory, h.synced]
  · obtain ⟨c, used, mine⟩ := old.states.current
    have used' : Used s.processes c := used
    have mine' : s.processes.table c = s.processes.current := mine
    have slot := joined.slot c used'
    rw [inSlot, inSlot, joined.seat c used', mine', ← current] at slot
    rw [directory, slot, current]
    exact h.here
  · rw [joined.slot 0 used0]
    exact h.idle
  · rcases (joined.used j).mp used with rfl | used'
    · exact joined.mode
    · rw [joined.slot j used']
      exact h.only j used' zero
  · rcases (joined.user j).mp userj with rfl | oldj
    · rcases (joined.user k).mp userk with rfl | oldk
      · rfl
      · rw [joined.space, joined.slot k oldk.1] at same
        exact absurd ⟨k, oldk, same.symm⟩ new
    · rcases (joined.user k).mp userk with rfl | oldk
      · rw [joined.space, joined.slot j oldj.1] at same
        exact absurd ⟨j, oldj, same⟩ new
      · rw [joined.slot j oldj.1, joined.slot k oldk.1] at same
        exact h.apart j k oldj oldk same
  · rw [joined.userDirs]
    exact users

end Joined

theorem Born.joined {s t : Processes} {l l' : List Segments.Seg} {i p base q : Nat} (born : Born s t l l' i p base q)
    (slots : Slots s) (blocks : Blocks s l) {x : Pcb} (user : x.isUserMode ≠ 0) :
    Joined s (t.setPcb p x) i x.pageDirectory := by
  have here : (t.setPcb p x).table i = p := (congrFun born.table i).trans (Function.update_self ..)
  have there : ∀ {j}, j ≠ i → (t.setPcb p x).table j = s.table j := fun {j} other =>
    (congrFun born.table j).trans (Function.update_of_ne other ..)
  have free : ¬Used s i := fun used => used.2 born.free.2
  have away : ∀ {j}, Used s j → j ≠ i := fun {j} used same => free (same ▸ used)
  have mine : inSlot (t.setPcb p x) i = x := by rw [inSlot, here, setPcb_self]
  refine ⟨free, (away slots.seats.used_zero).symm, fun j => ?_, fun j used => there (away used), fun j used => ?_, ?_, ?_⟩
  · rw [Used, Used]
    by_cases same : j = i
    · subst same
      exact iff_of_true ⟨born.free.1, by rw [here]; exact born.nonzero.1⟩ (Or.inl rfl)
    · rw [there same]
      exact ⟨Or.inr, fun used => used.resolve_left same⟩
  · have other : s.table j ≠ p := fun same => born.fresh.1 (same ▸ blocks.pcb_live used)
    rw [inSlot, inSlot, there (away used), setPcb_other t other, born.pcbs _ other]
  · rw [mine]
    exact user
  · rw [mine]

theorem Populated.born (h : Populated img s) {wrapper : Nat} {name : CStr} {stackSize : Word}
    (fits : StackFits stackSize) (pid : (processCreate s.processes name wrapper stackSize).2 ≠ 0) :
    ∃ l t l' i p base q, Inv s.processes ∧ Blocks s.processes l ∧ s.processes.nextPid < 2 ^ 32 ∧
      s.processes.nextPid ≠ 0 ∧ t.nextPid = (s.processes.nextPid + 1) % 2 ^ 32 ∧
      Born s.processes (t.renumber (s.processes.nextPid + 1)) l l' i p base q ∧
      ∀ code priority, s.processCreateUserMode img wrapper name code stackSize priority =
        Kernel.fillUser img ⟨t, s.tables⟩ p s.processes.nextPid code priority := by
  obtain ⟨n, le, number, inv⟩ := h.inv
  -- a pid that is not 0 says that the counter has not wrapped
  have small : n < 2 ^ 32 := by
    rcases processCreate_result s.processes name wrapper stackSize with none | next
    · exact absurd none pid
    · rw [next, number] at pid
      by_contra large
      exact pid (by rw [show n = 2 ^ 32 by omega, Nat.mod_self])
  have same : s.processes.renumber n = s.processes := by
    rw [Nat.mod_eq_of_lt small] at number
    rw [Processes.renumber, ← number]
  rw [same] at inv
  obtain ⟨l, blocks⟩ := inv.blocks
  rcases processCreate_wrap inv.slots.seats blocks name wrapper fits with
    ⟨t, l', n', result, -⟩ | ⟨t, l', i, p, base, q, result, next, born⟩
  · rw [result] at pid
    exact absurd rfl pid
  have inv' := (born.turnover inv.slots.seats blocks).inv inv blocks
  have seat : t.table i = p := (congrFun born.table i).trans (Function.update_self ..)
  have used : Used (t.renumber (s.processes.nextPid + 1)) i :=
    ⟨born.free.1, fun none => born.nonzero.1 (seat.symm.trans none)⟩
  have found : t.processGet s.processes.nextPid = p := by
    have get := inv'.slots.processGet_pid used
    have slot : inSlot (t.renumber (s.processes.nextPid + 1)) i = t.pcb p := congrArg t.pcb seat
    have number : (t.pcb p).pid = s.processes.nextPid := born.pid
    rw [slot, number] at get
    exact get.trans seat
  have nonzero : s.processes.nextPid ≠ 0 := by
    rw [result] at pid
    exact pid
  refine ⟨l, t, l', i, p, base, q, inv, blocks, number ▸ Nat.mod_lt _ (by decide), nonzero, next, born,
    fun code priority => ?_⟩
  have there : t.processGet s.processes.nextPid ≠ 0 := found ▸ born.nonzero.1
  rw [processCreateUserMode_made result nonzero there, found]

theorem Populated.create (h : Populated img s) {wrapper : Nat} {name : CStr} {code : Nat → Nat} {stackSize : Word}
    {priority : Nat} (fits : StackFits stackSize)
    (made : (s.processCreateUserMode img wrapper name code stackSize priority).2 ≠ 0)
    (given : (s.processCreateUserMode img wrapper name code stackSize priority).1.tables.refused = s.tables.refused) :
    Populated img (s.processCreateUserMode img wrapper name code stackSize priority).1 := by
  have pid : (processCreate s.processes name wrapper stackSize).2 ≠ 0 := fun none =>
    made (congrArg Prod.snd (if_pos none))
  obtain ⟨l, t, l', i, p, base, q, inv, blocks, small, -, next, born, filled⟩ := h.born fits pid
  rw [filled] at made given ⊢
  obtain ⟨some, some', some''⟩ := fillUser_made made
  obtain ⟨x, process, state, priority255, user, space, done⟩ :=
    fillUser_eq (p := p) s.processes.nextPid code priority some some' some''
  rw [done] at given ⊢
  obtain ⟨new, current, users, -⟩ := newSpace_users h.users code given
  obtain ⟨free, zero, occupied, seats, slots, mode, own⟩ := born.joined inv.slots blocks user
  have joined : Joined s.processes (t.setPcb p x) i x.pageDirectory :=
    ⟨free, zero, occupied, seats, slots, mode, own⟩
  have inv' := (born.turnover inv.slots.seats blocks).inv inv blocks
  have calm := calm_setPcb (s := t.renumber (s.processes.nextPid + 1)) process (fun _ => priority255) (Or.inl state)
  rw [← space] at new users
  exact h.join joined ⟨s.processes.nextPid + 1, by omega, next, inv'.calm calm⟩ born.current born.directory current
    new users

theorem newSpace_room (img : Image) {n : Nat} {t : PageTables} (code : Nat → Nat) (room : Room (n + 5) t) :
    t.allocPage.2 ≠ 0 ∧ (pagingCreateUserDirectory img t.allocPage.1).2 ≠ 0 ∧
      (pagingCreateUserDirectory img t.allocPage.1).1.allocPage.2 ≠ 0 ∧
      (newSpace img t code).1.refused = t.refused ∧ Room n (newSpace img t code).1 := by
  obtain ⟨some, given1, room1⟩ := room.allocPage
  obtain ⟨some', given2, room2⟩ := room1.create img
  obtain ⟨some'', given3, room3⟩ := room2.allocPage
  have left : Room (n + 2) { (pagingCreateUserDirectory img t.allocPage.1).1.allocPage.1 with
      entries := Function.update (pagingCreateUserDirectory img t.allocPage.1).1.allocPage.1.entries
        (pagingCreateUserDirectory img t.allocPage.1).1.allocPage.2 code } := room3
  obtain ⟨given4, room4⟩ := left.mapUserCode (pagingCreateUserDirectory img t.allocPage.1).2 USER_CODE_BASE
    (pagingCreateUserDirectory img t.allocPage.1).1.allocPage.2
  obtain ⟨given5, room5⟩ := room4.mapUserCode (pagingCreateUserDirectory img t.allocPage.1).2
    (USER_STACK_BASE - PAGE_SIZE) t.allocPage.2
  exact ⟨some, some', some'', given5.trans (given4.trans (given3.trans (given2.trans given1))), room5⟩

theorem processCreateUserMode_room (img : Image) {wrapper pid n : Nat} {name : CStr} {stackSize : Word} {t : Processes}
    (made : processCreate s.processes name wrapper stackSize = (t, pid)) (named : pid ≠ 0) (there : t.processGet pid ≠ 0)
    (room : Room (n + 5) s.tables) (code : Nat → Nat) (priority : Nat) :
    s.processCreateUserMode img wrapper name code stackSize priority =
        (⟨t.setPcb (t.processGet pid) (inUserMode (t.pcb (t.processGet pid)) (newSpace img s.tables code).2 priority),
          (newSpace img s.tables code).1⟩, pid) ∧
      (newSpace img s.tables code).1.refused = s.tables.refused ∧ Room n (newSpace img s.tables code).1 := by
  obtain ⟨some, some', some'', given, left⟩ := newSpace_room img code room
  have filled := fillUser_pages (s := ⟨t, s.tables⟩) (p := t.processGet pid) pid code priority some some' some''
  exact ⟨(processCreateUserMode_made made named there code priority).trans filled, given, left⟩

end Create

section Boot

variable {img : Image}

/-- `pmm_init`, `paging_init` and `process_init`, with `entry` the address of `idle_task`. -/
def Kernel.boot (img : Image) (s : Kernel) (entry : Nat) : Kernel :=
  let tables := pagingInit img { s.tables with pmm := pmmInit s.tables.pmm }
  ⟨processInit { s.processes with directory := tables.current } entry, tables⟩

theorem processInit_directory {s : Processes} (room : (Heap.kmalloc s.heap SIZEOF_PROCESS).2 ≠ 0) (entry : Nat) :
    (processInit s entry).directory = s.directory ∧
      ((processInit s entry).pcb (processInit s entry).current).pageDirectory = s.directory := by
  have result : ∃ t p base, processInit s entry = startIdle t p base entry ∧ t.directory = s.directory :=
    ⟨_, _, _, if_neg room, rfl⟩
  obtain ⟨t, p, base, result, same⟩ := result
  obtain ⟨-, -, -, current, -, -, directory, -⟩ := startIdle_fields t p base entry
  obtain ⟨-, -, -, -, own⟩ := startIdle_pcb t p base entry
  rw [result, ← same, current]
  exact ⟨directory, own⟩

theorem Kernel.boot_processes (img : Image) (s : Kernel) (entry : Nat) :
    (s.boot img entry).processes = processInit { s.processes with directory := img.kernelDirectory } entry := by
  obtain ⟨r, -, result⟩ := pagingInit_mapped img { s.tables with pmm := pmmInit s.tables.pmm }
  rw [Kernel.boot, result]

theorem Kernel.boot_pmm (img : Image) (s : Kernel) (entry : Nat) :
    (s.boot img entry).tables.pmm = pmmInit s.tables.pmm := by
  obtain ⟨r, mapped, result⟩ := pagingInit_mapped img { s.tables with pmm := pmmInit s.tables.pmm }
  rw [Kernel.boot, result]
  exact mapped.pmm

theorem Kernel.boot_room (img : Image) (s : Kernel) (entry : Nat) {n : Nat} (few : n ≤ TOTAL_PAGES - KERNEL_END / PAGE_SIZE) :
    Room n (s.boot img entry).tables := by
  rw [Room, Kernel.boot_pmm]
  refine ⟨pmmInit_kept _, ?_⟩
  rw [← freePages, pmmInit_freePages]
  exact few

theorem boot_populated (img : Image) {s : Kernel} (boot : Boot s.processes) (entry : Nat) :
    Populated img (s.boot img entry) := by
  have boot' : Boot { s.processes with
      directory := (pagingInit img { s.tables with pmm := pmmInit s.tables.pmm }).current } :=
    ⟨boot.nextPid, boot.tiled, boot.room⟩
  have current : (pagingInit img { s.tables with pmm := pmmInit s.tables.pmm }).current = img.kernelDirectory := by
    obtain ⟨r, -, result⟩ := pagingInit_mapped img { s.tables with pmm := pmmInit s.tables.pmm }
    rw [result]
  obtain ⟨l, p, base, started⟩ := processInit_started boot' entry
  obtain ⟨directory, space⟩ := processInit_directory boot'.room entry
  have users := pagingInit_users img (s := { s.tables with pmm := pmmInit s.tables.pmm }) (p := s.tables.pmm) rfl
  rw [Kernel.boot]
  revert started directory space users current
  generalize processInit _ entry = t
  generalize pagingInit img _ = tables
  intro current started directory space users
  have none : ∀ i, Used t i → i = 0 := fun i used => by_contra fun other => used.2 (started.empty i used.1 other)
  have nobody : userDirs t = ∅ := by
    ext d
    refine iff_of_false ?_ id
    rintro ⟨i, user, -⟩
    exact user.2.1 (none i user.1)
  refine ⟨⟨1, by decide, started.nextPid, ?_⟩, directory.symm, directory.trans space.symm, ?_,
    fun i used other => absurd (none i used) other, fun i j user _ _ => absurd (none i user.1) user.2.1, ?_⟩
  · have same : t.renumber 1 = t := by rw [Processes.renumber, ← started.nextPid]
    rw [same]
    exact started.inv
  · rw [inSlot, started.slot, ← started.current, space, current]
  · rw [nobody]
    exact users

end Boot

inductive UserOp
  | processCreateUserMode (name : CStr) (code : Nat → Nat) (stackSize : Word) (priority : Nat)
  | pageFaultHandler (cr2 errorCode : Nat)
  | processKill (pid : Nat)
  | processSetPriority (pid priority : Nat)
  | processSchedule

def Kernel.step (img : Image) (wrapper : Nat) (s : Kernel) : UserOp → Kernel
  | .processCreateUserMode name code stackSize priority =>
    (s.processCreateUserMode img wrapper name code stackSize priority).1
  | .pageFaultHandler cr2 errorCode => s.pageFaultHandler cr2 errorCode
  | .processKill pid => s.processKill pid
  | .processSetPriority pid priority => s.processSetPriority pid priority
  | .processSchedule => s.processSchedule

/-- No page is refused, and the calls are those of a run of user mode processes: a creation
succeeds, a page fault is at an address of the current user process that is not present and
in the region for its stack and heap, and a user process is killed by another. -/
def Kernel.permits (img : Image) (wrapper : Nat) (s : Kernel) : UserOp → Prop
  | .processCreateUserMode name code stackSize priority =>
    (s.processCreateUserMode img wrapper name code stackSize priority).2 ≠ 0 ∧
      (s.processCreateUserMode img wrapper name code stackSize priority).1.tables.refused = s.tables.refused
  | .pageFaultHandler cr2 errorCode =>
    (∃ i, User s.processes i ∧ s.processes.table i = s.processes.current ∧
      frameAt s.tables (inSlot s.processes i).pageDirectory (cr2 / PAGE_SIZE) = none) ∧
      USER_CODE_BASE + 256 * 1024 ≤ cr2 ∧ cr2 < USER_STACK_BASE ∧
      (s.pageFaultHandler cr2 errorCode).tables.refused = s.tables.refused
  | .processKill pid =>
    ∃ i, User s.processes i ∧ (inSlot s.processes i).pid = pid ∧ s.processes.table i ≠ s.processes.current
  | _ => True

/-- New processes have room on their kernel stacks. -/
def UserOp.fits : UserOp → Prop
  | .processCreateUserMode _ _ stackSize _ => StackFits stackSize
  | _ => True

def Kernel.allowed (img : Image) (wrapper : Nat) (s : Kernel) (op : UserOp) : Prop :=
  s.permits img wrapper op ∧ op.fits

section Runs

variable {img : Image} {s : Kernel}

theorem Populated.step (h : Populated img s) {wrapper : Nat} {op : UserOp} (ok : s.allowed img wrapper op) :
    Populated img (s.step img wrapper op) := by
  obtain ⟨permitted, fits⟩ := ok
  cases op with
  | processCreateUserMode name code stackSize priority => exact h.create fits permitted.1 permitted.2
  | pageFaultHandler cr2 errorCode =>
    obtain ⟨⟨i, user, here, absent⟩, low, high, given⟩ := permitted
    exact h.fault user here errorCode low high absent given
  | processKill pid =>
    obtain ⟨i, user, rfl, other⟩ := permitted
    exact h.kill user other
  | processSetPriority pid priority => exact h.setPriority pid priority
  | processSchedule => exact h.schedule

/-- The pages of the process in slot `i`: its directory, the tables behind the entries 4 to
1023 of it, and the pages that these tables map. -/
def pagesOf (s : Kernel) (i : Nat) : List Nat := directoryPages s.tables (inSlot s.processes i).pageDirectory

/-- The user processes own the pages behind the kernel that are in use, each its own, and
`process_kill` gives back the pages of one process. -/
structure UserPagesLaw (usedPages : Word) (s : Kernel) : Prop where
  owned : ∀ a, Freeable a → (bitmapTest s.tables.pmm (a / PAGE_SIZE) = true ↔
    ∃ i, User s.processes i ∧ a ∈ pagesOf s i)
  freeable : ∀ i a, User s.processes i → a ∈ pagesOf s i → Freeable a
  once : ∀ i, User s.processes i → (pagesOf s i).Nodup
  apart : ∀ i j a, User s.processes i → User s.processes j → a ∈ pagesOf s i → a ∈ pagesOf s j → i = j
  kill : ∀ i, User s.processes i → s.processes.table i ≠ s.processes.current →
    (s.processKill (inSlot s.processes i).pid).tables.pmm = (pagesOf s i).foldl pmmFreePage s.tables.pmm ∧
      (s.processKill (inSlot s.processes i).pid).tables.pmm.usedPages.toNat + (pagesOf s i).length =
        s.tables.pmm.usedPages.toNat ∧
      ∀ a, Freeable a → (bitmapTest (s.processKill (inSlot s.processes i).pid).tables.pmm (a / PAGE_SIZE) = true ↔
        bitmapTest s.tables.pmm (a / PAGE_SIZE) = true ∧ a ∉ pagesOf s i)
  restored : (∀ i, ¬User s.processes i) → s.tables.pmm.usedPages = usedPages

theorem Populated.mem_pagesOf (h : Populated img s) {i a : Nat} (user : User s.processes i) :
    a ∈ pagesOf s i ↔ ∃ r, Held s.tables (userDirs s.processes) ((inSlot s.processes i).pageDirectory, r) a := by
  have dir : (inSlot s.processes i).pageDirectory ∈ userDirs s.processes := ⟨i, user, rfl⟩
  rw [pagesOf, h.users.mem_directoryPages dir]
  exact exists_congr fun r => ⟨fun there => ⟨dir, there⟩, fun held => held.2⟩

theorem Populated.owned (h : Populated img s) {a : Nat} (ok : Freeable a) :
    bitmapTest s.tables.pmm (a / PAGE_SIZE) = true ↔ ∃ i, User s.processes i ∧ a ∈ pagesOf s i := by
  rw [h.users.ledger.iff a ok, or_false]
  constructor
  · rintro ⟨⟨d, r⟩, ⟨i, user, rfl⟩, there⟩
    exact ⟨i, user, (h.mem_pagesOf user).mpr ⟨r, ⟨i, user, rfl⟩, there⟩⟩
  · rintro ⟨i, user, mine⟩
    obtain ⟨r, held⟩ := (h.mem_pagesOf user).mp mine
    exact ⟨_, held⟩

theorem Populated.law (h : Populated img s) (p : PageMap) : UserPagesLaw (pmmInit p).usedPages s := by
  have freeable : ∀ i a, User s.processes i → a ∈ pagesOf s i → Freeable a := by
    intro i a user mine
    obtain ⟨r, held⟩ := (h.mem_pagesOf user).mp mine
    exact h.users.within _ a held
  refine ⟨fun a ok => h.owned ok, freeable, fun i user => h.users.directoryPages_nodup ⟨i, user, rfl⟩,
    fun i j a useri userj minei minej => ?_, fun i user other => ?_, fun nobody => ?_⟩
  · obtain ⟨r, heldi⟩ := (h.mem_pagesOf useri).mp minei
    obtain ⟨r', heldj⟩ := (h.mem_pagesOf userj).mp minej
    exact h.apart i j useri userj (congrArg Prod.fst (h.users.exclusive _ _ a heldi heldj))
  · have dir : (inSlot s.processes i).pageDirectory ∈ userDirs s.processes := ⟨i, user, rfl⟩
    have calls := freeDirectory_pages (s := s.tables) (h.space_ne_zero user.1)
    rw [h.kill_eq user other]
    refine ⟨calls, ?_, fun a ok => ?_⟩
    · rw [calls]
      refine h.users.spaces.kept.usedPages_freePages (h.users.directoryPages_nodup dir) fun a mine => ?_
      have ok := freeable i a user mine
      exact ⟨ok, (h.owned ok).mpr ⟨i, user, mine⟩⟩
    · rw [(h.users.free dir (h.current_ne user other)).2 a ok, pagesOf, h.users.mem_directoryPages dir, not_exists]
  · refine h.users.spaces.kept.counted.usedPages_congr (pmmInit_kept p).counted fun k inside => ?_
    rw [pmmInit_test p inside]
    by_cases low : k < KERNEL_END / PAGE_SIZE
    · rw [h.users.spaces.kept.kernel k low, decide_eq_true low]
    · have ok : Freeable (k * PAGE_SIZE) := by
        simp only [Freeable, KERNEL_END, MEMORY_SIZE, TOTAL_PAGES, PAGE_SIZE] at *
        omega
      have page : k * PAGE_SIZE / PAGE_SIZE = k := Nat.mul_div_cancel k (by decide)
      have free : ¬bitmapTest s.tables.pmm (k * PAGE_SIZE / PAGE_SIZE) = true := by
        rw [h.owned ok]
        rintro ⟨i, user, -⟩
        exact nobody i user
      rw [page, Bool.not_eq_true] at free
      rw [free, decide_eq_false low]

end Runs

/-- In every run of user mode processes the pages in use behind the kernel are the pages of
the processes that are alive. -/
theorem user_runs_keep_pages (img : Image) (wrapper entry : Nat) (s0 s : Kernel) (ops : List UserOp)
    (boot : Boot s0.processes)
    (run : Exec (Kernel.allowed img wrapper) (Kernel.step img wrapper) (s0.boot img entry) ops s) :
    UserPagesLaw (s0.boot img entry).tables.pmm.usedPages s := by
  have populated := run.invariant (fun _ _ h ok => Populated.step h ok) (boot_populated img boot entry)
  rw [Kernel.boot_pmm]
  exact populated.law s0.tables.pmm

theorem boot_processCreate :
    (processCreate (processInit { powerOn with directory := 0x20000 } 0x1000) taskName 0x3000 4096).2 ≠ 0 := by
  decide +kernel

section First

/-- A user process runs and touches its heap, and a second one is made and killed. -/
def firstUsers : List UserOp :=
  [.processCreateUserMode taskName (fun _ => 0) 4096 5, .processSchedule, .pageFaultHandler 0x50000000 6,
    .processCreateUserMode taskName (fun _ => 0) 4096 5, .processKill 2]

def firstUserMade : Processes × Nat :=
  processCreate (processInit { powerOn with directory := placedImage.kernelDirectory } 0x1000) taskName 0x3000 4096

/-- The first user process, of `process_create`, runs in user mode. -/
def runningUser (made : Processes × Nat) : Processes :=
  let p := made.1.processGet made.2
  processSchedule (made.1.setPcb p (inUserMode (made.1.pcb p) 0x201000 5))

def FirstUsers (made second : Processes × Nat) (runs : Processes) : Prop :=
  (made.2 ≠ 0 ∧ made.1.processGet made.2 ≠ 0) ∧
    (runs.table 1 ≠ 0 ∧ runs.table 1 = runs.current ∧ (inSlot runs 1).pageDirectory = 0x201000) ∧
    (second.2 ≠ 0 ∧ second.1.processGet second.2 ≠ 0) ∧
    second.1.table 2 ≠ 0 ∧ second.1.table 2 ≠ second.1.current ∧ (inSlot second.1 2).pid = 2

instance (made second : Processes × Nat) (runs : Processes) : Decidable (FirstUsers made second runs) :=
  inferInstanceAs (Decidable (_ ∧ _))

theorem firstUsers_facts :
    FirstUsers firstUserMade (processCreate (runningUser firstUserMade) taskName 0x3000 4096) (runningUser firstUserMade) := by
  decide +kernel

theorem createUserDirectory_page (img : Image) (t : PageTables) :
    (pagingCreateUserDirectory img t).2 = t.allocPage.2 := by
  simp only [pagingCreateUserDirectory]
  split
  next none => exact none.symm
  next => rfl

theorem boot_newSpace (code : Nat → Nat) :
    (newSpace placedImage (Kernel.boot placedImage ⟨powerOn, blankTables⟩ 0x1000).tables code).2 = 0x201000 := by
  have second : ∀ t : PageTables,
      (newSpace placedImage t code).2 = (pmmAllocPage (pmmAllocPage t.pmm).1).2 := fun t =>
    createUserDirectory_page placedImage t.allocPage.1
  rw [second, Kernel.boot_pmm]
  decide +kernel

theorem pageFaultHandler_room {s : Kernel} {n : Nat} (room : Room (n + 2) s.tables) (cr2 errorCode : Nat) :
    (s.pageFaultHandler cr2 errorCode).tables.refused = s.tables.refused ∧
      Room n (s.pageFaultHandler cr2 errorCode).tables ∧
      (s.pageFaultHandler cr2 errorCode).processes = s.processes := by
  obtain ⟨some, given, left⟩ := room.allocPage
  simp only [Kernel.pageFaultHandler]
  split
  next =>
    obtain ⟨given', left'⟩ := left.mapUserCode (s.processes.pcb s.processes.current).pageDirectory
      (cr2 &&& 0xFFFFF000) s.tables.allocPage.2
    exact ⟨given'.trans given, left', rfl⟩
  next => exact ⟨rfl, ⟨room.1, by have := room.2; omega⟩, rfl⟩

theorem allowed_creation {k : Kernel} {img : Image} {wrapper : Nat} {name : CStr} {code : Nat → Nat} {stackSize : Word}
    {priority : Nat} {r : Kernel × Nat} (result : k.processCreateUserMode img wrapper name code stackSize priority = r)
    (named : r.2 ≠ 0) (given : r.1.tables.refused = k.tables.refused) (fits : StackFits stackSize) :
    k.allowed img wrapper (.processCreateUserMode name code stackSize priority) := by
  subst result
  exact ⟨⟨named, given⟩, fits⟩

theorem Populated.firstUsers_run {k0 : Kernel} (h0 : Populated placedImage k0) (room0 : Room 12 k0.tables)
    (dir : (newSpace placedImage k0.tables fun _ => 0).2 = 0x201000) {made second : Processes × Nat} {runs : Processes}
    (made1 : processCreate k0.processes taskName 0x3000 4096 = made) (scheduled : runs = runningUser made)
    (made2 : processCreate runs taskName 0x3000 4096 = second) (facts : FirstUsers made second runs) :
    Exec (Kernel.allowed placedImage 0x3000) (Kernel.step placedImage 0x3000) k0 firstUsers
      (firstUsers.foldl (Kernel.step placedImage 0x3000) k0) := by
  obtain ⟨t1, n1⟩ := made
  obtain ⟨t4, n4⟩ := second
  obtain ⟨⟨named1, there1⟩, ⟨used1, here, space⟩, ⟨named2, there2⟩, used2, away, pid2⟩ := facts
  have fits : StackFits 4096 := ⟨by decide, by decide⟩
  -- the first process
  obtain ⟨result1, given1, room1⟩ := processCreateUserMode_room placedImage (n := 7) made1 named1 there1 room0 (fun _ => 0) 5
  obtain ⟨-, -, -, vacant⟩ := newSpace_users h0.users (fun _ => 0) given1
  have ok1 := allowed_creation result1 named1 given1 fits
  have h1 := h0.step ok1
  have step1 : k0.step placedImage 0x3000 (.processCreateUserMode taskName (fun _ => 0) 4096 5) = _ :=
    congrArg Prod.fst result1
  generalize run1 : k0.step placedImage 0x3000 (.processCreateUserMode taskName (fun _ => 0) 4096 5) = k1 at *
  rw [dir] at step1 vacant
  -- it is scheduled
  have h2 : Populated placedImage (k1.step placedImage 0x3000 .processSchedule) := h1.step ⟨trivial, trivial⟩
  have step2 : k1.step placedImage 0x3000 .processSchedule =
      ⟨runs, pagingSwitchDirectory (newSpace placedImage k0.tables fun _ => 0).1 runs.directory⟩ := by
    rw [step1, scheduled]
    rfl
  generalize run2 : k1.step placedImage 0x3000 .processSchedule = k2 at *
  have processes2 : k2.processes = runs := congrArg Kernel.processes step2
  have room2 : Room 7 k2.tables := by
    rw [step2]
    exact room1
  -- it touches its heap
  obtain ⟨given3, room3, processes3⟩ := pageFaultHandler_room room2 0x50000000 6
  have ok3 : k2.allowed placedImage 0x3000 (.pageFaultHandler 0x50000000 6) := by
    have used : Used k2.processes 1 := ⟨by decide, by rw [processes2]; exact used1⟩
    refine ⟨⟨⟨1, ⟨used, by decide, h2.only 1 used (by decide)⟩, ?_, ?_⟩, by decide, by decide, given3⟩, trivial⟩
    · rw [processes2]
      exact here
    · rw [step2, space]
      exact vacant _ (by decide) (by decide) (by decide)
  have h3 : Populated placedImage (k2.pageFaultHandler 0x50000000 6) := h2.step ok3
  -- the second process
  have made4 : processCreate (k2.pageFaultHandler 0x50000000 6).processes taskName 0x3000 4096 = (t4, n4) := by
    rw [processes3, processes2, made2]
  generalize run3 : k2.pageFaultHandler 0x50000000 6 = k3 at *
  obtain ⟨result4, given4, -⟩ := processCreateUserMode_room placedImage (n := 0) made4 named2 there2 room3 (fun _ => 0) 5
  have ok4 := allowed_creation result4 named2 given4 fits
  have h4 := h3.step ok4
  have step4 : k3.step placedImage 0x3000 (.processCreateUserMode taskName (fun _ => 0) 4096 5) = _ :=
    congrArg Prod.fst result4
  generalize run4 : k3.step placedImage 0x3000 (.processCreateUserMode taskName (fun _ => 0) 4096 5) = k4 at *
  -- it is killed
  have ok5 : k4.allowed placedImage 0x3000 (.processKill 2) := by
    rw [step4] at h4 ⊢
    have used : Used _ 2 := ⟨by decide, used2⟩
    obtain ⟨process, -, low, -, -⟩ := inUserMode_fields (t4.pcb (t4.processGet n4))
      (newSpace placedImage k3.tables fun _ => 0).2 5
    have slots := sameSlots_setPcb t4 (t4.processGet n4) process fun _ => low
    exact ⟨⟨2, ⟨used, by decide, h4.only 2 used (by decide)⟩, (slots.inSlot 2).pid.trans pid2, away⟩, trivial⟩
  subst run1 run2 run3 run4
  exact .cons ok1 (.cons ⟨trivial, trivial⟩ (.cons ok3 (.cons ok4 (.cons ok5 (.nil _)))))

end First

theorem user_runs_keep_pages_first :
    UserPagesLaw (Kernel.boot placedImage ⟨powerOn, blankTables⟩ 0x1000).tables.pmm.usedPages
      (firstUsers.foldl (Kernel.step placedImage 0x3000) (Kernel.boot placedImage ⟨powerOn, blankTables⟩ 0x1000)) := by
  have made : processCreate (Kernel.boot placedImage ⟨powerOn, blankTables⟩ 0x1000).processes taskName 0x3000 4096 =
      firstUserMade := by
    rw [Kernel.boot_processes]
    rfl
  have populated := boot_populated placedImage (s := ⟨powerOn, blankTables⟩) powerOn_boot 0x1000
  have room := Kernel.boot_room placedImage ⟨powerOn, blankTables⟩ 0x1000 (n := 12) (by decide)
  exact user_runs_keep_pages placedImage 0x3000 0x1000 ⟨powerOn, blankTables⟩ _ firstUsers powerOn_boot
    (populated.firstUsers_run room (boot_newSpace _) made rfl rfl firstUsers_facts)

/-- The processes of the kernel are those of `s`, but for what is set for user mode, and there are
`n` free pages. -/
structure Shadow (n : Nat) (s : Processes) (k : Kernel) : Prop where
  slots : SameSlots s k.processes
  current : k.processes.current = s.current
  room : Room n k.tables

section Shadow

variable {s : Processes} {k : Kernel} {n : Nat}

theorem SameSlots.cleanup {t : Processes} (h : SameSlots s t) (i p : Nat) : SameSlots (cleanup s i p) (cleanup t i p) := by
  rw [cleanup_eq, cleanup_eq, (h.process p).stackBase, (h.process p).msgQueue, h.heap, h.table, h.count]
  exact ⟨rfl, rfl, h.nextPid, h.idle, rfl, h.process, h.priority⟩

theorem Shadow.create (h : Shadow (n + 5) s k) {name : CStr} {wrapper : Nat} {stackSize : Word}
    (made : (processCreate s name wrapper stackSize).2 ≠ 0)
    (found : (processCreate s name wrapper stackSize).1.processGet (processCreate s name wrapper stackSize).2 ≠ 0)
    (img : Image) (code : Nat → Nat) (priority : Nat) :
    (k.processCreateUserMode img wrapper name code stackSize priority).2 ≠ 0 ∧
      (k.processCreateUserMode img wrapper name code stackSize priority).1.tables.refused = k.tables.refused ∧
      Shadow n (processCreate s name wrapper stackSize).1
        (k.processCreateUserMode img wrapper name code stackSize priority).1 ∧
      ((k.processCreateUserMode img wrapper name code stackSize priority).1.processes.pcb
        ((processCreate s name wrapper stackSize).1.processGet (processCreate s name wrapper stackSize).2)).isUserMode ≠ 0 := by
  obtain ⟨h1, h2, h3, p, base, q, i, c⟩ := creates_of_made made
  obtain ⟨slots, same⟩ := h.slots.create c name wrapper
  have current : (processCreate k.processes name wrapper stackSize).1.current = k.processes.current :=
    (c.congr h.slots).current
  have current' : (processCreate s name wrapper stackSize).1.current = s.current := c.current
  generalize processCreate s name wrapper stackSize = r at *
  generalize created : processCreate k.processes name wrapper stackSize = r' at *
  obtain ⟨u, pid⟩ := r
  obtain ⟨t, pid'⟩ := r'
  obtain rfl : pid' = pid := same
  have get : t.processGet pid' = u.processGet pid' := by
    rw [Processes.processGet, Processes.processGet, slots.slotOf, slots.table]
  obtain ⟨done, given, room⟩ := processCreateUserMode_room img created made (get ▸ found) h.room code priority
  obtain ⟨process, -, low, user, -⟩ := inUserMode_fields (t.pcb (t.processGet pid')) (newSpace img k.tables code).2
    priority
  rw [done]
  refine ⟨made, given, ⟨slots.trans (sameSlots_setPcb _ _ process fun _ => low), ?_, room⟩, ?_⟩
  · exact current.trans (h.current.trans current'.symm)
  · dsimp only
    rw [← get, setPcb_self]
    exact user

theorem Shadow.kill (h : Shadow n s k) {pid i : Nat} (named : pid ≠ 0) (found : s.slotOf pid = some i)
    (away : s.table i ≠ s.current) : Shadow n (processKill s pid) (k.processKill pid) := by
  have found' : k.processes.slotOf pid = some i := by rw [h.slots.slotOf, found]
  have away' : k.processes.table i ≠ k.processes.current := by rwa [h.slots.table, h.current]
  have slots : SameSlots s { k.processes with freed := [] } :=
    h.slots.trans ⟨rfl, rfl, rfl, rfl, rfl, fun _ => .refl _, fun _ => id⟩
  rw [processKill_cleanup named found away, Kernel.processKill_other named found' away', h.slots.table]
  refine ⟨slots.cleanup i _, ?_, ?_⟩
  · rw [(cleanup_cleaned ..).current, (cleanup_cleaned ..).current]
    exact h.current
  · dsimp only
    split
    next => exact Room.freeDirectory (s := pagingSwitchDirectory k.tables k.processes.directory) h.room _
    next => exact h.room

end Shadow

def wrappedUser (stackSize : Word) : UserOp := .processCreateUserMode taskName (fun _ => 0) stackSize 5

/-- A user process whose stack size wraps in `kmalloc`, killed again, and four more. -/
def wrappedUsers : List UserOp :=
  [wrappedUser 0xFFFFFFF4, .processKill 1, wrappedUser 4096, wrappedUser 65160, wrappedUser 3904, wrappedUser 4096]

/-- The processes of that run without what is set for user mode. -/
def wrappedAfter (k : Nat) : Processes :=
  (wrappedStack.take k).foldl Processes.step (processInit { powerOn with directory := 0x20000 } 0x11000)

def getsProcess (s : Processes) (stackSize : Word) : Nat :=
  (processCreate s taskName 0x12000 stackSize).1.processGet (processCreate s taskName 0x12000 stackSize).2

def Creatable (s : Processes) (stackSize : Word) : Prop :=
  (processCreate s taskName 0x12000 stackSize).2 ≠ 0 ∧ getsProcess s stackSize ≠ 0

instance (s : Processes) (stackSize : Word) : Decidable (Creatable s stackSize) := inferInstanceAs (Decidable (_ ∧ _))

theorem wrappedAfter_facts :
    Creatable (wrappedAfter 0) 0xFFFFFFF4 ∧ Creatable (wrappedAfter 2) 4096 ∧ Creatable (wrappedAfter 3) 65160 ∧
      Creatable (wrappedAfter 4) 3904 ∧ Creatable (wrappedAfter 5) 4096 ∧
      getsProcess (wrappedAfter 0) 0xFFFFFFF4 = (wrappedAfter 1).table 1 ∧
      (wrappedAfter 1).slotOf 1 = some 1 ∧ (wrappedAfter 1).table 1 ≠ (wrappedAfter 1).current ∧
      getsProcess (wrappedAfter 5) 4096 = (wrappedAfter 6).table 2 ∧ (wrappedAfter 6).table 2 = (wrappedAfter 6).table 4 := by
  decide +kernel

theorem Shadow.wrapped {n : Nat} {s : Processes} {k : Kernel} (h : Shadow (n + 5) s k) {stackSize : Word}
    (gets : Creatable s stackSize) : k.permits placedImage 0x12000 (wrappedUser stackSize) ∧
      Shadow n (s.step (.processCreate taskName 0x12000 stackSize)) (k.step placedImage 0x12000 (wrappedUser stackSize)) ∧
      ((k.step placedImage 0x12000 (wrappedUser stackSize)).processes.pcb (getsProcess s stackSize)).isUserMode ≠ 0 := by
  obtain ⟨made, given, next, user⟩ := h.create gets.1 gets.2 placedImage (fun _ => 0) 5
  exact ⟨⟨made, given⟩, next, user⟩

/-- With any stack sizes two user processes can have the same pages. -/
theorem wrapped_users_share_pages : ¬∀ (img : Image) (wrapper entry : Nat) (s0 s : Kernel) (ops : List UserOp),
    Boot s0.processes → Exec (Kernel.permits img wrapper) (Kernel.step img wrapper) (s0.boot img entry) ops s →
    UserPagesLaw (s0.boot img entry).tables.pmm.usedPages s := by
  intro every
  obtain ⟨gets0, gets2, gets3, gets4, gets5, first, found, away, last, same⟩ := wrappedAfter_facts
  have start : Shadow 25 (wrappedAfter 0) (Kernel.boot placedImage ⟨powerOn, blankTables⟩ 0x11000) := by
    have processes := Kernel.boot_processes placedImage ⟨powerOn, blankTables⟩ 0x11000
    refine ⟨?_, ?_, Kernel.boot_room placedImage _ 0x11000 (by decide)⟩
    · rw [processes]
      exact .refl _
    · rw [processes]
      rfl
  obtain ⟨ok0, shadow1, user1⟩ := start.wrapped (n := 20) gets0
  generalize first1 : Kernel.step placedImage 0x12000 _ (wrappedUser 0xFFFFFFF4) = k1 at shadow1 user1
  have shadow1 : Shadow 20 (wrappedAfter 1) k1 := shadow1
  have kill : k1.permits placedImage 0x12000 (.processKill 1) := by
    obtain ⟨used, named⟩ := slotOf_some ((shadow1.slots.slotOf 1).trans found)
    refine ⟨1, ⟨used, by decide, ?_⟩, named, ?_⟩
    · rw [inSlot, shadow1.slots.table, ← first]
      exact user1
    · rw [shadow1.slots.table, shadow1.current]
      exact away
  have shadow2 : Shadow 20 (wrappedAfter 2) (k1.step placedImage 0x12000 (.processKill 1)) :=
    shadow1.kill (by decide) found away
  obtain ⟨ok2, shadow3, -⟩ := shadow2.wrapped (n := 15) gets2
  obtain ⟨ok3, shadow4, -⟩ := Shadow.wrapped (n := 10) (s := wrappedAfter 3) shadow3 gets3
  obtain ⟨ok4, shadow5, -⟩ := Shadow.wrapped (n := 5) (s := wrappedAfter 4) shadow4 gets4
  obtain ⟨ok5, shadow6, user6⟩ := Shadow.wrapped (n := 0) (s := wrappedAfter 5) shadow5 gets5
  subst first1
  have law := every placedImage 0x12000 0x11000 ⟨powerOn, blankTables⟩ _ wrappedUsers powerOn_boot
    (.cons ok0 (.cons kill (.cons ok2 (.cons ok3 (.cons ok4 (.cons ok5 (.nil _)))))))
  generalize Kernel.step placedImage 0x12000 _ (wrappedUser 4096) = k at shadow6 user6 law
  have slots : SameSlots (wrappedAfter 6) k.processes := shadow6.slots
  rw [last] at user6
  have there : (wrappedAfter 6).table 2 ≠ 0 := last ▸ gets5.2
  have user : ∀ i < MAX_PROCESSES, i ≠ 0 → (wrappedAfter 6).table i = (wrappedAfter 6).table 2 → User k.processes i ∧
      (inSlot k.processes i).pageDirectory ∈ pagesOf k i := by
    intro i lt zero seat
    have table : k.processes.table i = (wrappedAfter 6).table 2 := (congrFun slots.table i).trans seat
    refine ⟨⟨⟨lt, by rw [table]; exact there⟩, zero, by rw [inSlot, table]; exact user6⟩, ?_⟩
    exact List.mem_filterMap.mpr ⟨.directory, by simp [roles], rfl⟩
  obtain ⟨user2, mem2⟩ := user 2 (by decide) (by decide) rfl
  obtain ⟨user4, mem4⟩ := user 4 (by decide) (by decide) same.symm
  have pages : (inSlot k.processes 2).pageDirectory = (inSlot k.processes 4).pageDirectory := by
    rw [inSlot, inSlot, slots.table, same]
  exact absurd (law.apart 2 4 _ user2 user4 mem2 (pages ▸ mem4)) (by decide)

end Wittche.Process
