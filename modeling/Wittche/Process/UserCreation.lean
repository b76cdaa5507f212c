import Wittche.Process.LongRuns
import Wittche.Process.Shortage

/-! `process_create_user_mode` takes up to five pages: for the stack, the directory, the code,
and two tables. Its failures give back the process, and not always the pages. -/

namespace Wittche.Process
open Bytes CString Heap Pmm Paging Tables Execution Segments

/-- The code is at `USER_CODE_BASE` of the directory, and the page `stack` is the one below
`USER_STACK_BASE`. -/
structure Loaded (t : PageTables) (dir stack : Nat) (code : Nat → Nat) : Prop where
  code : ∃ page, Freeable page ∧ translate t dir USER_CODE_BASE = page ∧ ∀ k < 1024, t.entries page k = code k
  stack : Freeable stack ∧ translate t dir (USER_STACK_BASE - PAGE_SIZE) = stack

section Pages

variable {img : Image} {t : PageTables} {dirs : Set Nat}

structure Supplied (img : Image) (t : PageTables) (dirs : Set Nat) (code : Nat → Nat) (r : PageTables) (dir page : Nat) :
    Prop where
  spaces : Spaces img r (insert dir dirs)
  empty : ∀ i ∈ userEntries, follow (r.entries dir i) = none
  taken : Freeable page ∧ bitmapTest r.pmm (page / PAGE_SIZE) = true
  away : page ∉ insert dir dirs
  words : r.entries page = code
  left : freePages r.pmm = freePages t.pmm - 3

theorem newSpace_supplied (h : Spaces img t dirs) (code : Nat → Nat) (three : 3 ≤ freePages t.pmm) :
    Freeable t.allocPage.2 ∧ (pagingCreateUserDirectory img t.allocPage.1).2 ≠ 0 ∧
      (pagingCreateUserDirectory img t.allocPage.1).1.allocPage.2 ≠ 0 ∧
      ∃ r, Supplied img t dirs code r (newSpace img t code).2
          (pagingCreateUserDirectory img t.allocPage.1).1.allocPage.2 ∧
        (newSpace img t code).1 = pagingMapUserCode (pagingMapUserCode r (newSpace img t code).2 USER_CODE_BASE
          (pagingCreateUserDirectory img t.allocPage.1).1.allocPage.2 PAGE_SIZE) (newSpace img t code).2
          (USER_STACK_BASE - PAGE_SIZE) t.allocPage.2 PAGE_SIZE := by
  obtain ⟨none1, left1⟩ := allocPage_free h.kept
  have some1 : t.allocPage.2 ≠ 0 := fun zero => by
    have full := none1.mp zero
    omega
  obtain ⟨ok, given1, -, -⟩ := allocPage_given h.kept some1
  obtain ⟨-, -, more, -, -⟩ := h.allocPage given1
  obtain ⟨some2, created, left2, empty⟩ := created_spaces more (by omega)
  have dir : (newSpace img t code).2 = (pagingCreateUserDirectory img t.allocPage.1).2 := rfl
  obtain ⟨none3, left3⟩ := allocPage_free created.kept
  have some3 : (pagingCreateUserDirectory img t.allocPage.1).1.allocPage.2 ≠ 0 := fun zero => by
    have full := none3.mp zero
    omega
  obtain ⟨ok3, given3, -, bits⟩ := allocPage_given created.kept some3
  obtain ⟨-, -, more3, fresh, -⟩ := created.allocPage given3
  refine ⟨ok, some2, some3, _, ⟨more3.scribble ok3 fresh code, fun i user => ?_, ⟨ok3, ?_⟩, fresh.1, ?_, ?_⟩, rfl⟩
  · have other : (newSpace img t code).2 ≠ (pagingCreateUserDirectory img t.allocPage.1).1.allocPage.2 :=
      fun same => fresh.1 (same ▸ Or.inl rfl)
    dsimp only
    rw [Function.update_of_ne other]
    exact empty i user
  · rw [bits, decide_eq_true rfl, Bool.true_or]
  · exact Function.update_self ..
  · dsimp only
    omega

theorem newSpace_loaded_iff (h : Spaces img t dirs) (code : Nat → Nat) (three : 3 ≤ freePages t.pmm) :
    Loaded (newSpace img t code).1 (newSpace img t code).2 t.allocPage.2 code ↔ 5 ≤ freePages t.pmm := by
  obtain ⟨ok, -, -, r, supplied, result⟩ := newSpace_supplied h code three
  have own : (newSpace img t code).2 ∈ insert (newSpace img t code).2 dirs := Or.inl rfl
  have codeEntry : getPageDirIndex USER_CODE_BASE ∈ userEntries := getPageDirIndex_user (by decide)
  have stackEntry : getPageDirIndex (USER_STACK_BASE - PAGE_SIZE) ∈ userEntries := getPageDirIndex_user (by decide)
  have indices : getPageDirIndex (USER_STACK_BASE - PAGE_SIZE) ≠ getPageDirIndex USER_CODE_BASE := by decide
  rw [result]
  generalize (newSpace img t code).2 = dir at *
  generalize (pagingCreateUserDirectory img t.allocPage.1).1.allocPage.2 = page at *
  generalize t.allocPage.2 = stack at *
  obtain ⟨spaces, empty, ⟨okPage, bit⟩, away, words, left⟩ := supplied
  obtain ⟨spaces1, left1, first⟩ := spaces.mapFirst own (v := USER_CODE_BASE) (p := page) (by decide) (by decide)
    (by decide) okPage (empty _ codeEntry)
  generalize pagingMapUserCode r dir USER_CODE_BASE page PAGE_SIZE = r1 at *
  have absent : follow (r1.entries dir (getPageDirIndex (USER_STACK_BASE - PAGE_SIZE))) = none := by
    rcases first with ⟨-, same⟩ | ⟨-, grown⟩
    · rw [same]
      exact empty _ stackEntry
    · rw [grown.entries dir own _ fun both => indices both.2]
      exact empty _ stackEntry
  obtain ⟨-, -, second⟩ := spaces1.mapFirst own (p := stack) (by decide) (by decide) (by decide) ok absent
  generalize pagingMapUserCode r1 dir (USER_STACK_BASE - PAGE_SIZE) stack PAGE_SIZE = r2 at *
  rcases first with ⟨full, same⟩ | ⟨some, grown⟩
  · -- no table for the code
    have full1 : freePages r1.pmm = 0 := by omega
    have same' : r2.entries = r.entries := (second.resolve_right fun both => both.1 full1).2.trans same
    refine iff_of_false ?_ (by omega)
    rintro ⟨⟨page', ok', mapped, -⟩, -⟩
    rw [translate_absent (by rw [same']; exact empty _ codeEntry)] at mapped
    exact ok'.ne_zero mapped.symm
  · rcases second with ⟨full, same⟩ | ⟨some', grown'⟩
    · -- no table for the stack
      refine iff_of_false ?_ (by omega)
      rintro ⟨-, -, mapped⟩
      rw [translate_absent (by rw [same]; exact absent)] at mapped
      exact ok.ne_zero mapped.symm
    · obtain ⟨words1, bit1⟩ := grown.pages page (fun same => away (Or.inl same)) bit
      obtain ⟨words2, -⟩ := grown'.pages page (fun same => away (Or.inl same)) bit1
      have apart : ¬(dir = dir ∧ USER_CODE_BASE / PAGE_SIZE = (USER_STACK_BASE - PAGE_SIZE) / PAGE_SIZE) :=
        fun both => absurd both.2 (by decide)
      refine iff_of_true ⟨⟨page, okPage, ?_, fun k _ => ?_⟩, ok, grown'.mapped⟩ (by omega)
      · rw [grown'.others dir own _ apart, grown.mapped]
      · rw [words2, words1, words]

end Pages

structure Untouched (s t : Kernel) : Prop where
  pmm : t.tables.pmm = s.tables.pmm
  table : t.processes.table = s.processes.table
  count : t.processes.count = s.processes.count
  slots : ∀ i, Used s.processes i → inSlot t.processes i = inSlot s.processes i

/-- The pid names a new process with its code and its stack; the stack page is the first that
`pmm_alloc_page` gives. -/
def Made (s t : Kernel) (pid : Nat) (code : Nat → Nat) : Prop :=
  ∃ i, ¬Used s.processes i ∧ t.processes.slotOf pid = some i ∧
    Loaded t.tables (inSlot t.processes i).pageDirectory s.tables.allocPage.2 code

def AllOrNothing (s : Kernel) (code : Nat → Nat) (r : Kernel × Nat) : Prop :=
  (r.2 = 0 → Untouched s r.1) ∧ (r.2 ≠ 0 → Made s r.1 r.2 code)

def PidUnused (s : Processes) : Prop := ∀ j, (∀ k ≤ j, Used s k) → (inSlot s j).pid ≠ s.nextPid

section Fill

variable {img : Image} {s : Kernel} {p : Nat} (pid : Nat) (code : Nat → Nat) (priority : Nat)

/-- A process on its way to user mode, with the directory `dir` so far. -/
def userPcb (x : Pcb) (dir : Nat) : Pcb := { x with isUserMode := 1, pageDirectory := dir }

theorem setPcb_userPcb (s : Processes) (p dir : Nat) :
    (s.setPcb p { s.pcb p with isUserMode := 1 }).setPcb p
      { (s.setPcb p { s.pcb p with isUserMode := 1 }).pcb p with pageDirectory := dir } =
      s.setPcb p (userPcb (s.pcb p) dir) := by
  simp only [Processes.setPcb, Function.update_idem, Function.update_self, userPcb]

theorem fillUser_noStack (none : s.tables.allocPage.2 = 0) : Kernel.fillUser img s p pid code priority =
    (Kernel.processKill ⟨s.processes.setPcb p (userPcb (s.processes.pcb p) (s.processes.pcb p).pageDirectory),
      s.tables.allocPage.1⟩ pid, 0) := if_pos none

theorem fillUser_noDirectory (some : s.tables.allocPage.2 ≠ 0)
    (none : (pagingCreateUserDirectory img s.tables.allocPage.1).2 = 0) : Kernel.fillUser img s p pid code priority =
    (Kernel.processKill ⟨s.processes.setPcb p (userPcb (s.processes.pcb p) 0),
      (pagingCreateUserDirectory img s.tables.allocPage.1).1⟩ pid, 0) := by
  have zero : userPcb (s.processes.pcb p) 0 =
      userPcb (s.processes.pcb p) (pagingCreateUserDirectory img s.tables.allocPage.1).2 := by rw [none]
  rw [zero, ← setPcb_userPcb]
  exact (if_neg some).trans (if_pos none)

theorem fillUser_noCode (some : s.tables.allocPage.2 ≠ 0)
    (some' : (pagingCreateUserDirectory img s.tables.allocPage.1).2 ≠ 0)
    (none : (pagingCreateUserDirectory img s.tables.allocPage.1).1.allocPage.2 = 0) :
    Kernel.fillUser img s p pid code priority =
      (Kernel.processKill ⟨s.processes.setPcb p (userPcb (s.processes.pcb p)
          (pagingCreateUserDirectory img s.tables.allocPage.1).2),
        (pagingCreateUserDirectory img s.tables.allocPage.1).1.allocPage.1⟩ pid, 0) := by
  rw [← setPcb_userPcb]
  exact (if_neg some).trans ((if_neg some').trans (if_pos none))

theorem fillUser_cases : (∃ dir tables, Kernel.fillUser img s p pid code priority =
      (Kernel.processKill ⟨s.processes.setPcb p (userPcb (s.processes.pcb p) dir), tables⟩ pid, 0)) ∨
    ∃ x tables, x.pid = (s.processes.pcb p).pid ∧
      Kernel.fillUser img s p pid code priority = (⟨s.processes.setPcb p x, tables⟩, pid) := by
  by_cases stack : s.tables.allocPage.2 = 0
  · exact Or.inl ⟨_, _, fillUser_noStack pid code priority stack⟩
  by_cases dir : (pagingCreateUserDirectory img s.tables.allocPage.1).2 = 0
  · exact Or.inl ⟨_, _, fillUser_noDirectory pid code priority stack dir⟩
  by_cases page : (pagingCreateUserDirectory img s.tables.allocPage.1).1.allocPage.2 = 0
  · exact Or.inl ⟨_, _, fillUser_noCode pid code priority stack dir page⟩
  obtain ⟨x, same, -, -, -, -, result⟩ := fillUser_eq (p := p) pid code priority stack dir page
  exact Or.inr ⟨x, _, same.pid, result⟩

end Fill

section Creation

variable {s t : Processes} {l l' : List Seg} {i p base q n : Nat} {heap : KernelHeap}

theorem slotOf_setPcb (s : Processes) {p : Nat} {x : Pcb} (same : x.pid = (s.pcb p).pid) (pid : Nat) :
    (s.setPcb p x).slotOf pid = s.slotOf pid := by
  have pids : ∀ b, ((s.setPcb p x).pcb b).pid = (s.pcb b).pid := by
    intro b
    by_cases here : b = p
    · rw [here, setPcb_self, same]
    · rw [setPcb_other s here]
  simp only [Processes.slotOf, pids]
  rfl

theorem Born.slotOf (born : Born s ((t.withHeap heap).renumber n) l l' i p base q) (blocks : Blocks s l)
    (before : ∀ j < i, s.table j ≠ 0) : ∃ j, t.slotOf s.nextPid = some j ∧
      (j = i ∧ PidUnused s ∨ j < i ∧ Used s j ∧ ¬PidUnused s) := by
  have seat : t.table i = p := (congrFun born.table i).trans (Function.update_self ..)
  have old : ∀ j < i, Used s j ∧ t.table j = s.table j ∧ t.pcb (t.table j) = inSlot s j := by
    intro j below
    have used : Used s j := ⟨below.trans born.free.1, before j below⟩
    have table : t.table j = s.table j := (congrFun born.table j).trans (Function.update_of_ne (Nat.ne_of_lt below) ..)
    have other : s.table j ≠ p := fun same => born.fresh.1 (same ▸ blocks.pcb_live used)
    refine ⟨used, table, ?_⟩
    rw [table]
    exact born.pcbs _ other
  have mine : Used t i ∧ (inSlot t i).pid = s.nextPid := by
    rw [Used, inSlot, seat]
    exact ⟨⟨born.free.1, born.nonzero.1⟩, born.pid⟩
  obtain ⟨j, le, found, first⟩ := slotOf_used mine.1
  rw [mine.2] at found first
  refine ⟨j, found, ?_⟩
  rcases Nat.lt_or_eq_of_le le with below | rfl
  · obtain ⟨used, table, pcb⟩ := old j below
    refine Or.inr ⟨below, used, fun unused => unused j (fun k le => (old k (by omega)).1) ?_⟩
    rw [← pcb]
    exact (slotOf_some found).2
  · refine Or.inl ⟨rfl, fun k all same => ?_⟩
    have below : k < j := Nat.not_le.mp fun le => (all j le).2 born.free.2
    obtain ⟨used, table, pcb⟩ := old k below
    refine first k below ⟨used.1, table ▸ used.2⟩ ?_
    rw [inSlot, pcb]
    exact same

theorem Born.undone (kept : Kept s l) (born : Born s ((t.withHeap heap).renumber n) l l' i p base q) (named : s.nextPid ≠ 0)
    (found : t.slotOf s.nextPid = some i) (dir : Nat) (tables : PageTables)
    (empty : dir ≠ 0 → ∀ k ∈ userEntries, follow (tables.entries dir k) = none) :
    let u := Kernel.processKill ⟨t.setPcb p (userPcb (t.pcb p) dir), tables⟩ s.nextPid
    u.processes.table = s.table ∧ u.processes.count = s.count ∧
      (∀ j, Used s j → inSlot u.processes j = inSlot s j) ∧
      u.tables.pmm = if dir = 0 then tables.pmm else pmmFreePage tables.pmm dir := by
  have seat : t.table i = p := (congrFun born.table i).trans (Function.update_self ..)
  have away : ∀ {j}, Used s j → j ≠ i ∧ s.table j ≠ p := fun {j} used =>
    ⟨fun same => used.2 (same ▸ born.free.2), fun same => born.fresh.1 (same ▸ kept.blocks.pcb_live used)⟩
  have other : t.table i ≠ t.current := by
    obtain ⟨c, used, here⟩ := kept.states.current
    have current : t.current = s.current := born.current
    rw [seat, current, ← here]
    exact (away used).2.symm
  have mine : inSlot (t.setPcb p (userPcb (t.pcb p) dir)) i = userPcb (t.pcb p) dir := by
    rw [inSlot]
    exact (congrArg _ seat).trans (setPcb_self ..)
  have cleaned := cleanup_cleaned { t.setPcb p (userPcb (t.pcb p) dir) with freed := [] } i (t.table i)
  intro u
  have result : u = _ := Kernel.processKill_other named
    ((slotOf_setPcb t (x := userPcb (t.pcb p) dir) rfl _).trans found) other
  have table : u.processes.table = s.table := by
    have emptied : u.processes.table = Function.update (Function.update s.table i p) i 0 := by
      rw [result, ← born.table]
      exact cleaned.table
    rw [emptied, Function.update_idem, ← born.free.2, Function.update_eq_self]
  have pcb : u.processes.pcb = (t.setPcb p (userPcb (t.pcb p) dir)).pcb := by
    rw [result]
    exact cleaned.pcb
  refine ⟨table, ?_, fun j used => ?_, ?_⟩
  · have count : t.count = s.count + 1 := born.count
    have less : u.processes.count = t.count - 1 := by
      rw [result]
      exact cleaned.count
    rw [less, count, Int.add_sub_cancel]
  · rw [inSlot, table, pcb, setPcb_other t (away used).2]
    exact born.pcbs _ (away used).2
  · rw [result]
    dsimp only
    rw [mine]
    by_cases none : dir = 0
    · rw [if_pos none, if_neg fun both => both.2 none]
      rfl
    · rw [if_neg none, if_pos ⟨Nat.one_ne_zero, none⟩]
      exact freeDirectory_empty none (empty none)

theorem Kept.of_withHeap (kept : Kept (t.withHeap heap) l) :
    Seats t ∧ States t ∧ (t.pcb t.idle).pid = 0 ∧ (t.pcb t.current).state ≠ .terminated :=
  ⟨⟨kept.seats.idleSlot, kept.seats.idleThere, kept.seats.count⟩,
    ⟨kept.states.idleAlive, kept.states.current, kept.states.running, kept.states.rest⟩, kept.idlePid, kept.alive⟩

theorem processKill_spares (seats : Seats s) (states : States s) (idlePid : (s.pcb s.idle).pid = 0)
    (alive : (s.pcb s.current).state ≠ .terminated) {pid j : Nat} (found : s.slotOf pid = some j) (other : i ≠ j) :
    (processKill s pid).table i = s.table i := by
  rcases processKill_cases s pid with same | ⟨j', nonzero, found', kill⟩
  · rw [same]
  obtain rfl := Option.some.inj (found'.symm.trans found)
  rcases kill with ⟨busy, -, result⟩ | ⟨-, result⟩
  · have idle : s.idle ≠ s.current := by
      intro clash
      rw [← clash] at busy
      exact busy idlePid
    have slots := sameSlots_setState s s.current .terminated
    have left : Rest.cleanup j' = .back ∨
        ((s.setState s.current .terminated).pcb (s.setState s.current .terminated).current).state = .terminated :=
      Or.inr (setState_self ..)
    have done := scheduleThen_spec (seats.congr slots)
      (states.stopped alive idle { s.pcb s.current with state := .terminated }) left
    rw [result]
    exact (congrFun done.table i).trans (congrFun slots.table i)
  · rw [result, (cleanup_cleaned s j' (s.table j')).table, Function.update_of_ne other]

/-- A pid that names an older process: the new one is never undone, and never made a user
process. -/
theorem Born.shadowed {k : Kernel} {img : Image} (kept : Kept k.processes l)
    (born : Born k.processes ((t.withHeap heap).renumber n) l l' i p base q) (named : k.processes.nextPid ≠ 0) {j : Nat}
    (found : t.slotOf k.processes.nextPid = some j) (below : j < i) (used : Used k.processes j)
    (code : Nat → Nat) (priority : Nat) :
    ¬AllOrNothing k code (Kernel.fillUser img ⟨t, k.tables⟩ (t.table j) k.processes.nextPid code priority) := by
  have kept' : Kept (t.withHeap heap) l' := .of_renumber (kept.turnover (born.turnover kept.seats kept.blocks))
  have seat : t.table i = p := (congrFun born.table i).trans (Function.update_self ..)
  rintro ⟨zero, more⟩
  rcases @fillUser_cases img ⟨t, k.tables⟩ (t.table j) k.processes.nextPid code priority with
    ⟨dir, tables, result⟩ | ⟨x, tables, same, result⟩
  · have calm : Calm (t.withHeap heap) ((t.withHeap heap).setPcb (t.table j) (userPcb (t.pcb (t.table j)) dir)) :=
      calm_setPcb ⟨rfl, rfl, rfl⟩ id (Or.inl rfl)
    obtain ⟨seats, states, idlePid, alive⟩ :=
      Kept.of_withHeap (t := { t.setPcb (t.table j) (userPcb (t.pcb (t.table j)) dir) with freed := [] })
        ((kept'.calm calm).calm (calm_freed _ []))
    have found' : (t.setPcb (t.table j) (userPcb (t.pcb (t.table j)) dir)).slotOf k.processes.nextPid = some j :=
      (slotOf_setPcb t (x := userPcb (t.pcb (t.table j)) dir) rfl _).trans found
    have spared := processKill_spares seats states idlePid alive found' (Nat.ne_of_gt below)
    rw [result] at zero
    have table := congrFun (zero rfl).table i
    rw [born.free.2] at table
    exact born.nonzero.1 (seat.symm.trans (spared.symm.trans table))
  · rw [result] at more
    obtain ⟨m, new, first, -⟩ := more named
    have found' : (t.setPcb (t.table j) x).slotOf k.processes.nextPid = some j := (slotOf_setPcb t same _).trans found
    rw [Option.some.inj (first.symm.trans found')] at new
    exact new used

end Creation

section Shortage

variable {img : Image} {k : Kernel} {dirs : Set Nat} {t : Processes} {l l' : List Seg} {i p base q n : Nat}
  {heap : KernelHeap}

theorem Born.all_or_nothing_iff (kept : Kept k.processes l) (spaces : Spaces img k.tables dirs)
    (kernelMode : k.processes.directory = img.kernelDirectory)
    (bare : ∀ e ∈ userEntries, follow (k.tables.entries img.kernelDirectory e) = none)
    (born : Born k.processes ((t.withHeap heap).renumber n) l l' i p base q) (named : k.processes.nextPid ≠ 0)
    (found : t.slotOf k.processes.nextPid = some i) (space : (t.pcb p).pageDirectory = k.processes.directory)
    (code : Nat → Nat) (priority : Nat) :
    AllOrNothing k code (Kernel.fillUser img ⟨t, k.tables⟩ p k.processes.nextPid code priority) ↔
      freePages k.tables.pmm = 0 ∨ 5 ≤ freePages k.tables.pmm := by
  by_cases three : 3 ≤ freePages k.tables.pmm
  · obtain ⟨ok, some2, some3, -⟩ := newSpace_supplied spaces code three
    obtain ⟨x, same, -, -, -, dir, result⟩ := @fillUser_eq img ⟨t, k.tables⟩ p k.processes.nextPid
      code priority ok.ne_zero some2 some3
    have seat : t.table i = p := (congrFun born.table i).trans (Function.update_self ..)
    have found' : (t.setPcb p x).slotOf k.processes.nextPid = some i := (slotOf_setPcb t same.pid _).trans found
    have mine : inSlot (t.setPcb p x) i = x := by
      rw [inSlot]
      exact (congrArg _ seat).trans (setPcb_self ..)
    have made : Made k ⟨t.setPcb p x, (newSpace img k.tables code).1⟩ k.processes.nextPid code ↔
        5 ≤ freePages k.tables.pmm := by
      rw [← newSpace_loaded_iff spaces code three, Made]
      constructor
      · rintro ⟨j, -, first, loaded⟩
        rw [Option.some.inj (first.symm.trans found'), mine, dir] at loaded
        exact loaded
      · intro loaded
        refine ⟨i, fun used => used.2 born.free.2, found', ?_⟩
        rw [mine, dir]
        exact loaded
    rw [result, AllOrNothing, made]
    constructor
    · exact fun both => Or.inr (both.2 named)
    · rintro (none | five)
      · omega
      · exact ⟨fun zero => absurd zero named, fun _ => five⟩
  by_cases none : freePages k.tables.pmm = 0
  · -- the directory that is freed is the kernel's, which is no page of the memory manager
    have full : k.tables.allocPage.2 = 0 := (allocPage_free spaces.kept).1.mpr none
    have kernel : (t.pcb p).pageDirectory = img.kernelDirectory := space.trans kernelMode
    obtain ⟨table, count, slots, pmm⟩ := born.undone kept named found (t.pcb p).pageDirectory
      k.tables.allocPage.1 fun _ => by rw [kernel]; exact bare
    have low : img.kernelDirectory < KERNEL_END := by
      have below := img.directoryBelow
      simp only [PAGE_SIZE] at below
      omega
    rw [kernel, pmmFreePage_low _ low, ite_self, allocPage_refused spaces.kept full, ← kernel] at pmm
    rw [fillUser_noStack (s := ⟨t, k.tables⟩) _ _ _ full]
    exact iff_of_true ⟨fun _ => ⟨pmm, table, count, slots⟩, fun some => absurd rfl some⟩ (Or.inl none)
  · obtain ⟨some, ⟨none', leak⟩ | ⟨some', none', empty, leak⟩⟩ := spaces.stack_leaks (by omega)
    · rw [fillUser_noDirectory (s := ⟨t, k.tables⟩) _ _ _ some none']
      refine iff_of_false ?_ (by omega)
      rintro ⟨zero, -⟩
      have pmm := (born.undone kept named found 0
        (pagingCreateUserDirectory img k.tables.allocPage.1).1 fun some => absurd rfl some).2.2.2
      exact leak (pmm.symm.trans (zero rfl).pmm)
    · rw [fillUser_noCode (s := ⟨t, k.tables⟩) _ _ _ some some' none']
      refine iff_of_false ?_ (by omega)
      rintro ⟨zero, -⟩
      have pmm := (born.undone kept named found _ (pagingCreateUserDirectory img k.tables.allocPage.1).1.allocPage.1
        fun _ => empty).2.2.2
      rw [if_neg some'] at pmm
      exact leak (pmm.symm.trans (zero rfl).pmm)

end Shortage

section Outcome

variable {img : Image} {s : Kernel} {dirs : Set Nat} {l : List Seg}

/-- The three ways that `process_create_user_mode` can go. -/
theorem user_creation_cases (wrapper : Nat) (name : CStr) (code : Nat → Nat) (stackSize : Word) (priority : Nat)
    (kept : Kept s.processes l) (spaces : Spaces img s.tables dirs)
    (kernelMode : s.processes.directory = img.kernelDirectory)
    (bare : ∀ e ∈ userEntries, follow (s.tables.entries img.kernelDirectory e) = none) :
    ¬s.processes.hasRoom stackSize ∧
      AllOrNothing s code (s.processCreateUserMode img wrapper name code stackSize priority) ∨
    s.processes.hasRoom stackSize ∧
      (¬PidUnused s.processes ∧
        ¬AllOrNothing s code (s.processCreateUserMode img wrapper name code stackSize priority) ∨
      PidUnused s.processes ∧
        (AllOrNothing s code (s.processCreateUserMode img wrapper name code stackSize priority) ↔
          freePages s.tables.pmm = 0 ∨ 5 ≤ freePages s.tables.pmm)) := by
  rcases processCreate_grants kept.seats kept.blocks name wrapper stackSize with
    ⟨t, l', n, full, -, made, -, abandoned⟩ | ⟨h, t, l', i, p, base, q, room, -, -, space, before, made, -, born⟩
  · have result : s.processCreateUserMode img wrapper name code stackSize priority = (⟨t, s.tables⟩, 0) := by
      rw [Kernel.processCreateUserMode, made]
      rfl
    have table : t.table = s.processes.table := abandoned.table
    rw [result]
    refine Or.inl ⟨full, fun _ => ⟨rfl, table, abandoned.count, fun i used => ?_⟩, fun some => absurd rfl some⟩
    rw [inSlot, table]
    exact abandoned.pcbs _ (kept.blocks.pcb_live used)
  · obtain ⟨j, found, which⟩ := born.slotOf kept.blocks before
    have seat : t.table i = p := (congrFun born.table i).trans (Function.update_self ..)
    refine Or.inr ⟨room, ?_⟩
    by_cases named : s.processes.nextPid = 0
    · -- the counter has wrapped to the pid of the idle process
      have result : s.processCreateUserMode img wrapper name code stackSize priority = (⟨t, s.tables⟩, 0) := by
        rw [Kernel.processCreateUserMode, made, named]
        rfl
      have idle : (inSlot s.processes 0).pid = s.processes.nextPid := by
        rw [inSlot, kept.seats.idleSlot, kept.idlePid, named]
      rw [result]
      refine Or.inl ⟨fun unused => unused 0 (fun k le => ?_) idle, ?_⟩
      · rw [Nat.le_zero.mp le]
        exact kept.seats.used_zero
      · rintro ⟨zero, -⟩
        have table := congrFun (zero rfl).table i
        exact born.nonzero.1 (seat.symm.trans (table.trans born.free.2))
    · have there : t.table j ≠ 0 := (slotOf_some found).1.2
      have result : s.processCreateUserMode img wrapper name code stackSize priority =
          Kernel.fillUser img ⟨t, s.tables⟩ (t.table j) s.processes.nextPid code priority := by
        have get : t.processGet s.processes.nextPid = t.table j := by rw [Processes.processGet, found]
        rw [Kernel.processCreateUserMode, made]
        refine (if_neg named).trans ?_
        simp only [get]
        exact if_neg there
      rw [result]
      rcases which with ⟨rfl, unused⟩ | ⟨below, used, taken⟩
      · rw [seat]
        exact Or.inr ⟨unused, born.all_or_nothing_iff kept spaces kernelMode bare named found space code priority⟩
      · exact Or.inl ⟨taken, born.shadowed kept named found below used code priority⟩

end Outcome

/-- `process_create_user_mode` leaves everything as it was or makes a process with its code and
its stack, unless the pages run out at the directory, the code or a table, or the pid that
`process_create` gives names an older process. -/
theorem user_creation_all_or_nothing_iff (img : Image) (wrapper : Nat) (s : Kernel) (dirs : Set Nat) (l : List Seg)
    (name : CStr) (code : Nat → Nat) (stackSize : Word) (priority : Nat) (kept : Kept s.processes l)
    (spaces : Spaces img s.tables dirs) (kernelMode : s.processes.directory = img.kernelDirectory)
    (bare : ∀ e ∈ userEntries, follow (s.tables.entries img.kernelDirectory e) = none) :
    AllOrNothing s code (s.processCreateUserMode img wrapper name code stackSize priority) ↔
      (s.processes.hasRoom stackSize →
        PidUnused s.processes ∧ (freePages s.tables.pmm = 0 ∨ 5 ≤ freePages s.tables.pmm)) := by
  rcases user_creation_cases wrapper name code stackSize priority kept spaces kernelMode bare with
    ⟨full, nothing⟩ | ⟨room, ⟨taken, broken⟩ | ⟨unused, enough⟩⟩
  · exact iff_of_true nothing fun room => absurd room full
  · exact iff_of_false broken fun h => taken (h room).1
  · rw [enough]
    exact ⟨fun pages _ => ⟨unused, pages⟩, fun h => (h room).2⟩

theorem processCreate_room {s : Processes} {l : List Seg} {name : CStr} {entry : Nat} {stackSize : Word}
    (kept : Kept s l) (made : (processCreate s name entry stackSize).2 ≠ 0) : s.hasRoom stackSize := by
  rcases processCreate_grants kept.seats kept.blocks name entry stackSize with
    ⟨t, l', n, -, -, failed, -⟩ | ⟨h, t, l', i, p, base, q, room, -⟩
  · rw [failed] at made
    exact absurd rfl made
  · exact room

theorem Inv.pidUnused {s : Processes} (inv : Inv s) : PidUnused s := fun j used =>
  Nat.ne_of_lt (inv.slots.pidLt j (used j (Nat.le_refl j)))

/-- The kernel behind boot when `n` pages have been taken. -/
def shortBoot (n : Nat) : Kernel :=
  let s := Kernel.boot placedImage ⟨powerOn, blankTables⟩ 0x1000
  { s with tables := drained s.tables n }

theorem shortBoot_ready {n : Nat} (enough : n ≤ 3584) :
    ∃ l dirs, Kept (shortBoot n).processes l ∧ Spaces placedImage (shortBoot n).tables dirs ∧
      (shortBoot n).processes.directory = placedImage.kernelDirectory ∧
      (∀ e ∈ userEntries, follow ((shortBoot n).tables.entries placedImage.kernelDirectory e) = none) ∧
      PidUnused (shortBoot n).processes ∧ (shortBoot n).processes.hasRoom 4096 ∧
      freePages (shortBoot n).tables.pmm = 3584 - n := by
  have populated := boot_populated placedImage (s := ⟨powerOn, blankTables⟩) powerOn_boot 0x1000
  have free : freePages (Kernel.boot placedImage ⟨powerOn, blankTables⟩ 0x1000).tables.pmm = 3584 := by
    rw [Kernel.boot_pmm, pmmInit_freePages]
    decide
  have boot : Boot { powerOn with directory := placedImage.kernelDirectory } :=
    ⟨powerOn_boot.nextPid, powerOn_boot.tiled, powerOn_boot.room⟩
  obtain ⟨l, p, base, started⟩ := processInit_started boot 0x1000
  obtain ⟨directory, -⟩ := processInit_directory boot.room 0x1000
  obtain ⟨l', kept⟩ := processInit_kept boot 0x1000
  have processes := Kernel.boot_processes placedImage ⟨powerOn, blankTables⟩ 0x1000
  obtain ⟨spaces, left, entries⟩ := drained_spaces populated.users.spaces (n := n) (by omega)
  have same : (shortBoot n).processes = processInit { powerOn with directory := placedImage.kernelDirectory } 0x1000 :=
    processes
  rw [same]
  refine ⟨l', _, kept, spaces, directory, ?_, started.inv.pidUnused, ?_, left.trans (by rw [free])⟩
  · rw [shortBoot]
    dsimp only
    rw [entries]
    exact populated.users.kernelEmpty
  · exact processCreate_room kept boot_processCreate

theorem user_creation_all_or_nothing_iff_boot :
    AllOrNothing (shortBoot 0) (fun _ => 0x90909090)
      ((shortBoot 0).processCreateUserMode placedImage 0x3000 taskName (fun _ => 0x90909090) 4096 5) := by
  obtain ⟨l, dirs, kept, spaces, directory, bare, unused, -, free⟩ := shortBoot_ready (n := 0) (by decide)
  exact (user_creation_all_or_nothing_iff placedImage 0x3000 _ dirs l taskName _ 4096 5 kept spaces directory bare).mpr
    fun _ => ⟨unused, Or.inr (by omega)⟩

theorem shortBoot_neither {n : Nat} (few : n < 3584 ∧ 3580 ≤ n) (code : Nat → Nat) :
    freePages (shortBoot n).tables.pmm = 3584 - n ∧
      ¬AllOrNothing (shortBoot n) code ((shortBoot n).processCreateUserMode placedImage 0x3000 taskName code 4096 5) := by
  obtain ⟨l, dirs, kept, spaces, directory, bare, unused, room, free⟩ := shortBoot_ready (n := n) (by omega)
  refine ⟨free, ?_⟩
  rcases user_creation_cases 0x3000 taskName code 4096 5 kept spaces directory bare with
    ⟨full, -⟩ | ⟨-, ⟨-, broken⟩ | ⟨-, enough⟩⟩
  · exact absurd room full
  · exact broken
  · rw [enough]
    omega

/-- With one page left the call fails and keeps it; with four it succeeds without a stack. -/
theorem short_creation_neither :
    freePages (shortBoot 3583).tables.pmm = 1 ∧ freePages (shortBoot 3580).tables.pmm = 4 ∧
      ¬AllOrNothing (shortBoot 3583) (fun _ => 0x90909090)
        ((shortBoot 3583).processCreateUserMode placedImage 0x3000 taskName (fun _ => 0x90909090) 4096 5) ∧
      ¬AllOrNothing (shortBoot 3580) (fun _ => 0x90909090)
        ((shortBoot 3580).processCreateUserMode placedImage 0x3000 taskName (fun _ => 0x90909090) 4096 5) := by
  obtain ⟨one, broken⟩ := shortBoot_neither (n := 3583) (by decide) fun _ => 0x90909090
  obtain ⟨four, broken'⟩ := shortBoot_neither (n := 3580) (by decide) fun _ => 0x90909090
  exact ⟨one, four, broken, broken'⟩

end Wittche.Process
