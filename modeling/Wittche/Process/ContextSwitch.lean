import Mathlib.Data.BitVec
import Wittche.Lib.Execution
import Wittche.Process.Switch

/-! Context switches and the contexts of suspended processes. One call saves the caller's
context in the one process and takes that of the other out of its `cpu_state`. It faults
exactly when a selector in there may not be loaded, as for the processes that
`process_create_user_mode` sets up; otherwise, over a run of such calls, each process that is
switched in goes on where it was switched out, or at its first instruction. -/

namespace Wittche.Switch
open Bytes AddressSpace Execution

section Code

variable {g : Interrupt.Gdt} {code block rest : List Instr} {pc fuel : Nat} {s : Cpu}

def Instr.straight : Instr → Bool
  | .jz _ | .ret => false
  | _ => true

def Instr.loadsSegment : Instr → Bool
  | .setSegment _ => true
  | _ => false

def execBlock (g : Interrupt.Gdt) : List Instr → Cpu → Option Cpu
  | [], s => some s
  | i :: is, s => if faults g s i then none else execBlock g is (apply s i)

theorem execBlock_plain (plain : ∀ i ∈ block, i.loadsSegment = false) :
    execBlock g block s = some (block.foldl apply s) := by
  induction block generalizing s with
  | nil => rfl
  | cons i block ih =>
    have fine : faults g s i = false := by
      have first := plain i List.mem_cons_self
      cases i <;> first | rfl | exact absurd first Bool.true_eq_false.mp
    rw [execBlock, fine, if_neg Bool.false_ne_true, ih fun j hj => plain j (List.mem_cons_of_mem _ hj)]
    rfl

theorem exec_one {i : Instr} (at_pc : code[pc]? = some i) (straight : i.straight = true) :
    exec g code (fuel + 1) pc s = if faults g s i then none else exec g code fuel (pc + 1) (apply s i) := by
  rw [exec, at_pc]
  cases i <;> first | rfl | exact absurd straight Bool.false_ne_true

theorem exec_straight (at_pc : code.drop pc = block ++ rest) (straight : ∀ i ∈ block, i.straight = true) :
    exec g code (block.length + fuel) pc s =
      (execBlock g block s).bind fun s => exec g code fuel (pc + block.length) s := by
  induction block generalizing pc s with
  | nil => simp [execBlock]
  | cons i block ih =>
    have first : code[pc]? = some i := by
      rw [← List.head?_drop, at_pc]
      rfl
    have tail : code.drop (pc + 1) = block ++ rest := by
      rw [← List.drop_drop, at_pc]
      rfl
    rw [List.length_cons, show block.length + 1 + fuel = (block.length + fuel) + 1 by omega,
      exec_one first (straight i List.mem_cons_self), ih tail fun j hj => straight j (List.mem_cons_of_mem _ hj),
      show pc + 1 + block.length = pc + (block.length + 1) by omega, execBlock]
    split <;> rfl

theorem exec_jz {target : Nat} (at_pc : code[pc]? = some (.jz target)) :
    exec g code (fuel + 1) pc s = exec g code fuel (if zeroFlag s then target else pc + 1) s := by
  rw [exec, at_pc]

theorem exec_ret (at_pc : code[pc]? = some .ret) :
    exec g code (fuel + 1) pc s = some { s.pop.2 with eip := s.pop.1 } := by
  rw [exec, at_pc]

end Code

section Flags

theorem lowHalf_low (w : Word) (h : Half) : (Cpu.lowHalf w h).setWidth 16 = h := by
  apply BitVec.eq_of_getLsbD_eq
  intro i hi
  simp [Cpu.lowHalf, hi]

theorem bit_getLsbD (b : Bool) (i : Nat) {j : Nat} (small : j < 32) :
    (bit b i).getLsbD j = (b && decide (i = j)) := by
  cases b with
  | false => simp only [bit, Bool.false_eq_true, if_false, BitVec.ofNat_eq_ofNat, BitVec.getLsbD_zero, Bool.false_and]
  | true =>
    rw [bit, if_pos rfl, BitVec.getLsbD_shiftLeft, BitVec.ofNat_eq_ofNat, BitVec.getLsbD_one]
    grind

theorem setStatus_getLsbD (eflags : Word) (carry adjust overflow : Bool) (r : Word) {j : Nat} (small : j < 32) :
    (setStatus eflags (status carry adjust overflow r)).getLsbD j =
      (eflags.getLsbD j && !STATUS_FLAGS.getLsbD j || (carry && decide (0 = j) || evenParity r && decide (2 = j) ||
        adjust && decide (4 = j) || decide (r = 0) && decide (6 = j) || r.msb && decide (7 = j) ||
        overflow && decide (11 = j))) := by
  simp only [setStatus, status, BitVec.getLsbD_or, BitVec.getLsbD_and, BitVec.getLsbD_not, bit_getLsbD _ _ small, small,
    decide_true, Bool.true_and]

theorem setStatus_zero (eflags : Word) (carry adjust overflow : Bool) (r : Word) :
    (setStatus eflags (status carry adjust overflow r)).getLsbD 6 = decide (r = 0) := by
  rw [setStatus_getLsbD _ _ _ _ _ (by decide), show STATUS_FLAGS.getLsbD 6 = true by decide]
  simp

theorem interruptFlag_status (eflags : Word) (carry adjust overflow : Bool) (r : Word) :
    interruptFlag (setStatus eflags (status carry adjust overflow r)) = interruptFlag eflags := by
  rw [interruptFlag, setStatus_getLsbD _ _ _ _ _ (by decide), show STATUS_FLAGS.getLsbD 9 = false by decide]
  simp [interruptFlag]

theorem interruptFlag_pushfd (eflags : Word) : interruptFlag (eflags &&& PUSHF_FLAGS) = interruptFlag eflags := by
  rw [interruptFlag, BitVec.getLsbD_and, show PUSHF_FLAGS.getLsbD 9 = true by decide, Bool.and_true]
  rfl

theorem interruptFlag_popfd (old new : Word) :
    interruptFlag ((old &&& ~~~POPF_FLAGS) ||| (new &&& POPF_FLAGS)) = interruptFlag new := by
  rw [interruptFlag, BitVec.getLsbD_or, BitVec.getLsbD_and, BitVec.getLsbD_and, BitVec.getLsbD_not,
    show POPF_FLAGS.getLsbD 9 = true by decide]
  simp [interruptFlag]

end Flags

def CpuState (p x : Word) : Prop := Inside (offset p CPU_STATE) SIZEOF_CPU_STATE x

/-- The word at `a` is outside the `cpu_state` of the process at `p`. -/
def Clear (p a : Word) : Prop := ∀ x, Inside a 4 x → ¬CpuState p x

section Save

theorem cpuState_iff {p x : Word} : CpuState p x ↔ 40 ≤ (x - p).toNat ∧ (x - p).toNat < 96 :=
  inside_offset_iff (by decide)

theorem field_inside {p x : Word} {i n : Nat} (low : 40 ≤ i) (high : i + n ≤ 96)
    (inside : Inside (offset p i) n x) : CpuState p x := by
  rw [inside_offset_iff (by omega)] at inside
  rw [cpuState_iff]
  omega

/-- What `saveCode` leaves in memory: `ret` is the return address and `flags` the word on
the stack at `slot`. -/
def storeState (s : Cpu) (ret slot flags : Word) : Memory :=
  let p := s.reg .eax
  let m := writeWord s.mem (offset p 44) (s.reg .ebx)
  let m := writeWord m (offset p 48) (s.reg .ecx)
  let m := writeWord m (offset p 56) (s.reg .esi)
  let m := writeWord m (offset p 60) (s.reg .edi)
  let m := writeWord m (offset p 64) (s.reg .esp + 4)
  let m := writeWord m (offset p 68) (s.reg .ebp)
  let m := writeWord m (offset p 72) ret
  let m := writeWord m slot flags
  let m := writeWord m (offset p 76) flags
  let m := writeHalf m (offset p 86) (s.seg .ds)
  let m := writeHalf m (offset p 88) (s.seg .es)
  let m := writeHalf m (offset p 90) (s.seg .fs)
  let m := writeHalf m (offset p 92) (s.seg .gs)
  writeHalf m (offset p 94) (s.seg .ss)

theorem storeState_frame {s : Cpu} {ret slot flags x : Word} (state : ¬CpuState (s.reg .eax) x)
    (stack : ¬Inside slot 4 x) : storeState s ret slot flags x = s.mem x := by
  have word : ∀ i, 40 ≤ i → i + 4 ≤ 96 → ¬Inside (offset (s.reg .eax) i) 4 x :=
    fun i low high inside => state (field_inside low high inside)
  have half : ∀ i, 40 ≤ i → i + 2 ≤ 96 → ¬Inside (offset (s.reg .eax) i) 2 x :=
    fun i low high inside => state (field_inside low high inside)
  simp [storeState, writeWord, writeHalf, stack, word 44, word 48, word 56, word 60, word 64, word 68, word 72, word 76,
    half 86, half 88, half 90, half 92, half 94]

theorem savedContext_eq (m : Memory) (p : Word) : savedContext m p =
    ⟨readWord m (offset p 72), readWord m (offset p 64), readWord m (offset p 44), readWord m (offset p 56),
      readWord m (offset p 60), readWord m (offset p 68),
      fun seg => match seg with
        | .ds => readHalf m (offset p 86)
        | .es => readHalf m (offset p 88)
        | .fs => readHalf m (offset p 90)
        | .gs => readHalf m (offset p 92)
        | .ss => readHalf m (offset p 94),
      interruptFlag (readWord m (offset p 76))⟩ := rfl

theorem storeState_context {s : Cpu} {ret slot flags : Word} (clear : Clear (s.reg .eax) slot) :
    savedContext (storeState s ret slot flags) (s.reg .eax) =
      ⟨ret, s.reg .esp + 4, s.reg .ebx, s.reg .esi, s.reg .edi, s.reg .ebp, s.seg, interruptFlag flags⟩ := by
  have stack : ∀ (m : Memory) (i : Nat), 40 ≤ i → i + 4 ≤ 96 →
      readWord (writeWord m slot flags) (offset (s.reg .eax) i) = readWord m (offset (s.reg .eax) i) :=
    fun m i low high => readWord_congr fun x inside =>
      writeWord_outside fun on => clear x on (field_inside low high inside)
  rw [savedContext_eq]
  simp only [storeState]
  simp (disch := decide) only [readWord_pastHalf, readHalf_pastHalf, readHalf_writeHalf, readWord_writeWord,
    readWord_pastWord, stack, Context.mk.injEq, true_and, and_true]
  funext seg
  cases seg <;> rfl

/-- The flags that `saveCode` stores: the addition in front of `pushfd` has set the status flags. -/
def pushedFlags (s : Cpu) : Word := (apply (apply s (.move .ecx .esp)) (.add .ecx 4)).eflags &&& PUSHF_FLAGS

theorem interruptFlag_pushed (s : Cpu) : interruptFlag (pushedFlags s) = interruptFlag s.eflags := by
  rw [pushedFlags, interruptFlag_pushfd]
  exact interruptFlag_status ..

theorem saveCode_memory (s : Cpu) (top : Clear (s.reg .eax) (s.reg .esp)) :
    (saveCode.foldl apply s).mem =
      storeState s (readWord s.mem (s.reg .esp)) (s.reg .esp - 4) (pushedFlags s) := by
  -- The return address is read when part of `cpu_state` is written; it is not there.
  have ret : ∀ (m : Memory) (i : Nat) (w : Word), 40 ≤ i → i + 4 ≤ 96 →
      readWord (writeWord m (offset (s.reg .eax) i) w) (s.reg .esp) = readWord m (s.reg .esp) :=
    fun m i w low high => readWord_congr fun x inside =>
      writeWord_outside fun on => top x inside (field_inside low high on)
  simp [saveCode, apply, Cpu.set, Cpu.push, Cpu.pop, lowHalf_low, storeState, readWord_writeWord, pushedFlags]
  simp (disch := decide) only [ret]

theorem saveCode_reg (s : Cpu) {r : Reg} (other : r ≠ .ecx) : (saveCode.foldl apply s).reg r = s.reg r := by
  cases r <;> simp_all [saveCode, apply, Cpu.set, Cpu.push, Cpu.pop]

/-- The caller's context is in `cpu_state` of the old process, and the rest of the memory is
as before, the word below the stack pointer apart. -/
theorem saveCode_spec (s : Cpu) (top : Clear (s.reg .eax) (s.reg .esp)) (below : Clear (s.reg .eax) (s.reg .esp - 4)) :
    savedContext (saveCode.foldl apply s).mem (s.reg .eax) = callContext s ∧
    ∀ x, ¬CpuState (s.reg .eax) x → ¬Inside (s.reg .esp - 4) 4 x → (saveCode.foldl apply s).mem x = s.mem x := by
  rw [saveCode_memory s top]
  refine ⟨?_, fun x => storeState_frame⟩
  rw [storeState_context below, interruptFlag_pushed]
  rfl

end Save

section Load

variable {g : Interrupt.Gdt}

def Loads (g : Interrupt.Gdt) (c : Context) : Prop := ∀ seg, loadable g seg (c.seg seg) = true

/-- At level 0 the kernel's table allows `ss` the kernel's data segment only, and the other
registers also the null selectors, the kernel's code segment and the user's segments. -/
theorem loadable_iff (t : Interrupt.Gdt) (tssBase : Word) (seg : Segment) (selector : Half) :
    loadable (Interrupt.gdtInit t tssBase) seg selector = true ↔ selector = Interrupt.KERNEL_DATA_SEGMENT ∨
      seg ≠ .ss ∧ (selector.toNat < 4 ∨ selector = Interrupt.KERNEL_CODE_SEGMENT ∨
        24 ≤ selector.toNat ∧ selector.toNat < 28 ∨ 32 ≤ selector.toNat ∧ selector.toNat < 36) := by
  have word : ∀ k : Half, selector = k ↔ selector.toNat = k.toNat := fun k => BitVec.toNat_inj.symm
  have bit : selector.getLsbD 2 = true ↔ selector.toNat / 4 % 2 = 1 := by
    rw [BitVec.getLsbD, Nat.testBit_eq_decide_div_mod_eq, decide_eq_true_eq]
  rw [word, word, show Interrupt.KERNEL_DATA_SEGMENT.toNat = 16 from rfl,
    show Interrupt.KERNEL_CODE_SEGMENT.toNat = 8 from rfl]
  obtain ⟨i, index⟩ : ∃ i, selector.toNat / 8 = i := ⟨_, rfl⟩
  by_cases outside : i = 0 ∨ selector.toNat / 4 % 2 = 1 ∨ 6 ≤ i
  · have none : Interrupt.lookup (Interrupt.gdtInit t tssBase) selector = none := by
      rw [Interrupt.lookup, index]
      exact if_pos (by rw [bit]; exact outside)
    simp only [loadable, none, decide_eq_true_eq]
    by_cases stack : seg = .ss
    · simp only [stack, not_true_eq_false, false_and, or_false, false_iff, ne_eq]
      omega
    · simp only [stack, not_false_eq_true, true_and, ne_eq]
      omega
  · -- the index is that of one of the five segments
    have some : Interrupt.lookup (Interrupt.gdtInit t tssBase) selector =
        if (Interrupt.gdtInit t tssBase i).info.present then some (Interrupt.gdtInit t tssBase i).info else none := by
      rw [Interrupt.lookup, index]
      exact if_neg (by rw [bit]; exact outside)
    have inside : 1 ≤ i ∧ i < 6 := by omega
    rw [loadable, some]
    simp only [Interrupt.rpl]
    obtain ⟨low, high⟩ := inside
    by_cases stack : seg = .ss
    · subst stack
      interval_cases i <;> simp [Interrupt.gdtInit, Interrupt.gdtSetGate, Interrupt.gdtEntry_info] <;> omega
    · interval_cases i <;> simp [Interrupt.gdtInit, Interrupt.gdtSetGate, Interrupt.gdtEntry_info, stack] <;>
        first | omega | exact decide_eq_true_iff.trans (by omega)

def selected (s : Cpu) (seg : Segment) (disp : Nat) : Cpu := apply (apply s (.loadCx .edx disp)) (.setSegment seg)

theorem selected_mem (s : Cpu) (seg : Segment) (disp : Nat) : (selected s seg disp).mem = s.mem := rfl

theorem selected_edx (s : Cpu) (seg : Segment) (disp : Nat) : (selected s seg disp).reg .edx = s.reg .edx := rfl

theorem execBlock_selected (s : Cpu) (seg : Segment) (disp : Nat) (rest : List Instr) :
    execBlock g (.loadCx .edx disp :: .setSegment seg :: rest) s =
      if loadable g seg (readHalf s.mem (offset (s.reg .edx) disp)) then execBlock g rest (selected s seg disp)
      else none := by
  have low : ((apply s (.loadCx .edx disp)).reg .ecx).setWidth 16 = readHalf s.mem (offset (s.reg .edx) disp) := by
    simp only [apply, Cpu.set, Function.update_self, lowHalf_low]
  have plain : faults g s (.loadCx .edx disp) = false := rfl
  rw [execBlock, plain, if_neg Bool.false_ne_true, execBlock, faults, low, selected]
  cases loadable g seg (readHalf s.mem (offset (s.reg .edx) disp)) <;> rfl

theorem loads_iff (m : Memory) (p : Word) : Loads g (savedContext m p) ↔
    loadable g .ds (readHalf m (offset p 86)) ∧ loadable g .es (readHalf m (offset p 88)) ∧
      loadable g .fs (readHalf m (offset p 90)) ∧ loadable g .gs (readHalf m (offset p 92)) ∧
      loadable g .ss (readHalf m (offset p 94)) := by
  constructor
  · exact fun all => ⟨all .ds, all .es, all .fs, all .gs, all .ss⟩
  · rintro ⟨ds, es, fs, gs, ss⟩ seg
    cases seg with
    | ds => exact ds
    | es => exact es
    | fs => exact fs
    | gs => exact gs
    | ss => exact ss

instance (m : Memory) (p : Word) : Decidable (Loads g (savedContext m p)) := decidable_of_iff _ (loads_iff m p).symm

theorem execBlock_loadCode (s : Cpu) : execBlock g loadCode s =
    if Loads g (savedContext s.mem (s.reg .edx)) then some (loadCode.foldl apply s) else none := by
  have behind : ∀ c : Cpu, execBlock g (loadCode.drop 10) c = some ((loadCode.drop 10).foldl apply c) :=
    fun c => execBlock_plain (by decide)
  simp only [loadCode, List.drop_succ_cons, List.drop_zero] at behind
  simp only [loadCode, execBlock_selected, selected_mem, selected_edx, behind, loads_iff]
  split_ifs <;> first | rfl | simp_all

/-- The new context is taken out of `cpu_state` of the new process; behind it `ret` finds
the instruction pointer on the new stack. -/
theorem loadCode_spec (s : Cpu) (slot : Clear (s.reg .edx) ((savedContext s.mem (s.reg .edx)).esp - 4)) :
    runningContext { (loadCode.foldl apply s).pop.2 with eip := (loadCode.foldl apply s).pop.1 } =
      savedContext s.mem (s.reg .edx) ∧
    ∀ x, ¬Inside ((savedContext s.mem (s.reg .edx)).esp - 4) 4 x → (loadCode.foldl apply s).mem x = s.mem x := by
  have esp : (savedContext s.mem (s.reg .edx)).esp = readWord s.mem (offset (s.reg .edx) 64) := rfl
  rw [esp] at slot ⊢
  -- `cpu_state` is still read when the flags are on the new stack; they are not in it.
  have field : ∀ (i : Nat) (w : Word), 40 ≤ i → i + 4 ≤ 96 →
      readWord (writeWord s.mem (readWord s.mem (offset (s.reg .edx) 64) - 4) w) (offset (s.reg .edx) i) =
        readWord s.mem (offset (s.reg .edx) i) :=
    fun i w low high => readWord_congr fun x inside =>
      writeWord_outside fun on => slot x on (field_inside low high inside)
  refine ⟨?_, ?_⟩
  · rw [savedContext_eq]
    simp [loadCode, apply, runningContext, Cpu.set, Cpu.push, Cpu.pop, lowHalf_low, readWord_writeWord,
      interruptFlag_popfd]
    refine ⟨field 72 _ (by decide) (by decide), field 44 _ (by decide) (by decide), field 56 _ (by decide) (by decide),
      field 60 _ (by decide) (by decide), ?_⟩
    funext seg
    cases seg <;> rfl
  · intro x out
    simp [loadCode, apply, Cpu.set, Cpu.push, Cpu.pop]
    exact (writeWord_outside out).trans (writeWord_outside out)

end Load

section Call

variable {g : Interrupt.Gdt} {s : Cpu}

def returned (s : Cpu) : Cpu := { s.pop.2 with eip := s.pop.1 }

def fetched (s : Cpu) : Cpu := fetchCode.foldl apply s

def resumed (s : Cpu) : Cpu :=
  let s := apply s (.test .edx)
  returned (if s.reg .edx = 0 then s else loadCode.foldl apply s)

theorem exec_resumed (s : Cpu) (fuel : Nat) : exec g processSwitchCode (fuel + 25) 27 s =
    if s.reg .edx = 0 ∨ Loads g (savedContext s.mem (s.reg .edx)) then some (resumed s) else none := by
  have test : faults g s (.test .edx) = false := rfl
  rw [exec_one (show processSwitchCode[27]? = some (.test .edx) from rfl) rfl, test, if_neg Bool.false_ne_true,
    exec_jz (show processSwitchCode[28]? = some (.jz 51) from rfl), resumed, zeroFlag, apply, setStatus_zero]
  by_cases null : s.reg .edx = 0
  · simp only [null, decide_true, if_true, true_or]
    exact exec_ret rfl
  · simp only [null, decide_false, Bool.false_eq_true, if_false, false_or]
    rw [show fuel + 23 = loadCode.length + (fuel + 1) by rw [show loadCode.length = 22 from rfl]; omega,
      exec_straight (show processSwitchCode.drop 29 = loadCode ++ [.ret] from rfl) (by decide), execBlock_loadCode]
    change (if Loads g (savedContext s.mem (s.reg .edx)) then
      some (loadCode.foldl apply { s with eflags := setStatus s.eflags (status false false false (s.reg .edx)) })
      else none).bind _ = _
    split
    next =>
      rw [Option.bind_some]
      exact exec_ret rfl
    next => rfl

/-- The arguments of a call that `s` enters. -/
def oldProcess (s : Cpu) : Word := readWord s.mem (offset (s.reg .esp) 4)
def newProcess (s : Cpu) : Word := readWord s.mem (offset (s.reg .esp) 8)

theorem fetched_eax (s : Cpu) : (fetched s).reg .eax = oldProcess s := by
  simp [fetched, fetchCode, apply, Cpu.set, oldProcess]

theorem fetched_edx (s : Cpu) : (fetched s).reg .edx = newProcess s := by
  simp [fetched, fetchCode, apply, Cpu.set, newProcess]

theorem fetched_memory (s : Cpu) : (fetched s).mem = s.mem := rfl

theorem fetched_esp (s : Cpu) : (fetched s).reg .esp = s.reg .esp := by
  simp [fetched, fetchCode, apply, Cpu.set]

theorem fetched_context (s : Cpu) : callContext (fetched s) = callContext s := by
  simp [callContext, fetched, fetchCode, apply, Cpu.set, interruptFlag_status]

theorem savedContext_congr {m m' : Memory} {p : Word} (same : ∀ x, CpuState p x → m x = m' x) :
    savedContext m p = savedContext m' p := by
  have word : ∀ i, 40 ≤ i → i + 4 ≤ 96 → readWord m (offset p i) = readWord m' (offset p i) :=
    fun i low high => readWord_congr fun x inside => same x (field_inside low high inside)
  have half : ∀ i, 40 ≤ i → i + 2 ≤ 96 → readHalf m (offset p i) = readHalf m' (offset p i) :=
    fun i low high => readHalf_congr fun x inside => same x (field_inside low high inside)
  simp [savedContext_eq, word 72, word 64, word 44, word 56, word 60, word 68, word 76, half 86, half 88, half 90,
    half 92, half 94]

def saved (s : Cpu) : Cpu := if oldProcess s = 0 then fetched s else saveCode.foldl apply (fetched s)

theorem processSwitch_saved (s : Cpu) : ∃ fuel, processSwitch g s = exec g processSwitchCode (fuel + 25) 27 (saved s) := by
  have flag : zeroFlag (fetched s) = decide (oldProcess s = 0) := by
    rw [← fetched_eax]
    exact setStatus_zero ..
  have fetch : execBlock g fetchCode s = some (fetched s) := execBlock_plain (by decide)
  have save : execBlock g saveCode (fetched s) = some (saveCode.foldl apply (fetched s)) := execBlock_plain (by decide)
  rw [processSwitch, show 52 = fetchCode.length + (48 + 1) from rfl,
    exec_straight (show processSwitchCode.drop 0 = fetchCode ++ processSwitchCode.drop 3 from rfl) (by decide), fetch,
    Option.bind_some, exec_jz (show processSwitchCode[0 + fetchCode.length]? = some (.jz 27) from rfl), flag, saved]
  by_cases none : oldProcess s = 0
  · refine ⟨23, ?_⟩
    simp only [none, decide_true, if_true]
  · refine ⟨0, ?_⟩
    simp only [none, decide_false, Bool.false_eq_true, if_false]
    rw [show 48 = saveCode.length + (0 + 25) from rfl,
      exec_straight (show processSwitchCode.drop (0 + fetchCode.length + 1) = saveCode ++ processSwitchCode.drop 27 from rfl)
        (by decide), save]
    rfl

theorem processSwitch_eq (s : Cpu) : processSwitch g s =
    if (saved s).reg .edx = 0 ∨ Loads g (savedContext (saved s).mem ((saved s).reg .edx)) then some (resumed (saved s))
    else none := by
  obtain ⟨fuel, eq⟩ := processSwitch_saved (g := g) s
  rw [eq, exec_resumed]

theorem saved_reg (s : Cpu) {r : Reg} (other : r ≠ .ecx) : (saved s).reg r = (fetched s).reg r := by
  rw [saved]
  split
  next => rfl
  next => exact saveCode_reg _ other

theorem saved_edx (s : Cpu) : (saved s).reg .edx = newProcess s := (saved_reg s (by decide)).trans (fetched_edx s)

theorem saved_seg (s : Cpu) : (saved s).seg = s.seg := by
  rw [saved]
  split
  next => rfl
  next => simp [saveCode, apply, Cpu.set, Cpu.push, Cpu.pop, fetched, fetchCode]

theorem saved_interrupt (s : Cpu) : interruptFlag (saved s).eflags = interruptFlag s.eflags := by
  rw [saved]
  split
  next => simp [fetched, fetchCode, apply, Cpu.set, interruptFlag_status]
  next => simp [saveCode, apply, Cpu.set, Cpu.push, Cpu.pop, fetched, fetchCode, interruptFlag_status]

/-- The processes in `procs`, whose saved states do not overlap. -/
structure Apart (procs : Word → Prop) : Prop where
  nonNull : ¬procs 0
  apart : ∀ p q, procs p → procs q → p ≠ q → ∀ x, CpuState p x → ¬CpuState q x

/-- The word at `a` is in no saved state. -/
def OnStack (procs : Word → Prop) (a : Word) : Prop := ∀ p, procs p → Clear p a

variable {procs : Word → Prop} (apart : Apart procs) (some : oldProcess s = 0 ∨ procs (oldProcess s))
variable (top : OnStack procs (s.reg .esp)) (below : OnStack procs (s.reg .esp - 4))
include some top below

theorem saved_spec (real : oldProcess s ≠ 0) : savedContext (saved s).mem (oldProcess s) = callContext s ∧
    ∀ x, ¬CpuState (oldProcess s) x → ¬Inside (s.reg .esp - 4) 4 x → (saved s).mem x = s.mem x := by
  have proc := some.resolve_left real
  have spec := saveCode_spec (fetched s) (by rw [fetched_eax, fetched_esp]; exact top _ proc)
    (by rw [fetched_eax, fetched_esp]; exact below _ proc)
  rw [fetched_eax, fetched_context, fetched_esp, fetched_memory] at spec
  rw [saved, if_neg real]
  exact spec

theorem saved_return : readWord (saved s).mem (s.reg .esp) = readWord s.mem (s.reg .esp) := by
  by_cases real : oldProcess s = 0
  · rw [saved, if_pos real]
    rfl
  · apply readWord_congr
    intro x inside
    refine (saved_spec some top below real).2 x (top _ (some.resolve_left real) x inside) fun on => ?_
    have behind : s.reg .esp = offset (s.reg .esp - 4) 4 := (BitVec.sub_add_cancel _ _).symm
    rw [behind] at inside
    rw [← offset_zero (s.reg .esp - 4)] at on
    exact apart_offsets (i := 0) (n := 4) (Or.inl (by decide)) (by decide) (by decide) inside on

theorem returned_saved : runningContext (returned (apply (saved s) (.test .edx))) = callContext s := by
  have esp : (saved s).reg .esp = s.reg .esp := (saved_reg s (by decide)).trans (fetched_esp s)
  have ret := saved_return some top below
  simp only [runningContext, callContext, returned, apply, Cpu.pop, Cpu.set, Function.update_self, esp, ret, saved_seg,
    interruptFlag_status, saved_interrupt]
  simp [saved_reg, fetched, fetchCode, apply, Cpu.set]

include apart

theorem saved_other {q : Word} (proc : procs q) (other : q ≠ oldProcess s) :
    savedContext (saved s).mem q = savedContext s.mem q := by
  by_cases real : oldProcess s = 0
  · rw [saved, if_pos real]
    rfl
  · have old := some.resolve_left real
    apply savedContext_congr
    intro x inside
    refine (saved_spec some top below real).2 x (apart.apart _ _ proc old other x inside) ?_
    exact fun on => below q proc x on inside

/-- What a call goes on with: the context of the new process, which is the caller's own when
there is no new process or it is the old one. -/
def goal (s : Cpu) : Context :=
  if newProcess s = 0 ∨ newProcess s = oldProcess s then callContext s else savedContext s.mem (newProcess s)

/-- There is no other process to go to, or its selectors can be loaded. -/
def Enterable (g : Interrupt.Gdt) (s : Cpu) : Prop := newProcess s = 0 ∨ Loads g (goal s)

variable (known : newProcess s = 0 ∨ procs (newProcess s))
include known

theorem saved_goal (real : newProcess s ≠ 0) : savedContext (saved s).mem (newProcess s) = goal s := by
  rw [goal]
  by_cases same : newProcess s = oldProcess s
  · rw [if_pos (Or.inr same), same]
    exact (saved_spec some top below (same ▸ real)).1
  · rw [if_neg (not_or.mpr ⟨real, same⟩)]
    exact saved_other apart some top below (known.resolve_left real) same

theorem enterable_iff : Enterable g s ↔
    (saved s).reg .edx = 0 ∨ Loads g (savedContext (saved s).mem ((saved s).reg .edx)) := by
  rw [saved_edx]
  by_cases null : newProcess s = 0
  · exact ⟨fun _ => Or.inl null, fun _ => Or.inl null⟩
  · rw [saved_goal apart some top below known null, Enterable]

theorem processSwitch_faults (refused : ¬Enterable g s) : processSwitch g s = none := by
  rw [enterable_iff apart some top below known] at refused
  rw [processSwitch_eq, if_neg refused]

/-- One call. It leaves the caller's context in the old process and those of the others as
they were, and goes on with the context of the new process. -/
theorem processSwitch_spec (enter : Enterable g s)
    (slot : newProcess s ≠ 0 → newProcess s ≠ oldProcess s →
      OnStack procs ((savedContext s.mem (newProcess s)).esp - 4)) :
    ∃ t, processSwitch g s = Option.some t ∧
      (oldProcess s ≠ 0 → savedContext t.mem (oldProcess s) = callContext s) ∧
      (∀ q, procs q → q ≠ oldProcess s → savedContext t.mem q = savedContext s.mem q) ∧
      runningContext t = goal s := by
  have old := fun real => (saved_spec some top below real).1
  have other := fun q => saved_other (q := q) apart some top below
  have edx : (apply (saved s) (.test .edx)).reg .edx = newProcess s := saved_edx s
  rw [enterable_iff apart some top below known] at enter
  rw [processSwitch_eq, if_pos enter]
  refine ⟨_, rfl, ?_⟩
  simp only [resumed, edx]
  by_cases null : newProcess s = 0
  · rw [if_pos null, goal, if_pos (Or.inl null)]
    exact ⟨old, other, returned_saved some top below⟩
  · rw [if_neg null]
    have proc := known.resolve_left null
    have memory : (apply (saved s) (.test .edx)).mem = (saved s).mem := rfl
    have context := saved_goal apart some top below known null
    have free : OnStack procs ((goal s).esp - 4) := by
      rw [goal]
      by_cases same : newProcess s = oldProcess s
      · rw [if_pos (Or.inr same), callContext, BitVec.add_sub_cancel]
        exact top
      · rw [if_neg (not_or.mpr ⟨null, same⟩)]
        exact slot null same
    have spec := loadCode_spec (apply (saved s) (.test .edx)) (by rw [edx, memory, context]; exact free _ proc)
    rw [edx, memory, context] at spec
    -- The new stack is in no saved state, so the contexts are those behind the save.
    have kept : ∀ q, procs q → savedContext (loadCode.foldl apply (apply (saved s) (.test .edx))).mem q =
        savedContext (saved s).mem q :=
      fun q hq => savedContext_congr fun x inside => spec.2 x fun on => free q hq x on inside
    refine ⟨fun real => ?_, fun q hq ne => ?_, spec.1⟩
    · exact (kept _ (some.resolve_left real)).trans (old real)
    · exact (kept q hq).trans (other q hq ne)

end Call

section Runs

/-- The processor, the process that runs, and where each suspended process is to go on. -/
structure System where
  cpu : Cpu
  running : Word
  resume : Word → Option Context

inductive Event
  /-- The running process computes: it leaves the processor and the memory as in `cpu`. -/
  | compute (cpu : Cpu)
  /-- The running process does so and sets up the process at `p`. -/
  | create (p : Word) (cpu : Cpu)
  /-- It calls `process_switch`. -/
  | call

def nextRunning (s : System) : Word := if newProcess s.cpu = 0 then s.running else newProcess s.cpu

def step (g : Interrupt.Gdt) (s : System) : Event → System
  | .compute cpu => { s with cpu := cpu }
  | .create p cpu => { s with cpu := cpu, resume := Function.update s.resume p (some (savedContext cpu.mem p)) }
  | .call =>
    { cpu := (processSwitch g s.cpu).getD s.cpu
      running := nextRunning s
      resume := fun p =>
        if p = nextRunning s then none
        else if p = oldProcess s.cpu then some (callContext s.cpu)
        else s.resume p }

variable (g : Interrupt.Gdt) (procs : Word → Prop)

/-- A call with processes as its arguments and the stack pointer on a stack. A new process
that is not suspended has a stack pointer in its `cpu_state` too. -/
structure Callable (s : System) : Prop where
  old : oldProcess s.cpu = 0 ∨ procs (oldProcess s.cpu)
  new : newProcess s.cpu = 0 ∨ procs (newProcess s.cpu)
  top : OnStack procs (s.cpu.reg .esp)
  below : OnStack procs (s.cpu.reg .esp - 4)
  slot : s.resume (newProcess s.cpu) = none → newProcess s.cpu ≠ 0 → newProcess s.cpu ≠ oldProcess s.cpu →
    OnStack procs ((savedContext s.cpu.mem (newProcess s.cpu)).esp - 4)

/-- The running process may do anything but write the saved state of another process; a
process that it sets up, there for the first time or in the place of one that is gone, gets
a stack. Behind a call that faults nothing happens any more. -/
def Allowed (s : System) : Event → Prop
  | .compute cpu => ∀ q, procs q → q ≠ s.running → ∀ x, CpuState q x → cpu.mem x = s.cpu.mem x
  | .create p cpu => p ≠ s.running ∧ OnStack procs ((savedContext cpu.mem p).esp - 4) ∧
    ∀ q, procs q → q ≠ s.running → q ≠ p → ∀ x, CpuState q x → cpu.mem x = s.cpu.mem x
  | .call => Callable procs s ∧ Enterable g s.cpu

/-- The call returns, and what goes on is the new process where it was switched out, or as it
was set up; without another process to go to it is the caller. -/
def Keeps (s : System) : Prop :=
  ∃ t, processSwitch g s.cpu = some t ∧
    (∀ c, s.resume (newProcess s.cpu) = some c → newProcess s.cpu ≠ 0 → newProcess s.cpu ≠ oldProcess s.cpu →
      runningContext t = c) ∧
    (newProcess s.cpu = 0 ∨ newProcess s.cpu = oldProcess s.cpu → runningContext t = callContext s.cpu)

/-- The saved state of a suspended process is what it is to go on with. -/
structure Suspended (s : System) : Prop where
  running : s.resume s.running = none
  context : ∀ p c, procs p → s.resume p = some c → savedContext s.cpu.mem p = c
  stack : ∀ p c, procs p → s.resume p = some c → OnStack procs (c.esp - 4)

variable {g procs} {s : System} (apart : Apart procs)
include apart

theorem Suspended.call (h : Suspended procs s) (call : Callable procs s) (enter : Enterable g s.cpu) :
    ∃ t, processSwitch g s.cpu = some t ∧
      (oldProcess s.cpu ≠ 0 → savedContext t.mem (oldProcess s.cpu) = callContext s.cpu) ∧
      (∀ q, procs q → q ≠ oldProcess s.cpu → savedContext t.mem q = savedContext s.cpu.mem q) ∧
      runningContext t = goal s.cpu := by
  refine processSwitch_spec apart call.old call.top call.below call.new enter fun real other => ?_
  cases waiting : s.resume (newProcess s.cpu) with
  | none => exact call.slot waiting real other
  | some c =>
    have proc := call.new.resolve_left real
    rw [h.context _ c proc waiting]
    exact h.stack _ c proc waiting

theorem step_suspended (h : Suspended procs s) {e : Event} (ok : Allowed g procs s e) :
    Suspended procs (step g s e) := by
  have other : ∀ p c, s.resume p = some c → p ≠ s.running := by
    rintro p c waiting rfl
    rw [h.running] at waiting
    contradiction
  cases e with
  | compute cpu =>
    refine ⟨h.running, fun p c proc waiting => ?_, h.stack⟩
    rw [← h.context p c proc waiting]
    exact savedContext_congr (ok p proc (other p c waiting))
  | create p cpu =>
    obtain ⟨notRunning, stack, frame⟩ := ok
    refine ⟨?_, fun q c proc waiting => ?_, fun q c proc waiting => ?_⟩
    · simp only [step]
      rw [Function.update_of_ne notRunning.symm]
      exact h.running
    · simp only [step, Function.update_apply] at waiting ⊢
      split at waiting
      next same => simpa [same] using waiting
      next ne =>
        rw [← h.context q c proc waiting]
        exact savedContext_congr (frame q proc (other q c waiting) ne)
    · simp only [step, Function.update_apply] at waiting
      split at waiting
      next same =>
        obtain rfl : savedContext cpu.mem p = c := by simpa using waiting
        exact stack
      next ne => exact h.stack q c proc waiting
  | call =>
    obtain ⟨t, eq, old, others, -⟩ := h.call apart ok.1 ok.2
    refine ⟨if_pos rfl, fun p c proc waiting => ?_, fun p c proc waiting => ?_⟩
    · simp only [step, eq, Option.getD_some] at waiting ⊢
      split_ifs at waiting with next same
      · obtain rfl : callContext s.cpu = c := by simpa using waiting
        rw [same]
        exact old fun null => apart.nonNull (by rw [← null, ← same]; exact proc)
      · rw [others p proc same]
        exact h.context p c proc waiting
    · simp only [step] at waiting
      split_ifs at waiting with next same
      · obtain rfl : callContext s.cpu = c := by simpa using waiting
        rw [callContext, BitVec.add_sub_cancel]
        exact ok.1.top
      · exact h.stack p c proc waiting

omit apart in
theorem start_suspended {cpu : Cpu} {running : Word}
    (slots : ∀ p, procs p → p ≠ running → OnStack procs ((savedContext cpu.mem p).esp - 4)) :
    Suspended procs ⟨cpu, running, fun p => if p = running then none else some (savedContext cpu.mem p)⟩ := by
  refine ⟨if_pos rfl, fun p c proc waiting => ?_, fun p c proc waiting => ?_⟩
  · simp only at waiting ⊢
    split_ifs at waiting
    simpa using waiting
  · simp only at waiting
    split_ifs at waiting with same
    obtain rfl : savedContext cpu.mem p = c := by simpa using waiting
    exact slots p proc same

/-- In every run, a call keeps the contexts exactly when there is no other process to go to, or
its selectors can be loaded. -/
theorem switches_keep_contexts_iff {cpu : Cpu} {running : Word}
    (slots : ∀ p, procs p → p ≠ running → OnStack procs ((savedContext cpu.mem p).esp - 4)) {events : List Event}
    (run : Exec (Allowed g procs) (step g)
      ⟨cpu, running, fun p => if p = running then none else some (savedContext cpu.mem p)⟩ events s)
    (call : Callable procs s) : Keeps g s ↔ Enterable g s.cpu := by
  have suspended : Suspended procs s :=
    run.invariant (fun s e h ok => step_suspended apart h ok) (start_suspended slots)
  constructor
  · rintro ⟨t, eq, -⟩
    by_contra refused
    rw [processSwitch_faults apart call.old call.top call.below call.new refused] at eq
    contradiction
  · intro enter
    obtain ⟨t, eq, -, -, context⟩ := suspended.call apart call enter
    refine ⟨t, eq, fun c waiting real other => ?_, fun none => ?_⟩
    · rw [context, goal, if_neg (not_or.mpr ⟨real, other⟩)]
      exact suspended.context _ c (call.new.resolve_left real) waiting
    · rw [context, goal, if_pos none]

end Runs

section Example

theorem clear_of_far {p a : Word} (behind : 96 ≤ (a - p).toNat) (room : (a - p).toNat + 4 ≤ 2 ^ 32) : Clear p a := by
  intro x inside state
  rw [cpuState_iff] at state
  have split : x - p = (x - a) + (a - p) := by bv_omega
  rw [split, BitVec.toNat_add] at state
  simp only [Inside] at inside
  omega

theorem apart_of_far {p q x : Word} (behind : 56 ≤ (p - q).toNat) (before : (p - q).toNat + 56 ≤ 2 ^ 32)
    (state : CpuState p x) : ¬CpuState q x := by
  rw [cpuState_iff] at state ⊢
  have split : x - q = (x - p) + (p - q) := by bv_omega
  rw [split, BitVec.toNat_add]
  omega

def twoProcs (p : Word) : Prop := p = 0x1000 ∨ p = 0x2000

def kernelGdt : Interrupt.Gdt := Interrupt.gdtInit (fun _ => ⟨0, 0, 0, 0, 0, 0⟩) 0x18000

/-- The process at 0x1000 calls `process_switch` to go to that at 0x2000, which has not run yet
and starts at `eip` with `selector` in its segment registers. -/
def firstCall (eip : Word) (selector : Half) : Cpu where
  reg
    | .esp => 0x8000
    | .ebx => 7
    | _ => 0
  seg _ := 0x10
  eflags := 0x202
  eip := 0
  mem :=
    let m : Memory := writeWord (writeWord (fun _ => 0) (offset 0x2000 64) 0x9000) (offset 0x2000 72) eip
    let m := [86, 88, 90, 92, 94].foldl (fun m i => writeHalf m (offset 0x2000 i) selector) m
    writeWord (writeWord (writeWord m 0x8000 0x1234) 0x8004 0x1000) 0x8008 0x2000

def firstSystem (eip : Word) (selector : Half) : System :=
  ⟨firstCall eip selector, 0x1000,
    fun p => if p = 0x1000 then none else some (savedContext (firstCall eip selector).mem p)⟩

/-- The new process was set up by `process_create`. -/
def kernelCall : Cpu := firstCall 0x400000 0x10

/-- The new process was set up by `process_create_user_mode`. -/
def userCall : Cpu := firstCall 0x40000000 0x23

def callBack : Cpu :=
  let s := (processSwitch kernelGdt kernelCall).getD kernelCall
  { s with
    reg
      | .esp => 0x8FF0
      | _ => 99
    mem := writeWord (writeWord (writeWord s.mem 0x8FF0 0x400010) 0x8FF4 0x2000) 0x8FF8 0x1000 }

theorem twoProcs_apart : Apart twoProcs := by
  refine ⟨?_, ?_⟩
  · rintro (h | h)
    · exact absurd h (by decide)
    · exact absurd h (by decide)
  · rintro p q (rfl | rfl) (rfl | rfl) other x state
    · exact absurd rfl other
    · exact apart_of_far (by decide) (by decide) state
    · exact apart_of_far (by decide) (by decide) state
    · exact absurd rfl other

theorem twoProcs_onStack {a : Word} (far : 96 ≤ (a - 0x1000).toNat ∧ (a - 0x1000).toNat + 4 ≤ 2 ^ 32)
    (far' : 96 ≤ (a - 0x2000).toNat ∧ (a - 0x2000).toNat + 4 ≤ 2 ^ 32) : OnStack twoProcs a := by
  rintro p (rfl | rfl)
  · exact clear_of_far far.1 far.2
  · exact clear_of_far far'.1 far'.2

theorem kernelCall_arguments : oldProcess kernelCall = 0x1000 ∧ newProcess kernelCall = 0x2000 := by decide +kernel

theorem userCall_arguments : oldProcess userCall = 0x1000 ∧ newProcess userCall = 0x2000 := by decide +kernel

theorem callBack_arguments : oldProcess callBack = 0x2000 ∧ newProcess callBack = 0x1000 := by decide +kernel

theorem twoProcs_slots {cpu : Cpu} (esp : (savedContext cpu.mem 0x2000).esp = 0x9000) (p : Word) (proc : twoProcs p)
    (other : p ≠ 0x1000) : OnStack twoProcs ((savedContext cpu.mem p).esp - 4) := by
  rcases proc with rfl | rfl
  · exact absurd rfl other
  · rw [esp]
    exact twoProcs_onStack (by decide) (by decide)

theorem firstSystem_callable {eip : Word} {selector : Half}
    (arguments : oldProcess (firstCall eip selector) = 0x1000 ∧ newProcess (firstCall eip selector) = 0x2000) :
    Callable twoProcs (firstSystem eip selector) := by
  have top : OnStack twoProcs 0x8000 := twoProcs_onStack (by decide) (by decide)
  have below : OnStack twoProcs (0x8000 - 4) := twoProcs_onStack (by decide) (by decide)
  refine ⟨Or.inr (Or.inl arguments.1), Or.inr (Or.inr arguments.2), top, below, fun none => ?_⟩
  simp only [firstSystem, arguments.2] at none
  exact absurd none (by simp)

theorem kernelSelectors_load {c : Context} (selectors : c.seg .ds = 0x10 ∧ c.seg .es = 0x10 ∧ c.seg .fs = 0x10 ∧
    c.seg .gs = 0x10 ∧ c.seg .ss = 0x10) : Loads kernelGdt c := by
  obtain ⟨ds, es, fs, gs, ss⟩ := selectors
  refine fun seg => (loadable_iff _ _ seg _).mpr (Or.inl ?_)
  cases seg with
  | ds => exact ds
  | es => exact es
  | fs => exact fs
  | gs => exact gs
  | ss => exact ss

theorem kernelCall_enterable : Enterable kernelGdt kernelCall := by
  refine Or.inr (kernelSelectors_load ?_)
  rw [goal, kernelCall_arguments.1, kernelCall_arguments.2, if_neg (by decide)]
  decide +kernel

def secondSystem : System := step kernelGdt (firstSystem 0x400000 0x10) .call

def backSystem : System := step kernelGdt secondSystem (.compute callBack)

theorem secondSystem_running : secondSystem.running = 0x2000 := by
  have new : newProcess (firstSystem 0x400000 0x10).cpu = 0x2000 := kernelCall_arguments.2
  simp only [secondSystem, step, nextRunning, new]
  decide

theorem backSystem_resume : backSystem.resume 0x1000 = some (callContext kernelCall) := by
  have arguments : oldProcess (firstSystem 0x400000 0x10).cpu = 0x1000 ∧
      newProcess (firstSystem 0x400000 0x10).cpu = 0x2000 := kernelCall_arguments
  simp only [backSystem, secondSystem, step, nextRunning, arguments]
  rfl

theorem callBack_frame {x : Word} (state : CpuState 0x1000 x) : callBack.mem x = secondSystem.cpu.mem x := by
  have outside : ∀ a : Word, 96 ≤ (a - 0x1000).toNat ∧ (a - 0x1000).toNat + 4 ≤ 2 ^ 32 → ¬Inside a 4 x :=
    fun a far inside => clear_of_far far.1 far.2 x inside state
  simp only [callBack]
  rw [writeWord_outside (outside _ (by decide)), writeWord_outside (outside _ (by decide)),
    writeWord_outside (outside _ (by decide))]
  rfl

theorem callBack_callable : Callable twoProcs backSystem := by
  refine ⟨Or.inr (Or.inr callBack_arguments.1), Or.inr (Or.inl callBack_arguments.2),
    twoProcs_onStack (by decide) (by decide), twoProcs_onStack (by decide) (by decide), fun none => ?_⟩
  rw [show newProcess backSystem.cpu = 0x1000 from callBack_arguments.2, backSystem_resume] at none
  contradiction

/-- The first process goes on behind its call, with the value it had in `ebx`. -/
theorem switches_keep_contexts_iff_back : ∃ t, processSwitch kernelGdt callBack = some t ∧
    (runningContext t).eip = 0x1234 ∧ (runningContext t).esp = 0x8004 ∧ (runningContext t).ebx = 7 := by
  have frame : Allowed kernelGdt twoProcs secondSystem (.compute callBack) := by
    rintro q (rfl | rfl) other x state
    · exact callBack_frame state
    · exact absurd secondSystem_running.symm other
  have run : Exec (Allowed kernelGdt twoProcs) (step kernelGdt) (firstSystem 0x400000 0x10) [.call, .compute callBack]
      backSystem :=
    .cons ⟨firstSystem_callable kernelCall_arguments, kernelCall_enterable⟩ (.cons frame (.nil _))
  have enter : Enterable kernelGdt callBack := by
    refine Or.inr (kernelSelectors_load ?_)
    rw [goal, callBack_arguments.1, callBack_arguments.2, if_neg (by decide)]
    decide +kernel
  obtain ⟨t, eq, back, -⟩ := (switches_keep_contexts_iff twoProcs_apart (twoProcs_slots (by decide +kernel)) run
    callBack_callable).mpr enter
  have new : newProcess backSystem.cpu = 0x1000 := callBack_arguments.2
  have old : oldProcess backSystem.cpu = 0x2000 := callBack_arguments.1
  have context := back (callContext kernelCall) (by rw [new]; exact backSystem_resume)
    (by rw [new]; decide) (by rw [new, old]; decide)
  refine ⟨t, eq, ?_⟩
  rw [context]
  decide +kernel

/-- `mov ss, cx` faults with the selector that `process_create_user_mode` stores: the new
process never starts. -/
theorem user_process_never_starts : Callable twoProcs (firstSystem 0x40000000 0x23) ∧
    (firstSystem 0x40000000 0x23).resume 0x2000 = some (savedContext userCall.mem 0x2000) ∧
    processSwitch kernelGdt userCall = none ∧ ¬Keeps kernelGdt (firstSystem 0x40000000 0x23) := by
  have faults : processSwitch kernelGdt userCall = none := by decide +kernel
  refine ⟨firstSystem_callable userCall_arguments, rfl, faults, ?_⟩
  rintro ⟨t, eq, -⟩
  rw [show (firstSystem 0x40000000 0x23).cpu = userCall from rfl, faults] at eq
  contradiction

end Example

end Wittche.Switch
