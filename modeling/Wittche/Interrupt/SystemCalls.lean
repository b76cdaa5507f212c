import Wittche.Interrupt.Transparency
import Wittche.Process.ContextSwitch

/-! The gate for system calls: which vectors level 3 may call, what `syscall_dispatch` gets from
a caller, and what the caller gets back. Then the way of a process to level 3. -/

namespace Wittche.Interrupt
open Bytes AddressSpace Switch

section Code

variable (k : Image)

def syscallLeave : List Instr :=
  [.plain (.add .esp 20),
   .plain (.store .esp 0 .eax),
   .plain (.pop .eax), .plain (.pop .ebx), .plain (.pop .ecx), .plain (.pop .edx), .plain (.pop .esi),
   .plain (.pop .edi), .plain (.pop .ebp),
   .iret]

def callerWords (c : Cpu) : List Word :=
  [c.reg .ebp, c.reg .edi, c.reg .esi, c.reg .edx, c.reg .ecx, c.reg .ebx, c.reg .eax]

def argumentWords (c : Cpu) : List Word := [c.reg .esi, c.reg .edx, c.reg .ecx, c.reg .ebx, c.reg .eax]

theorem exec_pushes (rs : List Reg) (free : .esp ∉ rs) (is : List Instr) (c : Core) :
    exec k (rs.map (fun r => .plain (.push r)) ++ is) c =
      exec k is { c with cpu := pushes c.cpu (rs.map c.cpu.reg) } := by
  induction rs generalizing c with
  | nil => rfl
  | cons r rs ih =>
    have rest : .esp ∉ rs := fun inside => free (List.mem_cons_of_mem r inside)
    have kept : rs.map (c.cpu.push (c.cpu.reg r)).reg = rs.map c.cpu.reg :=
      List.map_congr_left fun q inside => Function.update_of_ne (ne_of_mem_of_not_mem inside rest) _ _
    refine (ih rest { c with cpu := c.cpu.push (c.cpu.reg r) }).trans ?_
    show exec k is { c with cpu := pushes _ (rs.map (c.cpu.push (c.cpu.reg r)).reg) } = _
    rw [kept]
    rfl

def dispatchWords (c : Cpu) : List Word := callerWords c ++ argumentWords c

theorem exec_dispatch (c : Core) : exec k syscallCode c =
    (k.routine .syscallDispatch { c with cpu := pushes c.cpu (dispatchWords c.cpu ++ [k.back .syscallDispatch]) }).bind
      (exec k syscallLeave) := by
  refine (exec_pushes k [.ebp, .edi, .esi, .edx, .ecx, .ebx, .eax, .esi, .edx, .ecx, .ebx, .eax] (by decide)
    (.call .syscallDispatch :: syscallLeave) c).trans ?_
  rw [← pushes_append]
  rfl

theorem leave_dispatch (c : Core) (v : Cpu) (rest : List Word)
    (small : 4 * (rest.length + 7) ≤ 2 ^ 32)
    (saved : Stack.Stacked c.cpu.mem (c.cpu.reg .esp + 20) ((callerWords v).reverse ++ rest)) :
    ∃ r : Core, exec k syscallLeave c = Interrupt.iret k.gdt r ∧ r.cs = c.cs ∧ r.tss = c.tss ∧
      r.cpu.seg = c.cpu.seg ∧ r.cpu.mem = writeWord c.cpu.mem (c.cpu.reg .esp + 20) (c.cpu.reg .eax) ∧
      r.cpu.reg .eax = c.cpu.reg .eax ∧ (∀ q, q ≠ .esp → q ≠ .eax → r.cpu.reg q = v.reg q) ∧
      Stack.Stacked r.cpu.mem (r.cpu.reg .esp) rest ∧ r.cpu.reg .esp = c.cpu.reg .esp + 48 := by
  have replaced := saved.pop.push (by simpa [callerWords] using small) (c.cpu.reg .eax)
  rw [BitVec.add_sub_cancel] at replaced
  have eax := replaced.top
  have ebx := replaced.pop.top
  have ecx := replaced.pop.pop.top
  have edx := replaced.pop.pop.pop.top
  have esi := replaced.pop.pop.pop.pop.top
  have edi := replaced.pop.pop.pop.pop.pop.top
  have ebp := replaced.pop.pop.pop.pop.pop.pop.top
  have frame := replaced.pop.pop.pop.pop.pop.pop.pop
  refine ⟨_, exec_iret k _, rfl, rfl, rfl, ?_, ?_, ?_, ?_, ?_⟩
  · simp [Cpu.pop, Cpu.set, Switch.apply]
  · simpa [Cpu.pop, Cpu.set, Switch.apply] using eax
  · intro q pointer result
    cases q with
    | eax => exact absurd rfl result
    | ebx => simpa [Cpu.pop, Cpu.set, Switch.apply] using ebx
    | ecx => simpa [Cpu.pop, Cpu.set, Switch.apply] using ecx
    | edx => simpa [Cpu.pop, Cpu.set, Switch.apply] using edx
    | esi => simpa [Cpu.pop, Cpu.set, Switch.apply] using esi
    | edi => simpa [Cpu.pop, Cpu.set, Switch.apply] using edi
    | esp => exact absurd rfl pointer
    | ebp => simpa [Cpu.pop, Cpu.set, Switch.apply] using ebp
  · simpa [Cpu.pop, Cpu.set, Switch.apply, BitVec.add_assoc] using frame
  · simp [Cpu.pop, Cpu.set, Switch.apply, BitVec.add_assoc]

end Code

section Calls

variable {k : Image} {stack : KernelStack} {data : Word → Prop} {room : Nat} {s : Core}

theorem rpl_lt (selector : Half) : rpl selector < 4 := Nat.mod_lt _ (by decide)

/-- `syscall_dispatch` is called with the number and the arguments of the caller. -/
theorem syscall_enters (k : Image) (s : Core) : ∃ h,
    interrupt k 0x80 true none s = (k.routine .syscallDispatch h).bind (exec k syscallLeave) ∧
      Called (interruptFrame s ++ callerWords s.cpu ++ (argumentWords s.cpu ++ [k.back .syscallDispatch])) s h ∧
      h.cpu.seg = (entryStack s).seg := by
  have level : Label.level .syscallInterruptHandler = 3 := by decide
  have allowed : ¬(true ∧ Label.level .syscallInterruptHandler < s.cpl) := by
    have below : s.cpl < 4 := rpl_lt s.cs
    rw [level]
    omega
  have runs := interrupt_label k .syscallInterruptHandler true none s allowed
  rw [Label.code, exec_dispatch] at runs
  have words : dispatchWords (arrived k .syscallInterruptHandler none s).cpu = dispatchWords s.cpu := by
    have reg : ∀ q, q ≠ .esp → (arrived k .syscallInterruptHandler none s).cpu.reg q = s.cpu.reg q :=
      fun q other => (pushes_reg _ _ other).trans (entry_reg s other)
    simp only [dispatchWords, callerWords, argumentWords, reg _ (show Reg.ebp ≠ .esp by decide),
      reg _ (show Reg.edi ≠ .esp by decide), reg _ (show Reg.esi ≠ .esp by decide),
      reg _ (show Reg.edx ≠ .esp by decide), reg _ (show Reg.ecx ≠ .esp by decide),
      reg _ (show Reg.ebx ≠ .esp by decide), reg _ (show Reg.eax ≠ .esp by decide)]
  have start : ((arrived k .syscallInterruptHandler none s).cpu.mem,
      (arrived k .syscallInterruptHandler none s).cpu.reg .esp) =
      Stack.pushed s.cpu.mem ((entryStack s).reg .esp) (interruptFrame s) := by
    rw [← entry_mem s, ← List.append_nil (interruptFrame s)]
    exact pushes_pushed (entryStack s) _
  have seg := (pushes_seg (arrived k .syscallInterruptHandler none s).cpu
    (dispatchWords (arrived k .syscallInterruptHandler none s).cpu ++ [k.back .syscallDispatch])).trans
    (pushes_seg (entryStack s) (interruptFrame s ++ []))
  refine ⟨_, runs, ⟨rfl, rfl, congrFun seg .ss, ?_⟩, seg⟩
  · rw [List.append_assoc, Stack.pushed_append, ← start, ← List.append_assoc]
    refine (pushes_pushed _ _).trans ?_
    rw [words]
    rfl

/-- The caller behind a system call that leaves `c`: it finds the result in `eax` and otherwise
the registers, the flags and the place of its call. -/
structure Answered (stack : KernelStack) (s c t : Core) : Prop where
  reg : t.cpu.reg = Function.update s.cpu.reg .eax (c.cpu.reg .eax)
  seg : t.cpu.seg = s.cpu.seg
  eflags : t.cpu.eflags = s.cpu.eflags
  eip : t.cpu.eip = s.cpu.eip
  cs : t.cs = s.cs
  mem : ∀ x, floor stack s ≤ stack.height x → t.cpu.mem x = c.cpu.mem x

theorem callFrame_length (s : Core) : (interruptFrame s ++ callerWords s.cpu ++
    (argumentWords s.cpu ++ [k.back .syscallDispatch])).length = (interruptFrame s).length + 13 := by
  rw [List.append_assoc, List.length_append]
  rfl

theorem syscall_leaves (conv : Conventional k stack data room) (ready : Ready k stack room s) {h c : Core}
    (called : Called (interruptFrame s ++ callerWords s.cpu ++
      (argumentWords s.cpu ++ [k.back .syscallDispatch])) s h)
    (segments : h.cpu.seg = (entryStack s).seg) (returned : Returned stack 5 h c) :
    ∃ t, exec k syscallLeave c = some t ∧ Answered stack s c t ∧ (s.tss = stack.tss → t.tss = stack.tss) := by
  have length := callFrame_length (k := k) s
  have frameFew := interruptFrame_length_le s
  have bounds := ready.floor_bounds conv
  have height := called.height conv ready (by omega)
  have saved := called.kept conv ready (by omega) rfl returned
  rw [List.reverse_append] at saved
  obtain ⟨r, back, cs, tss, seg, mem, eax, reg, frame, esp⟩ :=
    leave_dispatch k c s.cpu _ (by rw [List.length_reverse]; omega) saved
  have inside : KernelMode r := cs.trans (returned.cs.trans called.mode)
  have pointer : KernelMode s → r.cpu.reg .esp + 12 = s.cpu.reg .esp := by
    intro mode
    have words : (interruptFrame s).length = 3 := by
      rw [interruptFrame, if_neg (by rw [mode.cpl]; decide)]
      rfl
    have start : (entryStack s).reg .esp = s.cpu.reg .esp := by
      rw [entryStack, if_neg (by rw [mode.cpl]; decide)]
    rw [esp, returned.esp, called.esp, length, words, start]
    bv_omega
  have segs : r.cpu.seg = (entryStack s).seg := seg.trans (returned.seg.trans segments)
  have stackSegment : KernelMode s → r.cpu.seg .ss = s.cpu.seg .ss := by
    intro mode
    rw [segs, entryStack, if_neg (by rw [mode.cpl]; decide)]
  have others : ∀ q, q ≠ .ss → r.cpu.seg q = s.cpu.seg q := fun q other => (congrFun segs q).trans (entry_seg s other)
  have leaves := back.trans (iret_back ready inside frame pointer stackSegment others)
  have regs : Function.update r.cpu.reg .esp (s.cpu.reg .esp) =
      Function.update s.cpu.reg .eax (c.cpu.reg .eax) := by
    funext q
    by_cases stackPointer : q = .esp
    · rw [stackPointer, Function.update_self, Function.update_of_ne (by decide)]
    · by_cases result : q = .eax
      · rw [result, Function.update_of_ne (by decide), eax, Function.update_self]
      · rw [Function.update_of_ne stackPointer, Function.update_of_ne result, reg q stackPointer result]
  refine ⟨_, leaves, ⟨regs, rfl, rfl, rfl, rfl, ?_⟩, ?_⟩
  · intro x above
    refine (congrFun mem x).trans (writeWord_outside fun inside => ?_)
    have start : c.cpu.reg .esp + 20 = h.cpu.reg .esp + BitVec.ofNat 32 24 := by
      rw [returned.esp, BitVec.add_assoc]
      rfl
    have small := stack.small
    have fits : (h.cpu.reg .esp - stack.base).toNat + 24 + 4 ≤ 2 ^ 32 := by
      rw [← KernelStack.height]
      omega
    rw [start] at inside
    have range := (Stack.inside_above fits).mp inside
    rw [← KernelStack.height, ← KernelStack.height] at range
    omega
  · exact fun ours => tss.trans (returned.tss (called.tss.trans ours))

/-- A system call from its `int` to behind its `iret`: the dispatcher is called with the number
and the four arguments of the caller and with the memory of the caller; when it returns, the
caller goes on behind the `int`, with the result in `eax` and all else as it was. -/
theorem system_call (conv : Conventional k stack data room) (ready : Ready k stack room s) :
    ∃ h, Stack.Stacked h.cpu.mem (h.cpu.reg .esp + 4)
        [s.cpu.reg .eax, s.cpu.reg .ebx, s.cpu.reg .ecx, s.cpu.reg .edx, s.cpu.reg .esi] ∧
      (∀ x, floor stack s ≤ stack.height x → h.cpu.mem x = s.cpu.mem x) ∧
      ((k.routine .syscallDispatch h = none ∧ interrupt k 0x80 true none s = none) ∨
        ∃ c t, k.routine .syscallDispatch h = some c ∧ interrupt k 0x80 true none s = some t ∧
          Answered stack s c t ∧ Ready k stack room t) := by
  obtain ⟨h, runs, called, segments⟩ := syscall_enters k s
  have length := callFrame_length (k := k) s
  have frameFew := interruptFrame_length_le s
  have bounds := ready.floor_bounds conv
  have height := called.height conv ready (by omega)
  refine ⟨h, ?_, fun x above => called.mem_kept conv ready (by omega) above, ?_⟩
  · have stacked := called.stacked (by omega)
    rw [List.reverse_append, List.reverse_append] at stacked
    exact stacked.pop.left
  · cases answer : k.routine .syscallDispatch h with
    | none =>
      rw [answer] at runs
      exact .inl ⟨rfl, runs⟩
    | some c =>
      have returned := conv.returns .syscallDispatch h c called.mode (by omega) (by omega) answer
      obtain ⟨t, left, answered, tss⟩ := syscall_leaves conv ready called segments returned
      have pointer : t.cpu.reg .esp = s.cpu.reg .esp := by rw [answered.reg, Function.update_of_ne (by decide)]
      rw [answer, Option.bind_some, left] at runs
      exact .inr ⟨c, t, rfl, runs, answered, ready.keep answered.cs pointer answered.seg tss⟩

def callerSample : Core :=
  { userSample with cpu := { userSample.cpu with reg
      | .eax => 99
      | .ebx => 11
      | .ecx => 12
      | .edx => 13
      | .esi => 14
      | .edi => 15
      | .ebp => 16
      | .esp => 0x7FFFFF00 } }

theorem callerSample_ready : Ready idleImage sampleStack 0 callerSample :=
  .user rfl rfl fun _ _ => kept_userData _

theorem system_call_refused : ∃ h t : Core, Stack.Stacked h.cpu.mem (h.cpu.reg .esp + 4) [99, 11, 12, 13, 14] ∧
    interrupt idleImage 0x80 true none callerSample = some t ∧ t.cpu.reg .eax = -1 ∧ t.cpu.reg .ebx = 11 ∧
    t.cpu.reg .esp = 0x7FFFFF00 ∧ t.cpu.eip = 0x40000000 := by
  obtain ⟨h, arguments, -, ⟨none, -⟩ | ⟨c, t, answer, runs, answered, -⟩⟩ :=
    system_call (idleImage_conventional fun _ => False) callerSample_ready
  · exact absurd none (Option.some_ne_none _)
  · obtain rfl := Option.some.inj answer
    refine ⟨h, t, arguments, runs, ?_, ?_, ?_, answered.eip⟩
    · rw [answered.reg]
      rfl
    · rw [answered.reg]
      rfl
    · rw [answered.reg]
      rfl

end Calls

section Gates

variable {k : Image} {s : Core}

/-- Where a vector leads, of all 256 of them: through the 49 gates that are set up, and from
level 3 with an `int` through the one for system calls only. -/
theorem deliver_eq (k : Image) (n : Byte) (software : Bool) (error : Option Word) (s : Core) :
    deliver k.gdt k.idt n software error s =
      (labels.find? fun l => l.vector = n).bind fun l =>
        if software ∧ 0 < s.cpl ∧ l ≠ .syscallInterruptHandler then none else some (arrived k l error s) := by
  cases found : labels.find? fun l => l.vector = n with
  | none =>
    have free : ∀ l : Label, l.vector ≠ n := by
      intro l
      have := List.find?_eq_none.mp found l (mem_labels l)
      simpa using this
    rw [deliver, Image.idt, installed_other k.address n free]
    rfl
  | some l =>
    have hit := List.find?_some found
    have vector : l.vector = n := of_decide_eq_true hit
    have below : s.cpl < 4 := rpl_lt s.cs
    rw [← vector, deliver_label, Option.bind_some]
    congr 1
    rw [eq_iff_iff]
    cases l with
    | isr m => simp [Label.level, Label.flags]
    | irq m => simp [Label.level, Label.flags]
    | syscallInterruptHandler =>
      simp [Label.level, Label.flags]
      omega

end Gates

section Level3

variable {stack : KernelStack} {s : Core}

/-- What `enter_usermode` puts into EFLAGS: what `pushf` stores behind `cli`, with IF. -/
def userFlags (eflags : Word) : Word := ((eflags &&& ~~~(0x200 : Word)) &&& PUSHF_FLAGS) ||| 0x200

theorem enterUsermode_iret (k : Image) {back entry userStack : Word}
    (args : Stack.Stacked s.cpu.mem (s.cpu.reg .esp) [back, entry, userStack]) :
    ∃ r, enterUsermode k s = Interrupt.iret k.gdt r ∧ r.cs = s.cs ∧ r.tss = s.tss ∧
      (∀ q, q ≠ .ss → r.cpu.seg q = USER_DATA_SEGMENT ||| 3) ∧
      Stack.Stacked r.cpu.mem (r.cpu.reg .esp) [entry, 0x1B, userFlags s.cpu.eflags, userStack, 0x23] ∧
      ∀ x, ¬Inside (s.cpu.reg .esp - 20) 20 x → r.cpu.mem x = s.cpu.mem x := by
  have first : readWord s.cpu.mem (offset (s.cpu.reg .esp) 4) = entry := args.pop.top
  have second : readWord s.cpu.mem (offset (s.cpu.reg .esp) 8) = userStack := by
    have last := args.pop.pop.top
    rwa [BitVec.add_assoc] at last
  have empty : Stack.Stacked s.cpu.mem (s.cpu.reg .esp) [] := nofun
  have pushed := (empty.push (by decide) 0x23).push (by simp) userStack
  have flags := pushed.push (by simp) ((s.cpu.eflags &&& ~~~(0x200 : Word)) &&& PUSHF_FLAGS)
  have frame := ((flags.pop.push (by simp) (userFlags s.cpu.eflags)).push (by simp) 0x1B).push (by simp) entry
  refine ⟨_, exec_iret k _, rfl, rfl, ?_, ?_, ?_⟩
  · intro q other
    have selector : (0x23 : Half) = USER_DATA_SEGMENT ||| 3 := by decide
    cases q with
    | ss => exact absurd rfl other
    | ds => simp [Cpu.push, Cpu.pop, Cpu.set, Switch.apply, lowHalf_low, selector]
    | es => simp [Cpu.push, Cpu.pop, Cpu.set, Switch.apply, lowHalf_low, selector]
    | fs => simp [Cpu.push, Cpu.pop, Cpu.set, Switch.apply, lowHalf_low, selector]
    | gs => simp [Cpu.push, Cpu.pop, Cpu.set, Switch.apply, lowHalf_low, selector]
  · simpa [Cpu.push, Cpu.pop, Cpu.set, Switch.apply, first, second, readWord_writeWord, userFlags] using frame
  · intro x out
    have far : ∀ j, j + 4 ≤ 20 → ∀ a, a = offset (s.cpu.reg .esp - 20) j → ¬Inside a 4 x := by
      rintro j small a rfl inside
      rw [inside_offset_iff (by omega)] at inside
      rw [Inside] at out
      omega
    have word5 := far 0 (by decide) (s.cpu.reg .esp - 4 - 4 - 4 - 4 - 4) (by rw [offset]; bv_omega)
    have word4 := far 4 (by decide) (s.cpu.reg .esp - 4 - 4 - 4 - 4) (by rw [offset]; bv_omega)
    have word3 := far 8 (by decide) (s.cpu.reg .esp - 4 - 4 - 4) (by rw [offset]; bv_omega)
    have word2 := far 12 (by decide) (s.cpu.reg .esp - 4 - 4) (by rw [offset]; bv_omega)
    have word1 := far 16 (by decide) (s.cpu.reg .esp - 4) (by rw [offset]; bv_omega)
    simp (disch := decide) only [Cpu.push, Cpu.pop, Cpu.set, Switch.apply, Function.update_self,
      Function.update_of_ne, BitVec.sub_add_cancel]
    rw [writeWord_outside word5, writeWord_outside word4, writeWord_outside word3, writeWord_outside word3,
      writeWord_outside word2, writeWord_outside word1]

/-- A process goes to level 3: where it was told, on the stack it was told, with interrupts on,
and with segments that it may keep. From there on an interrupt finds the whole kernel stack. -/
theorem enterUsermode_level3 (k : Image) (room : Nat) (inside : KernelMode s) (tss : s.tss = stack.tss)
    {back entry userStack : Word} (args : Stack.Stacked s.cpu.mem (s.cpu.reg .esp) [back, entry, userStack]) :
    ∃ t, enterUsermode k s = some t ∧ UserMode t ∧ t.cpu.eip = entry ∧ t.cpu.reg .esp = userStack ∧
      (∀ q, t.cpu.seg q = USER_DATA_SEGMENT ||| 3) ∧ interruptFlag t.cpu.eflags ∧ Ready k stack room t ∧
      ∀ x, ¬Inside (s.cpu.reg .esp - 20) 20 x → t.cpu.mem x = s.cpu.mem x := by
  obtain ⟨r, runs, cs, same, seg, frame, mem⟩ := enterUsermode_iret k args
  -- the frame is that of an interrupt that has come from there
  let level3 : Core := ⟨⟨Function.update r.cpu.reg .esp userStack, fun _ => USER_DATA_SEGMENT ||| 3,
    userFlags s.cpu.eflags, entry, r.cpu.mem⟩, USER_CODE_SEGMENT ||| 3, r.tss⟩
  have mode : UserMode level3 := rfl
  have pointer : level3.cpu.reg .esp = userStack := by simp [level3]
  have words : (interruptFrame level3).reverse = [entry, 0x1B, userFlags s.cpu.eflags, userStack, 0x23] := by
    rw [interruptFrame, if_pos (by rw [mode.cpl]; decide), pointer]
    simp [level3, USER_CODE_SEGMENT, USER_DATA_SEGMENT]
  rw [← words] at frame
  have back : Interrupt.iret k.gdt r = some level3 := by
    rw [iret_user k (cs.trans inside) mode frame]
    have segs : (fun q => if q = .ss then level3.cpu.seg .ss else keptSelector k.gdt 3 (r.cpu.seg q)) =
        level3.cpu.seg := by
      funext q
      by_cases other : q = .ss
      · rw [if_pos other, other]
      · rw [if_neg other, seg q other, kept_userData]
    rw [segs, pointer]
  have flag : interruptFlag (userFlags s.cpu.eflags) := by
    simp [interruptFlag, userFlags]
  exact ⟨level3, runs.trans back, mode, rfl, pointer, fun _ => rfl, flag,
    .user mode (same.trans tss) (fun _ _ => kept_userData k), mem⟩

def entrySample : Core :=
  { kernelSample with cpu := { kernelSample.cpu with
      mem := writeWord (writeWord (writeWord (fun _ => 0) 0x10800 0x20100) 0x10804 0x40000000) 0x10808 0x80000000 } }

theorem entrySample_args :
    Stack.Stacked entrySample.cpu.mem (entrySample.cpu.reg .esp) [0x20100, 0x40000000, 0x80000000] := by
  rintro (_ | _ | _ | i) w at_i
  · obtain rfl := Option.some.inj at_i
    decide
  · obtain rfl := Option.some.inj at_i
    decide
  · obtain rfl := Option.some.inj at_i
    decide
  · exact absurd at_i.symm (Option.some_ne_none w)

theorem enterUsermode_level3_first : ∃ t, enterUsermode idleImage entrySample = some t ∧ UserMode t ∧
    t.cpu.eip = 0x40000000 ∧ t.cpu.reg .esp = 0x80000000 := by
  have inside : KernelMode entrySample := rfl
  have ours : entrySample.tss = sampleStack.tss := rfl
  obtain ⟨t, runs, mode, entry, top, -⟩ := enterUsermode_level3 idleImage 0 inside ours entrySample_args
  exact ⟨t, runs, mode, entry, top⟩

end Level3

end Wittche.Interrupt
