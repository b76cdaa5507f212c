import Wittche.Interrupt.Stubs

/-! The frame that the processor and a stub push, and the way back over it. -/

namespace Wittche.Interrupt
open Bytes AddressSpace Switch

section Pushes

def pushes (s : Cpu) (ws : List Word) : Cpu := ws.foldl Cpu.push s

theorem pushes_append (s : Cpu) (ws vs : List Word) : pushes (pushes s ws) vs = pushes s (ws ++ vs) :=
  (List.foldl_append ..).symm

theorem pushes_pushed (s : Cpu) (ws : List Word) :
    ((pushes s ws).mem, (pushes s ws).reg .esp) = Stack.pushed s.mem (s.reg .esp) ws := by
  induction ws generalizing s with
  | nil => rfl
  | cons w ws ih => exact ih (s.push w)

theorem pushes_esp (s : Cpu) (ws : List Word) : (pushes s ws).reg .esp = (Stack.pushed s.mem (s.reg .esp) ws).2 :=
  congrArg Prod.snd (pushes_pushed s ws)

theorem pushes_reg (s : Cpu) (ws : List Word) {r : Reg} (ne : r ≠ .esp) : (pushes s ws).reg r = s.reg r := by
  induction ws generalizing s with
  | nil => rfl
  | cons w ws ih => exact (ih (s.push w)).trans (Function.update_of_ne ne _ _)

theorem pushes_seg (s : Cpu) (ws : List Word) : (pushes s ws).seg = s.seg := by
  induction ws generalizing s with
  | nil => rfl
  | cons w ws ih => exact ih (s.push w)

theorem push_pushes (s : Cpu) (ws : List Word) (eip eflags w : Word) :
    Cpu.push { pushes s ws with eip := eip, eflags := eflags } w =
      { pushes s (ws ++ [w]) with eip := eip, eflags := eflags } := by
  rw [← pushes_append]
  rfl

end Pushes

section Running

variable (k : Image)

theorem mem_labels (l : Label) : l ∈ labels := by
  cases l <;> simp [labels]

theorem codeAt_address (l : Label) : codeAt k (k.address l) = some l.code := by
  have there : (labels.find? fun m => k.address m = k.address l).isSome := by
    rw [List.find?_isSome]
    exact ⟨l, mem_labels l, decide_eq_true rfl⟩
  obtain ⟨m, found⟩ := Option.isSome_iff_exists.mp there
  have hit := List.find?_some found
  have same : m = l := k.distinct (of_decide_eq_true hit)
  rw [codeAt, found, same]
  rfl

/-- The stack that the processor continues on at level 0. -/
def entryStack (s : Core) : Cpu :=
  if 0 < s.cpl then
    { s.cpu.set .esp s.tss.esp0 with seg := Function.update s.cpu.seg .ss (s.tss.ss0.setWidth 16) }
  else s.cpu

def interruptFrame (s : Core) : List Word :=
  (if 0 < s.cpl then [(s.cpu.seg .ss).setWidth 32, s.cpu.reg .esp] else []) ++
    [s.cpu.eflags, s.cs.setWidth 32, s.cpu.eip]

def arrived (l : Label) (error : Option Word) (s : Core) : Core :=
  { s with
    cpu := { pushes (entryStack s) (interruptFrame s ++ error.toList) with
      eip := k.address l
      eflags := s.cpu.eflags &&& ~~~GATE_FLAGS }
    cs := KERNEL_CODE_SEGMENT }

def Label.level (l : Label) : Nat := l.flags.toNat / 32 % 4

theorem idt_label (l : Label) : (k.idt l.vector).info = ⟨k.address l, KERNEL_CODE_SEGMENT, true, l.level, 0xE⟩ := by
  rw [Image.idt, installed_label, idtEntry_info]
  cases l <;> simp [Label.level, Label.flags, KERNEL_CODE_SEGMENT]

theorem deliver_label (l : Label) (software : Bool) (error : Option Word) (s : Core) :
    deliver k.gdt k.idt l.vector software error s =
      if software ∧ l.level < s.cpl then none else some (arrived k l error s) := by
  have code : lookup k.gdt KERNEL_CODE_SEGMENT = some (flat 0 true) := lookup_kernelCode ..
  by_cases refused : software ∧ l.level < s.cpl
  · simp [deliver, idt_label, refused]
  · rw [deliver, idt_label, if_neg (by simpa using refused), if_neg (by simp [code, flat]), if_neg refused]
    by_cases outer : 0 < s.cpl <;> cases error <;> simp [arrived, entryStack, interruptFrame, outer, pushes] <;> rfl

def Label.handler : Label → Callee
  | .isr _ => .isrHandler
  | .irq _ => .irqHandler
  | .syscallInterruptHandler => .syscallDispatch

/-- The processor pushes an error code, as the stub of the label expects. -/
def Label.hasErrorCode : Label → Bool
  | .isr n => n.val ∈ errorVectors
  | .irq _ => false
  | .syscallInterruptHandler => false

def stubbed (l : Label) (error : Option Word) (s : Core) : Core :=
  { s with
    cpu := { pushes (entryStack s) (interruptFrame s ++ [error.getD 0, l.vector.setWidth 32]) with
      eip := k.address l
      eflags := s.cpu.eflags &&& ~~~GATE_FLAGS }
    cs := KERNEL_CODE_SEGMENT }

theorem interrupt_label (l : Label) (software : Bool) (error : Option Word) (s : Core)
    (allowed : ¬(software ∧ l.level < s.cpl)) :
    interrupt k l.vector software error s = exec k l.code (arrived k l error s) := by
  rw [interrupt, deliver_label, if_neg allowed, Option.bind_some]
  show (codeAt k (k.address l)).bind _ = _
  rw [codeAt_address, Option.bind_some]

theorem interrupt_common (l : Label) (software : Bool) (error : Option Word) (s : Core)
    (allowed : ¬(software ∧ l.level < s.cpl)) (numbered : l ≠ .syscallInterruptHandler)
    (code : error.isSome = l.hasErrorCode) :
    interrupt k l.vector software error s = exec k (commonStub l.handler) (stubbed k l error s) := by
  rw [interrupt_label k l software error s allowed]
  have number : ∀ m, m < 256 → BitVec.ofNat 32 m = (BitVec.ofNat 8 m).setWidth 32 := by
    intro m below
    apply BitVec.eq_of_toNat_eq
    simp only [BitVec.toNat_ofNat, BitVec.toNat_setWidth]
    omega
  cases l with
  | isr n =>
    rw [Label.code, number n (by omega)]
    by_cases pushed : n.val ∈ errorVectors
    · have given : error.isSome := code.trans (decide_eq_true pushed)
      obtain ⟨w, rfl⟩ := Option.isSome_iff_exists.mp given
      rw [if_pos pushed, List.nil_append, exec, apply, Option.bind_some, arrived, push_pushes, List.append_assoc]
      rfl
    · have missing : error = none := by
        rw [← Option.not_isSome_iff_eq_none, code]
        exact ne_true_of_eq_false (decide_eq_false pushed)
      rw [missing, if_neg pushed, List.singleton_append, exec, apply, Option.bind_some, exec, apply, Option.bind_some,
        arrived, push_pushes, push_pushes, List.append_assoc, List.append_assoc]
      rfl
  | irq n =>
    have missing : error = none := by
      rw [← Option.not_isSome_iff_eq_none, code]
      exact Bool.false_ne_true
    rw [Label.code, number _ (by omega), missing, exec, apply, Option.bind_some, exec, apply, Option.bind_some, arrived,
      push_pushes, push_pushes, List.append_assoc, List.append_assoc]
    rfl
  | syscallInterruptHandler => exact absurd rfl numbered

end Running

section Stub

variable (k : Image)

def registerWords (c : Cpu) : List Word :=
  [c.reg .eax, c.reg .ecx, c.reg .edx, c.reg .ebx, c.reg .esp, c.reg .ebp, c.reg .esi, c.reg .edi,
   (c.seg .ds).setWidth 32, (c.seg .es).setWidth 32, (c.seg .fs).setWidth 32, (c.seg .gs).setWidth 32]

structure Handed (f : Callee) (c h : Core) : Prop where
  cs : h.cs = c.cs
  tss : h.tss = c.tss
  ss : h.cpu.seg .ss = c.cpu.seg .ss
  mem : h.cpu.mem =
    (pushes c.cpu (registerWords c.cpu ++ [(pushes c.cpu (registerWords c.cpu)).reg .esp, k.back f])).mem
  esp : h.cpu.reg .esp =
    (pushes c.cpu (registerWords c.cpu ++ [(pushes c.cpu (registerWords c.cpu)).reg .esp, k.back f])).reg .esp

theorem enter_call (f : Callee) (c : Core) : ∃ h : Core,
    exec k (commonStub f) c = (k.routine f h).bind (exec k leaveCode) ∧ Handed k f c h := by
  refine ⟨_, rfl, ?_⟩
  constructor
  · rfl
  · rfl
  · rfl
  · rfl
  · rfl

theorem exec_iret (s : Core) : exec k [.iret] s = Interrupt.iret k.gdt s := Option.bind_fun_some _

theorem leave_iret (c : Core) (v : Cpu) (number error : Word) (rest : List Word)
    (saved : Stack.Stacked c.cpu.mem (c.cpu.reg .esp + 4) ((registerWords v).reverse ++ number :: error :: rest)) :
    ∃ r : Core, exec k leaveCode c = Interrupt.iret k.gdt r ∧ r.cs = c.cs ∧ r.tss = c.tss ∧ r.cpu.mem = c.cpu.mem ∧
      r.cpu.seg .ss = c.cpu.seg .ss ∧ (∀ q, q ≠ .esp → r.cpu.reg q = v.reg q) ∧
      (∀ q, q ≠ .ss → r.cpu.seg q = v.seg q) ∧ Stack.Stacked r.cpu.mem (r.cpu.reg .esp) rest ∧
      r.cpu.reg .esp = c.cpu.reg .esp + 60 := by
  have gs := saved.top
  have fs := saved.pop.top
  have es := saved.pop.pop.top
  have ds := saved.pop.pop.pop.top
  have general := saved.pop.pop.pop.pop
  have edi := general.top
  have esi := general.pop.top
  have ebp := general.pop.pop.top
  have general := general.pop.pop.pop.pop
  have ebx := general.top
  have edx := general.pop.top
  have ecx := general.pop.pop.top
  have eax := general.pop.pop.pop.top
  have rest := general.pop.pop.pop.pop.pop.pop
  refine ⟨_, exec_iret k _, rfl, rfl, rfl, rfl, ?_, ?_, ?_, ?_⟩
  · intro q ne
    cases q with
    | eax => simpa [popa, popReg, Cpu.pop, Cpu.set, Switch.apply] using eax
    | ebx => simpa [popa, popReg, Cpu.pop, Cpu.set, Switch.apply] using ebx
    | ecx => simpa [popa, popReg, Cpu.pop, Cpu.set, Switch.apply] using ecx
    | edx => simpa [popa, popReg, Cpu.pop, Cpu.set, Switch.apply] using edx
    | esi => simpa [popa, popReg, Cpu.pop, Cpu.set, Switch.apply] using esi
    | edi => simpa [popa, popReg, Cpu.pop, Cpu.set, Switch.apply] using edi
    | esp => exact absurd rfl ne
    | ebp => simpa [popa, popReg, Cpu.pop, Cpu.set, Switch.apply] using ebp
  · intro q ne
    cases q with
    | ds => simpa [popa, popReg, Cpu.pop, Cpu.set, Switch.apply] using congrArg (BitVec.setWidth 16) ds
    | es => simpa [popa, popReg, Cpu.pop, Cpu.set, Switch.apply] using congrArg (BitVec.setWidth 16) es
    | fs => simpa [popa, popReg, Cpu.pop, Cpu.set, Switch.apply] using congrArg (BitVec.setWidth 16) fs
    | gs => simpa [popa, popReg, Cpu.pop, Cpu.set, Switch.apply] using congrArg (BitVec.setWidth 16) gs
    | ss => exact absurd rfl ne
  · simpa [popa, popReg, Cpu.pop, Cpu.set, Switch.apply, BitVec.add_assoc] using rest
  · simp [popa, popReg, Cpu.pop, Cpu.set, Switch.apply, BitVec.add_assoc]

def KernelMode (s : Core) : Prop := s.cs = KERNEL_CODE_SEGMENT

def UserMode (s : Core) : Prop := s.cs = USER_CODE_SEGMENT ||| 3

variable {r s : Core}

theorem KernelMode.cpl (mode : KernelMode s) : s.cpl = 0 := by
  rw [Core.cpl, mode]
  rfl

theorem UserMode.cpl (mode : UserMode s) : s.cpl = 3 := by
  rw [Core.cpl, mode]
  rfl

theorem kept_userData (k : Image) : keptSelector k.gdt 3 (USER_DATA_SEGMENT ||| 3) = USER_DATA_SEGMENT ||| 3 := by
  have data : lookup k.gdt (USER_DATA_SEGMENT ||| 3) = some (flat 3 false) := lookup_userData ..
  rw [keptSelector, data]
  rfl

theorem selector_back (h : Half) : (h.setWidth 32).setWidth 16 = h := by simp

theorem iret_kernel (inside : KernelMode r) (mode : KernelMode s)
    (frame : Stack.Stacked r.cpu.mem (r.cpu.reg .esp) (interruptFrame s).reverse) :
    Interrupt.iret k.gdt r = some { r with
      cpu := { r.cpu.set .esp (r.cpu.reg .esp + 12) with eip := s.cpu.eip, eflags := s.cpu.eflags }
      cs := s.cs } := by
  rw [interruptFrame, if_neg (by rw [mode.cpl]; decide)] at frame
  have eip : readWord r.cpu.mem (r.cpu.reg .esp) = s.cpu.eip := frame.top
  have cs : readWord r.cpu.mem (r.cpu.reg .esp + 4) = s.cs.setWidth 32 := frame.pop.top
  have eflags : readWord r.cpu.mem (r.cpu.reg .esp + 4 + 4) = s.cpu.eflags := frame.pop.pop.top
  have code : lookup k.gdt KERNEL_CODE_SEGMENT = some (flat 0 true) := lookup_kernelCode ..
  have level : rpl s.cs = 0 := mode.cpl
  rw [KernelMode] at mode
  rw [Interrupt.iret]
  simp only [Cpu.pop, Cpu.set, Function.update_self, eip, cs, eflags, selector_back]
  rw [if_neg, if_neg, if_pos]
  · simp [BitVec.add_assoc]
  · rw [inside.cpl, level]
  · rw [inside.cpl]
    exact Nat.not_lt_zero _
  · rw [not_not, mode, code]
    rfl

theorem iret_user (inside : KernelMode r) (mode : UserMode s)
    (frame : Stack.Stacked r.cpu.mem (r.cpu.reg .esp) (interruptFrame s).reverse) :
    Interrupt.iret k.gdt r = some { r with
      cpu :=
        { mem := r.cpu.mem
          reg := Function.update r.cpu.reg .esp (s.cpu.reg .esp)
          eip := s.cpu.eip
          eflags := s.cpu.eflags
          seg := fun q => if q = .ss then s.cpu.seg .ss else keptSelector k.gdt 3 (r.cpu.seg q) }
      cs := s.cs } := by
  rw [interruptFrame, if_pos (by rw [mode.cpl]; decide)] at frame
  have eip : readWord r.cpu.mem (r.cpu.reg .esp) = s.cpu.eip := frame.top
  have cs : readWord r.cpu.mem (r.cpu.reg .esp + 4) = s.cs.setWidth 32 := frame.pop.top
  have eflags : readWord r.cpu.mem (r.cpu.reg .esp + 4 + 4) = s.cpu.eflags := frame.pop.pop.top
  have esp : readWord r.cpu.mem (r.cpu.reg .esp + 4 + 4 + 4) = s.cpu.reg .esp := frame.pop.pop.pop.top
  have ss : readWord r.cpu.mem (r.cpu.reg .esp + 4 + 4 + 4 + 4) = (s.cpu.seg .ss).setWidth 32 :=
    frame.pop.pop.pop.pop.top
  have code : lookup k.gdt (USER_CODE_SEGMENT ||| 3) = some (flat 3 true) := lookup_userCode ..
  have level : rpl s.cs = 3 := mode.cpl
  rw [UserMode] at mode
  rw [Interrupt.iret]
  simp only [Cpu.pop, Cpu.set, Function.update_self, Function.update_idem, eip, cs, eflags, esp, ss, selector_back]
  rw [if_neg, if_neg, if_neg]
  · rw [level]
  · rw [inside.cpl, level]
    decide
  · rw [inside.cpl]
    exact Nat.not_lt_zero _
  · rw [not_not, level, mode, code]
    rfl

end Stub

end Wittche.Interrupt
