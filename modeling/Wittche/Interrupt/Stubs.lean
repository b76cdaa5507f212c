import Wittche.Interrupt.Descriptors
import Wittche.Lib.Stack
import Wittche.Process.Switch

/-! The way of an interrupt through the processor and the stubs of `kernel/interrupt.asm` and
`kernel/syscall.asm`, and `enter_usermode` of `kernel/usermode.asm`. The functions of C that
the stubs call are parameters; `none` stands for one that does not return, and for a fault of
the processor. Inside a stub `eip` is not followed. The selectors that a stub loads are those
it has saved and the kernel's own, and the loads do not fault. -/

namespace Wittche.Interrupt
open Bytes AddressSpace Switch

/-- The fields of `tss_t` that the processor reads: the stack for level 0. -/
structure Tss where
  esp0 : Word
  ss0 : Word
  deriving DecidableEq

structure Core where
  cpu : Cpu
  cs : Half
  tss : Tss

def tssInit : Tss := ⟨0, KERNEL_DATA_SEGMENT.setWidth 32⟩

def tssSetKernelStack (t : Tss) (stack : Word) : Tss := { t with esp0 := stack }

def Core.cpl (s : Core) : Nat := rpl s.cs

/-- TF, IF, NT, RF and VM. -/
def GATE_FLAGS : Word := 0x34300

section Processor

variable (g : Gdt)

/-- The processor takes a vector through its gate, from an `int` instruction (`software`) or
otherwise, and pushes the error code if there is one. Only handlers at level 0 are covered. -/
def deliver (t : Idt) (n : Byte) (software : Bool) (error : Option Word) (s : Core) : Option Core :=
  let gate := (t n).info
  if ¬gate.present ∨ gate.type ≠ 0xE ∨ (software ∧ gate.dpl < s.cpl) then none
  else if (lookup g gate.selector).map (fun i => (i.dpl, i.executable)) ≠ some (0, true) then none
  else
    let old := s.cpu
    let c :=
      if 0 < s.cpl then
        -- the stack of level 0, with the old one on it
        let c := { old.set .esp s.tss.esp0 with seg := Function.update old.seg .ss (s.tss.ss0.setWidth 16) }
        (c.push ((old.seg .ss).setWidth 32)).push (old.reg .esp)
      else old
    let c := ((c.push old.eflags).push (s.cs.setWidth 32)).push old.eip
    let c := match error with
      | none => c
      | some w => c.push w
    some { s with
      cpu := { c with eip := gate.offset, eflags := old.eflags &&& ~~~GATE_FLAGS }
      cs := gate.selector &&& 0xFFFC }

/-- A data segment register on the way out to `level`: what that level may not use is lost. -/
def keptSelector (level : Nat) (selector : Half) : Half :=
  match lookup g selector with
  | none => selector
  | some i => if i.dpl < level then 0 else selector

def iret (s : Core) : Option Core :=
  let eip := s.cpu.pop
  let cs := eip.2.pop
  let eflags := cs.2.pop
  let target : Half := cs.1.setWidth 16
  if (lookup g target).map (fun i => (i.dpl, i.executable)) ≠ some (rpl target, true) then none
  else if rpl target < s.cpl then none
  else if rpl target = s.cpl then
    some { s with cpu := { eflags.2 with eip := eip.1, eflags := eflags.1 }, cs := target }
  else
    let esp := eflags.2.pop
    let ss := esp.2.pop
    some { s with
      cpu := { ss.2.set .esp esp.1 with
        eip := eip.1
        eflags := eflags.1
        seg := fun r => if r = .ss then ss.1.setWidth 16 else keptSelector g (rpl target) (ss.2.seg r) }
      cs := target }

end Processor

inductive Callee
  | isrHandler
  | irqHandler
  | syscallDispatch
  deriving DecidableEq

inductive Instr
  | plain (i : Switch.Instr)
  /-- `push imm` -/
  | pushImm (w : Word)
  | pusha
  | popa
  | pushSegment (r : Segment)
  | popSegment (r : Segment)
  /-- `mov ax, imm` -/
  | moveAx (h : Half)
  /-- `mov r, ax` -/
  | loadSegment (r : Segment)
  /-- `or ecx, imm` -/
  | orEcx (w : Word)
  | cli
  | call (f : Callee)
  | iret
  deriving DecidableEq

/-- `pusha`: the pushed `esp` is the one from before. -/
def pusha (s : Cpu) : Cpu :=
  [Reg.eax, .ecx, .edx, .ebx, .esp, .ebp, .esi, .edi].foldl (fun c r => c.push (s.reg r)) s

def popReg (s : Cpu) (r : Reg) : Cpu := s.pop.2.set r s.pop.1

/-- `popa`: the word for `esp` is skipped. -/
def popa (s : Cpu) : Cpu :=
  [Reg.ebx, .edx, .ecx, .eax].foldl popReg ([Reg.edi, .esi, .ebp].foldl popReg s).pop.2

/-- What the linker and the C compiler add: where the labels and the places behind the calls
are, and what the called functions do, from their entry to behind their `ret`. -/
structure Image where
  address : Label → Word
  distinct : Function.Injective address
  tssBase : Word
  back : Callee → Word
  routine : Callee → Core → Option Core

def Image.gdt (k : Image) : Gdt := gdtInit (fun _ => ⟨0, 0, 0, 0, 0, 0⟩) k.tssBase

def Image.idt (k : Image) : Idt := installed k.address

def apply (k : Image) : Instr → Core → Option Core
  | .plain i, s => some { s with cpu := Switch.apply s.cpu i }
  | .pushImm w, s => some { s with cpu := s.cpu.push w }
  | .pusha, s => some { s with cpu := Interrupt.pusha s.cpu }
  | .popa, s => some { s with cpu := Interrupt.popa s.cpu }
  | .pushSegment r, s => some { s with cpu := s.cpu.push ((s.cpu.seg r).setWidth 32) }
  | .popSegment r, s =>
    some { s with cpu := { s.cpu.pop.2 with seg := Function.update s.cpu.seg r (s.cpu.pop.1.setWidth 16) } }
  | .moveAx h, s => some { s with cpu := s.cpu.set .eax (Cpu.lowHalf (s.cpu.reg .eax) h) }
  | .loadSegment r, s =>
    some { s with cpu := { s.cpu with seg := Function.update s.cpu.seg r ((s.cpu.reg .eax).setWidth 16) } }
  | .orEcx w, s =>
    let r := s.cpu.reg .ecx ||| w
    some { s with cpu := { s.cpu.set .ecx r with eflags := setStatus s.cpu.eflags (status false false false r) } }
  | .cli, s => some { s with cpu := { s.cpu with eflags := s.cpu.eflags &&& ~~~(0x200 : Word) } }
  | .call f, s => k.routine f { s with cpu := s.cpu.push (k.back f) }
  | .iret, s => Interrupt.iret k.gdt s

def exec (k : Image) : List Instr → Core → Option Core
  | [], s => some s
  | i :: is, s => (apply k i s).bind (exec k is)

section Code

def enterCode : List Instr :=
  [.pusha, .pushSegment .ds, .pushSegment .es, .pushSegment .fs, .pushSegment .gs,
   .moveAx 0x10, .loadSegment .ds, .loadSegment .es, .loadSegment .fs, .loadSegment .gs,
   .plain (.push .esp)]

def leaveCode : List Instr :=
  [.plain (.add .esp 4),
   .popSegment .gs, .popSegment .fs, .popSegment .es, .popSegment .ds,
   .popa,
   .plain (.add .esp 8),
   .iret]

/-- `isr_common_stub` and `irq_common_stub`. -/
def commonStub (f : Callee) : List Instr := enterCode ++ [.call f] ++ leaveCode

def errorVectors : List Nat := [8, 10, 11, 12, 13, 14, 17, 30]

def syscallCode : List Instr :=
  [.plain (.push .ebp), .plain (.push .edi), .plain (.push .esi), .plain (.push .edx), .plain (.push .ecx),
   .plain (.push .ebx), .plain (.push .eax),
   .plain (.push .esi), .plain (.push .edx), .plain (.push .ecx), .plain (.push .ebx), .plain (.push .eax),
   .call .syscallDispatch,
   .plain (.add .esp 20),
   .plain (.store .esp 0 .eax),
   .plain (.pop .eax), .plain (.pop .ebx), .plain (.pop .ecx), .plain (.pop .edx), .plain (.pop .esi),
   .plain (.pop .edi), .plain (.pop .ebp),
   .iret]

/-- The code at a label, on through the `jmp` to the common stub. -/
def Label.code : Label → List Instr
  | .isr n =>
    (if n.val ∈ errorVectors then [] else [.pushImm 0]) ++ .pushImm (BitVec.ofNat 32 n) :: commonStub .isrHandler
  | .irq n => .pushImm 0 :: .pushImm (BitVec.ofNat 32 (32 + n)) :: commonStub .irqHandler
  | .syscallInterruptHandler => syscallCode

def labels : List Label :=
  (List.finRange 32).map .isr ++ (List.finRange 16).map .irq ++ [.syscallInterruptHandler]

def codeAt (k : Image) (eip : Word) : Option (List Instr) :=
  (labels.find? fun l => k.address l = eip).map Label.code

/-- An interrupt from its arrival to the `iret` of its stub. -/
def interrupt (k : Image) (n : Byte) (software : Bool) (error : Option Word) (s : Core) : Option Core :=
  (deliver k.gdt k.idt n software error s).bind fun c =>
    (codeAt k c.cpu.eip).bind fun code => exec k code c

def enterUsermodeCode : List Instr :=
  [.cli,
   .plain (.load .eax .esp 4),
   .plain (.load .ebx .esp 8),
   .pushImm 0x23,
   .plain (.push .ebx),
   .plain .pushfd,
   .plain (.pop .ecx),
   .orEcx 0x200,
   .plain (.push .ecx),
   .pushImm 0x1B,
   .plain (.push .eax),
   .moveAx 0x23, .loadSegment .ds, .loadSegment .es, .loadSegment .fs, .loadSegment .gs,
   .iret]

/-- A call of `enter_usermode`, from its first instruction on. -/
def enterUsermode (k : Image) (s : Core) : Option Core := exec k enterUsermodeCode s

end Code

end Wittche.Interrupt
