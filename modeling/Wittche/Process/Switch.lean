import Wittche.Interrupt.Descriptors

/-! `process_switch` of `kernel/switch.asm`, instruction by instruction, and the fields of
`process_t` that it uses. The processor is at privilege level 0. Segments are flat, so an
address is an offset; a segment register takes a selector that the descriptor table allows
for it, and any other is a fault, behind which the kernel halts. The saved state lies in
`process_t` where the C compiler puts it: `cpu_state_t` is packed, and in front of it stand
`pid`, `name` and `state`. -/

namespace Wittche.Switch
open Bytes AddressSpace

inductive Reg
  | eax
  | ebx
  | ecx
  | edx
  | esi
  | edi
  | esp
  | ebp
  deriving DecidableEq

inductive Segment
  | ds
  | es
  | fs
  | gs
  | ss
  deriving DecidableEq

structure Cpu where
  reg : Reg → Word
  seg : Segment → Half
  eflags : Word
  eip : Word
  mem : Memory

section Flags

/-- CF, PF, AF, ZF, SF and OF. -/
def STATUS_FLAGS : Word := 0x8D5

/-- The flags that `popfd` loads at privilege level 0. -/
def POPF_FLAGS : Word := 0x247FD5

/-- `pushfd` stores VM and RF as 0. -/
def PUSHF_FLAGS : Word := 0xFCFFFF

def bit (b : Bool) (i : Nat) : Word := if b then (1 : Word) <<< i else 0

def evenParity (r : Word) : Bool := decide (((List.range 8).filter r.getLsbD).length % 2 = 0)

def status (carry adjust overflow : Bool) (r : Word) : Word :=
  bit carry 0 ||| bit (evenParity r) 2 ||| bit adjust 4 ||| bit (decide (r = 0)) 6 ||| bit r.msb 7 ||| bit overflow 11

def setStatus (eflags status : Word) : Word := (eflags &&& ~~~STATUS_FLAGS) ||| status

end Flags

namespace Cpu

def set (s : Cpu) (r : Reg) (w : Word) : Cpu := { s with reg := Function.update s.reg r w }

def push (s : Cpu) (w : Word) : Cpu :=
  let s := s.set .esp (s.reg .esp - 4)
  { s with mem := writeWord s.mem (s.reg .esp) w }

def pop (s : Cpu) : Word × Cpu := (readWord s.mem (s.reg .esp), s.set .esp (s.reg .esp + 4))

/-- `w` with its lower half replaced: what `mov cx, ..` does to `ecx`. -/
def lowHalf (w : Word) (h : Half) : Word := (w &&& 0xFFFF0000) ||| h.setWidth 32

end Cpu

inductive Instr
  /-- `mov dst, [base + disp]` -/
  | load (dst base : Reg) (disp : Nat)
  /-- `mov [base + disp], src` -/
  | store (base : Reg) (disp : Nat) (src : Reg)
  /-- `mov cx, [base + disp]` -/
  | loadCx (base : Reg) (disp : Nat)
  /-- `mov [base + disp], cx` -/
  | storeCx (base : Reg) (disp : Nat)
  /-- `mov dst, src` -/
  | move (dst src : Reg)
  /-- `mov cx, seg` -/
  | getSegment (seg : Segment)
  /-- `mov seg, cx` -/
  | setSegment (seg : Segment)
  /-- `add dst, imm` -/
  | add (dst : Reg) (imm : Word)
  /-- `test r, r` -/
  | test (r : Reg)
  | push (r : Reg)
  | pop (r : Reg)
  | pushfd
  | popfd
  | jz (target : Nat)
  | ret
  deriving DecidableEq

/-- An instruction that goes on to the next one. AF behind `test` is undefined on the
processor and cleared here. -/
def apply (s : Cpu) : Instr → Cpu
  | .load dst base disp => s.set dst (readWord s.mem (offset (s.reg base) disp))
  | .store base disp src => { s with mem := writeWord s.mem (offset (s.reg base) disp) (s.reg src) }
  | .loadCx base disp => s.set .ecx (Cpu.lowHalf (s.reg .ecx) (readHalf s.mem (offset (s.reg base) disp)))
  | .storeCx base disp =>
    { s with mem := writeHalf s.mem (offset (s.reg base) disp) ((s.reg .ecx).setWidth 16) }
  | .move dst src => s.set dst (s.reg src)
  | .getSegment seg => s.set .ecx (Cpu.lowHalf (s.reg .ecx) (s.seg seg))
  | .setSegment seg => { s with seg := Function.update s.seg seg ((s.reg .ecx).setWidth 16) }
  | .add dst imm =>
    let r := s.reg dst + imm
    let flags := status (decide (2 ^ 32 ≤ (s.reg dst).toNat + imm.toNat))
      (decide (16 ≤ (s.reg dst).toNat % 16 + imm.toNat % 16)) ((s.reg dst).saddOverflow imm) r
    { s.set dst r with eflags := setStatus s.eflags flags }
  | .test r => { s with eflags := setStatus s.eflags (status false false false (s.reg r)) }
  | .push r => s.push (s.reg r)
  | .pop r => s.pop.2.set r s.pop.1
  | .pushfd => s.push (s.eflags &&& PUSHF_FLAGS)
  | .popfd => { s.pop.2 with eflags := (s.eflags &&& ~~~POPF_FLAGS) ||| (s.pop.1 &&& POPF_FLAGS) }
  | .jz _ => s
  | .ret => s

def zeroFlag (s : Cpu) : Bool := s.eflags.getLsbD 6

section Faults

variable (g : Interrupt.Gdt)

/-- The selectors that a segment register takes at privilege level 0. -/
def loadable (seg : Segment) (selector : Half) : Bool :=
  match Interrupt.lookup g selector with
  -- the null selector, which `ss` does not take
  | none => decide (seg ≠ .ss ∧ selector.toNat < 4)
  | some i =>
    if seg = .ss then i.memory && !i.executable && i.accessible && decide (i.dpl = 0 ∧ Interrupt.rpl selector = 0)
    else i.memory && (!i.executable || i.accessible) && decide (Interrupt.rpl selector ≤ i.dpl)

def faults (s : Cpu) : Instr → Bool
  | .setSegment seg => !loadable g seg ((s.reg .ecx).setWidth 16)
  | _ => false

/-- The code from instruction `pc` on, up to a `ret`; `none` for a fault, and when the fuel
runs out or the code is left. -/
def exec (code : List Instr) : (fuel pc : Nat) → Cpu → Option Cpu
  | 0, _, _ => none
  | fuel + 1, pc, s =>
    match code[pc]? with
    | none => none
    | some .ret => some { s.pop.2 with eip := s.pop.1 }
    | some (.jz target) => exec code fuel (if zeroFlag s then target else pc + 1) s
    | some i => if faults g s i then none else exec code fuel (pc + 1) (apply s i)

end Faults

def fetchCode : List Instr := [.load .eax .esp 4, .load .edx .esp 8, .test .eax]

def saveCode : List Instr :=
  [.store .eax 44 .ebx,
   .store .eax 48 .ecx,
   .store .eax 56 .esi,
   .store .eax 60 .edi,
   .move .ecx .esp,
   .add .ecx 4,
   .store .eax 64 .ecx,
   .store .eax 68 .ebp,
   .load .ecx .esp 0,
   .store .eax 72 .ecx,
   .pushfd,
   .pop .ecx,
   .store .eax 76 .ecx,
   .getSegment .ds, .storeCx .eax 86,
   .getSegment .es, .storeCx .eax 88,
   .getSegment .fs, .storeCx .eax 90,
   .getSegment .gs, .storeCx .eax 92,
   .getSegment .ss, .storeCx .eax 94]

def loadCode : List Instr :=
  [.loadCx .edx 86, .setSegment .ds,
   .loadCx .edx 88, .setSegment .es,
   .loadCx .edx 90, .setSegment .fs,
   .loadCx .edx 92, .setSegment .gs,
   .loadCx .edx 94, .setSegment .ss,
   .load .esp .edx 64,
   .load .ebp .edx 68,
   .load .ecx .edx 76,
   .push .ecx,
   .popfd,
   .load .ebx .edx 44,
   .load .esi .edx 56,
   .load .edi .edx 60,
   .load .ecx .edx 48,
   .load .eax .edx 72,
   .push .eax,
   .load .edx .edx 52]

/-- `process_switch`; the label `.load_new` is instruction 27 and `.done` is 51. -/
def processSwitchCode : List Instr :=
  fetchCode ++ [.jz 27] ++ saveCode ++ [.test .edx, .jz 51] ++ loadCode ++ [.ret]

/-- A call of `process_switch`, from its first instruction to behind its `ret`. -/
def processSwitch (g : Interrupt.Gdt) (s : Cpu) : Option Cpu := exec g processSwitchCode 52 0 s

section Layout

inductive Field
  | eax
  | ebx
  | ecx
  | edx
  | esi
  | edi
  | esp
  | ebp
  | eip
  | eflags
  | cr3
  | cs
  | ds
  | es
  | fs
  | gs
  | ss
  deriving DecidableEq

/-- The fields of `cpu_state_t` in their order. -/
def cpuStateFields : List Field :=
  [.eax, .ebx, .ecx, .edx, .esi, .edi, .esp, .ebp, .eip, .eflags, .cr3, .cs, .ds, .es, .fs, .gs, .ss]

def Field.size : Field → Nat
  | .cs | .ds | .es | .fs | .gs | .ss => 2
  | _ => 4

/-- Where `cpu_state` lies in `process_t`: behind `pid`, `name` and `state`. -/
def CPU_STATE : Nat := 4 + 32 + 4

def SIZEOF_CPU_STATE : Nat := (cpuStateFields.map Field.size).sum

def Field.offset (f : Field) : Nat := CPU_STATE + ((cpuStateFields.takeWhile (· ≠ f)).map Field.size).sum

end Layout

/-- What a process goes on with: where, on which stack, and with which registers. -/
structure Context where
  eip : Word
  esp : Word
  ebx : Word
  esi : Word
  edi : Word
  ebp : Word
  seg : Segment → Half
  interrupt : Bool

def interruptFlag (eflags : Word) : Bool := eflags.getLsbD 9

/-- The state that `cpu_state` of the process at `p` holds. -/
def savedContext (m : Memory) (p : Word) : Context where
  eip := readWord m (offset p Field.eip.offset)
  esp := readWord m (offset p Field.esp.offset)
  ebx := readWord m (offset p Field.ebx.offset)
  esi := readWord m (offset p Field.esi.offset)
  edi := readWord m (offset p Field.edi.offset)
  ebp := readWord m (offset p Field.ebp.offset)
  seg
    | .ds => readHalf m (offset p Field.ds.offset)
    | .es => readHalf m (offset p Field.es.offset)
    | .fs => readHalf m (offset p Field.fs.offset)
    | .gs => readHalf m (offset p Field.gs.offset)
    | .ss => readHalf m (offset p Field.ss.offset)
  interrupt := interruptFlag (readWord m (offset p Field.eflags.offset))

/-- The state of the caller behind a normal return of the call that `s` enters. -/
def callContext (s : Cpu) : Context where
  eip := readWord s.mem (s.reg .esp)
  esp := s.reg .esp + 4
  ebx := s.reg .ebx
  esi := s.reg .esi
  edi := s.reg .edi
  ebp := s.reg .ebp
  seg := s.seg
  interrupt := interruptFlag s.eflags

def runningContext (s : Cpu) : Context where
  eip := s.eip
  esp := s.reg .esp
  ebx := s.reg .ebx
  esi := s.reg .esi
  edi := s.reg .edi
  ebp := s.reg .ebp
  seg := s.seg
  interrupt := interruptFlag s.eflags

end Wittche.Switch
