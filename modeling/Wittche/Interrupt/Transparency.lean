import Wittche.Interrupt.Frames
import Wittche.Lib.Execution

/-! What a program notices of the interrupts that come between its instructions. It runs on a
stack of the kernel, or at level 3 and enters the kernel on one. -/

namespace Wittche.Interrupt
open Bytes AddressSpace Switch

structure KernelStack where
  base : Word
  size : Nat
  small : size < 2 ^ 32

namespace KernelStack

def height (stack : KernelStack) (x : Word) : Nat := (x - stack.base).toNat

def top (stack : KernelStack) : Word := offset stack.base stack.size

def tss (stack : KernelStack) : Tss := tssSetKernelStack tssInit stack.top

theorem height_top (stack : KernelStack) : stack.height stack.top = stack.size :=
  offset_distance stack.base stack.small

end KernelStack

/-- What a C function with `args` words of arguments leaves for its caller. It may use the stack
up to its arguments. It may switch to other processes: on the way back the task state segment
names the stack of this one. -/
structure Returned (stack : KernelStack) (args : Nat) (s t : Core) : Prop where
  esp : t.cpu.reg .esp = s.cpu.reg .esp + 4
  seg : t.cpu.seg = s.cpu.seg
  cs : t.cs = s.cs
  tss : s.tss = stack.tss → t.tss = stack.tss
  mem : ∀ x, stack.height (s.cpu.reg .esp) + 4 * (args + 1) ≤ stack.height x → stack.height x < stack.size →
    t.cpu.mem x = s.cpu.mem x

def Callee.args : Callee → Nat
  | .isrHandler => 1
  | .irqHandler => 1
  | .syscallDispatch => 5

/-- The kernel around one stack, for functions that need `room` bytes of it. The handlers of
interrupts write the kernel's data and nothing else outside of the stack. -/
structure Conventional (k : Image) (stack : KernelStack) (data : Word → Prop) (room : Nat) : Prop where
  returns : ∀ f s t, KernelMode s → room ≤ stack.height (s.cpu.reg .esp) →
    stack.height (s.cpu.reg .esp) ≤ stack.size → k.routine f s = some t → Returned stack f.args s t
  quiet : ∀ f s t, f ≠ .syscallDispatch → k.routine f s = some t →
    ∀ x, ¬data x → stack.size ≤ stack.height x → t.cpu.mem x = s.cpu.mem x
  fits : 84 + room ≤ stack.size

/-- A program at level 0 on the stack, with room for one interrupt, or at level 3. -/
inductive Ready (k : Image) (stack : KernelStack) (room : Nat) (s : Core) : Prop
  | kernel (mode : KernelMode s) (free : 84 + room ≤ stack.height (s.cpu.reg .esp))
      (top : stack.height (s.cpu.reg .esp) ≤ stack.size)
  | user (mode : UserMode s) (tss : s.tss = stack.tss)
      (selectors : ∀ q, q ≠ .ss → keptSelector k.gdt 3 (s.cpu.seg q) = s.cpu.seg q)

def floor (stack : KernelStack) (s : Core) : Nat :=
  if 0 < s.cpl then stack.size else stack.height (s.cpu.reg .esp)

/-- Two states that a program cannot tell apart: they differ at most in the kernel's data and in
the part of the kernel stack that is not in use. -/
structure Same (stack : KernelStack) (data : Word → Prop) (s t : Core) : Prop where
  reg : t.cpu.reg = s.cpu.reg
  seg : t.cpu.seg = s.cpu.seg
  eflags : t.cpu.eflags = s.cpu.eflags
  eip : t.cpu.eip = s.cpu.eip
  cs : t.cs = s.cs
  mem : ∀ x, ¬data x → floor stack s ≤ stack.height x → t.cpu.mem x = s.cpu.mem x

section Sample

/-- Functions that return at once, as `irq_handler` does for a line without a driver behind the
end of the interrupt; `syscall_dispatch` with -1, as for a number that it does not know. -/
def idleImage : Image where
  address l := BitVec.ofNat 32 (0x20000 + 16 * l.vector.toNat)
  distinct := by
    intro l m same
    refine vector_injective (BitVec.eq_of_toNat_eq ?_)
    have numbers := congrArg BitVec.toNat same
    have := l.vector.isLt
    have := m.vector.isLt
    simp only [BitVec.toNat_ofNat] at numbers
    omega
  tssBase := 0x30000
  back _ := 0x21000
  routine f s :=
    let c := s.cpu.pop
    some { s with cpu := { if f = .syscallDispatch then c.2.set .eax (-1) else c.2 with eip := c.1 } }

def sampleStack : KernelStack := ⟨0x10000, 4096, by decide⟩

theorem idleImage_conventional (data : Word → Prop) : Conventional idleImage sampleStack data 0 where
  returns f s t mode low high runs := by
    obtain rfl := Option.some.inj runs
    cases f <;> exact ⟨by simp [Cpu.pop, Cpu.set], rfl, rfl, id, fun _ _ _ => rfl⟩
  quiet f s t other runs := by
    obtain rfl := Option.some.inj runs
    exact fun x hidden above => by cases f <;> rfl
  fits := by decide

def userSample : Core where
  cpu := ⟨fun _ => 0, fun _ => USER_DATA_SEGMENT ||| 3, 0x202, 0x40000000, fun _ => 0⟩
  cs := USER_CODE_SEGMENT ||| 3
  tss := sampleStack.tss

theorem userSample_ready : Ready idleImage sampleStack 0 userSample :=
  .user rfl rfl fun _ _ => kept_userData _

def kernelSample : Core where
  cpu := ⟨fun _ => 0x10800, fun _ => KERNEL_DATA_SEGMENT, 0x202, 0x20000, fun _ => 0⟩
  cs := KERNEL_CODE_SEGMENT
  tss := sampleStack.tss

end Sample

section Interrupted

variable {k : Image} {stack : KernelStack} {data : Word → Prop} {room : Nat} {s : Core}

theorem floor_kernel (mode : KernelMode s) : floor stack s = stack.height (s.cpu.reg .esp) := if_neg (by
  rw [mode.cpl]
  decide)

theorem floor_user (mode : UserMode s) : floor stack s = stack.size := if_pos (by
  rw [mode.cpl]
  decide)

def handlerWords (k : Image) (l : Label) (error : Option Word) (s : Core) : List Word :=
  interruptFrame s ++ [error.getD 0, l.vector.setWidth 32] ++ registerWords (stubbed k l error s).cpu

theorem interruptFrame_length_le (s : Core) : (interruptFrame s).length ≤ 5 := by
  rw [interruptFrame]
  split <;> simp

theorem entry_mem (s : Core) : (entryStack s).mem = s.cpu.mem := by
  rw [entryStack]
  split
  · rfl
  · rfl

theorem entry_reg (s : Core) {q : Reg} (ne : q ≠ .esp) : (entryStack s).reg q = s.cpu.reg q := by
  rw [entryStack]
  split
  · exact Function.update_of_ne ne _ _
  · rfl

theorem stubbed_reg (l : Label) (error : Option Word) {q : Reg} (ne : q ≠ .esp) :
    (stubbed k l error s).cpu.reg q = s.cpu.reg q :=
  (pushes_reg _ _ ne).trans (entry_reg s ne)

theorem entry_seg (s : Core) {q : Segment} (ne : q ≠ .ss) : (entryStack s).seg q = s.cpu.seg q := by
  rw [entryStack]
  split
  · exact Function.update_of_ne ne _ _
  · rfl

theorem stubbed_seg (l : Label) (error : Option Word) {q : Segment} (ne : q ≠ .ss) :
    (stubbed k l error s).cpu.seg q = s.cpu.seg q :=
  (congrFun (pushes_seg _ _) q).trans (entry_seg s ne)

theorem Ready.entry (ready : Ready k stack room s) : stack.height ((entryStack s).reg .esp) = floor stack s := by
  cases ready with
  | kernel mode free top =>
    rw [floor_kernel mode, entryStack, if_neg (by rw [mode.cpl]; decide)]
  | user mode tss selectors =>
    rw [floor_user mode, entryStack, if_pos (by rw [mode.cpl]; decide), tss]
    exact stack.height_top

theorem Ready.floor_bounds (conv : Conventional k stack data room) (ready : Ready k stack room s) :
    84 + room ≤ floor stack s ∧ floor stack s ≤ stack.size := by
  cases ready with
  | kernel mode free top =>
    rw [floor_kernel mode]
    exact ⟨free, top⟩
  | user mode tss selectors =>
    rw [floor_user mode]
    exact ⟨conv.fits, Nat.le_refl _⟩

theorem stubbed_pushed (l : Label) (error : Option Word) (s : Core) :
    ((stubbed k l error s).cpu.mem, (stubbed k l error s).cpu.reg .esp) =
      Stack.pushed s.cpu.mem ((entryStack s).reg .esp)
        (interruptFrame s ++ [error.getD 0, l.vector.setWidth 32]) := by
  rw [← entry_mem s]
  exact pushes_pushed (entryStack s) _

/-- A function has been called on the way in from `s`, with `words` on the stack since then, the
place to return to last. -/
structure Called (words : List Word) (s h : Core) : Prop where
  mode : KernelMode h
  tss : h.tss = s.tss
  ss : h.cpu.seg .ss = (entryStack s).seg .ss
  pushed : (h.cpu.mem, h.cpu.reg .esp) = Stack.pushed s.cpu.mem ((entryStack s).reg .esp) words

section Calls

variable {words saved rest : List Word} {h c : Core}

theorem Called.stacked (called : Called words s h) (few : words.length ≤ 21) :
    Stack.Stacked h.cpu.mem (h.cpu.reg .esp) words.reverse := by
  have empty : Stack.Stacked s.cpu.mem ((entryStack s).reg .esp) [] := nofun
  have all := Stack.pushed_stacked empty
    (show 4 * (words.length + 0) ≤ 2 ^ 32 by omega)
  rwa [← called.pushed, List.append_nil] at all

theorem Called.esp (called : Called words s h) :
    h.cpu.reg .esp = (entryStack s).reg .esp - BitVec.ofNat 32 (4 * words.length) :=
  (congrArg Prod.snd called.pushed).trans (Stack.pushed_snd ..)

theorem Called.height (conv : Conventional k stack data room) (ready : Ready k stack room s)
    (called : Called words s h) (few : words.length ≤ 21) :
    stack.height (h.cpu.reg .esp) = floor stack s - 4 * words.length := by
  have bounds := ready.floor_bounds conv
  have entry := ready.entry
  have room : 4 * words.length ≤ stack.height ((entryStack s).reg .esp) := by omega
  rw [called.esp, ← entry]
  exact Stack.below_distance room

theorem Called.mem_kept (conv : Conventional k stack data room) (ready : Ready k stack room s)
    (called : Called words s h) (few : words.length ≤ 21) {x : Word} (above : floor stack s ≤ stack.height x) :
    h.cpu.mem x = s.cpu.mem x := by
  have mem := congrArg Prod.fst called.pushed
  have bounds := ready.floor_bounds conv
  have entry := ready.entry
  refine (congrFun mem x).trans (Stack.pushed_frame (by omega) ?_)
  have room : 4 * words.length ≤ stack.height ((entryStack s).reg .esp) := by omega
  rw [Stack.inside_below room]
  rw [KernelStack.height] at entry above
  omega

theorem Called.kept {args : Nat} (conv : Conventional k stack data room) (ready : Ready k stack room s)
    (called : Called (saved ++ rest) s h) (few : (saved ++ rest).length ≤ 21) (arguments : rest.length = args + 1)
    (returned : Returned stack args h c) :
    Stack.Stacked c.cpu.mem (c.cpu.reg .esp + BitVec.ofNat 32 (4 * args)) saved.reverse := by
  have height := called.height conv ready few
  have bounds := ready.floor_bounds conv
  have small := stack.small
  have stacked := (called.stacked few).drop rest.length
  rw [List.reverse_append, List.drop_left' (List.length_reverse ..)] at stacked
  have start : c.cpu.reg .esp + BitVec.ofNat 32 (4 * args) = h.cpu.reg .esp + BitVec.ofNat 32 (4 * rest.length) := by
    rw [returned.esp, BitVec.add_assoc, show (4 : Word) = BitVec.ofNat 32 4 from rfl, ← BitVec.ofNat_add, arguments]
    congr 2
    omega
  rw [start]
  rw [List.length_append] at height few
  refine stacked.congr (by rw [List.length_reverse]; omega) fun x inside => ?_
  rw [List.length_reverse] at inside
  have fits : (h.cpu.reg .esp - stack.base).toNat + 4 * rest.length + 4 * saved.length ≤ 2 ^ 32 := by
    rw [← KernelStack.height]
    omega
  have range := (Stack.inside_above fits).mp inside
  rw [← KernelStack.height, ← KernelStack.height] at range
  exact returned.mem x (by omega) (by omega)

theorem iret_back {r : Core} (ready : Ready k stack room s) (inside : KernelMode r)
    (frame : Stack.Stacked r.cpu.mem (r.cpu.reg .esp) (interruptFrame s).reverse)
    (esp : KernelMode s → r.cpu.reg .esp + 12 = s.cpu.reg .esp)
    (ss : KernelMode s → r.cpu.seg .ss = s.cpu.seg .ss) (seg : ∀ q, q ≠ .ss → r.cpu.seg q = s.cpu.seg q) :
    Interrupt.iret k.gdt r = some { r with
      cpu :=
        { mem := r.cpu.mem
          reg := Function.update r.cpu.reg .esp (s.cpu.reg .esp)
          eip := s.cpu.eip
          eflags := s.cpu.eflags
          seg := s.cpu.seg }
      cs := s.cs } := by
  cases ready with
  | kernel mode free top =>
    have segs : r.cpu.seg = s.cpu.seg := by
      funext q
      by_cases stackSegment : q = .ss
      · rw [stackSegment, ss mode]
      · exact seg q stackSegment
    rw [iret_kernel k inside mode frame, ← esp mode, ← segs]
    rfl
  | user mode ours selectors =>
    have segs : (fun q => if q = .ss then s.cpu.seg .ss else keptSelector k.gdt 3 (r.cpu.seg q)) = s.cpu.seg := by
      funext q
      by_cases stackSegment : q = .ss
      · rw [if_pos stackSegment, stackSegment]
      · rw [if_neg stackSegment, seg q stackSegment, selectors q stackSegment]
    rw [iret_user k inside mode frame, segs]

end Calls

def frameWords (s : Core) : Nat := if 0 < s.cpl then 19 else 17

theorem frameWords_le (s : Core) : frameWords s ≤ 19 := by
  rw [frameWords]
  split <;> decide

theorem handlerWords_length (k : Image) (l : Label) (error : Option Word) (s : Core) :
    (handlerWords k l error s).length = frameWords s := by
  rw [handlerWords, interruptFrame, frameWords]
  split <;> rfl

/-- At the entry of a handler the frame with the registers is on the stack, and on it a pointer
to the frame and the place to return to. -/
abbrev Entered (k : Image) (l : Label) (error : Option Word) (s h : Core) : Prop :=
  Called (handlerWords k l error s ++ [h.cpu.reg .esp + 8, k.back l.handler]) s h

theorem interrupt_enters (l : Label) (software : Bool) (error : Option Word) (s : Core)
    (allowed : ¬(software ∧ l.level < s.cpl)) (numbered : l ≠ .syscallInterruptHandler)
    (code : error.isSome = l.hasErrorCode) :
    ∃ h, interrupt k l.vector software error s = (k.routine l.handler h).bind (exec k leaveCode) ∧
      Entered k l error s h := by
  obtain ⟨h, runs, handed⟩ := enter_call k l.handler (stubbed k l error s)
  refine ⟨h, (interrupt_common k l software error s allowed numbered code).trans runs, handed.cs, handed.tss, ?_, ?_⟩
  · exact handed.ss.trans (congrFun (pushes_seg _ _) .ss)
  have onto : ∀ vs, ((pushes (stubbed k l error s).cpu vs).mem, (pushes (stubbed k l error s).cpu vs).reg .esp) =
      Stack.pushed s.cpu.mem ((entryStack s).reg .esp)
        (interruptFrame s ++ [error.getD 0, l.vector.setWidth 32] ++ vs) := by
    intro vs
    rw [pushes_pushed, Stack.pushed_append, ← stubbed_pushed]
  have pointer : h.cpu.reg .esp + 8 =
      (pushes (stubbed k l error s).cpu (registerWords (stubbed k l error s).cpu)).reg .esp := by
    rw [handed.esp, pushes_esp, pushes_esp, Stack.pushed_snd, Stack.pushed_snd]
    simp only [List.length_append, registerWords, List.length_cons, List.length_nil]
    bv_omega
  rw [pointer, handlerWords, List.append_assoc, ← onto, ← handed.mem, ← handed.esp]

section Entry

variable {l : Label} {error : Option Word} {h c : Core}

theorem entered_length (k : Image) (l : Label) (error : Option Word) (s h : Core) :
    (handlerWords k l error s ++ [h.cpu.reg .esp + 8, k.back l.handler]).length = frameWords s + 2 := by
  rw [List.length_append, handlerWords_length]
  rfl

theorem entered_few (k : Image) (l : Label) (error : Option Word) (s h : Core) :
    (handlerWords k l error s ++ [h.cpu.reg .esp + 8, k.back l.handler]).length ≤ 21 := by
  have few := frameWords_le s
  rw [entered_length]
  omega

/-- Behind a handler that returns, the stub goes back to the program, which finds its state. -/
theorem handler_leaves (conv : Conventional k stack data room) (ready : Ready k stack room s)
    (entered : Entered k l error s h) (returned : Returned stack 1 h c)
    (quiet : ∀ x, ¬data x → stack.size ≤ stack.height x → c.cpu.mem x = h.cpu.mem x) :
    ∃ t, exec k leaveCode c = some t ∧ Same stack data s t ∧ (s.tss = stack.tss → t.tss = stack.tss) := by
  have few := entered_few k l error s h
  have saved := entered.kept conv ready few rfl returned
  rw [handlerWords, List.reverse_append, List.reverse_append] at saved
  obtain ⟨r, back, cs, tss, mem, ss, reg, seg, frame, esp⟩ := leave_iret k c _ _ _ _ saved
  have height := entered.height conv ready few
  rw [entered_length] at height
  have bounds := ready.floor_bounds conv
  have inside : KernelMode r := cs.trans (returned.cs.trans entered.mode)
  have pointer : KernelMode s → r.cpu.reg .esp + 12 = s.cpu.reg .esp := by
    intro mode
    have words : frameWords s = 17 := if_neg (by rw [mode.cpl]; decide)
    have start : (entryStack s).reg .esp = s.cpu.reg .esp := by
      rw [entryStack, if_neg (by rw [mode.cpl]; decide)]
    rw [esp, returned.esp, entered.esp, entered_length, words, start]
    bv_omega
  have stackSegment : KernelMode s → r.cpu.seg .ss = s.cpu.seg .ss := by
    intro mode
    rw [ss, returned.seg, entered.ss, entryStack, if_neg (by rw [mode.cpl]; decide)]
  have segs : ∀ q, q ≠ .ss → r.cpu.seg q = s.cpu.seg q := fun q other => (seg q other).trans (stubbed_seg l error other)
  have leaves := back.trans (iret_back ready inside frame pointer stackSegment segs)
  have regs : Function.update r.cpu.reg .esp (s.cpu.reg .esp) = s.cpu.reg := by
    funext q
    by_cases other : q = .esp
    · rw [other, Function.update_self]
    · rw [Function.update_of_ne other, reg q other, stubbed_reg l error other]
  refine ⟨_, leaves, ⟨regs, rfl, rfl, rfl, rfl, ?_⟩, ?_⟩
  · intro x hidden above
    refine (congrFun mem x).trans (Eq.trans ?_ (entered.mem_kept conv ready few above))
    by_cases within : stack.height x < stack.size
    · exact returned.mem x (by omega) within
    · exact quiet x hidden (by omega)
  · exact fun ours => tss.trans (returned.tss (entered.tss.trans ours))

/-- Whatever the vector, `struct registers` of a handler holds what the interrupted program had in
its registers, where it was, and the number and the error code of the interrupt. -/
theorem handler_sees (l : Label) (software : Bool) (error : Option Word) (s : Core)
    (allowed : ¬(software ∧ l.level < s.cpl)) (numbered : l ≠ .syscallInterruptHandler)
    (code : error.isSome = l.hasErrorCode) :
    ∃ h esp, interrupt k l.vector software error s = (k.routine l.handler h).bind (exec k leaveCode) ∧
      Stack.Stacked h.cpu.mem (readWord h.cpu.mem (h.cpu.reg .esp + 4))
        ([(s.cpu.seg .gs).setWidth 32, (s.cpu.seg .fs).setWidth 32, (s.cpu.seg .es).setWidth 32,
            (s.cpu.seg .ds).setWidth 32,
          s.cpu.reg .edi, s.cpu.reg .esi, s.cpu.reg .ebp, esp, s.cpu.reg .ebx, s.cpu.reg .edx, s.cpu.reg .ecx,
            s.cpu.reg .eax,
          l.vector.setWidth 32, error.getD 0, s.cpu.eip, s.cs.setWidth 32, s.cpu.eflags] ++
          if 0 < s.cpl then [s.cpu.reg .esp, (s.cpu.seg .ss).setWidth 32] else []) := by
  obtain ⟨h, runs, entered⟩ := interrupt_enters l software error s allowed numbered code
  have stacked := entered.stacked (entered_few k l error s h)
  rw [List.reverse_append] at stacked
  have frame := stacked.pop.pop
  rw [BitVec.add_assoc] at frame
  refine ⟨h, (stubbed k l error s).cpu.reg .esp, runs, ?_⟩
  rw [stacked.pop.top]
  have addressed : h.cpu.reg .esp + (4 + 4) = h.cpu.reg .esp + 8 := rfl
  rw [handlerWords, interruptFrame, addressed] at frame
  simp (disch := decide) only [registerWords, stubbed_reg, stubbed_seg] at frame
  by_cases level : 0 < s.cpl
  · rw [if_pos level] at frame ⊢
    exact frame
  · rw [if_neg level] at frame ⊢
    exact frame

theorem handler_sees_keyboard : ∃ h : Core,
    readWord h.cpu.mem (offset (readWord h.cpu.mem (h.cpu.reg .esp + 4)) (4 * 12)) = 33 := by
  obtain ⟨h, esp, -, frame⟩ := handler_sees (k := idleImage) (.irq 1) false none userSample
    (fun refused => Bool.false_ne_true refused.1) nofun rfl
  exact ⟨h, frame 12 33 rfl⟩

end Entry

theorem Ready.keep {t : Core} (ready : Ready k stack room s) (cs : t.cs = s.cs)
    (esp : t.cpu.reg .esp = s.cpu.reg .esp) (seg : t.cpu.seg = s.cpu.seg) (tss : s.tss = stack.tss → t.tss = stack.tss) :
    Ready k stack room t := by
  cases ready with
  | kernel mode free top => exact .kernel (cs.trans mode) (by rwa [esp]) (by rwa [esp])
  | user mode ours selectors => exact .user (cs.trans mode) (tss ours) (by rwa [seg])

theorem handler_returned (conv : Conventional k stack data room) (ready : Ready k stack room s) {l : Label}
    {error : Option Word} {h c : Core} (numbered : l ≠ .syscallInterruptHandler) (entered : Entered k l error s h)
    (called : k.routine l.handler h = some c) :
    Returned stack 1 h c ∧ ∀ x, ¬data x → stack.size ≤ stack.height x → c.cpu.mem x = h.cpu.mem x := by
  have bounds := ready.floor_bounds conv
  have few := entered_few k l error s h
  have height := entered.height conv ready few
  have returned := conv.returns l.handler h c entered.mode (by omega) (by omega) called
  have handler : l.handler.args = 1 ∧ l.handler ≠ .syscallDispatch := by
    cases l with
    | isr n => exact ⟨rfl, nofun⟩
    | irq n => exact ⟨rfl, nofun⟩
    | syscallInterruptHandler => exact absurd rfl numbered
  rw [handler.1] at returned
  exact ⟨returned, conv.quiet _ h c handler.2 called⟩

/-- An interrupt that comes back leaves the program's state as it was. -/
theorem interrupt_same (conv : Conventional k stack data room) {l : Label} {software : Bool} {error : Option Word}
    {t : Core} (ready : Ready k stack room s) (allowed : ¬(software ∧ l.level < s.cpl))
    (numbered : l ≠ .syscallInterruptHandler) (code : error.isSome = l.hasErrorCode)
    (back : interrupt k l.vector software error s = some t) :
    Same stack data s t ∧ Ready k stack room t := by
  obtain ⟨h, runs, entered⟩ := interrupt_enters l software error s allowed numbered code
  obtain ⟨c, called, leaves⟩ := Option.bind_eq_some_iff.mp (runs.symm.trans back)
  obtain ⟨returned, quiet⟩ := handler_returned conv ready numbered entered called
  obtain ⟨t', left, same, tss⟩ := handler_leaves conv ready entered returned quiet
  obtain rfl : t' = t := Option.some.inj (left.symm.trans leaves)
  exact ⟨same, ready.keep same.cs (congrFun same.reg .esp) same.seg tss⟩

theorem interrupt_comes_back (conv : Conventional k stack data room) {l : Label} {software : Bool} {error : Option Word}
    (ready : Ready k stack room s) (allowed : ¬(software ∧ l.level < s.cpl))
    (numbered : l ≠ .syscallInterruptHandler) (code : error.isSome = l.hasErrorCode)
    (returns : ∀ h, (k.routine l.handler h).isSome) : ∃ t, interrupt k l.vector software error s = some t := by
  obtain ⟨h, runs, entered⟩ := interrupt_enters l software error s allowed numbered code
  obtain ⟨c, called⟩ := Option.isSome_iff_exists.mp (returns h)
  obtain ⟨returned, quiet⟩ := handler_returned conv ready numbered entered called
  obtain ⟨t, left, -, -⟩ := handler_leaves conv ready entered returned quiet
  rw [called, Option.bind_some, left] at runs
  exact ⟨t, runs⟩

end Interrupted

section Runs

variable {k : Image} {stack : KernelStack} {data : Word → Prop} {room : Nat} {s t : Core}

/-- An interrupt of a device or an exception of the processor comes and goes. -/
def Interrupts (k : Image) (s t : Core) : Prop :=
  ∃ (l : Label) (error : Option Word), l ≠ .syscallInterruptHandler ∧ error.isSome = l.hasErrorCode ∧
    interrupt k l.vector false error s = some t

/-- What a program does depends only on what it can see. -/
def Sees (stack : KernelStack) (data : Word → Prop) (step : Core → Core) : Prop :=
  ∀ s t, Same stack data s t → Same stack data (step s) (step t)

theorem Same.refl (s : Core) : Same stack data s s := ⟨rfl, rfl, rfl, rfl, rfl, fun _ _ _ => rfl⟩

theorem Same.floor_eq (same : Same stack data s t) : floor stack t = floor stack s := by
  rw [floor, floor, Core.cpl, Core.cpl, same.cs, same.reg]

theorem Same.trans {u : Core} (first : Same stack data s t) (second : Same stack data t u) : Same stack data s u where
  reg := second.reg.trans first.reg
  seg := second.seg.trans first.seg
  eflags := second.eflags.trans first.eflags
  eip := second.eip.trans first.eip
  cs := second.cs.trans first.cs
  mem x hidden above := by
    rw [second.mem x hidden (first.floor_eq ▸ above), first.mem x hidden above]

theorem Interrupts.same (conv : Conventional k stack data room) (ready : Ready k stack room s)
    (comes : Interrupts k s t) : Same stack data s t ∧ Ready k stack room t := by
  obtain ⟨l, error, numbered, code, back⟩ := comes
  exact interrupt_same conv ready (fun refused => Bool.false_ne_true refused.1) numbered code back

/-- `inc eax`, but for the flags and `eip`. -/
def countSample (s : Core) : Core := { s with cpu := s.cpu.set .eax (s.cpu.reg .eax + 1) }

theorem countSample_esp (s : Core) : (countSample s).cpu.reg .esp = s.cpu.reg .esp := by
  simp [countSample, Cpu.set]

theorem countSample_sees (data : Word → Prop) : Sees sampleStack data countSample := by
  intro s t same
  have level : floor sampleStack (countSample s) = floor sampleStack s := by
    rw [floor, floor, countSample_esp]
    rfl
  refine ⟨?_, same.seg, same.eflags, same.eip, same.cs, fun x hidden above => ?_⟩
  · simp only [countSample, Cpu.set, same.reg]
  · rw [level] at above
    exact same.mem x hidden above

theorem countSample_confined (s : Core) (mode : UserMode s) (ready : Ready idleImage sampleStack 0 s) :
    UserMode (countSample s) ∧ Ready idleImage sampleStack 0 (countSample s) :=
  ⟨mode, ready.keep rfl (countSample_esp s) rfl id⟩

/-- A program at level 3, interrupted anywhere. Its instructions leave its code segment and the
task state segment as they are, and load the data segments that level 3 may use. -/
theorem user_interleaved (conv : Conventional k stack data room) {step : Core → Core}
    (sees : Sees stack data step)
    (confined : ∀ s, UserMode s → Ready k stack room s → UserMode (step s) ∧ Ready k stack room (step s))
    (mode : UserMode s) (ready : Ready k stack room s) {n : Nat}
    (run : Execution.Interleaved step (Interrupts k) s n t) :
    Same stack data (step^[n] s) t ∧ UserMode t ∧ Ready k stack room t := by
  have keep : ∀ s, UserMode s ∧ Ready k stack room s → UserMode (step s) ∧ Ready k stack room (step s) :=
    fun s start => confined s start.1 start.2
  have through : ∀ s t, UserMode s ∧ Ready k stack room s → Interrupts k s t → UserMode t ∧ Ready k stack room t := by
    intro s t start comes
    have both := comes.same conv start.2
    exact ⟨both.1.cs.trans start.1, both.2⟩
  refine ⟨?_, run.invariant keep through ⟨mode, ready⟩⟩
  have guarded := run.guarded keep through ⟨mode, ready⟩
  exact guarded.absorbed Same.refl (fun _ _ _ => Same.trans) sees fun _ _ here => (here.2.same conv here.1.2).1

theorem user_interleaved_irq : ∃ t, Execution.Interleaved countSample (Interrupts idleImage) userSample 1 t ∧
    Same sampleStack (fun _ => False) (countSample^[1] userSample) t := by
  have comes : ∃ t, interrupt idleImage (Label.irq 5).vector false none userSample = some t :=
    interrupt_comes_back (idleImage_conventional fun _ => False) userSample_ready
      (fun refused => Bool.false_ne_true refused.1) nofun rfl fun _ => rfl
  obtain ⟨t, back⟩ := comes
  have run : Execution.Interleaved countSample (Interrupts idleImage) userSample 1 (countSample t) :=
    .event ⟨.irq 5, none, nofun, rfl, back⟩ (.step (.nil _))
  have mode : UserMode userSample := rfl
  exact ⟨_, run, (user_interleaved (idleImage_conventional _) (countSample_sees _) countSample_confined mode
    userSample_ready run).1⟩

end Runs

end Wittche.Interrupt
