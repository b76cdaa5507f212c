import Mathlib.Data.List.FinRange
import Mathlib.Tactic.IntervalCases
import Wittche.Lib.AddressSpace
import Wittche.Lib.Tables

/-! The descriptor tables that `kernel/gdt.c`, `kernel/idt.c` and `syscall_init` of
`kernel/syscall.c` fill, and how the processor reads them. The addresses of the assembler's
labels and of the task state segment are parameters: the linker chooses them. -/

namespace Wittche.Interrupt
open Bytes AddressSpace

section Segments

structure GdtEntry where
  limitLow : Half
  baseLow : Half
  baseMiddle : Byte
  access : Byte
  granularity : Byte
  baseHigh : Byte
  deriving DecidableEq

def GDT_ENTRIES : Nat := 6
def KERNEL_CODE_SEGMENT : Half := 0x08
def KERNEL_DATA_SEGMENT : Half := 0x10
def USER_CODE_SEGMENT : Half := 0x18
def USER_DATA_SEGMENT : Half := 0x20

abbrev Gdt := Nat → GdtEntry

def gdtEntry (base limit : Word) (access gran : Byte) : GdtEntry where
  baseLow := (base &&& 0xFFFF).setWidth 16
  baseMiddle := ((base >>> 16) &&& 0xFF).setWidth 8
  baseHigh := ((base >>> 24) &&& 0xFF).setWidth 8
  limitLow := (limit &&& 0xFFFF).setWidth 16
  granularity := ((limit >>> 16) &&& 0x0F).setWidth 8 ||| (gran &&& 0xF0)
  access := access

def gdtSetGate (t : Gdt) (num : Nat) (base limit : Word) (access gran : Byte) : Gdt :=
  Function.update t num (gdtEntry base limit access gran)

def SIZEOF_TSS : Nat := 104

/-- The table that `gdt_init` loads, with the task state segment at `tssBase`. -/
def gdtInit (t : Gdt) (tssBase : Word) : Gdt :=
  let t := gdtSetGate t 0 0 0 0 0
  let t := gdtSetGate t 1 0 0xFFFFFFFF 0x9A 0xCF
  let t := gdtSetGate t 2 0 0xFFFFFFFF 0x92 0xCF
  let t := gdtSetGate t 3 0 0xFFFFFFFF 0xFA 0xCF
  let t := gdtSetGate t 4 0 0xFFFFFFFF 0xF2 0xCF
  gdtSetGate t 5 tssBase (BitVec.ofNat 32 (SIZEOF_TSS - 1)) 0x89 0x40

/-- A segment as the processor reads its descriptor. -/
structure SegmentInfo where
  base : Word
  /-- The last offset. -/
  limit : Nat
  present : Bool
  dpl : Nat
  /-- A code or data segment, not a system segment. -/
  memory : Bool
  executable : Bool
  /-- Readable code or writable data. -/
  accessible : Bool
  deriving DecidableEq

def GdtEntry.info (e : GdtEntry) : SegmentInfo where
  base := (e.baseHigh ++ e.baseMiddle) ++ e.baseLow
  limit :=
    let units := ((e.granularity &&& 0x0F) ++ e.limitLow).toNat
    if e.granularity.getLsbD 7 then units * 4096 + 4095 else units
  present := e.access.getLsbD 7
  dpl := e.access.toNat / 32 % 4
  memory := e.access.getLsbD 4
  executable := e.access.getLsbD 3
  accessible := e.access.getLsbD 1

def rpl (selector : Half) : Nat := selector.toNat % 4

/-- The segment of a selector: `none` for the null selector, for the local table and behind the
limit of the table. -/
def lookup (t : Gdt) (selector : Half) : Option SegmentInfo :=
  let i := selector.toNat / 8
  if i = 0 ∨ selector.getLsbD 2 ∨ GDT_ENTRIES ≤ i then none
  else if (t i).info.present then some (t i).info else none

end Segments

section Gates

structure IdtEntry where
  offsetLow : Half
  selector : Half
  zero : Byte
  typeAttr : Byte
  offsetHigh : Half
  deriving DecidableEq

abbrev Idt := Byte → IdtEntry

def idtEntry (handler : Word) (selector : Half) (flags : Byte) : IdtEntry where
  offsetLow := (handler &&& 0xFFFF).setWidth 16
  offsetHigh := ((handler >>> 16) &&& 0xFFFF).setWidth 16
  selector := selector
  zero := 0
  typeAttr := flags

def idtSetGate (t : Idt) (num : Byte) (handler : Word) (selector : Half) (flags : Byte) : Idt :=
  Function.update t num (idtEntry handler selector flags)

inductive Label
  | isr (n : Fin 32)
  | irq (n : Fin 16)
  | syscallInterruptHandler
  deriving DecidableEq

/-- The loop of `idt_init` that clears the table. -/
def clearedIdt : Idt := fun _ => ⟨0, 0, 0, 0, 0⟩

/-- The table that `idt_init` loads. -/
def idtInit (address : Label → Word) : Idt :=
  let t := (List.finRange 32).foldl
    (fun t (n : Fin 32) => idtSetGate t (BitVec.ofNat 8 n) (address (.isr n)) 0x08 0x8E) clearedIdt
  (List.finRange 16).foldl
    (fun t (n : Fin 16) => idtSetGate t (BitVec.ofNat 8 (32 + n)) (address (.irq n)) 0x08 0x8E) t

def syscallInit (t : Idt) (address : Label → Word) : Idt :=
  idtSetGate t 0x80 (address .syscallInterruptHandler) 0x08 0xEE

/-- A gate as the processor reads it. -/
structure GateInfo where
  offset : Word
  selector : Half
  present : Bool
  dpl : Nat
  type : Nat
  deriving DecidableEq

def IdtEntry.info (e : IdtEntry) : GateInfo where
  offset := e.offsetHigh ++ e.offsetLow
  selector := e.selector
  present := e.typeAttr.getLsbD 7
  dpl := e.typeAttr.toNat / 32 % 4
  type := e.typeAttr.toNat % 16

end Gates

section Encoding

theorem word_of_halves (w : Word) :
    ((w >>> 16) &&& 0xFFFF).setWidth 16 ++ (w &&& 0xFFFF).setWidth 16 = w := by
  apply BitVec.eq_of_toNat_eq
  have bound := w.isLt
  have low := Nat.and_two_pow_sub_one_eq_mod (w.toNat % 65536) 16
  have high := Nat.and_two_pow_sub_one_eq_mod (w.toNat / 65536 % 65536) 16
  rw [BitVec.toNat_append, ← Nat.shiftLeft_add_eq_or_of_lt (BitVec.isLt _)]
  simp [Nat.shiftRight_eq_div_pow, Nat.shiftLeft_eq] at low high ⊢
  omega

theorem idtEntry_info (handler : Word) (selector : Half) (flags : Byte) :
    (idtEntry handler selector flags).info =
      ⟨handler, selector, flags.getLsbD 7, flags.toNat / 32 % 4, flags.toNat % 16⟩ := by
  rw [IdtEntry.info]
  congr 1
  exact word_of_halves handler

theorem word_of_bytes_and_half (w : Word) :
    (((w >>> 24) &&& 0xFF).setWidth 8 ++ ((w >>> 16) &&& 0xFF).setWidth 8) ++ (w &&& 0xFFFF).setWidth 16 = w := by
  apply BitVec.eq_of_toNat_eq
  have bound := w.isLt
  have low := Nat.and_two_pow_sub_one_eq_mod (w.toNat % 65536) 16
  have middle := Nat.and_two_pow_sub_one_eq_mod (w.toNat / 65536 % 256) 8
  have high := Nat.and_two_pow_sub_one_eq_mod (w.toNat / 16777216 % 256) 8
  rw [BitVec.toNat_append, ← Nat.shiftLeft_add_eq_or_of_lt (BitVec.isLt _), BitVec.toNat_append,
    ← Nat.shiftLeft_add_eq_or_of_lt (BitVec.isLt _)]
  simp [Nat.shiftRight_eq_div_pow, Nat.shiftLeft_eq] at low middle high ⊢
  omega

theorem low_nibble (a b : Byte) : ((a &&& 0x0F) ||| (b &&& 0xF0)) &&& 0x0F = a &&& 0x0F := by
  ext i below
  interval_cases i <;> simp

theorem limit_units (limit : Word) :
    ((((limit >>> 16).setWidth 8 : Byte) &&& 0x0F) ++ (limit &&& 0xFFFF).setWidth 16).toNat = limit.toNat % 2 ^ 20 := by
  have bound := limit.isLt
  have low := Nat.and_two_pow_sub_one_eq_mod (limit.toNat % 65536) 16
  have high := Nat.and_two_pow_sub_one_eq_mod (limit.toNat / 65536 % 256) 4
  rw [BitVec.toNat_append, ← Nat.shiftLeft_add_eq_or_of_lt (BitVec.isLt _)]
  simp [Nat.shiftRight_eq_div_pow, Nat.shiftLeft_eq] at low high ⊢
  omega

theorem gdtEntry_info (base limit : Word) (access gran : Byte) :
    (gdtEntry base limit access gran).info =
      ⟨base,
       if gran.getLsbD 7 then limit.toNat % 2 ^ 20 * 4096 + 4095 else limit.toNat % 2 ^ 20,
       access.getLsbD 7, access.toNat / 32 % 4, access.getLsbD 4, access.getLsbD 3, access.getLsbD 1⟩ := by
  have upper : ((limit >>> 16) &&& 0x0F).setWidth 8 = ((limit >>> 16).setWidth 8 : Byte) &&& 0x0F := by
    simp [BitVec.setWidth_and]
  have flag : ((((limit >>> 16).setWidth 8 : Byte) &&& 0x0F) ||| (gran &&& 0xF0)).getLsbD 7 = gran.getLsbD 7 := by
    simp
  rw [GdtEntry.info, gdtEntry]
  simp only [upper, flag, low_nibble, limit_units]
  congr 1
  exact word_of_bytes_and_half base

end Encoding

section Filled

variable (address : Label → Word)

def Label.vector : Label → Byte
  | .isr n => BitVec.ofNat 8 n
  | .irq n => BitVec.ofNat 8 (32 + n)
  | .syscallInterruptHandler => 0x80

def Label.flags : Label → Byte
  | .isr _ => 0x8E
  | .irq _ => 0x8E
  | .syscallInterruptHandler => 0xEE

/-- The table behind `idt_init` and `syscall_init`. -/
def installed : Idt := syscallInit (idtInit address) address

theorem vector_injective : Function.Injective Label.vector := by
  intro l k same
  have numbers := congrArg BitVec.toNat same
  rcases l with n | n | - <;> rcases k with m | m | - <;>
    simp only [Label.vector, BitVec.toNat_ofNat, BitVec.reduceToNat, Label.isr.injEq, Label.irq.injEq, Fin.ext_iff,
      reduceCtorEq] at numbers ⊢ <;>
    omega

theorem irq_injective : Function.Injective Label.irq := fun _ _ same => Label.irq.inj same

theorem isr_injective : Function.Injective Label.isr := fun _ _ same => Label.isr.inj same

theorem installed_eq : installed address =
    Function.update (idtInit address) Label.syscallInterruptHandler.vector
      (idtEntry (address .syscallInterruptHandler) 0x08 0xEE) := rfl

theorem installed_label (l : Label) : installed address l.vector = idtEntry (address l) 0x08 l.flags := by
  cases l with
  | isr n =>
    have late := vector_injective.ne (show Label.isr n ≠ .syscallInterruptHandler from nofun)
    rw [installed_eq, Function.update_of_ne late, idtInit]
    refine (Tables.foldl_update_other (fun n => (Label.irq n).vector) _ _ _ ?_).trans ?_
    · exact fun m _ => vector_injective.ne nofun
    · exact Tables.foldl_update_key _ (vector_injective.comp isr_injective) (List.mem_finRange n) _
  | irq n =>
    have late := vector_injective.ne (show Label.irq n ≠ .syscallInterruptHandler from nofun)
    rw [installed_eq, Function.update_of_ne late, idtInit]
    exact Tables.foldl_update_key _ (vector_injective.comp irq_injective) (List.mem_finRange n) _
  | syscallInterruptHandler =>
    rw [installed_eq, Function.update_self]
    rfl

theorem installed_other (n : Byte) (free : ∀ l : Label, l.vector ≠ n) : installed address n = ⟨0, 0, 0, 0, 0⟩ := by
  rw [installed_eq, Function.update_of_ne (free .syscallInterruptHandler).symm, idtInit]
  refine (Tables.foldl_update_other (fun n => (Label.irq n).vector) _ _ _ (fun m _ => free (.irq m))).trans ?_
  exact Tables.foldl_update_other (fun n => (Label.isr n).vector) _ _ _ (fun m _ => free (.isr m))

end Filled

section Flat

variable (t : Gdt) (tssBase : Word)

def flat (level : Nat) (code : Bool) : SegmentInfo := ⟨0, 2 ^ 32 - 1, true, level, true, code, true⟩

theorem lookup_kernelCode : lookup (gdtInit t tssBase) KERNEL_CODE_SEGMENT = some (flat 0 true) := by
  simp [lookup, gdtInit, gdtSetGate, gdtEntry_info, KERNEL_CODE_SEGMENT, GDT_ENTRIES, flat]

theorem lookup_userCode : lookup (gdtInit t tssBase) (USER_CODE_SEGMENT ||| 3) = some (flat 3 true) := by
  simp [lookup, gdtInit, gdtSetGate, gdtEntry_info, USER_CODE_SEGMENT, GDT_ENTRIES, flat]

theorem lookup_userData : lookup (gdtInit t tssBase) (USER_DATA_SEGMENT ||| 3) = some (flat 3 false) := by
  simp [lookup, gdtInit, gdtSetGate, gdtEntry_info, USER_DATA_SEGMENT, GDT_ENTRIES, flat]

end Flat

end Wittche.Interrupt
