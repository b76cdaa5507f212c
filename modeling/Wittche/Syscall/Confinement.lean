import Wittche.Process.Messages
import Wittche.Syscall.Model

/-! System calls and the address space of the caller. No handler looks at the page directory,
so a call stays within the memory of its caller exactly when the pointers that it follows
do, byte by byte. -/

namespace Wittche.Syscall
open Bytes CString AddressSpace Pmm Paging Process

def callerDirectory (s : Machine) : Nat := (s.processes.pcb s.processes.current).pageDirectory

/-- The address is mapped for user mode in the directory of the caller. -/
def UserAccessible (s : Machine) (a : Word) : Prop := UserAccess s.kernel.tables (callerDirectory s) a.toNat

instance (s : Machine) (a : Word) : Decidable (UserAccessible s a) := inferInstanceAs (Decidable (UserAccess ..))

def UserCaller (s : Machine) : Prop := ∃ i, User s.processes i ∧ s.processes.table i = s.processes.current

/-- A process that the kernel keeps: the idle process, or one in the table. -/
def Known (s : Processes) (p : Nat) : Prop := p = s.idle ∨ ∃ i, Used s i ∧ s.table i = p

/-- A message queue that the kernel keeps. -/
def KnownQueue (s : Processes) (q : Nat) : Prop := ∃ i, Used s i ∧ i ≠ 0 ∧ (inSlot s i).msgQueue = q

/-- Of its own structures the kernel changes processes, message queues and what is on the
screen, and no page table. In the heap, where the kernel stacks are, it frees blocks and writes
nothing else. -/
structure KernelOwned (s t : Machine) : Prop where
  pcbs : ∀ p, t.processes.pcb p ≠ s.processes.pcb p → Known s.processes p
  queues : ∀ q, t.processes.queue q ≠ s.processes.queue q → KnownQueue s.processes q
  heap : Releases s.processes.heap t.processes.heap
  entries : t.kernel.tables.entries = s.kernel.tables.entries
  video : t.screen.1.videoMemory.Within 2000

/-- A call from `s` to `t` stays in the memory of its caller. -/
structure Respects (s t : Machine) : Prop where
  reads : ∀ a ∈ t.memory.reads, UserAccessible s a
  writes : ∀ a ∈ t.memory.writes, UserAccessible s a
  rest : ∀ a, ¬UserAccessible s a → t.memory.bytes a = s.memory.bytes a
  owned : KernelOwned s t

def Machine.enter (s : Machine) : Machine := { s with memory := ⟨s.memory.bytes, [], []⟩ }

section Conditions

variable (s : Machine)

/-- Up to the first NUL and up to `count` bytes, the string of `sys_write` is the caller's. -/
def WriteConfined (buffer count : Word) : Prop :=
  buffer = 0 ∨ ∀ i < count.toNat, (∀ j < i, s.memory.bytes (offset buffer j) ≠ 0) → UserAccessible s (offset buffer i)

/-- The process with the pid `target`, and its message queue. -/
def receiver (target : Word) : Nat := s.processes.processGet target.toNat

def receiverQueue (target : Word) : Nat := (s.processes.pcb (receiver s target)).msgQueue

/-- `process_send_message` comes to its `memcpy`. -/
def Accepted (target length : Word) : Prop :=
  length ≠ 0 ∧ length.toNat ≤ MAX_MESSAGE_SIZE ∧ receiver s target ≠ 0 ∧ receiverQueue s target ≠ 0 ∧
    (s.processes.queue (receiverQueue s target)).count < MESSAGE_QUEUE_SIZE

/-- The message of `sys_send` is the caller's, if it is copied at all, and goes to a queue that
the kernel has set up. -/
def SendConfined (target message length : Word) : Prop :=
  message = 0 ∨ ¬Accepted s target length ∨
    KnownQueue s.processes (receiverQueue s target) ∧ ∀ i < length.toNat, UserAccessible s (offset message i)

def Waiting : Prop :=
  let q := (s.processes.pcb s.processes.current).msgQueue
  q ≠ 0 ∧ (s.processes.queue q).count ≠ 0

/-- How much of the message goes into a buffer of `maxLength` bytes. -/
def copyLength (maxLength : Word) : Nat := min (headMessage s.processes).length maxLength.toNat

/-- The buffer of `sys_recv` is the caller's as far as it is filled, and so is the place for the
sender, if it is asked for. -/
def RecvConfined (buffer maxLength senderPtr : Word) : Prop :=
  buffer = 0 ∨ maxLength = 0 ∨ ¬Waiting s ∨
    (∀ i < copyLength s maxLength, UserAccessible s (offset buffer i)) ∧
      (senderPtr ≠ 0 → 0 < copyLength s maxLength → copyLength s maxLength < 2 ^ 31 →
        ∀ i < 4, UserAccessible s (offset senderPtr i))

def Confined (syscallNum arg1 arg2 arg3 : Word) : Prop :=
  match syscallNum.toNat with
  | 1 => WriteConfined s arg2 arg3
  | 6 => SendConfined s arg1 arg2 arg3
  | 7 => RecvConfined s arg1 arg2 arg3
  | _ => True

end Conditions

theorem next_known (s : Processes) : Known s (nextProcess (park s)) := by
  have same := park_sameSlots s
  rcases nextProcess_cases (park s) with idle | ⟨i, used, here, -⟩
  · exact Or.inl (idle.trans same.idle)
  · exact Or.inr ⟨i, same.used.mp used, by rw [← here, same.table]⟩

section Calls

variable {s : Machine}

theorem UserCaller.known (caller : UserCaller s) : Known s.processes s.processes.current := by
  obtain ⟨i, user, here⟩ := caller
  exact Or.inr ⟨i, user.1, here⟩

theorem UserCaller.queue (caller : UserCaller s) :
    KnownQueue s.processes (s.processes.pcb s.processes.current).msgQueue := by
  obtain ⟨i, user, here⟩ := caller
  exact ⟨i, user.1, user.2.1, by rw [inSlot, here]⟩

theorem owned_of_only {t : Machine} (only : Only (Known s.processes) s.processes t.processes)
    (entries : t.kernel.tables.entries = s.kernel.tables.entries) : KernelOwned s t := by
  refine ⟨?_, ?_, only.heap, entries, t.screen.2.memory⟩
  · exact fun p changed => by_contra fun away => changed (only.pcbs p away)
  · exact fun q changed => absurd (congrFun only.queue q) changed

theorem owned_of_queue {t : Machine} {q : Nat} {x : MessageQueue} (known : KnownQueue s.processes q)
    (queues : t.processes.queue = Function.update s.processes.queue q x)
    (pcbs : ∀ p, ¬Known s.processes p → t.processes.pcb p = s.processes.pcb p)
    (heap : t.processes.heap = s.processes.heap) (tables : t.kernel.tables = s.kernel.tables) : KernelOwned s t := by
  refine ⟨?_, ?_, heap ▸ .refl _, congrArg PageTables.entries tables, t.screen.2.memory⟩
  · exact fun p changed => by_contra fun away => changed (pcbs p away)
  · intro b changed
    have mine : b = q := by_contra fun other => changed (by rw [queues, Function.update_of_ne other])
    exact mine ▸ known

/-- What is recorded decides, where the structures of the kernel are in order. -/
theorem respects_iff {t : Machine} (owned : KernelOwned s t) (grows : s.enter.memory.Grows t.memory) :
    Respects s t ↔ (∀ a ∈ t.memory.reads, UserAccessible s a) ∧ ∀ a ∈ t.memory.writes, UserAccessible s a := by
  constructor
  · exact fun h => ⟨h.reads, h.writes⟩
  · rintro ⟨reads, writes⟩
    exact ⟨reads, writes, fun a closed => grows.bytes a fun written => closed (writes a written), owned⟩

theorem respects_of_only {t : Machine} (only : Only (Known s.processes) s.processes t.processes)
    (entries : t.kernel.tables.entries = s.kernel.tables.entries) (memory : t.memory = s.enter.memory) : Respects s t := by
  refine (respects_iff (owned_of_only only entries) (by rw [memory]; exact .refl _)).mpr ?_
  rw [memory]
  exact ⟨fun a inside => absurd inside List.not_mem_nil, fun a inside => absurd inside List.not_mem_nil⟩

theorem freeDirectories_entries (dirs : List Nat) (tables : PageTables) :
    (dirs.foldr (fun dir tables => pagingFreeDirectory tables dir) tables).entries = tables.entries := by
  induction dirs with
  | nil => rfl
  | cons dir rest ih => rw [List.foldr_cons, freeDirectory_entries, ih]

theorem sysExit_respects (caller : UserCaller s) (arg1 arg2 arg3 arg4 : Word) :
    Respects s (sysExit s.enter arg1 arg2 arg3 arg4).1 := by
  have there : s.enter.processes.current ≠ 0 := by
    obtain ⟨i, user, here⟩ := caller
    exact here ▸ user.1.2
  simp only [sysExit, if_neg there]
  split
  next => exact respects_of_only (.refl _) rfl rfl
  next =>
    refine respects_of_only ?_ ?_ rfl
    · have killed := only_kill (s := { s.processes with freed := [] }) caller.known
        (fun x => next_known (Processes.setPcb _ _ x)) (s.processes.pcb s.processes.current).pid
      exact ⟨killed.pcbs, killed.queue, killed.heap⟩
    · exact freeDirectories_entries _ _

theorem sysSleep_respects (caller : UserCaller s) (arg1 arg2 arg3 arg4 : Word) :
    Respects s (sysSleep s.enter arg1 arg2 arg3 arg4).1 :=
  respects_of_only (only_sleep caller.known (fun x => next_known (Processes.setPcb _ _ x)) arg1.toNat) rfl rfl

theorem sysYield_respects (caller : UserCaller s) (arg1 arg2 arg3 arg4 : Word) :
    Respects s (sysYield s.enter arg1 arg2 arg3 arg4).1 :=
  respects_of_only (only_schedule .back caller.known (next_known _)) rfl rfl

theorem respects_enter (s : Machine) : Respects s s.enter := respects_of_only (.refl _) rfl rfl

theorem writeFrom_spec (buffer : Word) (n i : Nat) (s : Machine) :
    (s.writeFrom buffer n i).kernel = s.kernel ∧ (s.writeFrom buffer n i).memory.bytes = s.memory.bytes ∧
      (s.writeFrom buffer n i).memory.writes = s.memory.writes ∧
      ∀ x, x ∈ (s.writeFrom buffer n i).memory.reads ↔
        (∃ k < n, (∀ j < k, s.memory.bytes (offset buffer (i + j)) ≠ 0) ∧ x = offset buffer (i + k)) ∨
          x ∈ s.memory.reads := by
  induction n generalizing i s with
  | zero => exact ⟨rfl, rfl, rfl, fun x => by simp [Machine.writeFrom]⟩
  | succ n ih =>
    rw [Machine.writeFrom]
    simp only []
    split
    next char =>
      obtain ⟨kernel, bytes, writes, reads⟩ := ih (i + 1) (Machine.print { s with
        memory := (s.memory.read (offset buffer i)).read (offset buffer i) } (s.memory.bytes (offset buffer i)) char)
      refine ⟨kernel, bytes, writes, fun x => ?_⟩
      rw [reads]
      change (∃ k < n, (∀ j < k, s.memory.bytes (offset buffer (i + 1 + j)) ≠ 0) ∧ x = offset buffer (i + 1 + k)) ∨
        x ∈ offset buffer i :: offset buffer i :: s.memory.reads ↔ _
      rw [List.mem_cons, List.mem_cons]
      constructor
      · rintro (⟨k, lt, before, here⟩ | here | here | old)
        · refine Or.inl ⟨k + 1, Nat.succ_lt_succ lt, fun j less => ?_, by rw [here, Nat.add_assoc, Nat.add_comm 1 k]⟩
          cases j with
          | zero => exact char
          | succ j =>
            have char' := before j (Nat.lt_of_succ_lt_succ less)
            rwa [Nat.add_assoc, Nat.add_comm 1 j] at char'
        · exact Or.inl ⟨0, Nat.succ_pos n, fun j less => absurd less (Nat.not_lt_zero j), here⟩
        · exact Or.inl ⟨0, Nat.succ_pos n, fun j less => absurd less (Nat.not_lt_zero j), here⟩
        · exact Or.inr old
      · rintro (⟨k, lt, before, here⟩ | old)
        · cases k with
          | zero => exact Or.inr (Or.inl here)
          | succ k =>
            refine Or.inl ⟨k, Nat.lt_of_succ_lt_succ lt, fun j less => ?_,
              by rw [here, Nat.add_assoc, Nat.add_comm 1 k]⟩
            rw [Nat.add_assoc, Nat.add_comm 1 j]
            exact before (j + 1) (Nat.succ_lt_succ less)
        · exact Or.inr (Or.inr (Or.inr old))
    next nul =>
      refine ⟨rfl, rfl, rfl, fun x => ?_⟩
      change x ∈ offset buffer i :: s.memory.reads ↔ _
      rw [List.mem_cons]
      refine or_congr_left ⟨fun here => ?_, ?_⟩
      · exact ⟨0, Nat.succ_pos n, fun j less => absurd less (Nat.not_lt_zero j), here⟩
      · rintro ⟨k, -, before, here⟩
        cases k with
        | zero => exact here
        | succ k => exact absurd (before 0 (Nat.succ_pos k)) nul

theorem sysWrite_respects_iff (s : Machine) (fd buffer count arg4 : Word) :
    Respects s (sysWrite s.enter fd buffer count arg4).1 ↔ WriteConfined s buffer count := by
  rw [sysWrite, WriteConfined]
  split
  next none =>
    refine iff_of_true (respects_enter s) (none.imp_right ?_)
    rintro rfl i lt
    exact absurd lt (Nat.not_lt_zero i)
  next some =>
    obtain ⟨kernel, bytes, writes, reads⟩ := writeFrom_spec buffer count.toNat 0 s.enter
    have owned : KernelOwned s (s.enter.writeFrom buffer count.toNat 0) := by
      refine owned_of_only ?_ (by rw [kernel]; rfl)
      rw [show (s.enter.writeFrom buffer count.toNat 0).processes = s.processes from congrArg Kernel.processes kernel]
      exact .refl _
    have grows : s.enter.memory.Grows (s.enter.writeFrom buffer count.toNat 0).memory :=
      ⟨fun x hx => by rwa [writes], fun x _ => by rw [bytes]⟩
    rw [respects_iff owned grows, writes]
    simp only [Nat.zero_add] at reads
    constructor
    · rintro ⟨user, -⟩
      exact Or.inr fun i lt before => user _ ((reads _).mpr (Or.inl ⟨i, lt, before, rfl⟩))
    · intro confined
      refine ⟨fun a inside => ?_, fun a inside => absurd inside List.not_mem_nil⟩
      rcases (reads a).mp inside with ⟨k, lt, before, rfl⟩ | old
      · exact confined.resolve_left (fun null => some (Or.inl null)) k lt before
      · exact absurd old List.not_mem_nil

theorem sysSend_accepted {s : Machine} {target message length : Word} (there : message ≠ 0)
    (ok : Accepted s target length) (arg4 : Word) :
    (sysSend s target message length arg4).1.processes =
        wakeReceiver (s.processes.setQueue (receiverQueue s target)
          ((s.processes.queue (receiverQueue s target)).put (senderOf s.processes)
            (fun i => s.memory.bytes (offset message i)) length.toNat)) (receiver s target) ∧
      (sysSend s target message length arg4).1.kernel.tables = s.kernel.tables ∧
      (sysSend s target message length arg4).1.memory = s.memory.readRange message length.toNat := by
  obtain ⟨some, small, found, queue, room⟩ := ok
  have valid : ¬(message = 0 ∨ length = 0) := not_or.mpr ⟨there, some⟩
  have valid' : ¬(message = 0 ∨ length = 0 ∨ MAX_MESSAGE_SIZE < length.toNat) := by
    rintro (null | zero | long)
    · exact there null
    · exact some zero
    · omega
  rw [receiverQueue, receiver] at *
  rw [sysSend, if_neg valid, Machine.processSendMessage, if_neg valid']
  simp only []
  rw [if_neg (not_or.mpr ⟨found, queue⟩), if_neg (Nat.not_le.mpr room)]
  have nonzero : length.toNat ≠ 0 := fun zero => some (BitVec.eq_of_toNat_eq zero)
  exact ⟨congrArg Prod.fst (processSendMessage_put _ nonzero small found queue room), rfl, rfl⟩

theorem sysSend_refused {s : Machine} {target message length : Word} (no : ¬Accepted s target length) (arg4 : Word) :
    (sysSend s target message length arg4).1 = s := by
  rw [sysSend]
  split
  next => rfl
  next some =>
    rw [Machine.processSendMessage]
    split
    next => rfl
    next valid =>
      simp only []
      split
      next => rfl
      next there =>
        split
        next => rfl
        next room =>
          obtain ⟨-, some, small⟩ := (not_or.mp valid).imp_right not_or.mp
          obtain ⟨found, queue⟩ := not_or.mp there
          exact absurd ⟨some, Nat.not_lt.mp small, found, queue, Nat.not_le.mp room⟩ no

theorem wakeReceiver_heap (s : Processes) (p : Nat) : (wakeReceiver s p).heap = s.heap := by
  rcases wakeReceiver_cases s p with same | ⟨-, woken⟩
  · rw [same]
  · rw [woken]
    rfl

theorem sysSend_respects_iff (s : Machine) (target message length arg4 : Word) :
    Respects s (sysSend s.enter target message length arg4).1 ↔ SendConfined s target message length := by
  rw [SendConfined]
  by_cases null : message = 0
  · refine iff_of_true ?_ (Or.inl null)
    rw [sysSend, if_pos (Or.inl null)]
    exact respects_enter s
  by_cases ok : Accepted s target length
  · obtain ⟨processes, tables, memory⟩ := sysSend_accepted (s := s.enter) null ok arg4
    obtain ⟨bytes, writes, reads⟩ := s.enter.memory.readRange_spec message length.toNat
    generalize (sysSend s.enter target message length arg4).1 = t at *
    have queues : t.processes.queue = Function.update s.processes.queue (receiverQueue s target) _ :=
      (congrArg Processes.queue processes).trans (wakeReceiver_queue _ _)
    have grows : s.enter.memory.Grows t.memory := by
      rw [memory]
      exact ⟨fun x hx => by rwa [writes], fun x _ => by rw [bytes]⟩
    constructor
    · intro h
      refine Or.inr (Or.inr ⟨h.owned.queues _ fun same => ?_, fun i lt => h.reads _ ?_⟩)
      · rw [queues, Function.update_self] at same
        exact absurd (congrArg MessageQueue.count same) (Nat.succ_ne_self _)
      · rw [memory, reads]
        exact Or.inl ⟨i, lt, rfl⟩
    · rintro (h | h | ⟨known, user⟩)
      · exact absurd h null
      · exact absurd ok h
      · have there : Known s.processes (receiver s target) := by
          obtain ⟨i, used, -, here⟩ := processGet_slot ok.2.2.1
          exact Or.inr ⟨i, used, here.symm⟩
        have owned : KernelOwned s t := by
          refine owned_of_queue known queues (fun p away => ?_) ?_ tables
          · have other : p ≠ receiver s target := fun same => away (same ▸ there)
            exact (congrArg (fun u => u.pcb p) processes).trans (wakeReceiver_other _ other)
          · exact (congrArg Processes.heap processes).trans (wakeReceiver_heap _ _)
        rw [respects_iff owned grows, memory, writes]
        refine ⟨fun a inside => ?_, fun a inside => absurd inside List.not_mem_nil⟩
        rcases (reads a).mp inside with ⟨i, lt, rfl⟩ | old
        · exact user i lt
        · exact absurd old List.not_mem_nil
  · refine iff_of_true ?_ (Or.inr (Or.inl ok))
    rw [sysSend_refused (s := s.enter) ok]
    exact respects_enter s

theorem bmod_pos_iff {n : Nat} (small : n < 2 ^ 32) : 0 < (n : Int).bmod (2 ^ 32) ↔ 0 < n ∧ n < 2 ^ 31 := by
  rw [Int.bmod_def, Int.emod_eq_of_lt (Int.natCast_nonneg n) (by exact_mod_cast small)]
  split <;> omega

theorem bmod_error {code : Int} (error : -3 ≤ code ∧ code < 0) : ¬0 < code.bmod (2 ^ 32) := by
  rw [Int.bmod_def]
  split <;> omega

theorem sysRecv_none {s : Machine} (none : ¬Waiting s) (buffer maxLength senderPtr arg4 : Word) :
    (sysRecv s buffer maxLength senderPtr arg4).1 = s := by
  have absent : (s.processes.pcb s.processes.current).msgQueue = 0 ∨
      (s.processes.queue (s.processes.pcb s.processes.current).msgQueue).count = 0 := by
    rw [Waiting, not_and_or, not_not, not_not] at none
    exact none
  rw [sysRecv]
  split
  next => rfl
  next =>
    obtain ⟨code, error, refused⟩ := processReceiveMessage_none absent (decide (buffer ≠ 0)) maxLength.toNat
    rw [Machine.processReceiveMessage, refused]
    simp only [Recorded.writeRange]
    rw [if_neg fun asked => bmod_error error asked.2]
    rfl

theorem wordBytes_length (w : Word) : (Machine.wordBytes w).length = 4 := rfl

/-- The machine behind a `sys_recv` that finds a message. -/
theorem sysRecv_waiting {s : Machine} {buffer maxLength : Word} (there : s.processes.current ≠ 0)
    (valid : ¬(buffer = 0 ∨ maxLength = 0)) (waiting : Waiting s) (senderPtr arg4 : Word) :
    (sysRecv s buffer maxLength senderPtr arg4).1.processes =
        s.processes.setQueue (s.processes.pcb s.processes.current).msgQueue
          (s.processes.queue (s.processes.pcb s.processes.current).msgQueue).take ∧
      (sysRecv s buffer maxLength senderPtr arg4).1.kernel.tables = s.kernel.tables ∧
      ∃ bytes word, bytes.length = copyLength s maxLength ∧ word.length = 4 ∧
        (sysRecv s buffer maxLength senderPtr arg4).1.memory =
          if senderPtr ≠ 0 ∧ 0 < copyLength s maxLength ∧ copyLength s maxLength < 2 ^ 31 then
            Recorded.writeRange senderPtr 0 word (Recorded.writeRange buffer 0 bytes s.memory)
          else Recorded.writeRange buffer 0 bytes s.memory := by
  obtain ⟨null, zero⟩ := not_or.mp valid
  have some : maxLength.toNat ≠ 0 := fun h => zero (BitVec.eq_of_toNat_eq h)
  have taken := processReceiveMessage_take there waiting.1 some waiting.2
  rw [delivered_eq, show min (headMessage s.processes).length maxLength.toNat = copyLength s maxLength from rfl] at taken
  have small : copyLength s maxLength < 2 ^ 32 := Nat.lt_of_le_of_lt (Nat.min_le_right _ _) maxLength.isLt
  have length : ((content (headMessage s.processes)).bytes.take maxLength.toNat).length = copyLength s maxLength := by
    simp [content, copyLength, Nat.min_comm]
  have positive := bmod_pos_iff small
  rw [sysRecv, if_neg valid, Machine.processReceiveMessage, decide_eq_true null, taken]
  simp only []
  by_cases asked : senderPtr ≠ 0 ∧ 0 < copyLength s maxLength ∧ copyLength s maxLength < 2 ^ 31
  · rw [if_pos (And.imp_right positive.mpr asked)]
    refine ⟨rfl, rfl, _, _, length, wordBytes_length (BitVec.ofNat 32 (headMessage s.processes).sender), ?_⟩
    rw [if_pos asked]
    rfl
  · rw [if_neg fun h => asked (And.imp_right positive.mp h)]
    refine ⟨rfl, rfl, _, _, length, wordBytes_length 0, ?_⟩
    rw [if_neg asked]

theorem sysRecv_respects_iff (caller : UserCaller s) (buffer maxLength senderPtr arg4 : Word) :
    Respects s (sysRecv s.enter buffer maxLength senderPtr arg4).1 ↔ RecvConfined s buffer maxLength senderPtr := by
  rw [RecvConfined]
  by_cases valid : buffer = 0 ∨ maxLength = 0
  · refine iff_of_true ?_ (valid.imp_right Or.inl)
    rw [sysRecv, if_pos valid]
    exact respects_enter s
  by_cases waiting : Waiting s
  · have there : s.processes.current ≠ 0 := by
      obtain ⟨i, user, here⟩ := caller
      exact here ▸ user.1.2
    obtain ⟨processes, tables, bytes, word, length, four, memory⟩ :=
      sysRecv_waiting (s := s.enter) there valid waiting senderPtr arg4
    generalize (sysRecv s.enter buffer maxLength senderPtr arg4).1 = t at *
    have filled := Recorded.writeRange_grows (a := buffer) bytes 0 s.enter.memory
    have grows : s.enter.memory.Grows t.memory := by
      rw [memory]
      split
      next => exact filled.trans (Recorded.writeRange_grows word 0 _)
      next => exact filled
    have reads : t.memory.reads = [] := by
      rw [memory]
      split
      next => rw [Recorded.writeRange_reads, Recorded.writeRange_reads]; rfl
      next => rw [Recorded.writeRange_reads]; rfl
    have owned : KernelOwned s t := by
      refine owned_of_queue caller.queue (congrArg Processes.queue processes) (fun p _ => ?_) ?_ tables
      · exact (congrArg (fun u => u.pcb p) processes :)
      · exact (congrArg Processes.heap processes :)
    have nothing : ∀ a ∈ s.enter.memory.writes, UserAccessible s a := fun a inside => absurd inside List.not_mem_nil
    have asked : (∀ a ∈ t.memory.writes, UserAccessible s a) ↔
        (∀ i < copyLength s maxLength, UserAccessible s (offset buffer i)) ∧
          (senderPtr ≠ 0 → 0 < copyLength s maxLength → copyLength s maxLength < 2 ^ 31 →
            ∀ i < 4, UserAccessible s (offset senderPtr i)) := by
      rw [memory]
      split
      next store =>
        rw [Recorded.forall_writeRange, Recorded.forall_writeRange, length, four]
        constructor
        · exact fun h => ⟨h.2.1, fun _ _ _ => h.1⟩
        · exact fun h => ⟨h.2 store.1 store.2.1 store.2.2, h.1, nothing⟩
      next none =>
        rw [Recorded.forall_writeRange, length]
        constructor
        · exact fun h => ⟨h.1, fun asked some small => absurd ⟨asked, some, small⟩ none⟩
        · exact fun h => ⟨h.1, nothing⟩
    rw [respects_iff owned grows, reads, asked]
    constructor
    · exact fun h => Or.inr (Or.inr (Or.inr h.2))
    · rintro (h | h | h | h)
      · exact absurd (Or.inl h) valid
      · exact absurd (Or.inr h) valid
      · exact absurd waiting h
      · exact ⟨fun a inside => absurd inside List.not_mem_nil, h⟩
  · refine iff_of_true ?_ (Or.inr (Or.inr (Or.inl waiting)))
    rw [sysRecv_none (s := s.enter) waiting]
    exact respects_enter s

end Calls

/-- No handler checks a pointer: a call of a user mode process stays in the memory of its
caller exactly when every address that it comes to follow does. -/
theorem syscall_respects_iff (s : Machine) (caller : UserCaller s) (syscallNum arg1 arg2 arg3 arg4 : Word) :
    Respects s (syscallDispatch s.enter syscallNum arg1 arg2 arg3 arg4).1 ↔ Confined s syscallNum arg1 arg2 arg3 := by
  rw [syscallDispatch, Confined]
  generalize syscallNum.toNat = n
  match n with
  | 0 => exact iff_of_true (sysExit_respects caller ..) trivial
  | 1 => exact sysWrite_respects_iff s arg1 arg2 arg3 arg4
  | 2 => exact iff_of_true (respects_enter s) trivial
  | 3 =>
    refine iff_of_true ?_ trivial
    change Respects s (sysGetpid s.enter arg1 arg2 arg3 arg4).1
    rw [sysGetpid]
    split <;> exact respects_enter s
  | 4 => exact iff_of_true (sysSleep_respects caller ..) trivial
  | 5 => exact iff_of_true (sysYield_respects caller ..) trivial
  | 6 => exact sysSend_respects_iff s arg1 arg2 arg3 arg4
  | 7 => exact sysRecv_respects_iff caller arg1 arg2 arg3 arg4
  | n + 8 => exact iff_of_true (respects_of_only (.refl _) rfl rfl) trivial

/-- The page tables behind boot: the first 16 MB mapped to themselves, for the kernel only. -/
def bootTables : PageTables where
  pmm := ⟨fun k => if k < 16 then 0xFFFFFFFF else 0, 512⟩
  entries := fun page i =>
    if page = 0x20000 ∧ i < 4 then makePde (0x21000 + i * PAGE_SIZE) PAGE_KERNEL
    else if 0x21000 ≤ page ∧ page < 0x25000 then
      makePte (((page - 0x21000) / PAGE_SIZE * 1024 + i) * PAGE_SIZE) PAGE_KERNEL
    else 0
  current := 0x20000
  refused := 0

theorem bootTables_loaded : 0x10000 ≤ 0x20000 ∧ 0x10000 ≤ 0x21000 := by decide

theorem bootDirectory_aligned : 0x20000 % PAGE_SIZE = 0 := by decide

theorem bootTables_aligned : 0x21000 % PAGE_SIZE = 0 := by decide

theorem bootTables_apart : 0x20000 + PAGE_SIZE ≤ 0x21000 ∨ 0x21000 + 16 * PAGE_SIZE ≤ 0x20000 := by decide

theorem bootDirectory_below : 0x20000 + PAGE_SIZE ≤ KERNEL_END := by decide

theorem bootTables_below : 0x21000 + 16 * PAGE_SIZE ≤ KERNEL_END := by decide

def bootImage : Image where
  kernelDirectory := 0x20000
  earlyPageTables := 0x21000
  loaded := bootTables_loaded
  directoryAligned := bootDirectory_aligned
  tablesAligned := bootTables_aligned
  apart := bootTables_apart
  directoryBelow := bootDirectory_below
  tablesBelow := bootTables_below

/-- The first user process behind boot, running; there is an `A` at every address of its code
and zeros below. -/
def firstUser : Machine where
  kernel :=
    let booted : Kernel := ⟨processInit { powerOn with directory := 0x20000 } 0x1000, bootTables⟩
    (booted.processCreateUserMode bootImage 0x3000 taskName (fun _ => 0x41414141) 4096 5).1.processSchedule
  screen := ⟨Screen.start Screen.blankDisplay, Screen.start_safe _⟩
  memory := ⟨fun a => if USER_CODE_BASE ≤ a.toNat then 0x41 else 0, [], []⟩

theorem caller_of_slot {s : Machine} (run : s.processes.table 1 ≠ 0 ∧ (inSlot s.processes 1).isUserMode ≠ 0 ∧
    s.processes.table 1 = s.processes.current) : UserCaller s :=
  ⟨1, ⟨⟨by decide, run.1⟩, by decide, run.2.1⟩, run.2.2⟩

/-- The same process with `PAGE_USER` in the entry of its directory that leads to its code. -/
def openUser : Machine :=
  let dir := callerDirectory firstUser
  let pde := firstUser.kernel.tables.entries dir (getPageDirIndex USER_CODE_BASE)
  let tables := firstUser.kernel.tables.setEntry dir (getPageDirIndex USER_CODE_BASE) (pde ||| PAGE_USER)
  { firstUser with kernel := { firstUser.kernel with tables := tables } }

theorem openUser_facts : (openUser.processes.table 1 ≠ 0 ∧ (inSlot openUser.processes 1).isUserMode ≠ 0 ∧
      openUser.processes.table 1 = openUser.processes.current) ∧
    (inSlot openUser.processes 1).msgQueue = receiverQueue openUser 1 ∧
    ∀ i < 4, UserAccessible openUser (offset 0x40000000 i) := by
  decide +kernel

/-- The process sends itself four bytes of its code. -/
theorem syscall_respects_iff_own : (syscallDispatch openUser.enter 6 1 0x40000000 4 0).2 = 0 ∧
    Respects openUser (syscallDispatch openUser.enter 6 1 0x40000000 4 0).1 := by
  obtain ⟨run, queue, mapped⟩ := openUser_facts
  have known : KnownQueue openUser.processes (receiverQueue openUser 1) := ⟨1, ⟨by decide, run.1⟩, by decide, queue⟩
  refine ⟨by decide +kernel, ?_⟩
  exact (syscall_respects_iff openUser (caller_of_slot run) 6 1 0x40000000 4 0).mpr (Or.inr (Or.inr ⟨known, mapped⟩))

/-- The same process when it has sent itself the message `AAAA`. -/
def ownMessage : Machine := (syscallDispatch firstUser 6 1 0x40000000 4 0).1

/-- The process receives the message over the first block of the kernel heap. -/
theorem recv_overwrites_heap : UserCaller ownMessage ∧ ¬UserAccessible ownMessage 0x00200000 ∧
    ownMessage.memory.bytes 0x00200000 = 0 ∧
    (syscallDispatch ownMessage.enter 7 0x00200000 4 0 0).1.memory.bytes 0x00200000 = 0x41 ∧
    ¬Respects ownMessage (syscallDispatch ownMessage.enter 7 0x00200000 4 0 0).1 := by
  have run : (ownMessage.processes.table 1 ≠ 0 ∧ (inSlot ownMessage.processes 1).isUserMode ≠ 0 ∧
      ownMessage.processes.table 1 = ownMessage.processes.current) ∧ ¬UserAccessible ownMessage 0x00200000 ∧
      ownMessage.memory.bytes 0x00200000 = 0 ∧
      (syscallDispatch ownMessage.enter 7 0x00200000 4 0 0).1.memory.bytes 0x00200000 = 0x41 ∧
      0x00200000 ∈ (syscallDispatch ownMessage.enter 7 0x00200000 4 0 0).1.memory.writes := by
    decide +kernel
  obtain ⟨user, closed, old, new, written⟩ := run
  exact ⟨caller_of_slot user, closed, old, new, fun h => closed (h.writes _ written)⟩

end Wittche.Syscall
