import Wittche.Keyboard.Driver
import Wittche.Lib.Execution

/-! The keyboard buffer as a bounded first-in first-out queue. One of the 256 slots stays
free, so that a full buffer is not taken for an empty one. -/

namespace Wittche.Keyboard
open Bytes RingBuffer Execution

def queued (d : Driver) : List Byte :=
  contents KEYBOARD_BUFFER_SIZE d.keyboardBuffer d.bufferReadPos d.bufferWritePos

structure Placed (d : Driver) : Prop where
  read : d.bufferReadPos < KEYBOARD_BUFFER_SIZE
  write : d.bufferWritePos < KEYBOARD_BUFFER_SIZE

section Operations

variable {d : Driver}

theorem queued_init (d : Driver) : queued (keyboardInit d) = [] := by
  rw [← List.length_eq_zero_iff, queued, contents_length]
  exact Nat.mod_self _

theorem placed_init (d : Driver) : Placed (keyboardInit d) :=
  ⟨show 0 < KEYBOARD_BUFFER_SIZE by decide, show 0 < KEYBOARD_BUFFER_SIZE by decide⟩

theorem queued_length (d : Driver) : (queued d).length =
    (d.bufferWritePos + KEYBOARD_BUFFER_SIZE - d.bufferReadPos) % KEYBOARD_BUFFER_SIZE := contents_length ..

theorem Placed.holds (h : Placed d) : Holds KEYBOARD_BUFFER_SIZE d.keyboardBuffer d.bufferReadPos
    d.bufferWritePos (queued d).length (queued d) := holds_contents h.read h.write

theorem queued_capacity (d : Driver) : (queued d).length ≤ 255 := by
  have size : KEYBOARD_BUFFER_SIZE = 256 := rfl
  rw [queued_length, size]
  omega

theorem Placed.full_iff (h : Placed d) :
    (d.bufferWritePos + 1) % KEYBOARD_BUFFER_SIZE = d.bufferReadPos ↔ (queued d).length = 255 := by
  have size : KEYBOARD_BUFFER_SIZE = 256 := rfl
  have read := h.read
  have write := h.write
  rw [queued_length, size] at *
  omega

theorem Placed.empty_iff (h : Placed d) : d.bufferReadPos = d.bufferWritePos ↔ queued d = [] := by
  have size : KEYBOARD_BUFFER_SIZE = 256 := rfl
  have read := h.read
  have write := h.write
  rw [← List.length_eq_zero_iff, queued_length, size] at *
  omega

theorem Placed.add_full (h : Placed d) (full : (queued d).length = 255) (c : Byte) :
    keyboardBufferAdd d c = d := by
  rw [keyboardBufferAdd, if_neg (not_not_intro (h.full_iff.mpr full))]

theorem Placed.add_room (h : Placed d) (room : (queued d).length ≠ 255) (c : Byte) :
    queued (keyboardBufferAdd d c) = queued d ++ [c] ∧ Placed (keyboardBufferAdd d c) ∧
      (keyboardBufferAdd d c).bufferWritePos ≠ d.bufferWritePos := by
  have size : KEYBOARD_BUFFER_SIZE = 256 := rfl
  have capacity := queued_capacity d
  have spare : (d.bufferWritePos + 1) % KEYBOARD_BUFFER_SIZE ≠ d.bufferReadPos := mt h.full_iff.mp room
  have stored : keyboardBufferAdd d c =
      { d with
        keyboardBuffer := Function.update d.keyboardBuffer d.bufferWritePos c
        bufferWritePos := (d.bufferWritePos + 1) % KEYBOARD_BUFFER_SIZE } := by
    rw [keyboardBufferAdd, if_pos spare]
  have pushed := h.holds.push (show (queued d).length < KEYBOARD_BUFFER_SIZE by omega) c
  rw [stored]
  refine ⟨(pushed.eq_contents (by omega)).symm, ⟨h.read, Nat.mod_lt _ (by decide)⟩, ?_⟩
  have write := h.write
  dsimp only
  rw [size] at *
  omega

theorem Placed.add (h : Placed d) (c : Byte) : Placed (keyboardBufferAdd d c) := by
  by_cases full : (queued d).length = 255
  · rwa [h.add_full full]
  · exact (h.add_room full c).2.1

theorem Placed.getchar_empty (h : Placed d) (empty : queued d = []) : keyboardGetchar d = (d, 0) := by
  rw [keyboardGetchar, if_pos (h.empty_iff.mpr empty)]

theorem Placed.getchar_front {c : Byte} {l : List Byte} (h : Placed d) (front : queued d = c :: l) :
    (keyboardGetchar d).2 = c ∧ queued (keyboardGetchar d).1 = l ∧ Placed (keyboardGetchar d).1 := by
  have some : d.bufferReadPos ≠ d.bufferWritePos := by
    rw [Ne, h.empty_iff, front]
    exact List.cons_ne_nil c l
  have holds := h.holds
  have capacity := queued_capacity d
  rw [front] at holds capacity
  obtain ⟨slot, rest⟩ := holds.pop
  have size : KEYBOARD_BUFFER_SIZE = 256 := rfl
  rw [keyboardGetchar, if_neg some]
  refine ⟨slot, (rest.eq_contents ?_).symm, ⟨Nat.mod_lt _ (by decide), h.write⟩⟩
  rw [List.length_cons] at *
  omega

end Operations

section Handler

variable {d : Driver}

/-- The handler puts at most one character into the buffer, and never a 0. -/
theorem handler_adds (d : Driver) (b : Byte) :
    ∃ d' : Driver, (keyboardHandler d b = d' ∨ ∃ c, c ≠ 0 ∧ keyboardHandler d b = keyboardBufferAdd d' c) ∧
      d'.bufferReadPos = d.bufferReadPos ∧ d'.bufferWritePos = d.bufferWritePos ∧
      d'.keyboardBuffer = d.keyboardBuffer := by
  rw [keyboardHandler]
  split
  · exact ⟨_, Or.inl rfl, rfl, rfl, rfl⟩
  split
  · rw [handleRelease]
    split
    · exact ⟨_, Or.inl rfl, rfl, rfl, rfl⟩
    · split <;> exact ⟨_, Or.inl rfl, rfl, rfl, rfl⟩
  split
  · rw [handleExtended]
    split
    next key => exact ⟨_, Or.inr ⟨_, key, rfl⟩, rfl, rfl, rfl⟩
    next => exact ⟨_, Or.inl rfl, rfl, rfl, rfl⟩
  rw [handlePress]
  split
  · exact ⟨_, Or.inl rfl, rfl, rfl, rfl⟩
  split
  · exact ⟨_, Or.inl rfl, rfl, rfl, rfl⟩
  split
  · exact ⟨_, Or.inl rfl, rfl, rfl, rfl⟩
  dsimp only
  split
  next char => exact ⟨d, Or.inr ⟨_, char, rfl⟩, rfl, rfl, rfl⟩
  next => exact ⟨d, Or.inl rfl, rfl, rfl, rfl⟩

theorem Placed.handler (h : Placed d) (b : Byte) : Placed (keyboardHandler d b) := by
  obtain ⟨d', same | ⟨c, -, added⟩, read, write, -⟩ := handler_adds d b
  · rw [same]
    exact ⟨read ▸ h.read, write ▸ h.write⟩
  · rw [added]
    exact Placed.add ⟨read ▸ h.read, write ▸ h.write⟩ c

theorem Placed.getchar (h : Placed d) : Placed (keyboardGetchar d).1 := by
  cases front : queued d with
  | nil => rwa [h.getchar_empty front]
  | cons c l => exact (h.getchar_front front).2.2

end Handler

inductive QueueOp where
  | add (c : Byte)
  | getchar

/-- The driver with the characters that went into its buffer so far and those that reads of a
buffer with input returned. -/
structure Observed where
  driver : Driver
  accepted : List Byte
  returned : List Byte

def Observed.step (s : Observed) : QueueOp → Observed
  | .add c =>
    let d := keyboardBufferAdd s.driver c
    { s with
      driver := d
      accepted := if d.bufferWritePos = s.driver.bufferWritePos then s.accepted else s.accepted ++ [c] }
  | .getchar =>
    let (d, c) := keyboardGetchar s.driver
    { s with
      driver := d
      returned := if keyboardHasInput s.driver then s.returned ++ [c] else s.returned }

/-- The handler never adds a 0. -/
def Observed.allowed (_ : Observed) : QueueOp → Prop
  | .add c => c ≠ 0
  | .getchar => True

def Observed.start (d : Driver) : Observed := ⟨keyboardInit d, [], []⟩

structure Tracked (s : Observed) : Prop where
  placed : Placed s.driver
  order : s.accepted = s.returned ++ queued s.driver
  nonzero : ∀ c ∈ queued s.driver, c ≠ 0

theorem tracked_start (d : Driver) : Tracked (Observed.start d) :=
  ⟨placed_init d, (queued_init d).symm, fun _ hc => absurd (queued_init d ▸ hc) List.not_mem_nil⟩

theorem Tracked.add {s : Observed} (h : Tracked s) {c : Byte} (value : c ≠ 0) : Tracked (s.step (.add c)) := by
  by_cases full : (queued s.driver).length = 255
  · have same := h.placed.add_full full c
    simpa only [Observed.step, same, if_true] using h
  · obtain ⟨queue, placed, moved⟩ := h.placed.add_room full c
    refine ⟨placed, ?_, ?_⟩
    · simp only [Observed.step, if_neg moved, queue, h.order, List.append_assoc]
    · simp only [Observed.step, queue]
      intro x hx
      rcases List.mem_append.mp hx with old | new
      · exact h.nonzero x old
      · rwa [List.mem_singleton.mp new]

theorem Tracked.getchar {s : Observed} (h : Tracked s) : Tracked (s.step .getchar) := by
  cases front : queued s.driver with
  | nil =>
    have input : keyboardHasInput s.driver = false := by
      simpa [keyboardHasInput] using h.placed.empty_iff.mpr front
    simpa only [Observed.step, h.placed.getchar_empty front, input, Bool.false_eq_true, if_false] using h
  | cons c l =>
    obtain ⟨value, rest, placed⟩ := h.placed.getchar_front front
    have input : keyboardHasInput s.driver = true := by
      have some := mt h.placed.empty_iff.mp (front ▸ List.cons_ne_nil c l)
      simpa [keyboardHasInput] using some
    refine ⟨placed, ?_, ?_⟩
    · simp only [Observed.step, input, if_true, value, rest, h.order, front, List.append_assoc]
      rfl
    · simp only [Observed.step, rest]
      exact fun x hx => h.nonzero x (front ▸ List.mem_cons_of_mem c hx)

theorem Tracked.step {s : Observed} {op : QueueOp} (h : Tracked s) (ok : s.allowed op) : Tracked (s.step op) := by
  cases op with
  | add c => exact h.add ok
  | getchar => exact h.getchar

/-- An exact first-in first-out queue of at most 255 characters. -/
structure ExactFifo (s : Observed) : Prop where
  order : s.accepted = s.returned ++ queued s.driver
  capacity : (queued s.driver).length ≤ 255
  dropped : ∀ c, keyboardBufferAdd s.driver c = s.driver ↔ (queued s.driver).length = 255
  stored : ∀ c, (queued s.driver).length ≠ 255 → queued (keyboardBufferAdd s.driver c) = queued s.driver ++ [c]
  front : ∀ c l, queued s.driver = c :: l →
    (keyboardGetchar s.driver).2 = c ∧ queued (keyboardGetchar s.driver).1 = l
  hasInput : keyboardHasInput s.driver = true ↔ queued s.driver ≠ []
  empty : (keyboardGetchar s.driver).2 = 0 ↔ queued s.driver = []

theorem Tracked.fifo {s : Observed} (h : Tracked s) : ExactFifo s := by
  refine ⟨h.order, queued_capacity _, fun c => ⟨fun same => ?_, fun full => h.placed.add_full full c⟩,
    fun c room => (h.placed.add_room room c).1, fun c l front => ?_, ?_, ⟨fun zero => ?_, fun empty => ?_⟩⟩
  · by_contra room
    exact (h.placed.add_room room c).2.2 (by rw [same])
  · obtain ⟨value, rest, -⟩ := h.placed.getchar_front front
    exact ⟨value, rest⟩
  · rw [Ne, ← h.placed.empty_iff, keyboardHasInput, decide_eq_true_iff]
  · cases front : queued s.driver with
    | nil => rfl
    | cons c l =>
      have value : c ≠ 0 := h.nonzero c (front ▸ List.mem_cons_self)
      exact absurd ((h.placed.getchar_front front).1 ▸ zero) value
  · rw [h.placed.getchar_empty empty]

theorem keyboard_fifo (d : Driver) (ops : List QueueOp) (s : Observed)
    (run : Exec Observed.allowed Observed.step (Observed.start d) ops s) : ExactFifo s :=
  (run.invariant (fun _ _ h ok => Tracked.step h ok) (tracked_start d)).fifo

/-- Two characters in, one out. -/
theorem keyboard_fifo_one_left :
    ∃ s, Exec Observed.allowed Observed.step (Observed.start .static) [.add 0x61, .add 0x62, .getchar] s ∧
      ExactFifo s ∧ s.returned = [0x61] ∧ queued s.driver = [0x62] := by
  have run : Exec Observed.allowed Observed.step (Observed.start .static) [.add 0x61, .add 0x62, .getchar] _ :=
    .cons (by simp [Observed.allowed]) (.cons (by simp [Observed.allowed]) (.cons trivial (.nil _)))
  exact ⟨_, run, keyboard_fifo .static _ _ run, by decide +kernel, by decide +kernel⟩

end Wittche.Keyboard
