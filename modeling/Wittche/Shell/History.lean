import Mathlib.Data.List.GetD
import Wittche.CString
import Wittche.Lib.Recent

/-! The command history of `kernel/shell.c`: rows of 256 bytes in one array, shifted down by
string copies when all ten are taken. Each address that a copy writes to is recorded with the
row that the copy is for. -/

namespace Wittche.Shell
open Bytes CString Recent

def MAX_HISTORY : Nat := 10
def MAX_CMD_LENGTH : Nat := 256

structure History where
  commandHistory : Buffer
  historyCount : Nat
  copies : List (Nat × Nat)

def rowAddr (i : Nat) : Nat := i * MAX_CMD_LENGTH

/-- The memory after a copy into row `i`. -/
def History.copied (h : History) (i : Nat) (m : Buffer) (writes : List Nat) : History :=
  { h with commandHistory := m, copies := writes.map (fun a => (i, a)) ++ h.copies }

/-- `n` turns of the loop that shifts the rows, from row `i` on. -/
def shiftRows (h : History) : (n i : Nat) → Option History
  | 0, _ => some h
  | n + 1, i =>
    match strcpyLogged h.commandHistory (rowAddr i) (rowAddr (i + 1)) (2 ^ 32) with
    | none => none
    | some (m, writes) => shiftRows (h.copied i m writes) n (i + 1)

/-- The copy of a new command behind the others, with the NUL that is put at its row's end. -/
def storeCommand (h : History) (command : CStr) : History :=
  let i := h.historyCount
  let last := rowAddr i + (MAX_CMD_LENGTH - 1)
  let (m, writes) := strncpyLogged h.commandHistory (rowAddr i) command.chars (MAX_CMD_LENGTH - 1)
  { h.copied i (Function.update m last 0) (last :: writes) with historyCount := i + 1 }

/-- `none` is a copy between two rows that does not end. -/
def shellAddHistory (h : History) (command : CStr) : Option History :=
  if command.get 0 = 0 then some h
  else if 0 < h.historyCount ∧
      strcmp (fun j => h.commandHistory (rowAddr (h.historyCount - 1) + j)) command = 0 then some h
  else if MAX_HISTORY ≤ h.historyCount then
    (shiftRows h (MAX_HISTORY - 1) 0).map fun h => storeCommand { h with historyCount := MAX_HISTORY - 1 } command
  else some (storeCommand h command)

def rowString (m : Buffer) (i : Nat) : List Byte :=
  ((List.range MAX_CMD_LENGTH).map fun j => m (rowAddr i + j)).takeWhile (· ≠ 0)

/-- What `cmd_history` shows: the rows below `history_count`. -/
def History.entries (h : History) : List (List Byte) := (List.range h.historyCount).map (rowString h.commandHistory)

def InRows (copies : List (Nat × Nat)) : Prop :=
  ∀ p ∈ copies, p.1 < MAX_HISTORY ∧ rowAddr p.1 ≤ p.2 ∧ p.2 < rowAddr (p.1 + 1)

structure Row (m : Buffer) (i : Nat) (s : List Byte) : Prop where
  short : s.length < MAX_CMD_LENGTH
  noNul : 0 ∉ s
  reads : Reads m (rowAddr i) s

section Rows

variable {m m' : Buffer} {i : Nat} {s : List Byte}

theorem rowAddr_succ (i : Nat) : rowAddr (i + 1) = rowAddr i + MAX_CMD_LENGTH := Nat.succ_mul ..

theorem rowAddr_le {i j : Nat} (lt : i < j) : rowAddr i + MAX_CMD_LENGTH ≤ rowAddr j := by
  rw [← rowAddr_succ]
  exact Nat.mul_le_mul_right _ lt

theorem Row.frame (h : Row m i s) (same : ∀ x, rowAddr i ≤ x → x < rowAddr i + MAX_CMD_LENGTH → m' x = m x) :
    Row m' i s := by
  have short := h.short
  exact ⟨short, h.noNul, h.reads.frame fun x low high => same x low (by omega)⟩

theorem Row.rowString_eq (h : Row m i s) : rowString m i = s := h.reads.takeWhile_eq h.noNul h.short

end Rows

/-- The history holds the commands `l`, one in each row. -/
structure Holding (h : History) (l : List (List Byte)) : Prop where
  count : h.historyCount = l.length
  room : l.length ≤ MAX_HISTORY
  rows : ∀ i s, l[i]? = some s → Row h.commandHistory i s
  inside : InRows h.copies

section Steps

variable {h : History} {l : List (List Byte)}

theorem Holding.entries_eq (held : Holding h l) : h.entries = l := by
  apply List.ext_getElem?
  intro i
  rw [History.entries, List.getElem?_map, held.count]
  by_cases lt : i < l.length
  · have row := held.rows i l[i] (List.getElem?_eq_getElem lt)
    rw [List.getElem?_range lt, Option.map_some, row.rowString_eq, List.getElem?_eq_getElem lt]
  · rw [List.getElem?_eq_none (by simpa using lt), List.getElem?_eq_none (by omega), Option.map_none]

theorem InRows.append {i : Nat} {writes : List Nat} {copies : List (Nat × Nat)} (inside : InRows copies)
    (row : i < MAX_HISTORY) (within : ∀ a ∈ writes, rowAddr i ≤ a ∧ a < rowAddr i + MAX_CMD_LENGTH) :
    InRows (writes.map (fun a => (i, a)) ++ copies) := by
  intro p hp
  rcases List.mem_append.mp hp with new | old
  · obtain ⟨a, ha, rfl⟩ := List.mem_map.mp new
    rw [rowAddr_succ]
    exact ⟨row, within a ha⟩
  · exact inside p old

theorem shiftRows_spec {n i : Nat} (turns : i + n + 1 = l.length) (room : l.length ≤ MAX_HISTORY)
    (done : ∀ j s, j < i → l[j + 1]? = some s → Row h.commandHistory j s)
    (left : ∀ j s, i ≤ j → l[j]? = some s → Row h.commandHistory j s) (inside : InRows h.copies) :
    ∃ h', shiftRows h n i = some h' ∧ (∀ j s, l[j + 1]? = some s → Row h'.commandHistory j s) ∧ InRows h'.copies := by
  induction n generalizing h i with
  | zero =>
    refine ⟨h, rfl, fun j s hs => ?_, inside⟩
    obtain ⟨lt, -⟩ := List.getElem?_eq_some_iff.mp hs
    exact done j s (by omega) hs
  | succ n ih =>
    have lt : i + 1 < l.length := by omega
    have source := left (i + 1) l[i + 1] (Nat.le_succ i) (List.getElem?_eq_getElem lt)
    have size : MAX_CMD_LENGTH = 256 := rfl
    have next := rowAddr_succ i
    have short := source.short
    have below : rowAddr i + l[i + 1].length < rowAddr (i + 1) := by omega
    have enough : l[i + 1].length < 2 ^ 32 := by omega
    obtain ⟨m, writes, result, copy, frame, within⟩ := strcpyLogged_eq source.noNul source.reads below enough
    have other : ∀ j s, j ≠ i → Row h.commandHistory j s → Row m j s := by
      intro j s ne row
      refine row.frame fun x lo hi => frame x ?_
      rcases Nat.lt_or_gt_of_ne ne with before | behind
      · have apart := rowAddr_le before
        omega
      · have apart := rowAddr_le behind
        omega
    rw [shiftRows, result]
    refine ih (by omega) ?_ ?_ (inside.append (by omega) fun a ha => ?_)
    · intro j s lt' hs
      rcases Nat.lt_succ_iff_lt_or_eq.mp lt' with before | rfl
      · exact other j s (Nat.ne_of_lt before) (done j s before hs)
      · obtain rfl : l[j + 1] = s := by simpa [List.getElem?_eq_getElem lt] using hs
        exact ⟨source.short, source.noNul, copy⟩
    · intro j s le hs
      exact other j s (by omega) (left j s (by omega) hs)
    · have bounds := within a ha
      omega

theorem storeCommand_holding (held : Holding h l) (room : l.length < MAX_HISTORY) {c : CStr}
    (short : c.length < MAX_CMD_LENGTH) : Holding (storeCommand h c) (l ++ [c.chars]) := by
  have size : MAX_CMD_LENGTH = 256 := rfl
  have count := held.count
  have written : ∀ x, (storeCommand h c).commandHistory x =
      if x = rowAddr h.historyCount + (MAX_CMD_LENGTH - 1) then 0
      else strncpy h.commandHistory (rowAddr h.historyCount) c (MAX_CMD_LENGTH - 1) x := by
    intro x
    simp only [storeCommand, History.copied, strncpyLogged_fst]
    exact Function.update_apply ..
  refine ⟨?_, ?_, ?_, ?_⟩
  · simp only [storeCommand, List.length_append, List.length_singleton, count]
  · rw [List.length_append, List.length_singleton]
    exact room
  · intro i s hs
    obtain ⟨lt, -⟩ := List.getElem?_eq_some_iff.mp hs
    rw [List.length_append, List.length_singleton] at lt
    by_cases old : i < l.length
    · rw [List.getElem?_append_left old] at hs
      have apart := rowAddr_le (count.symm ▸ old)
      refine (held.rows i s hs).frame fun x lo hi => ?_
      rw [written, if_neg (by omega), strncpy_apply, if_neg (by omega), if_neg (by omega)]
    · obtain rfl : i = l.length := by omega
      obtain rfl : c.chars = s := by simpa using hs
      refine ⟨short, c.noNul, fun j hj => ?_⟩
      have bound : j ≤ c.length := hj
      rw [written, count]
      split
      next last =>
        have full : c.chars.length ≤ j := by
          have : c.chars.length < MAX_CMD_LENGTH := short
          omega
        rw [List.getD_eq_default _ _ full]
      next before =>
        rw [strncpy_apply, if_pos (by omega), Nat.add_sub_cancel_left]
        rfl
  · refine held.inside.append (by omega) fun a ha => ?_
    rcases List.mem_cons.mp ha with rfl | copy
    · omega
    · have bounds := strncpyLogged_within copy
      omega

theorem Holding.repeats_iff (held : Holding h l) (c : CStr) :
    (0 < h.historyCount ∧ strcmp (fun j => h.commandHistory (rowAddr (h.historyCount - 1) + j)) c = 0) ↔
      l.getLast? = some c.chars := by
  rw [held.count, List.getLast?_eq_getElem?]
  constructor
  · rintro ⟨pos, same⟩
    have lt : l.length - 1 < l.length := by omega
    have row := held.rows _ _ (List.getElem?_eq_getElem lt)
    have reads : Reads h.commandHistory (rowAddr (l.length - 1)) c.chars := strcmp_eq_zero.mp same
    rw [List.getElem?_eq_getElem lt, row.reads.unique reads row.noNul c.noNul]
  · intro last
    obtain ⟨lt, -⟩ := List.getElem?_eq_some_iff.mp last
    exact ⟨by omega, strcmp_eq_zero.mpr (held.rows _ _ last).reads⟩

theorem CStr.get_zero_iff (c : CStr) : c.get 0 = 0 ↔ c.chars = [] := by
  obtain ⟨chars, noNul⟩ := c
  cases chars with
  | nil => exact iff_of_true rfl rfl
  | cons b chars =>
    refine iff_of_false (fun zero => ?_) (List.cons_ne_nil b chars)
    exact noNul ((show b = 0 from zero) ▸ List.mem_cons_self)

/-- One call: an empty command and a repetition leave the history as it is, any other command
goes behind the last nine. -/
theorem shellAddHistory_holding (held : Holding h l) {c : CStr} (short : c.length < MAX_CMD_LENGTH) :
    ∃ h', shellAddHistory h c = some h' ∧
      Holding h' (if c.chars = [] ∨ l.getLast? = some c.chars then l else l.rtake 9 ++ [c.chars]) := by
  have limit : MAX_HISTORY = 10 := rfl
  rw [shellAddHistory]
  split
  next empty => exact ⟨h, rfl, by rwa [if_pos (Or.inl ((CStr.get_zero_iff c).mp empty))]⟩
  next some =>
    split
    next same => exact ⟨h, rfl, by rwa [if_pos (Or.inr ((held.repeats_iff c).mp same))]⟩
    next other =>
      have new : ¬(c.chars = [] ∨ l.getLast? = .some c.chars) :=
        not_or.mpr ⟨mt (CStr.get_zero_iff c).mpr some, mt (held.repeats_iff c).mpr other⟩
      rw [if_neg new]
      have room := held.room
      have count := held.count
      split
      next full =>
        obtain ⟨h', shifted, rows, inside⟩ := shiftRows_spec (show 0 + (MAX_HISTORY - 1) + 1 = l.length by omega)
          room (fun j s lt => absurd lt (Nat.not_lt_zero j)) (fun j s _ => held.rows j s) held.inside
        have nine : l.rtake 9 = l.tail := by
          rw [List.rtake, show l.length - 9 = 1 by omega, List.drop_one]
        have kept : Holding { h' with historyCount := MAX_HISTORY - 1 } l.tail := by
          refine ⟨?_, ?_, fun i s hs => ?_, inside⟩
          · change MAX_HISTORY - 1 = l.tail.length
            rw [List.length_tail]
            omega
          · rw [List.length_tail]
            omega
          · rw [List.getElem?_tail] at hs
            exact rows i s hs
        rw [shifted, nine]
        refine ⟨_, rfl, storeCommand_holding kept ?_ short⟩
        rw [List.length_tail]
        omega
      next free =>
        rw [rtake_of_length_le (by omega)]
        exact ⟨_, rfl, storeCommand_holding held (by omega) short⟩

end Steps

def noted (commands : List CStr) : List (List Byte) := (commands.map CStr.chars).filter (· ≠ [])

theorem foldlM_holding {h : History} {commands : List CStr} {l : List (List Byte)}
    (held : Holding h (recent MAX_HISTORY l)) (short : ∀ c ∈ commands, c.length < MAX_CMD_LENGTH) :
    ∃ h', commands.foldlM shellAddHistory h = some h' ∧ Holding h' (recent MAX_HISTORY (l ++ noted commands)) := by
  induction commands generalizing h l with
  | nil => exact ⟨h, rfl, by simpa [noted] using held⟩
  | cons c commands ih =>
    obtain ⟨h', step, held'⟩ := shellAddHistory_holding held (short c List.mem_cons_self)
    have rest : ∀ c ∈ commands, c.length < MAX_CMD_LENGTH := fun c hc => short c (List.mem_cons_of_mem _ hc)
    rw [List.foldlM_cons, step, Option.bind_eq_bind, Option.bind_some]
    by_cases empty : c.chars = []
    · rw [if_pos (Or.inl empty)] at held'
      have skipped : noted (c :: commands) = noted commands := by simp [noted, empty]
      rw [skipped]
      exact ih held' rest
    · have joined : l ++ noted (c :: commands) = l ++ [c.chars] ++ noted commands := by simp [noted, empty]
      have recalled : Holding h' (recent MAX_HISTORY (l ++ [c.chars])) := by
        simp only [empty, false_or] at held'
        exact (recent_snoc 9 l c.chars).symm ▸ held'
      rw [joined]
      exact ih recalled rest

theorem Holding.start (m : Buffer) : Holding ⟨m, 0, []⟩ (recent MAX_HISTORY []) :=
  ⟨rfl, by decide, fun i s hs => absurd hs (by simp [recent]), fun p hp => absurd hp List.not_mem_nil⟩

theorem shell_history (m : Buffer) (commands : List CStr) (short : ∀ c ∈ commands, c.length ≤ 255) :
    ∃ h, commands.foldlM shellAddHistory ⟨m, 0, []⟩ = some h ∧
      h.entries = recent MAX_HISTORY (noted commands) ∧ InRows h.copies := by
  obtain ⟨h, run, held⟩ := foldlM_holding (Holding.start m) fun c hc => Nat.lt_succ_of_le (short c hc)
  exact ⟨h, run, held.entries_eq, held.inside⟩

/-- A command of one character; none for a NUL. -/
def oneKey (b : Byte) : CStr := ⟨[b].filter (· ≠ 0), by simp⟩

/-- Twelve commands, one of them twice in a row, and an empty one. -/
theorem shell_history_twelve : ∃ h,
    ([1, 2, 3, 3, 0, 4, 5, 6, 7, 8, 9, 10, 11, 12].map oneKey).foldlM shellAddHistory ⟨fun _ => 0, 0, []⟩ = some h ∧
      h.entries = [[3], [4], [5], [6], [7], [8], [9], [10], [11], [12]] ∧ InRows h.copies := by
  obtain ⟨h, run, entries, inside⟩ := shell_history (fun _ => 0)
    ([1, 2, 3, 3, 0, 4, 5, 6, 7, 8, 9, 10, 11, 12].map oneKey) (by decide)
  exact ⟨h, run, entries.trans (by decide), inside⟩

end Wittche.Shell
