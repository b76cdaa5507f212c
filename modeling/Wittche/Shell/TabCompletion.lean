import Wittche.Lib.CommonPrefix
import Wittche.Shell.Completion

/-! The line that `handle_tab_completion` leaves, against the completion to the longest common
prefix. The search compares with the buffer up to its first NUL instead of the end of the
line, returns 0 where it finds nothing, and takes the second command that it finds and the
entry before it in the table for all of them. -/

namespace Wittche.Shell
open Bytes CString Traced Screen Keyboard CommonPrefix

def textOf (buffer : Cells Byte) (length : Int) : List Byte := (List.range length.toNat).map (typed buffer)

/-- The commands, by their place in the table, that start with the bytes of the buffer up to
its first NUL. -/
def foundIndices (buffer : Cells Byte) : List Nat :=
  (List.range availableCommands.length).filter fun i => strStartsWith (commandAt i) (typed buffer)

def startingIndices (w : List Byte) : List Nat :=
  (List.range availableCommands.length).filter fun i => w.isPrefixOf (commandAt i).chars

def commonText (indices : List Nat) : List Byte := longest (indices.map fun i => (commandAt i).chars)

def sharedBefore (i : Nat) : Nat := commonLength (commandAt (i - 1)).chars (commandAt i).chars

/-- A command that leaves room for a space. -/
def CommandFits (i : Nat) (maxLength : Int) : Prop := ((commandAt i).length : Int) < maxLength - 1

instance (i : Nat) (maxLength : Int) : Decidable (CommandFits i maxLength) := inferInstanceAs (Decidable (_ < _))

/-- The line after a call, and its length as the call returns it. -/
structure Leaves (t : Completion) (line : List Byte) : Prop where
  length : t.length = line.length
  text : textOf t.buffer t.length = line

/-- The line for the text `w`: `w` itself, the one command that starts with it and a space, or
what all such commands have in common. -/
def CompletesTo (w : List Byte) (maxLength : Int) (t : Completion) : Prop :=
  match startingIndices w with
  | [] => Leaves t w
  | [i] => CommandFits i maxLength → Leaves t ((commandAt i).chars ++ [0x20])
  | i :: j :: rest => Leaves t (commonText (i :: j :: rest))

section Search

variable {buffer : Cells Byte} {screen : Display} {i : Nat} {t : Search}

/-- The variables of the search after `i` commands, of which `l` start with the buffer. -/
structure Found (l : List Nat) (t : Search) : Prop where
  count : t.matchCount = l.length
  first : ∀ a rest, l = a :: rest → t.found = commandAt a ∧ t.commonPrefix = commandAt a
  second : ∀ a b rest, l = a :: b :: rest → t.commonLen = sharedBefore b

theorem Found.hit {l : List Nat} (h : Found l t) (hit : strStartsWith (commandAt i) (typed buffer) = true) :
    Found (l ++ [i]) (considerCommand buffer i t) := by
  have count := h.count
  rw [considerCommand, if_pos hit]
  rcases l with _ | ⟨c, _ | ⟨d, tail⟩⟩
  · rw [List.length_nil] at count
    rw [if_pos (by omega)]
    refine ⟨by simp [count], fun a rest same => ?_, fun a b rest same => ?_⟩
    · obtain ⟨rfl, -⟩ := List.cons.inj same
      exact ⟨rfl, rfl⟩
    · simp at same
  · rw [List.length_singleton] at count
    rw [if_neg (by omega), if_pos (by omega)]
    refine ⟨by simp [count], fun a rest same => ?_, fun a b rest same => ?_⟩
    · obtain ⟨rfl, -⟩ := List.cons.inj same
      exact h.first c [] rfl
    · obtain ⟨-, tail⟩ := List.cons.inj same
      obtain ⟨rfl, -⟩ := List.cons.inj tail
      rfl
  · simp only [List.length_cons] at count
    rw [if_neg (by omega), if_neg (by omega)]
    refine ⟨by simp [count], fun a rest same => ?_, fun a b rest same => ?_⟩
    · obtain ⟨rfl, -⟩ := List.cons.inj same
      exact h.first c (d :: tail) rfl
    · obtain ⟨-, same⟩ := List.cons.inj same
      obtain ⟨rfl, -⟩ := List.cons.inj same
      exact h.second c d tail rfl

theorem searchCommands_found (buffer : Cells Byte) (screen : Display) :
    Found (foundIndices buffer) (searchCommands buffer screen) := by
  refine times_induction (P := fun k t =>
    Found ((List.range k).filter fun i => strStartsWith (commandAt i) (typed buffer)) t) ?_ ?_
  · exact ⟨rfl, fun a rest same => by simp at same, fun a b rest same => by simp at same⟩
  · intro k t _ h
    rw [List.range_succ, List.filter_append]
    by_cases hit : strStartsWith (commandAt k) (typed buffer) = true
    · simpa [hit] using h.hit hit
    · have same : considerCommand buffer k t = t := if_neg hit
      rw [same]
      simpa [hit] using h

end Search

section Lines

variable {buffer : Cells Byte} {length maxLength : Int} {w line : List Byte} {t : Completion}

theorem textOf_eq {buffer : Cells Byte} {length : Int} {line : List Byte} (size : length.toNat = line.length)
    (same : ∀ i < line.length, typed buffer i = line.getD i 0) : textOf buffer length = line := by
  apply List.ext_getElem?
  intro i
  rw [textOf, size, List.getElem?_map]
  by_cases lt : i < line.length
  · rw [List.getElem?_range lt, Option.map_some, same i lt, List.getD_eq_getElem _ _ lt,
      List.getElem?_eq_getElem lt]
  · rw [List.getElem?_eq_none (by simpa using lt), List.getElem?_eq_none (by omega), Option.map_none]

theorem textOf_getD {buffer : Cells Byte} {length : Int} {i : Nat} (lt : i < length.toNat) :
    (textOf buffer length).getD i 0 = typed buffer i := by
  rw [textOf, List.getD_eq_getElem?_getD, List.getElem?_map, List.getElem?_range lt]
  rfl

theorem textOf_length (buffer : Cells Byte) (length : Int) : (textOf buffer length).length = length.toNat := by
  rw [textOf, List.length_map, List.length_range]

theorem textOf_ne_zero (noNul : 0 ∉ textOf buffer length) {i : Nat} (lt : i < length.toNat) : typed buffer i ≠ 0 := by
  intro zero
  exact noNul (zero ▸ List.mem_map_of_mem (List.mem_range.mpr lt))

theorem prefix_of_startsWith {c : CStr} (noNul : 0 ∉ textOf buffer length)
    (hit : strStartsWith c (typed buffer) = true) : textOf buffer length <+: c.chars := by
  obtain ⟨n, le, nul, walk⟩ := strStartsWith_iff.mp hit
  have long : length.toNat ≤ n := by
    by_contra short
    exact textOf_ne_zero noNul (Nat.not_le.mp short) nul
  have inside : length.toNat ≤ c.chars.length := Nat.le_trans long le
  have start : textOf buffer length = c.chars.take length.toNat := by
    apply textOf_eq
    · rw [List.length_take, Nat.min_eq_left inside]
    · intro i hi
      rw [List.length_take, Nat.min_eq_left inside] at hi
      rw [(walk i (by omega)).2, CStr.get, List.getD_eq_getElem?_getD, List.getD_eq_getElem?_getD, List.getElem?_take,
        if_pos hi]
  rw [start]
  exact List.take_prefix _ _

theorem leaves_same (nonneg : 0 ≤ length) {screen : Display} {prompt : Option (Int × Int)} :
    Leaves ⟨buffer, screen, length, prompt⟩ (textOf buffer length) := by
  refine ⟨?_, rfl⟩
  rw [textOf_length]
  exact (Int.toNat_of_nonneg nonneg).symm

theorem completeOne_leaves {c : CStr} (nonneg : 0 ≤ length) (start : textOf buffer length <+: c.chars)
    (screen : Display) : Leaves (completeOne c length maxLength ⟨buffer, screen, 0, none⟩)
      (if (c.length : Int) < maxLength - 1 then c.chars ++ [0x20] else textOf buffer length) := by
  have size : (textOf buffer length).length ≤ c.chars.length := start.length_le
  rw [textOf_length] at size
  rw [completeOne]
  split
  next fits =>
    obtain ⟨-, -, cells⟩ := typeOut_spec c length (c.length - length).toNat ⟨buffer, screen, 0, none⟩
    have whole : c.length = c.chars.length := rfl
    refine ⟨by simp [whole], textOf_eq (by simp [whole]) fun i hi => ?_⟩
    rw [List.length_append, List.length_singleton] at hi
    change (Cells.put _ (c.length : Int) 0x20).cell i = _
    rw [Cells.put_cell, cells]
    by_cases last : i = c.chars.length
    · rw [if_pos (by omega), last, List.getD_append_right _ _ _ _ (Nat.le_refl _), Nat.sub_self]
      rfl
    · rw [if_neg (by omega), List.getD_append _ _ _ _ (by omega)]
      by_cases typed : i < length.toNat
      · rw [if_neg (by omega)]
        obtain ⟨rest, joined⟩ := start
        rw [← joined, List.getD_append _ _ _ _ (by rw [textOf_length]; exact typed), textOf_getD typed]
        rfl
      · rw [if_pos (by omega)]
        rfl
  next tight => exact leaves_same nonneg

end Lines

def enteredLine (found : List Nat) (w : List Byte) (maxLength : Int) : List Byte :=
  match found with
  | [] => []
  | [i] => if CommandFits i maxLength then (commandAt i).chars ++ [0x20] else w
  | i :: j :: _ =>
    if w.length < sharedBefore j ∧ (sharedBefore j : Int) < maxLength - 1 then
      (List.range (sharedBefore j)).map (commandAt i).get
    else w

theorem completeMany_leaves {search : Search} {first : CStr} {k : Nat} (nonneg : 0 ≤ length)
    (common : search.commonPrefix = first) (count : search.commonLen = k) :
    Leaves (completeMany search length maxLength ⟨buffer, search.screen, 0, none⟩)
      (if (textOf buffer length).length < k ∧ (k : Int) < maxLength - 1 then (List.range k).map first.get
        else textOf buffer length) := by
  have size : ((textOf buffer length).length : Int) = length := by
    rw [textOf_length]
    exact Int.toNat_of_nonneg nonneg
  have longer : length < k ∧ (k : Int) < maxLength - 1 ↔
      (textOf buffer length).length < k ∧ (k : Int) < maxLength - 1 := by omega
  simp only [completeMany, common, count, longer]
  split
  next =>
    refine ⟨by simp, textOf_eq (by simp) fun i hi => ?_⟩
    rw [List.length_map, List.length_range] at hi
    change (typeOut first 0 k _).buffer.cell (i : Int) = _
    rw [(typeOut_spec ..).2.2, if_pos (by omega), List.getD_eq_getElem?_getD, List.getElem?_map, List.getElem?_range hi]
    rfl
  next => exact leaves_same nonneg

theorem handleTabCompletion_leaves (buffer : Cells Byte) (screen : Display) {length : Int} (maxLength : Int)
    (nonneg : 0 ≤ length) (noNul : 0 ∉ textOf buffer length) :
    Leaves (handleTabCompletion buffer screen length maxLength)
      (enteredLine (foundIndices buffer) (textOf buffer length) maxLength) := by
  have search := searchCommands_found buffer screen
  have count := search.count
  rw [handleTabCompletion]
  match found : foundIndices buffer with
  | [] =>
    rw [found, List.length_nil] at count
    rw [if_pos count]
    exact ⟨rfl, rfl⟩
  | [i] =>
    rw [found, List.length_singleton] at count
    have hit : strStartsWith (commandAt i) (typed buffer) = true := by
      have mem : i ∈ foundIndices buffer := found ▸ List.mem_singleton_self i
      exact (List.mem_filter.mp mem).2
    rw [if_neg (by omega), if_pos count, (search.first i [] found).1]
    exact completeOne_leaves nonneg (prefix_of_startsWith noNul hit) _
  | i :: j :: rest =>
    rw [found, List.length_cons, List.length_cons] at count
    rw [if_neg (by omega), if_neg (by omega)]
    exact completeMany_leaves nonneg (search.first i _ found).2 (search.second i j rest found)

/-- When the line that a call leaves is the right one, in terms of the commands that start with
the buffer up to its first NUL and those that start with the line. Where nothing is found the
line is emptied. Where several are found, the second and the entry before it in the table
decide. -/
def CompletionAgrees (found starting : List Nat) (w : List Byte) (maxLength : Int) : Prop :=
  match found with
  | [] => w = [] ∨ ∃ i, starting = [i] ∧ ¬CommandFits i maxLength
  | [i] => starting = [i] ∨ ¬CommandFits i maxLength ∧ w = commonText starting
  | _ :: j :: _ =>
    if w.length < sharedBefore j ∧ (sharedBefore j : Int) < maxLength - 1 then
      sharedBefore j = (commonText starting).length
    else w = commonText starting

section Agreement

variable {buffer : Cells Byte} {length maxLength : Int} {w line : List Byte} {t : Completion}

theorem Leaves.iff_eq {other : List Byte} (h : Leaves t line) : Leaves t other ↔ line = other := by
  constructor
  · exact fun h' => h.text.symm.trans h'.text
  · rintro rfl
    exact h

theorem found_sublist (noNul : 0 ∉ textOf buffer length) :
    List.Sublist (foundIndices buffer) (startingIndices (textOf buffer length)) := by
  refine List.monotone_filter_right _ fun i hit => ?_
  exact List.isPrefixOf_iff_prefix.mpr (prefix_of_startsWith noNul hit)

theorem starting_nil : startingIndices [] = List.range availableCommands.length := by
  rw [startingIndices, List.filter_eq_self]
  exact fun i _ => rfl

theorem commonText_all : commonText (List.range availableCommands.length) = [] := by
  decide +kernel

theorem prefix_commonText (some : startingIndices w ≠ []) : w <+: commonText (startingIndices w) := by
  rw [commonText, prefix_longest_iff (by simpa using some)]
  intro c hc
  obtain ⟨i, hi, rfl⟩ := List.mem_map.mp hc
  exact List.isPrefixOf_iff_prefix.mp (List.mem_filter.mp hi).2

theorem commonText_starts {i : Nat} {indices : List Nat} (mem : i ∈ indices) :
    commonText indices <+: (commandAt i).chars := longest_starts (List.mem_map_of_mem mem)

theorem map_get_eq_iff {c : CStr} {k : Nat} (start : line <+: c.chars) :
    (List.range k).map c.get = line ↔ k = line.length := by
  constructor
  · rintro rfl
    simp
  · rintro rfl
    obtain ⟨rest, joined⟩ := start
    apply List.ext_getElem?
    intro i
    by_cases lt : i < line.length
    · rw [List.getElem?_map, List.getElem?_range lt, Option.map_some, CStr.get, ← joined, List.getD_append _ _ _ _ lt,
        List.getD_eq_getElem _ _ lt, List.getElem?_eq_getElem lt]
    · rw [List.getElem?_eq_none (by simpa using lt), List.getElem?_eq_none (by omega)]

theorem completes_none (leaves : Leaves t []) : CompletesTo w maxLength t ↔
    w = [] ∨ ∃ i, startingIndices w = [i] ∧ ¬CommandFits i maxLength := by
  have all : w = [] → startingIndices w = List.range availableCommands.length := by
    rintro rfl
    exact starting_nil
  rw [CompletesTo]
  match found : startingIndices w with
  | [] =>
    dsimp only
    rw [leaves.iff_eq]
    simp [eq_comm]
  | [i] =>
    have some : w ≠ [] := by
      intro empty
      have lengths := congrArg List.length (found.symm.trans (all empty))
      rw [List.length_range, List.length_singleton] at lengths
      exact absurd lengths (by decide)
    simp only [leaves.iff_eq, some, false_or]
    constructor
    · exact fun right => ⟨i, rfl, fun fits => absurd (right fits) (by simp)⟩
    · rintro ⟨j, same, tight⟩ fits
      obtain rfl : i = j := List.head_eq_of_cons_eq same
      exact absurd fits tight
  | i :: j :: rest =>
    dsimp only
    rw [leaves.iff_eq, ← found]
    constructor
    · intro empty
      have start := prefix_commonText (w := w) (found ▸ List.cons_ne_nil i _)
      rw [← empty] at start
      exact Or.inl (List.prefix_nil.mp start)
    · rintro (empty | ⟨k, one, -⟩)
      · rw [all empty, commonText_all]
      · rw [found] at one
        simp at one

theorem completes_one {i : Nat} (mem : i ∈ startingIndices w)
    (leaves : Leaves t (if CommandFits i maxLength then (commandAt i).chars ++ [0x20] else w)) :
    CompletesTo w maxLength t ↔
      startingIndices w = [i] ∨ ¬CommandFits i maxLength ∧ w = commonText (startingIndices w) := by
  rw [CompletesTo]
  match found : startingIndices w with
  | [] => exact absurd (found ▸ mem) List.not_mem_nil
  | [j] =>
    obtain rfl : i = j := by simpa [found] using mem
    refine iff_of_true (fun fits => ?_) (Or.inl rfl)
    rwa [if_pos fits] at leaves
  | j :: k :: rest =>
    have shorter := (commonText_starts (found ▸ mem)).length_le
    dsimp only
    rw [leaves.iff_eq]
    by_cases fits : CommandFits i maxLength
    · rw [if_pos fits]
      refine iff_of_false (fun same => ?_) (by simp [fits])
      rw [← same, List.length_append, List.length_singleton] at shorter
      omega
    · rw [if_neg fits]
      simp [fits]

theorem completes_many {i j : Nat} {rest : List Nat} (sub : List.Sublist (i :: j :: rest) (startingIndices w))
    (leaves : Leaves t (enteredLine (i :: j :: rest) w maxLength)) :
    CompletesTo w maxLength t ↔ CompletionAgrees (i :: j :: rest) (startingIndices w) w maxLength := by
  rw [CompletesTo]
  match found : startingIndices w with
  | [] => simp [found] at sub
  | [k] =>
    have short := sub.length_le
    simp [found] at short
  | k :: l :: more =>
    have start : commonText (k :: l :: more) <+: (commandAt i).chars :=
      commonText_starts (found ▸ sub.subset List.mem_cons_self)
    simp only [leaves.iff_eq, enteredLine, CompletionAgrees]
    split
    · exact map_get_eq_iff start
    · rfl

theorem tab_completion_iff (buffer : Cells Byte) (screen : Display) (length maxLength : Int) (nonneg : 0 ≤ length)
    (noNul : 0 ∉ textOf buffer length) :
    CompletesTo (textOf buffer length) maxLength (handleTabCompletion buffer screen length maxLength) ↔
      CompletionAgrees (foundIndices buffer) (startingIndices (textOf buffer length)) (textOf buffer length) maxLength := by
  have leaves := handleTabCompletion_leaves buffer screen maxLength nonneg noNul
  have sub := found_sublist noNul
  match found : foundIndices buffer with
  | [] =>
    rw [found] at leaves
    exact completes_none leaves
  | [i] =>
    rw [found] at leaves sub
    exact completes_one (sub.subset List.mem_cons_self) leaves
  | i :: j :: rest =>
    rw [found] at leaves sub
    exact completes_many sub leaves

def lineBuffer (bytes : List Byte) : Cells Byte := ⟨fun i => bytes.getD i.toNat 0, []⟩

example : foundIndices (lineBuffer [0x68, 0x65, 0x6C]) = [0] := by decide +kernel

/-- `hel` becomes `help` and a space. -/
theorem tab_completion_iff_help : CompletesTo (textOf (lineBuffer [0x68, 0x65, 0x6C]) 3) 256
    (handleTabCompletion (lineBuffer [0x68, 0x65, 0x6C]) blankDisplay 3 256) := by
  refine (tab_completion_iff _ blankDisplay 3 256 (by decide) (by decide)).mpr ?_
  have found : foundIndices (lineBuffer [0x68, 0x65, 0x6C]) = [0] := by decide +kernel
  rw [found]
  exact Or.inl (by decide +kernel)

/-- `x` is erased; `c` becomes `cl`, though `color` and `cat` start with it too; and `h` is
erased where an `x` is left behind it in the buffer. -/
theorem tab_completion_loses_lines :
    ¬CompletesTo (textOf (lineBuffer [0x78]) 1) 256 (handleTabCompletion (lineBuffer [0x78]) blankDisplay 1 256) ∧
    ¬CompletesTo (textOf (lineBuffer [0x63]) 1) 256 (handleTabCompletion (lineBuffer [0x63]) blankDisplay 1 256) ∧
    ¬CompletesTo (textOf (lineBuffer [0x68, 0x78]) 1) 256
      (handleTabCompletion (lineBuffer [0x68, 0x78]) blankDisplay 1 256) := by
  have leaves := fun buffer => handleTabCompletion_leaves buffer blankDisplay 256 (show 0 ≤ 1 by decide)
  refine ⟨fun right => ?_, fun right => ?_, fun right => ?_⟩
  · have empty := leaves (lineBuffer [0x78]) (by decide)
    have found : foundIndices (lineBuffer [0x78]) = [] := by decide +kernel
    have starting : startingIndices (textOf (lineBuffer [0x78]) 1) = [] := by decide +kernel
    rw [found] at empty
    rcases (completes_none empty).mp right with same | ⟨i, one, -⟩
    · exact absurd same (by decide)
    · rw [starting] at one
      cases one
  · have several := leaves (lineBuffer [0x63]) (by decide)
    have sub : List.Sublist _ (startingIndices (textOf (lineBuffer [0x63]) 1)) := found_sublist (by decide)
    have found : foundIndices (lineBuffer [0x63]) = [1, 2, 17, 26] := by decide +kernel
    rw [found] at several sub
    have agrees := (completes_many sub several).mp right
    rw [CompletionAgrees, if_pos (by decide +kernel)] at agrees
    exact absurd agrees (by decide +kernel)
  · have empty := leaves (lineBuffer [0x68, 0x78]) (by decide)
    have found : foundIndices (lineBuffer [0x68, 0x78]) = [] := by decide +kernel
    have starting : startingIndices (textOf (lineBuffer [0x68, 0x78]) 1) = [0, 19] := by decide +kernel
    rw [found] at empty
    rcases (completes_none empty).mp right with same | ⟨i, one, -⟩
    · exact absurd same (by decide)
    · rw [starting] at one
      cases one

end Agreement

end Wittche.Shell
