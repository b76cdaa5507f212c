import Mathlib.Data.List.GetD
import Wittche.Screen.Drawing
import Wittche.Shell.GetLine

/-! What the search of `handle_tab_completion` finds: how many commands start with the
bytes in the buffer, which of them is the first, and how much of it may be entered. -/

namespace Wittche.Shell
open Bytes CString Traced Screen Keyboard

def matching (buffer : Cells Byte) : List CStr := availableCommands.filter fun c => strStartsWith c (typed buffer)

theorem strStartsWithFrom_iff {p : Buffer} {k : Nat} {l : List Byte} (noNul : 0 ∉ l) :
    strStartsWithFrom p k l = true ↔
      ∃ n ≤ l.length, p (k + n) = 0 ∧ ∀ i < n, p (k + i) ≠ 0 ∧ p (k + i) = l.getD i 0 := by
  induction l generalizing k with
  | nil =>
    rw [strStartsWithFrom, decide_eq_true_eq]
    constructor
    · exact fun nul => ⟨0, Nat.le_refl _, nul, fun i hi => absurd hi (Nat.not_lt_zero i)⟩
    · rintro ⟨n, le, nul, -⟩
      obtain rfl : n = 0 := by simpa using le
      exact nul
  | cons c rest ih =>
    rw [strStartsWithFrom]
    split
    next nul =>
      simp only [true_iff]
      exact ⟨0, Nat.zero_le _, nul, fun i hi => absurd hi (Nat.not_lt_zero i)⟩
    next some =>
      split
      next differ =>
        simp only [Bool.false_eq_true, false_iff]
        rintro ⟨n, -, nul, same⟩
        cases n with
        | zero => exact some nul
        | succ n => exact differ (by simpa using (same 0 (Nat.succ_pos n)).2.symm)
      next same =>
        simp only [ne_eq, not_not] at same
        rw [ih fun h => noNul (List.mem_cons_of_mem _ h)]
        constructor
        · rintro ⟨n, le, nul, walk⟩
          refine ⟨n + 1, by simpa using le, ?_, ?_⟩
          · rw [show k + (n + 1) = k + 1 + n by omega]
            exact nul
          · intro i hi
            cases i with
            | zero => exact ⟨some, by simpa using same.symm⟩
            | succ i =>
              rw [show k + (i + 1) = k + 1 + i by omega]
              simpa using walk i (by omega)
        · rintro ⟨n, le, nul, walk⟩
          cases n with
          | zero => exact absurd nul some
          | succ n =>
            refine ⟨n, by simpa using le, ?_, ?_⟩
            · rw [show k + 1 + n = k + (n + 1) by omega]
              exact nul
            · intro i hi
              have step := walk (i + 1) (by omega)
              rw [show k + (i + 1) = k + 1 + i by omega] at step
              simpa using step

theorem strStartsWith_iff {str : CStr} {p : Buffer} :
    strStartsWith str p = true ↔
      ∃ n ≤ str.length, p n = 0 ∧ ∀ i < n, p i ≠ 0 ∧ p i = str.get i := by
  rw [strStartsWith, strStartsWithFrom_iff str.noNul]
  simp [CStr.length, CStr.get]

theorem commonLength_le_left (a b : List Byte) : commonLength a b ≤ a.length := by
  fun_induction commonLength a b with
  | case1 a as bs ih => simpa using ih
  | case2 => simp
  | case3 => simp

theorem commonLength_get {a b : List Byte} {i : Nat} (below : i < commonLength a b) : a.getD i 0 = b.getD i 0 := by
  fun_induction commonLength a b generalizing i with
  | case1 a as bs ih =>
    cases i with
    | zero => rfl
    | succ i => simpa using ih (by omega)
  | case2 => omega
  | case3 => omega

theorem startsWith_of_common {a b : CStr} {p : Buffer} {n : Nat} (nul : p n = 0)
    (walk : ∀ i < n, p i ≠ 0 ∧ p i = b.get i) (long : n ≤ commonLength a.chars b.chars) :
    strStartsWith a p = true := by
  refine strStartsWith_iff.mpr ⟨n, Nat.le_trans long (commonLength_le_left _ _), nul, ?_⟩
  intro i hi
  refine ⟨(walk i hi).1, ?_⟩
  rw [(walk i hi).2]
  exact (commonLength_get (Nat.lt_of_lt_of_le hi long)).symm

/-- What is entered of the first match `f` at a second one `b`: no more than `f` has. The
command `a` in front of `b` is `f` itself, or it does not start with the buffer. -/
theorem commonLength_le_first {a b f : CStr} {p : Buffer} (matchF : strStartsWith f p = true)
    (matchB : strStartsWith b p = true) (before : a = f ∨ strStartsWith a p ≠ true) :
    commonLength a.chars b.chars ≤ f.length := by
  rcases before with rfl | differ
  · exact commonLength_le_left _ _
  · obtain ⟨n, le, nul, -⟩ := strStartsWith_iff.mp matchF
    obtain ⟨n', -, nul', walk'⟩ := strStartsWith_iff.mp matchB
    have short : commonLength a.chars b.chars < n' := by
      by_contra long
      exact differ (startsWith_of_common nul' walk' (Nat.not_lt.mp long))
    have first : n' ≤ n := by
      by_contra later
      exact (walk' n (Nat.not_le.mp later)).1 nul
    omega

section Characters

theorem Plain.of_printable {c : Byte} (h : printable c) : Plain c := by
  refine ⟨?_, ?_, ?_, ?_⟩ <;>
  · rintro rfl
    exact absurd h (by decide)

-- `simp` evaluates the literals; for `decide` they are decoded from UTF-8 in the kernel
theorem commands_printable : ∀ c ∈ availableCommands, ∀ x ∈ c.chars, printable x := by
  simp [availableCommands, literal, ascii, printable]

theorem commandAt_mem {i : Nat} (h : i < availableCommands.length) : commandAt i ∈ availableCommands := by
  rw [commandAt, List.getD_eq_getElem _ _ h]
  exact List.getElem_mem h

theorem commandAt_printable (i : Nat) : ∀ x ∈ (commandAt i).chars, printable x := by
  by_cases h : i < availableCommands.length
  · exact commands_printable _ (commandAt_mem h)
  · rw [commandAt, List.getD_eq_default _ _ (Nat.not_lt.mp h)]
    exact fun x hx => absurd hx (by decide +revert)

theorem commandAt_get {i k : Nat} (h : k < (commandAt i).length) : printable ((commandAt i).get k) := by
  apply commandAt_printable i
  rw [CStr.get, List.getD_eq_getElem _ _ h]
  exact List.getElem_mem h

theorem commandAt_plain (i : Nat) : ∀ x ∈ (commandAt i).chars, Plain x :=
  fun x hx => Plain.of_printable (commandAt_printable i x hx)

theorem twoSpaces_plain : ∀ x ∈ twoSpaces.chars, Plain x := by
  intro x hx
  exact Plain.of_printable ((by decide : ∀ y ∈ twoSpaces.chars, printable y) x hx)

end Characters

theorem typeOut_spec (text : CStr) (i : Int) (n : Nat) (t : Completion) :
    (typeOut text i n t).screen = times (fun k d => screenPutchar d (text.get (i + k).toNat)) n t.screen ∧
    (typeOut text i n t).prompt = t.prompt ∧
    ∀ x, (typeOut text i n t).buffer.cell x =
      if i ≤ x ∧ x < i + n then text.get x.toNat else t.buffer.cell x := by
  refine times_induction (P := fun k (u : Completion) =>
    u.screen = times (fun k d => screenPutchar d (text.get (i + k).toNat)) k t.screen ∧ u.prompt = t.prompt ∧
    ∀ x, u.buffer.cell x = if i ≤ x ∧ x < i + k then text.get x.toNat else t.buffer.cell x)
    ⟨rfl, rfl, fun x => by rw [if_neg (by omega)]⟩ ?_
  rintro k u - ⟨screen, prompt, cells⟩
  refine ⟨?_, prompt, ?_⟩
  · rw [screen]
    rfl
  · intro x
    rw [Cells.put_cell, cells]
    grind

/-- The search after `i` commands, begun on `screen`. -/
structure Searched (buffer : Cells Byte) (screen : Display) (i : Nat) (t : Search) : Prop where
  count : t.matchCount = ((availableCommands.take i).filter fun c => strStartsWith c (typed buffer)).length
  quiet : t.matchCount ≤ 1 → t.screen = screen
  first : 1 ≤ t.matchCount → ∃ a < i, strStartsWith (commandAt a) (typed buffer) = true ∧
    t.found = commandAt a ∧ t.commonPrefix = commandAt a ∧
    (t.matchCount = 1 → ∀ j < i, strStartsWith (commandAt j) (typed buffer) = true → j = a)
  many : 2 ≤ t.matchCount → t.commonLen ≤ t.commonPrefix.length ∧
    (Fresh (screenPutcharInternal screen 0x0A) → Fresh t.screen)

section Search

variable {buffer : Cells Byte} {screen : Display} {i : Nat} {t : Search}

theorem matchCount_succ (below : i < availableCommands.length) :
    ((availableCommands.take (i + 1)).filter fun c => strStartsWith c (typed buffer)).length =
      ((availableCommands.take i).filter fun c => strStartsWith c (typed buffer)).length +
        if strStartsWith (commandAt i) (typed buffer) = true then 1 else 0 := by
  rw [List.take_add_one, List.getElem?_eq_getElem below, List.filter_append, List.length_append, commandAt,
    List.getD_eq_getElem _ _ below]
  split
  next hit => simp [hit]
  next miss => simp [miss]

theorem Searched.miss (h : Searched buffer screen i t) (below : i < availableCommands.length)
    (miss : strStartsWith (commandAt i) (typed buffer) ≠ true) : Searched buffer screen (i + 1) t := by
  refine ⟨?_, h.quiet, ?_, h.many⟩
  · rw [matchCount_succ below, if_neg miss]
    exact h.count
  · intro some
    obtain ⟨a, lt, hit, found, common, only⟩ := h.first some
    refine ⟨a, by omega, hit, found, common, ?_⟩
    intro one j hj match_j
    by_cases last : j = i
    · exact absurd (last ▸ match_j) miss
    · exact only one j (by omega) match_j

theorem Searched.hit (h : Searched buffer screen i t) (below : i < availableCommands.length)
    (hit : strStartsWith (commandAt i) (typed buffer) = true) :
    Searched buffer screen (i + 1) (considerCommand buffer i t) := by
  have count : t.matchCount + 1 =
      ((availableCommands.take (i + 1)).filter fun c => strStartsWith c (typed buffer)).length := by
    rw [matchCount_succ below, if_pos hit, h.count]
  rw [considerCommand, if_pos hit]
  by_cases none : t.matchCount = 0
  · rw [if_pos (by omega)]
    refine ⟨count, fun _ => h.quiet (by omega), fun _ => ⟨i, by omega, hit, rfl, rfl, ?_⟩, ?_⟩
    · intro _ j hj match_j
      by_contra earlier
      have mem : commandAt j ∈ availableCommands.take i := by
        rw [commandAt, List.getD_eq_getElem _ _ (by omega)]
        exact List.mem_take_iff_getElem.mpr ⟨j, by omega, rfl⟩
      have empty := List.eq_nil_of_length_eq_zero (h.count.symm.trans none)
      exact List.not_mem_nil (empty ▸ List.mem_filter.mpr ⟨mem, match_j⟩)
    · intro two
      simp only at two
      omega
  · obtain ⟨a, lt, hit_a, found, common, only⟩ := h.first (by omega)
    rw [if_neg (by omega)]
    by_cases one : t.matchCount = 1
    · rw [if_pos (by omega)]
      refine ⟨count, fun few => ?_, fun _ => ⟨a, by omega, hit_a, found, common, fun few => ?_⟩,
        fun _ => ⟨?_, fun lineEnd => ?_⟩⟩
      · simp only at few
        omega
      · simp only at few
        omega
      · simp only [common]
        apply commonLength_le_first hit_a hit
        by_cases before : strStartsWith (commandAt (i - 1)) (typed buffer) = true
        · rw [only one (i - 1) (by omega) before]
          exact Or.inl rfl
        · exact Or.inr before
      · rw [h.quiet (by omega)]
        have lineStart : Fresh (screenWrite screen (some newline)) := lineEnd.updateCursor
        exact ((lineStart.write (commandAt_plain _)).write twoSpaces_plain).write (commandAt_plain _)
    · rw [if_neg (by omega)]
      obtain ⟨short, fresh⟩ := h.many (by omega)
      refine ⟨count, fun few => ?_, fun _ => ⟨a, by omega, hit_a, found, common, fun few => ?_⟩,
        fun _ => ⟨short, fun lineEnd => ?_⟩⟩
      · simp only at few
        omega
      · simp only at few
        omega
      · exact ((fresh lineEnd).write twoSpaces_plain).write (commandAt_plain _)

theorem searchCommands_searched (buffer : Cells Byte) (screen : Display) :
    Searched buffer screen availableCommands.length (searchCommands buffer screen) := by
  refine times_induction (P := fun k t => Searched buffer screen k t) ?_ ?_
  · exact ⟨rfl, fun _ => rfl, fun some => absurd some (Nat.not_succ_le_zero _),
      fun two => absurd two (Nat.not_succ_le_zero _)⟩
  · intro k t below h
    by_cases hit : strStartsWith (commandAt k) (typed buffer) = true
    · exact h.hit below hit
    · have same : considerCommand buffer k t = t := if_neg hit
      rw [same]
      exact h.miss below hit

theorem Searched.all (h : Searched buffer screen availableCommands.length t) :
    t.matchCount = (matching buffer).length := by
  rw [h.count, List.take_length, matching]

end Search

end Wittche.Shell
