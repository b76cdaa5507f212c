import Wittche.CString
import Wittche.Lib.Scan
import Wittche.Lib.Words

/-! `str_trim` and `str_split` of `kernel/string.c`. Both work in place: the first moves the
string down to where it began, the second puts a NUL behind each token. -/

namespace Wittche.CString
open Bytes Words

/-- `while (p(*s)) s++`; `none` is a loop that has not ended within `fuel` bytes. -/
def skipWhile (p : Byte → Bool) (m : Buffer) (fuel s : Nat) : Option Nat := Scan.firstFrom (fun a => !p (m a)) fuel s

def isSpace (c : Byte) : Bool := c == 0x20 || c == 0x09 || c == 0x0A || c == 0x0D

def strlen (m : Buffer) (fuel s : Nat) : Option Nat := (skipWhile (· ≠ 0) m fuel s).map (· - s)

/-- The loop of `str_trim` from the end on; `n` is `end - start + 1`. -/
def trimEnd (m : Buffer) (start : Nat) : (n : Nat) → Nat
  | 0 => 0
  | n + 1 => if 0 < n ∧ isSpace (m (start + n)) then trimEnd m start n else n + 1

/-- `len` turns of the loop that moves the string down. -/
def moveDown (m : Buffer) (str start : Nat) : (len : Nat) → Buffer
  | 0 => m
  | len + 1 =>
    let m := moveDown m str start len
    Function.update m (str + len) (m (start + len))

def strTrim (m : Buffer) (str fuel : Nat) : Option Buffer :=
  if str = 0 then some m
  else
    match skipWhile isSpace m fuel str with
    | none => none
    | some start =>
      match strlen m fuel start with
      | none => none
      | some n =>
        let len := trimEnd m start n
        let m := if start ≠ str then moveDown m str start len else m
        some (Function.update m (str + len) 0)

/-- The outer loop of `str_split`, with the entries of `tokens` so far. -/
def strSplitFrom (delim : Byte) (maxTokens fuel : Nat) :
    (turns : Nat) → Buffer → (current : Nat) → (tokens : List Nat) → Option (Buffer × List Nat)
  | 0, _, _, _ => none
  | turns + 1, m, current, tokens =>
    if m current ≠ 0 ∧ tokens.length < maxTokens then
      match skipWhile (· = delim) m fuel current with
      | none => none
      | some current =>
        if m current = 0 then some (m, tokens)
        else
          match skipWhile (fun c => c ≠ 0 ∧ c ≠ delim) m fuel current with
          | none => none
          | some stop =>
            if m stop ≠ 0 then
              strSplitFrom delim maxTokens fuel turns (Function.update m stop 0) (stop + 1) (tokens ++ [current])
            else strSplitFrom delim maxTokens fuel turns m stop (tokens ++ [current])
    else some (m, tokens)

/-- The memory behind the call and the entries of `tokens`; the returned count is their number. -/
def strSplit (m : Buffer) (str : Nat) (delim : Byte) (maxTokens fuel : Nat) : Option (Buffer × List Nat) :=
  strSplitFrom delim maxTokens fuel fuel m str []

section Reading

variable {m : Buffer} {a k fuel : Nat} {l u v : List Byte} {p : Byte → Bool}

theorem Reads.append_right (h : Reads m a (u ++ v)) : Reads m (a + u.length) v := by
  intro i hi
  rw [Nat.add_assoc, h (u.length + i) (by rw [List.length_append]; omega), List.getD_eq_getElem?_getD,
    List.getD_eq_getElem?_getD, List.getElem?_append_right (Nat.le_add_right ..), Nat.add_sub_cancel_left]

theorem Reads.dropWhile (h : Reads m a l) (p : Byte → Bool) :
    Reads m (a + (l.takeWhile p).length) (l.dropWhile p) := by
  rw [← List.takeWhile_append_dropWhile (p := p) (l := l)] at h
  exact h.append_right

theorem Reads.stop (h : Reads m a (u ++ v)) : Reads (Function.update m (a + u.length) 0) a u := by
  intro i hi
  rcases Nat.lt_or_eq_of_le hi with lt | rfl
  · rw [Function.update_of_ne (by omega), h i (by rw [List.length_append]; omega), List.getD_eq_getElem?_getD,
      List.getD_eq_getElem?_getD, List.getElem?_append_left lt]
  · rw [Function.update_self, List.getD_eq_getElem?_getD, List.getElem?_eq_none (Nat.le_refl _), Option.getD_none]

theorem Reads.first_zero (h : Reads m a l) (noNul : 0 ∉ l) : m a = 0 ↔ l = [] := by
  have first := h 0 (Nat.zero_le _)
  rw [Nat.add_zero] at first
  cases l with
  | nil => exact iff_of_true first rfl
  | cons c l =>
    refine iff_of_false (fun zero => noNul ?_) (List.cons_ne_nil c l)
    exact (zero ▸ first : 0 = c) ▸ List.mem_cons_self

theorem Reads.length_le (h : Reads m a l) (noNul : 0 ∉ l) (zero : m (a + k) = 0) : l.length ≤ k := by
  by_contra inside
  have here := h k (by omega)
  rw [zero, ← List.getElem_eq_getD (h := by omega) 0] at here
  exact noNul (here ▸ List.getElem_mem _)

theorem skipWhile_eq (h : Reads m a l) (stops : p 0 = false) (enough : l.length < fuel) :
    skipWhile p m fuel a = some (a + (l.takeWhile p).length) := by
  induction l generalizing a fuel with
  | nil =>
    obtain ⟨fuel, rfl⟩ := Nat.exists_eq_succ_of_ne_zero (Nat.ne_of_gt (Nat.zero_lt_of_lt enough))
    have zero : m a = 0 := h.nul
    rw [skipWhile, Scan.firstFrom, zero, stops]
    rfl
  | cons c l ih =>
    obtain ⟨fuel, rfl⟩ := Nat.exists_eq_succ_of_ne_zero (Nat.ne_of_gt (Nat.zero_lt_of_lt enough))
    have first : m a = c := h 0 (Nat.zero_le _)
    rw [skipWhile, Scan.firstFrom, first, List.takeWhile_cons]
    by_cases holds : p c = true
    · rw [holds, if_neg (by decide), if_pos rfl]
      have later := ih h.tail (Nat.lt_of_succ_lt_succ enough)
      rw [skipWhile] at later
      rw [later, List.length_cons]
      congr 1
      omega
    · rw [Bool.not_eq_true] at holds
      rw [holds, Bool.not_false, if_pos rfl, if_neg Bool.false_ne_true]
      rfl

theorem strlen_eq (h : Reads m a l) (noNul : 0 ∉ l) (enough : l.length < fuel) : strlen m fuel a = some l.length := by
  have all : l.takeWhile (· ≠ 0) = l := by
    rw [List.takeWhile_eq_self_iff]
    exact fun c mem => decide_eq_true fun zero => noNul (zero ▸ mem)
  rw [strlen, skipWhile_eq h (by decide) enough, Option.map_some, all, Nat.add_sub_cancel_left]

end Reading

section Trimming

variable {m : Buffer} {str start k fuel : Nat} {l : List Byte}

theorem trimEnd_eq (h : Reads m start l) (front : ∀ c ∈ l.head?, isSpace c = false) (le : k ≤ l.length) :
    trimEnd m start k = ((l.take k).rdropWhile isSpace).length := by
  induction k with
  | zero => rfl
  | succ k ih =>
    have here : m (start + k) = l[k] := by
      rw [h k (Nat.le_of_lt le)]
      exact (List.getElem_eq_getD 0).symm
    rw [trimEnd, here, List.take_succ_eq_append_getElem le, List.rdropWhile_concat]
    by_cases space : isSpace l[k] = true
    · have inside : 0 < k := by
        rcases Nat.eq_zero_or_pos k with rfl | pos
        · rw [front l[0] (List.head?_eq_getElem? ▸ List.getElem?_eq_getElem le)] at space
          exact Bool.noConfusion space
        · exact pos
      rw [if_pos ⟨inside, space⟩, if_pos space]
      exact ih (Nat.le_of_succ_le le)
    · rw [if_neg fun both => space both.2, if_neg space, List.length_append, List.length_take,
        Nat.min_eq_left (Nat.le_of_succ_le le)]
      rfl

theorem moveDown_apply (m : Buffer) (below : str ≤ start) (len x : Nat) :
    moveDown m str start len x = if str ≤ x ∧ x < str + len then m (start + (x - str)) else m x := by
  induction len generalizing x with
  | zero => rw [moveDown, if_neg (by omega)]
  | succ len ih =>
    simp only [moveDown]
    -- The byte that is read lies behind those that have been written.
    rw [Function.update_apply, ih (start + len), if_neg (show ¬(str ≤ start + len ∧ start + len < str + len) by omega)]
    by_cases last : x = str + len
    · rw [if_pos last, if_pos (by omega), last, Nat.add_sub_cancel_left]
    · rw [if_neg last, ih]
      by_cases inside : str ≤ x ∧ x < str + len
      · rw [if_pos inside, if_pos (by omega)]
      · rw [if_neg inside, if_neg (by omega)]

theorem strTrim_eq (there : str ≠ 0) (h : Reads m str l) (noNul : 0 ∉ l) (enough : l.length < fuel) :
    ∃ m', strTrim m str fuel = some (Function.update m' (str + (trim isSpace l).length) 0) ∧ ∀ x, m' x =
      if str ≤ x ∧ x < str + (trim isSpace l).length then m (str + (l.takeWhile isSpace).length + (x - str))
      else m x := by
  have rest := h.dropWhile isSpace
  have split : (l.takeWhile isSpace).length + (l.dropWhile isSpace).length = l.length := by
    rw [← List.length_append, List.takeWhile_append_dropWhile]
  have inside : 0 ∉ l.dropWhile isSpace := fun zero => noNul ((List.dropWhile_suffix isSpace).subset zero)
  have length : trimEnd m (str + (l.takeWhile isSpace).length) (l.dropWhile isSpace).length =
      (trim isSpace l).length := by
    rw [trimEnd_eq rest (dropWhile_head isSpace l) (Nat.le_refl _), List.take_length, trim]
  rw [strTrim, if_neg there, skipWhile_eq h (by decide) enough]
  dsimp only
  rw [strlen_eq rest inside (by omega)]
  dsimp only
  rw [length]
  refine ⟨_, rfl, fun x => ?_⟩
  split
  next moved => exact moveDown_apply m (Nat.le_add_right ..) _ x
  next same =>
    rw [not_not] at same
    rw [same]
    split
    next inside => rw [Nat.add_sub_cancel' inside.1]
    next => rfl

/-- `str_trim` leaves the line without what is to be removed, and touches nothing behind it. -/
theorem strTrim_spec (there : str ≠ 0) (h : Reads m str l) (noNul : 0 ∉ l) (enough : l.length < fuel) :
    ∃ m', strTrim m str fuel = some m' ∧ Reads m' str (trim isSpace l) ∧
      ∀ x, x < str ∨ str + l.length < x → m' x = m x := by
  obtain ⟨m', eq, moved⟩ := strTrim_eq there h noNul enough
  obtain ⟨behind, shape⟩ : trim isSpace l <+: l.dropWhile isSpace := List.rdropWhile_prefix isSpace _
  have le := (trim_part isSpace l).length_le
  refine ⟨_, eq, fun i hi => ?_, fun x out => ?_⟩
  · rcases Nat.lt_or_eq_of_le hi with lt | rfl
    · have rest := h.dropWhile isSpace
      rw [← shape] at rest
      rw [Function.update_of_ne (by omega), moved, if_pos (by omega), Nat.add_sub_cancel_left,
        rest i (by rw [List.length_append]; omega), List.getD_eq_getElem?_getD, List.getD_eq_getElem?_getD,
        List.getElem?_append_left lt]
    · rw [Function.update_self, List.getD_eq_getElem?_getD, List.getElem?_eq_none (Nat.le_refl _), Option.getD_none]
  · rw [Function.update_of_ne (by omega), moved, if_neg (by omega)]

theorem strTrim_trimmed (there : str ≠ 0) (h : Reads m str l) (noNul : 0 ∉ l) (enough : l.length < fuel)
    (trimmed : trim isSpace l = l) : strTrim m str fuel = some m := by
  obtain ⟨m', eq, moved⟩ := strTrim_eq there h noNul enough
  have none : l.takeWhile isSpace = [] := by
    rw [← trimmed]
    exact takeWhile_trim isSpace l
  rw [eq, trimmed]
  congr 1
  funext x
  rw [trimmed, none] at moved
  rw [Function.update_apply, moved]
  split
  next last => rw [last, h.nul]
  next =>
    split
    next inside => rw [List.length_nil, Nat.add_zero, Nat.add_sub_cancel' inside.1]
    next => rfl

end Trimming

section Splitting

variable {m : Buffer} {a fuel turns maxTokens : Nat} {delim : Byte} {l : List Byte}

/-- What `str_split` does from a place in the line on: each of its first words has an entry, and
nothing in front of that place is touched. -/
structure Split (m : Buffer) (current : Nat) (words : List (List Byte)) (m' : Buffer) (tokens : List Nat) : Prop where
  texts : List.Forall₂ (Reads m') tokens words
  frame : ∀ x < current, m' x = m x

theorem strSplitFrom_done (tokens : List Nat) (ended : m a = 0 ∨ maxTokens ≤ tokens.length) :
    strSplitFrom delim maxTokens fuel (turns + 1) m a tokens = some (m, tokens) := by
  rw [strSplitFrom, if_neg]
  rintro ⟨more, room⟩
  rcases ended with nul | full
  · exact more nul
  · omega

theorem strSplitFrom_blank (nonzero : delim ≠ 0) (h : Reads m a l) (enough : l.length < fuel)
    (separators : ∀ c ∈ l, c = delim) (tokens : List Nat) :
    strSplitFrom delim maxTokens fuel (turns + 1) m a tokens = some (m, tokens) := by
  have all : l.takeWhile (· = delim) = l := List.takeWhile_eq_self_iff.mpr (by simpa using separators)
  rw [strSplitFrom]
  split
  next =>
    rw [skipWhile_eq h (decide_eq_false nonzero.symm) enough, all]
    dsimp only
    rw [if_pos h.nul]
  next => rfl

theorem strSplitFrom_token (nonzero : delim ≠ 0) {u w v : List Byte} (h : Reads m a (u ++ (w ++ v)))
    (noNul : 0 ∉ u ++ (w ++ v)) (enough : (u ++ (w ++ v)).length < fuel) (separators : ∀ c ∈ u, c = delim)
    (word : w ≠ []) (free : delim ∉ w) (ends : ∀ c ∈ v.head?, c = delim) {tokens : List Nat}
    (room : tokens.length < maxTokens) :
    strSplitFrom delim maxTokens fuel (turns + 1) m a tokens =
      if m (a + u.length + w.length) ≠ 0 then
        strSplitFrom delim maxTokens fuel turns (Function.update m (a + u.length + w.length) 0)
          (a + u.length + w.length + 1) (tokens ++ [a + u.length])
      else strSplitFrom delim maxTokens fuel turns m (a + u.length + w.length) (tokens ++ [a + u.length]) := by
  simp only [List.mem_append, not_or] at noNul
  obtain ⟨-, noNul, -⟩ := noNul
  obtain ⟨c, t, rfl⟩ := List.exists_cons_of_ne_nil word
  have plain : c ≠ delim := fun same => free (same ▸ List.mem_cons_self)
  have some : c ≠ 0 := fun zero => noNul (zero ▸ List.mem_cons_self)
  have rest := h.append_right
  have first : m (a + u.length) = c := rest 0 (Nat.zero_le _)
  have skipped : (u ++ (c :: t ++ v)).takeWhile (· = delim) = u := by
    rw [List.takeWhile_append_of_pos (by simpa using separators), List.cons_append, List.takeWhile_cons,
      if_neg (by simpa using plain), List.append_nil]
  have token : (c :: t ++ v).takeWhile (fun d => d ≠ 0 ∧ d ≠ delim) = c :: t := by
    rw [List.takeWhile_append_of_pos]
    · cases v with
      | nil => exact List.append_nil _
      | cons d v =>
        rw [List.takeWhile_cons, if_neg (by simp [ends d rfl]), List.append_nil]
    · intro d mem
      refine decide_eq_true ⟨fun zero => noNul (zero ▸ mem), fun same => free (same ▸ mem)⟩
  have more : m a ≠ 0 := by
    cases u with
    | nil => exact fun zero => some (first.symm.trans zero)
    | cons d u =>
      have here : m a = d := h 0 (Nat.zero_le _)
      rw [here, separators d List.mem_cons_self]
      exact nonzero
  rw [strSplitFrom, if_pos ⟨more, room⟩, skipWhile_eq h (decide_eq_false nonzero.symm) enough, skipped]
  dsimp only
  rw [if_neg (first ▸ some), skipWhile_eq rest (by simp) (by rw [List.length_append] at enough; omega), token]

theorem strSplitFrom_spec (nonzero : delim ≠ 0) (h : Reads m a l) (noNul : 0 ∉ l) (enough : l.length < fuel)
    (many : l.length < turns) (tokens : List Nat) :
    ∃ m' new, strSplitFrom delim maxTokens fuel turns m a tokens = some (m', tokens ++ new) ∧
      Split m a ((words delim l).take (maxTokens - tokens.length)) m' new := by
  induction turns generalizing m a l tokens with
  | zero => omega
  | succ turns ih =>
    rcases words_cases delim l with ⟨separators, none⟩ | ⟨u, w, v, rfl, separators, word, free, ends, split⟩
    · refine ⟨m, [], ?_, ?_, fun _ _ => rfl⟩
      · rw [List.append_nil, strSplitFrom_blank nonzero h enough separators]
      · rw [none, List.take_nil]
        exact .nil
    · by_cases room : tokens.length < maxTokens
      · rw [split, strSplitFrom_token nonzero h noNul enough separators word free ends room,
          show maxTokens - tokens.length = maxTokens - (tokens.length + 1) + 1 by omega, List.take_succ_cons]
        have start := h.append_right
        have behind := start.append_right
        have most : u.length + (w.length + v.length) < turns + 1 := by
          simpa only [List.length_append] using many
        have long : 0 < w.length := List.length_pos_iff.mpr word
        cases v with
        | nil =>
          have nul : m (a + u.length + w.length) = 0 := behind.nul
          obtain ⟨k, rfl⟩ : ∃ k, turns = k + 1 := ⟨turns - 1, by omega⟩
          rw [if_neg (by simp [nul]), strSplitFrom_done _ (Or.inl nul), words_nil, List.take_nil]
          rw [List.append_nil] at start
          exact ⟨m, [a + u.length], rfl, .cons start .nil, fun _ _ => rfl⟩
        | cons d v =>
          have here : m (a + u.length + w.length) = d := behind 0 (Nat.zero_le _)
          obtain rfl : d = delim := ends d rfl
          have apart : 0 ∉ v := fun mem =>
            noNul (List.mem_append_right _ (List.mem_append_right _ (List.mem_cons_of_mem _ mem)))
          have tail : Reads (Function.update m (a + u.length + w.length) 0) (a + u.length + w.length + 1) v :=
            behind.tail.frame fun x low _ => Function.update_of_ne (by omega) ..
          simp only [List.length_append, List.length_cons] at enough most
          obtain ⟨m', new, eq, rest⟩ := ih tail apart (by omega) (by omega) (tokens ++ [a + u.length])
          rw [List.length_append, List.length_singleton] at rest
          rw [if_pos (here ▸ nonzero), eq, words_separator, List.append_assoc]
          refine ⟨m', (a + u.length) :: new, rfl, .cons ?_ rest.texts, fun x low => ?_⟩
          · exact start.stop.frame fun x _ high => rest.frame x (by omega)
          · rw [rest.frame x (by omega), Function.update_of_ne (by omega)]
      · refine ⟨m, [], ?_, ?_, fun _ _ => rfl⟩
        · rw [List.append_nil, strSplitFrom_done tokens (Or.inr (by omega))]
        · rw [Nat.sub_eq_zero_of_le (by omega), List.take_zero]
          exact .nil

/-- Each of the first `maxTokens` words has an entry that leads to it. -/
theorem strSplit_spec (maxTokens : Nat) (nonzero : delim ≠ 0) (h : Reads m a l) (noNul : 0 ∉ l) (enough : l.length < fuel) :
    ∃ m' tokens, strSplit m a delim maxTokens fuel = some (m', tokens) ∧
      Split m a ((words delim l).take maxTokens) m' tokens :=
  strSplitFrom_spec nonzero h noNul enough enough []

end Splitting

end Wittche.CString
