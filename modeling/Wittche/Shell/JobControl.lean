import Mathlib.Algebra.Ring.Int.Defs
import Mathlib.Data.List.TakeWhile
import Wittche.Process.Runs

/-! The commands `kill` and `nice` of `kernel/shell.c`. Each reads its numbers with `atoi`,
which stops at the first character that is no digit and wraps at 32 bits; `nice` splits its
arguments at the first space. Of the messages their kind and the values in them are kept. -/

namespace Wittche.Shell
open Bytes CString Process

inductive KillOutput
  | usage
  | invalidPid
  | idleProcess
  | notFound (pid : Word)
  | terminated (name : List Byte) (pid : Word)

inductive NiceOutput
  | usage
  | missingPriority
  | invalidPid
  | badPriority
  | notFound (pid : Word)
  | changed (name : List Byte) (pid : Word) (old : Nat) (priority : Word)
  | failed

/-- At most `n` characters of a process name. -/
def processName (name : Buffer) (n : Nat) : List Byte := ((List.range n).map name).takeWhile (· ≠ 0)

/-- The command, and the call of `process_kill` that it makes. -/
def cmdKill (s : Processes) (args : Option CStr) : Processes × KillOutput × Option Nat :=
  match args with
  | none => (s, .usage, none)
  | some args =>
    if args.length = 0 then (s, .usage, none)
    else
      let pid := atoi args.chars
      if pid.toInt < 0 then (s, .invalidPid, none)
      else if pid.toInt = 0 then (s, .idleProcess, none)
      else
        let proc := s.processGet pid.toNat
        if proc = 0 then (s, .notFound pid, none)
        else (processKill s pid.toNat, .terminated (processName (s.pcb proc).name 31) pid, some pid.toNat)

/-- The command, and the call of `process_set_priority` that it makes. -/
def cmdNice (s : Processes) (args : Option CStr) : Processes × NiceOutput × Option (Nat × Nat) :=
  match args with
  | none => (s, .usage, none)
  | some args =>
    if args.length = 0 then (s, .usage, none)
    else
      let argsCopy := args.chars.take 255
      match strchr argsCopy 0x20 with
      | none => (s, .missingPriority, none)
      | some space =>
        let pid := atoi (argsCopy.take space)
        let priority := atoi (argsCopy.drop (space + 1))
        if pid.toInt < 0 then (s, .invalidPid, none)
        else if priority.toInt < 0 ∨ 255 < priority.toInt then (s, .badPriority, none)
        else
          let proc := s.processGet pid.toNat
          if proc = 0 then (s, .notFound pid, none)
          else
            let (t, status) := processSetPriority s pid.toNat priority.toNat
            let name := processName (t.pcb proc).name 32
            let output : NiceOutput :=
              if status = 0 then .changed name pid (s.pcb proc).priority priority else .failed
            (t, output, some (pid.toNat, priority.toNat))

section Numerals

def isBlank (c : Byte) : Bool := c == 0x20 || c == 0x09
def isDigit (c : Byte) : Bool := decide (0x30 ≤ c.toNat ∧ c.toNat ≤ 0x39)

def digitsValue (digits : List Byte) : Nat := digits.foldl (fun n c => n * 10 + (c.toNat - 0x30)) 0

/-- A decimal numeral with its value. -/
inductive Numeral : List Byte → Int → Prop
  | plain {digits : List Byte} (some : digits ≠ []) (all : ∀ c ∈ digits, isDigit c) :
      Numeral digits (digitsValue digits)
  | plus {digits : List Byte} (some : digits ≠ []) (all : ∀ c ∈ digits, isDigit c) :
      Numeral (0x2B :: digits) (digitsValue digits)
  | minus {digits : List Byte} (some : digits ≠ []) (all : ∀ c ∈ digits, isDigit c) :
      Numeral (0x2D :: digits) (-(digitsValue digits : Int))

/-- The number in front of a text: blanks, a sign and as many digits as there are. -/
def leadingNumber (text : List Byte) : Int :=
  match text.dropWhile isBlank with
  | [] => 0
  | c :: rest =>
    if c = 0x2D then -(digitsValue (rest.takeWhile isDigit) : Int)
    else if c = 0x2B then digitsValue (rest.takeWhile isDigit)
    else digitsValue ((c :: rest).takeWhile isDigit)

theorem digit_toInt : ∀ c : Byte, (0x30 ≤ c.toInt ∧ c.toInt ≤ 0x39) ↔ isDigit c = true := by
  decide +kernel

theorem digit_value : ∀ c : Byte, isDigit c = true → c.signExtend 32 - 0x30 = BitVec.ofNat 32 (c.toNat - 0x30) := by
  decide +kernel

theorem digit_plain : ∀ c : Byte, isDigit c = true → isBlank c = false ∧ c ≠ 0x2D ∧ c ≠ 0x2B := by
  decide +kernel

theorem blank_plain : ∀ c : Byte, isBlank c = true → isDigit c = false := by
  decide +kernel

theorem atoiDigits_eq (n : Nat) (text : List Byte) : atoiDigits (BitVec.ofNat 32 n) text =
    BitVec.ofNat 32 ((text.takeWhile isDigit).foldl (fun n c => n * 10 + (c.toNat - 0x30)) n) := by
  induction text generalizing n with
  | nil => rfl
  | cons c rest ih =>
    rw [atoiDigits]
    by_cases digit : isDigit c = true
    · rw [if_pos ((digit_toInt c).mpr digit), List.takeWhile_cons, if_pos digit, List.foldl_cons, ← ih, digit_value c digit]
      congr 1
      rw [BitVec.ofNat_add, BitVec.ofNat_mul]
      rfl
    · rw [if_neg (mt (digit_toInt c).mp digit), List.takeWhile_cons, if_neg digit]
      rfl

/-- `atoi` returns the number in front of its text, modulo 2^32. -/
theorem atoi_eq (text : List Byte) : atoi text = BitVec.ofInt 32 (leadingNumber text) := by
  have blank : (fun c : Byte => decide (c = 0x20 ∨ c = 0x09)) = isBlank := by
    funext c
    exact Bool.decide_or ..
  have number : ∀ rest : List Byte, atoiDigits 0 rest = BitVec.ofNat 32 (digitsValue (rest.takeWhile isDigit)) :=
    atoiDigits_eq 0
  have one : ∀ x : Word, x * 1 = x := fun x => BitVec.mul_one x
  rw [atoi, leadingNumber, blank]
  cases text.dropWhile isBlank with
  | nil => rfl
  | cons c rest =>
    dsimp only
    split_ifs
    · rw [number, BitVec.ofInt_neg, BitVec.ofInt_natCast, BitVec.mul_neg, one]
    · rw [number, BitVec.ofInt_natCast, one]
    · rw [number, BitVec.ofInt_natCast, one]

/-- The number in front of a text as the `int` that `atoi` makes of it. -/
def leadingInt (text : List Byte) : Int := (leadingNumber text).bmod (2 ^ 32)

theorem atoi_toInt (text : List Byte) : (atoi text).toInt = leadingInt text := by
  rw [atoi_eq, BitVec.toInt_ofInt]
  rfl

theorem atoi_toNat {text : List Byte} (nonneg : 0 ≤ leadingInt text) :
    (atoi text).toNat = (leadingInt text).toNat := by
  rw [← atoi_toInt] at nonneg ⊢
  have bound := (atoi text).isLt
  rw [BitVec.toInt_eq_toNat_cond] at nonneg ⊢
  split at nonneg <;> omega

theorem leadingInt_eq {text : List Byte} {n : Int} (number : leadingNumber text = n) (low : -2 ^ 31 ≤ n)
    (high : n < 2 ^ 31) : leadingInt text = n := by
  rw [leadingInt, number]
  apply Int.bmod_eq_of_le <;> omega

theorem leadingInt_bounds (text : List Byte) : -2 ^ 31 ≤ leadingInt text ∧ leadingInt text < 2 ^ 31 :=
  ⟨Int.le_bmod (by decide), Int.bmod_lt (by decide)⟩

theorem leadingNumber_numeral {before word rest : List Byte} {n : Int} (blank : ∀ c ∈ before, isBlank c)
    (numeral : Numeral word n) (ends : ∀ c ∈ rest.head?, isDigit c = false) :
    leadingNumber (before ++ (word ++ rest)) = n := by
  have skip : ∀ c l, isBlank c = false → (before ++ c :: l).dropWhile isBlank = c :: l := by
    intro c l visible
    rw [List.dropWhile_append_of_pos blank, List.dropWhile_cons, if_neg (by simp [visible])]
  have digits : ∀ l : List Byte, (∀ c ∈ l, isDigit c) → (l ++ rest).takeWhile isDigit = l := by
    intro l all
    have none : rest.takeWhile isDigit = [] := by
      cases rest with
      | nil => rfl
      | cons c rest => rw [List.takeWhile_cons, if_neg (by simp [ends c rfl])]
    rw [List.takeWhile_append_of_pos all, none, List.append_nil]
  cases numeral with
  | plain some all =>
    obtain ⟨c, tail, rfl⟩ := List.exists_cons_of_ne_nil some
    obtain ⟨visible, noMinus, noPlus⟩ := digit_plain c (all c List.mem_cons_self)
    rw [leadingNumber, List.cons_append, skip c _ visible]
    dsimp only
    rw [if_neg noMinus, if_neg noPlus, ← List.cons_append, digits _ all]
  | plus some all =>
    rw [leadingNumber, List.cons_append, skip _ _ (by decide)]
    dsimp only
    rw [if_neg (by decide), if_pos rfl, digits _ all]
  | minus some all =>
    rw [leadingNumber, List.cons_append, skip _ _ (by decide)]
    dsimp only
    rw [if_pos rfl, digits _ all]

theorem leadingNumber_blank {text : List Byte} (blank : ∀ c ∈ text, isBlank c) : leadingNumber text = 0 := by
  have none : text.dropWhile isBlank = [] := List.dropWhile_eq_nil_iff.mpr blank
  rw [leadingNumber, none]

theorem blank_not_digit {l : List Byte} (blank : ∀ c ∈ l, isBlank c) : ∀ c ∈ l.head?, isDigit c = false :=
  fun c hc => blank_plain c (blank c (List.mem_of_mem_head? hc))

theorem Numeral.chars {word : List Byte} {n : Int} (numeral : Numeral word n) :
    ∀ c ∈ word, c = 0x2B ∨ c = 0x2D ∨ isDigit c = true := by
  intro c hc
  cases numeral with
  | plain some all => exact Or.inr (Or.inr (all c hc))
  | plus some all =>
    rcases List.mem_cons.mp hc with sign | digit
    · exact Or.inl sign
    · exact Or.inr (Or.inr (all c digit))
  | minus some all =>
    rcases List.mem_cons.mp hc with sign | digit
    · exact Or.inr (Or.inl sign)
    · exact Or.inr (Or.inr (all c digit))

theorem Numeral.no_space {word : List Byte} {n : Int} (numeral : Numeral word n) : 0x20 ∉ word := by
  intro space
  have kinds := numeral.chars _ space
  revert kinds
  decide

end Numerals

section Arguments

def KillArgument (text : List Byte) (n : Int) : Prop := ∃ before word after, text = before ++ (word ++ after) ∧
  (∀ c ∈ before, isBlank c) ∧ (∀ c ∈ after, isBlank c) ∧ Numeral word n

theorem KillArgument.leading {text : List Byte} {n : Int} (h : KillArgument text n) : leadingNumber text = n := by
  obtain ⟨before, word, after, rfl, blank, blank', numeral⟩ := h
  exact leadingNumber_numeral blank numeral (blank_not_digit blank')

theorem KillArgument.chars {text : List Byte} {n : Int} (h : KillArgument text n) :
    ∀ c ∈ text, isBlank c = true ∨ c = 0x2B ∨ c = 0x2D ∨ isDigit c = true := by
  obtain ⟨before, word, after, rfl, blank, blank', numeral⟩ := h
  intro c hc
  rcases List.mem_append.mp hc with front | hc
  · exact Or.inl (blank c front)
  · rcases List.mem_append.mp hc with inside | behind
    · exact Or.inr (numeral.chars c inside)
    · exact Or.inl (blank' c behind)

/-- Two numerals with blanks between them and around them. -/
structure TwoNumerals (text before word between word' after : List Byte) (n q : Int) : Prop where
  joined : text = before ++ (word ++ (between ++ (word' ++ after)))
  blankBefore : ∀ c ∈ before, isBlank c
  blankBetween : ∀ c ∈ between, isBlank c
  apart : between ≠ []
  blankAfter : ∀ c ∈ after, isBlank c
  first : Numeral word n
  second : Numeral word' q

def NiceArguments (text : List Byte) (n q : Int) : Prop :=
  ∃ before word between word' after, TwoNumerals text before word between word' after n q

def firstPart (text : List Byte) : List Byte := text.takeWhile (· ≠ 0x20)
def secondPart (text : List Byte) : List Byte := (text.dropWhile (· ≠ 0x20)).tail

theorem parts_append {u : List Byte} (none : 0x20 ∉ u) (v : List Byte) :
    firstPart (u ++ 0x20 :: v) = u ∧ secondPart (u ++ 0x20 :: v) = v := by
  have all : ∀ c ∈ u, decide (c ≠ 0x20) = true := fun c hc => decide_eq_true fun same => none (same ▸ hc)
  constructor
  · rw [firstPart, List.takeWhile_append_of_pos all]
    simp
  · rw [secondPart, List.dropWhile_append_of_pos all]
    simp

theorem parts_of_mem {text : List Byte} (space : 0x20 ∈ text) :
    ∃ u v, text = u ++ 0x20 :: v ∧ 0x20 ∉ u ∧ firstPart text = u ∧ secondPart text = v := by
  obtain ⟨u, v, rfl, none⟩ := List.eq_append_cons_of_mem space
  exact ⟨u, v, rfl, none, parts_append none v⟩

variable {text before word between word' after : List Byte} {n q : Int}

theorem TwoNumerals.first_ends (h : TwoNumerals text before word between word' after n q) (rest : List Byte) :
    ∀ c ∈ (between ++ rest).head?, isDigit c = false := by
  have blank := h.blankBetween
  obtain ⟨b, bs, rfl⟩ := List.exists_cons_of_ne_nil h.apart
  intro c hc
  obtain rfl : b = c := by simpa using hc
  exact blank_plain b (blank b List.mem_cons_self)

theorem TwoNumerals.parts_between (h : TwoNumerals text before word between word' after n q) (none : 0x20 ∉ before)
    (space : 0x20 ∈ between) : leadingNumber (firstPart text) = n ∧ leadingNumber (secondPart text) = q := by
  obtain ⟨x, y, rfl, noneX⟩ := List.eq_append_cons_of_mem space
  have split : text = before ++ (word ++ x) ++ 0x20 :: (y ++ (word' ++ after)) := by
    rw [h.joined]
    simp
  have blankX : ∀ c ∈ x, isBlank c := fun c hc => h.blankBetween c (List.mem_append_left _ hc)
  have blankY : ∀ c ∈ y, isBlank c :=
    fun c hc => h.blankBetween c (List.mem_append_right _ (List.mem_cons_of_mem _ hc))
  have noSpace : 0x20 ∉ before ++ (word ++ x) := by
    simp only [List.mem_append, not_or]
    exact ⟨none, h.first.no_space, noneX⟩
  obtain ⟨first, second⟩ := parts_append noSpace (y ++ (word' ++ after))
  rw [split, first, second]
  exact ⟨leadingNumber_numeral h.blankBefore h.first (blank_not_digit blankX),
    leadingNumber_numeral blankY h.second (blank_not_digit h.blankAfter)⟩

theorem TwoNumerals.parts_behind (h : TwoNumerals text before word between word' after n q) (none : 0x20 ∉ before)
    (none' : 0x20 ∉ between) (space : 0x20 ∈ after) :
    leadingNumber (firstPart text) = n ∧ leadingNumber (secondPart text) = 0 := by
  obtain ⟨x, y, rfl, noneX⟩ := List.eq_append_cons_of_mem space
  have split : text = before ++ (word ++ (between ++ (word' ++ x))) ++ 0x20 :: y := by
    rw [h.joined]
    simp
  have blankY : ∀ c ∈ y, isBlank c := fun c hc => h.blankAfter c (List.mem_append_right _ (List.mem_cons_of_mem _ hc))
  have noSpace : 0x20 ∉ before ++ (word ++ (between ++ (word' ++ x))) := by
    simp only [List.mem_append, not_or]
    exact ⟨none, h.first.no_space, none', h.second.no_space, noneX⟩
  obtain ⟨first, second⟩ := parts_append noSpace y
  rw [split, first, second]
  exact ⟨leadingNumber_numeral h.blankBefore h.first (h.first_ends _), leadingNumber_blank blankY⟩

theorem TwoNumerals.parts_front (h : TwoNumerals text before word between word' after n q) (space : 0x20 ∈ before) :
    leadingNumber (firstPart text) = 0 ∧ leadingNumber (secondPart text) = n := by
  obtain ⟨x, y, rfl, noneX⟩ := List.eq_append_cons_of_mem space
  have split : text = x ++ 0x20 :: (y ++ (word ++ (between ++ (word' ++ after)))) := by
    rw [h.joined]
    simp
  have blankX : ∀ c ∈ x, isBlank c := fun c hc => h.blankBefore c (List.mem_append_left _ hc)
  have blankY : ∀ c ∈ y, isBlank c := fun c hc => h.blankBefore c (List.mem_append_right _ (List.mem_cons_of_mem _ hc))
  obtain ⟨first, second⟩ := parts_append noneX (y ++ (word ++ (between ++ (word' ++ after))))
  rw [split, first, second]
  exact ⟨leadingNumber_blank blankX, leadingNumber_numeral blankY h.first (h.first_ends _)⟩

end Arguments

section Commands

variable {s : Processes} {args : CStr} {text : List Byte}

/-- What `kill` makes of its argument is the pid of a process. -/
def KillFinds (s : Processes) (text : List Byte) : Prop :=
  0 < leadingInt text ∧ s.processGet (leadingInt text).toNat ≠ 0

/-- What `nice` makes of its arguments is a pid of a process and a priority. -/
def NiceFinds (s : Processes) (text : List Byte) : Prop :=
  0x20 ∈ text ∧ 0 ≤ leadingInt (firstPart text) ∧ 0 ≤ leadingInt (secondPart text) ∧
    leadingInt (secondPart text) ≤ 255 ∧ s.processGet (leadingInt (firstPart text)).toNat ≠ 0

theorem cmdKill_cases (s : Processes) (args : CStr) :
    (KillFinds s args.chars ∧ (cmdKill s (some args)).2.2 = some (leadingInt args.chars).toNat) ∨
    (¬KillFinds s args.chars ∧ (cmdKill s (some args)).2.2 = none ∧ (cmdKill s (some args)).1 = s) := by
  have value := atoi_toInt args.chars
  simp only [cmdKill]
  split
  next empty =>
    have none : args.chars = [] := List.length_eq_zero_iff.mp empty
    refine Or.inr ⟨fun finds => ?_, rfl, rfl⟩
    rw [KillFinds, none] at finds
    exact absurd finds.1 (by decide)
  next =>
    rw [value]
    split
    next negative => exact Or.inr ⟨fun finds => absurd finds.1 (by omega), rfl, rfl⟩
    next =>
      split
      next zero => exact Or.inr ⟨fun finds => absurd finds.1 (by omega), rfl, rfl⟩
      next =>
        rw [atoi_toNat (show 0 ≤ leadingInt args.chars by omega)]
        split
        next missing => exact Or.inr ⟨fun finds => finds.2 missing, rfl, rfl⟩
        next found => exact Or.inl ⟨⟨by omega, found⟩, rfl⟩

theorem strchr_parts (text : List Byte) : (strchr text 0x20 = none ∧ 0x20 ∉ text) ∨
    ∃ k, strchr text 0x20 = some k ∧ 0x20 ∈ text ∧ text.take k = firstPart text ∧
      text.drop (k + 1) = secondPart text := by
  by_cases space : 0x20 ∈ text
  · obtain ⟨u, v, rfl, none, first, second⟩ := parts_of_mem space
    refine Or.inr ⟨u.length, strchr_append none v, space, ?_, ?_⟩
    · rw [first, List.take_left]
    · rw [second, List.drop_append, List.drop_eq_nil_of_le (Nat.le_succ _), List.nil_append,
        Nat.add_sub_cancel_left, List.drop_one, List.tail_cons]
  · refine Or.inl ⟨?_, space⟩
    rw [strchr, List.findIdx?_eq_none_iff]
    exact fun c hc => decide_eq_false fun same => space (same ▸ hc)

theorem cmdNice_cases (s : Processes) (args : CStr) (short : args.length ≤ 255) :
    (NiceFinds s args.chars ∧ (cmdNice s (some args)).2.2 =
      some ((leadingInt (firstPart args.chars)).toNat, (leadingInt (secondPart args.chars)).toNat)) ∨
    (¬NiceFinds s args.chars ∧ (cmdNice s (some args)).2.2 = none ∧ (cmdNice s (some args)).1 = s) := by
  have whole : args.chars.take 255 = args.chars := List.take_of_length_le short
  simp only [cmdNice, whole]
  split
  next empty =>
    have none : args.chars = [] := List.length_eq_zero_iff.mp empty
    refine Or.inr ⟨fun finds => ?_, rfl, rfl⟩
    rw [NiceFinds, none] at finds
    exact List.not_mem_nil finds.1
  next =>
    rcases strchr_parts args.chars with ⟨absent, none⟩ | ⟨k, found, space, first, second⟩
    · rw [absent]
      exact Or.inr ⟨fun finds => none finds.1, rfl, rfl⟩
    · rw [found]
      dsimp only
      rw [first, second, atoi_toInt, atoi_toInt]
      split
      next negative => exact Or.inr ⟨fun finds => absurd finds.2.1 (by omega), rfl, rfl⟩
      next =>
        split
        next bad => exact Or.inr ⟨fun finds => absurd finds.2.2 (by omega), rfl, rfl⟩
        next =>
          rw [atoi_toNat (show 0 ≤ leadingInt (firstPart args.chars) by omega),
            atoi_toNat (show 0 ≤ leadingInt (secondPart args.chars) by omega)]
          split
          next missing => exact Or.inr ⟨fun finds => finds.2.2.2.2 missing, rfl, rfl⟩
          next there => exact Or.inl ⟨⟨space, by omega, by omega, by omega, there⟩, rfl⟩

/-- Both commands call only for numbers that their arguments spell out, and change nothing
otherwise. -/
structure ActsAsWritten (s : Processes) (args : CStr) : Prop where
  kill : ∀ n, (cmdKill s (some args)).2.2 = some n → KillArgument args.chars n
  killRejects : (cmdKill s (some args)).2.2 = none → (cmdKill s (some args)).1 = s
  nice : ∀ n q, (cmdNice s (some args)).2.2 = some (n, q) → NiceArguments args.chars n q ∧ q ≤ 255
  niceRejects : (cmdNice s (some args)).2.2 = none → (cmdNice s (some args)).1 = s

def InInt (n : Int) : Prop := -2 ^ 31 ≤ n ∧ n < 2 ^ 31

/-- The argument of `kill` is one numeral that an `int` can hold. -/
def KillReadable (text : List Byte) : Prop := ∃ n, KillArgument text n ∧ InInt n

/-- The arguments of `nice` are two such numerals, with the first space between them; where it
is not, they are what is read all the same only if the second or both are 0. -/
def NiceReadable (text : List Byte) : Prop :=
  ∃ before word between word' after n q, TwoNumerals text before word between word' after n q ∧ InInt n ∧ InInt q ∧
    ((0x20 ∉ before ∧ 0x20 ∈ between) ∨ (0x20 ∉ before ∧ 0x20 ∉ between ∧ 0x20 ∈ after ∧ q = 0) ∨
      (0x20 ∈ before ∧ n = 0 ∧ q = 0))

theorem kill_iff (s : Processes) (args : CStr) :
    (∀ n : Nat, (cmdKill s (some args)).2.2 = some n → KillArgument args.chars n) ↔
      (KillFinds s args.chars → KillReadable args.chars) := by
  constructor
  · intro right finds
    rcases cmdKill_cases s args with ⟨-, call⟩ | ⟨none, -, -⟩
    · have argument := right _ call
      rw [Int.toNat_of_nonneg finds.1.le] at argument
      exact ⟨_, argument, leadingInt_bounds _⟩
    · exact absurd finds none
  · intro readable n call
    rcases cmdKill_cases s args with ⟨finds, call'⟩ | ⟨-, rejected, -⟩
    · obtain rfl : (leadingInt args.chars).toNat = n := Option.some.inj (call'.symm.trans call)
      obtain ⟨m, argument, low, high⟩ := readable finds
      rwa [Int.toNat_of_nonneg finds.1.le, leadingInt_eq argument.leading low high]
    · rw [rejected] at call
      cases call

/-- Where two numerals are the numbers that `nice` reads, the first space is where it must be. -/
theorem NiceArguments.readable {text : List Byte} (space : 0x20 ∈ text)
    (h : NiceArguments text (leadingInt (firstPart text)) (leadingInt (secondPart text))) : NiceReadable text := by
  obtain ⟨before, word, between, word', after, two⟩ := h
  refine ⟨before, word, between, word', after, _, _, two, leadingInt_bounds _, leadingInt_bounds _, ?_⟩
  by_cases front : 0x20 ∈ before
  · obtain ⟨first, second⟩ := two.parts_front front
    have zero : leadingInt (firstPart text) = 0 := leadingInt_eq first (by decide) (by decide)
    rw [zero] at second
    exact Or.inr (Or.inr ⟨front, zero, leadingInt_eq second (by decide) (by decide)⟩)
  · by_cases middle : 0x20 ∈ between
    · exact Or.inl ⟨front, middle⟩
    · have behind : 0x20 ∈ after := by
        rw [two.joined] at space
        simpa only [List.mem_append, front, middle, two.first.no_space, two.second.no_space, false_or] using space
      obtain ⟨-, second⟩ := two.parts_behind front middle behind
      exact Or.inr (Or.inl ⟨front, middle, behind, leadingInt_eq second (by decide) (by decide)⟩)

theorem NiceReadable.arguments {text : List Byte} (h : NiceReadable text) :
    NiceArguments text (leadingInt (firstPart text)) (leadingInt (secondPart text)) := by
  obtain ⟨before, word, between, word', after, n, q, two, ⟨nLow, nHigh⟩, ⟨qLow, qHigh⟩, place⟩ := h
  have values : leadingInt (firstPart text) = n ∧ leadingInt (secondPart text) = q := by
    rcases place with ⟨front, middle⟩ | ⟨front, middle, behind, rfl⟩ | ⟨front, rfl, rfl⟩
    · obtain ⟨first, second⟩ := two.parts_between front middle
      exact ⟨leadingInt_eq first nLow nHigh, leadingInt_eq second qLow qHigh⟩
    · obtain ⟨first, second⟩ := two.parts_behind front middle behind
      exact ⟨leadingInt_eq first nLow nHigh, leadingInt_eq second qLow qHigh⟩
    · obtain ⟨first, second⟩ := two.parts_front front
      exact ⟨leadingInt_eq first nLow nHigh, leadingInt_eq second qLow qHigh⟩
  rw [values.1, values.2]
  exact ⟨before, word, between, word', after, two⟩

theorem nice_iff (s : Processes) (args : CStr) (short : args.length ≤ 255) :
    (∀ n q : Nat, (cmdNice s (some args)).2.2 = some (n, q) → NiceArguments args.chars n q ∧ q ≤ 255) ↔
      (NiceFinds s args.chars → NiceReadable args.chars) := by
  constructor
  · intro right finds
    rcases cmdNice_cases s args short with ⟨-, call⟩ | ⟨none, -, -⟩
    · have arguments := (right _ _ call).1
      rw [Int.toNat_of_nonneg finds.2.1, Int.toNat_of_nonneg finds.2.2.1] at arguments
      exact arguments.readable finds.1
    · exact absurd finds none
  · intro readable n q call
    rcases cmdNice_cases s args short with ⟨finds, call'⟩ | ⟨-, rejected, -⟩
    · obtain ⟨rfl, rfl⟩ := Prod.mk.inj (Option.some.inj (call'.symm.trans call))
      rw [Int.toNat_of_nonneg finds.2.1, Int.toNat_of_nonneg finds.2.2.1]
      exact ⟨(readable finds).arguments, by have small := finds.2.2.2.1; omega⟩
    · rw [rejected] at call
      cases call

theorem kill_nice_iff (s : Processes) (args : CStr) (short : args.length ≤ 255) :
    ActsAsWritten s args ↔
      (KillFinds s args.chars → KillReadable args.chars) ∧ (NiceFinds s args.chars → NiceReadable args.chars) := by
  rw [← kill_iff, ← nice_iff s args short]
  constructor
  · exact fun right => ⟨right.kill, right.nice⟩
  · rintro ⟨kill, nice⟩
    refine ⟨kill, fun none => ?_, nice, fun none => ?_⟩
    · rcases cmdKill_cases s args with ⟨-, call⟩ | ⟨-, -, same⟩
      · rw [call] at none
        cases none
      · exact same
    · rcases cmdNice_cases s args short with ⟨-, call⟩ | ⟨-, -, same⟩
      · rw [call] at none
        cases none
      · exact same

def oneTask : Processes := (processCreate (processInit powerOn 0x1000) taskName 0x2000 4096).1

/-- `kill 1`, and `nice 0 5` for the idle process. -/
theorem kill_nice_iff_one :
    ActsAsWritten oneTask ⟨[0x31], by decide⟩ ∧ ActsAsWritten oneTask ⟨[0x30, 0x20, 0x35], by decide⟩ := by
  have one : ∀ c ∈ ([0x31] : List Byte), isDigit c := by decide
  have zero : ∀ c ∈ ([0x30] : List Byte), isDigit c := by decide
  have five : ∀ c ∈ ([0x35] : List Byte), isDigit c := by decide
  constructor
  · refine (kill_nice_iff oneTask ⟨[0x31], by decide⟩ (by decide)).mpr ⟨fun _ => ?_, fun finds => ?_⟩
    · exact ⟨1, ⟨[], [0x31], [], rfl, by simp, by simp, .plain (by simp) one⟩, by decide, by decide⟩
    · exact absurd finds.1 (by decide)
  · refine (kill_nice_iff oneTask ⟨[0x30, 0x20, 0x35], by decide⟩ (by decide)).mpr ⟨fun finds => ?_, fun _ => ?_⟩
    · exact absurd finds.1 (by decide)
    · have numerals : TwoNumerals [0x30, 0x20, 0x35] [] [0x30] [0x20] [0x35] [] 0 5 :=
        ⟨rfl, by simp, by decide, by simp, by simp, .plain (by simp) zero, .plain (by simp) five⟩
      exact ⟨_, _, _, _, _, _, _, numerals, ⟨by decide, by decide⟩, ⟨by decide, by decide⟩,
        Or.inl ⟨by simp, by simp⟩⟩

/-- `kill 1x` and `kill 4294967297` end process 1. -/
theorem kill_takes_other_strings : ¬ActsAsWritten oneTask ⟨[0x31, 0x78], by decide⟩ ∧
    ¬ActsAsWritten oneTask ⟨[0x34, 0x32, 0x39, 0x34, 0x39, 0x36, 0x37, 0x32, 0x39, 0x37], by decide⟩ := by
  constructor
  · intro right
    have argument := right.kill 1 (by decide +kernel)
    have letter := argument.chars 0x78 (by decide)
    revert letter
    decide
  · intro right
    have argument := right.kill 1 (by decide +kernel)
    have number := argument.leading
    revert number
    decide

end Commands

end Wittche.Shell
