import Mathlib.Data.List.DropRight
import Mathlib.Data.Nat.Digits.Defs
import Wittche.Kprintf.Model
import Wittche.Screen.Safety

/-! What a format asks for, and what `kprintf_internal` does with it. A format is a sequence of
pieces, read from left to right. A `%` that is the last character has no specifier: the
scanner takes the NUL for one and goes on behind it. -/

namespace Wittche.Kprintf
open Bytes CString Screen

inductive Piece
  | literal (c : Byte)
  | signed
  | unsigned
  | hex (uppercase : Bool)
  | pointer
  | character
  | string
  | percent
  | unknown (c : Byte)
  /-- A `%` at the end of the format. -/
  | stray

/-- The piece of a `%` and the character behind it. -/
def specifier (c : Byte) : Piece :=
  if c = char 'd' ∨ c = char 'i' then .signed
  else if c = char 'u' then .unsigned
  else if c = char 'x' then .hex false
  else if c = char 'X' then .hex true
  else if c = char 'p' then .pointer
  else if c = char 'c' then .character
  else if c = char 's' then .string
  else if c = char '%' then .percent
  else .unknown c

def pieces : List Byte → List Piece
  | [] => []
  | [c] => if c = char '%' then [.stray] else [.literal c]
  | c :: d :: rest => if c = char '%' then specifier d :: pieces rest else .literal c :: pieces (d :: rest)

def Piece.takesArgument : Piece → Bool
  | .signed | .unsigned | .hex _ | .pointer | .character | .string => true
  | .literal _ | .percent | .unknown _ | .stray => false

def numeral (base : Nat) (uppercase : Bool) (n : Nat) : List Byte :=
  if n = 0 then [char '0'] else ((Nat.digits base n).map (digit uppercase)).reverse

def Piece.text (args : Arguments) (arg : Word) : Piece → List Byte
  | .literal c => [c]
  | .signed => if arg.toInt < 0 then char '-' :: numeral 10 false arg.toInt.natAbs else numeral 10 false arg.toInt.natAbs
  | .unsigned => numeral 10 false arg.toNat
  | .hex uppercase => numeral 16 uppercase arg.toNat
  | .pointer => [char '0', char 'x'] ++ numeral 16 false arg.toNat
  | .character => [arg.setWidth 8]
  | .string => stringText args arg
  | .percent => [char '%']
  | .unknown c => [char '%', c]
  | .stray => [char '%']

/-- The pieces one after the other, each with its own argument, from the `k`-th one on. -/
def render (args : Arguments) : (k : Nat) → List Piece → List Byte
  | _, [] => []
  | k, p :: rest => p.text args (args.word k) ++ render args (if p.takesArgument then k + 1 else k) rest

section Numerals

theorem utoaDigits_eq {base : Nat} (two : 1 < base) (uppercase : Bool) {room value : Nat} (fits : value < base ^ room) :
    utoaDigits base uppercase room value = (Nat.digits base value).map (digit uppercase) := by
  induction room generalizing value with
  | zero =>
    obtain rfl : value = 0 := by simpa using fits
    simp [utoaDigits]
  | succ room ih =>
    rw [utoaDigits]
    split
    next pos =>
      have rest : value / base < base ^ room := by
        rw [Nat.div_lt_iff_lt_mul (by omega), ← Nat.pow_succ]
        exact fits
      rw [Nat.digits_def' two pos, List.map_cons, ih rest]
    next zero =>
      obtain rfl : value = 0 := by omega
      simp

/-- `temp` has room for the digits of every word. -/
theorem utoa_eq {base : Nat} (ten : 10 ≤ base) (uppercase : Bool) (value : Word) :
    utoa value base uppercase = numeral base uppercase value.toNat := by
  have fits : value.toNat < base ^ 32 :=
    calc value.toNat < 2 ^ 32 := value.isLt
      _ ≤ base ^ 32 := Nat.pow_le_pow_left (by omega) 32
  have zero : value = 0 ↔ value.toNat = 0 := by simp [← BitVec.toNat_inj]
  rw [utoa, numeral, utoaDigits_eq (by omega) uppercase fits]
  simp only [zero]

theorem neg_toNat {value : Word} (negative : value.toInt < 0) : (-value).toNat = value.toInt.natAbs := by
  have bound := value.isLt
  rw [BitVec.toInt_eq_toNat_cond] at negative ⊢
  rw [BitVec.toNat_neg]
  split at negative <;> omega

theorem itoaSigned_eq (args : Arguments) (value : Word) : itoaSigned value = Piece.signed.text args value := by
  rw [itoaSigned, Piece.text]
  split
  next negative => rw [utoa_eq (Nat.le_refl 10), neg_toNat negative]
  next positive =>
    have same : value.toNat = value.toInt.natAbs := by
      have bound := value.isLt
      rw [BitVec.toInt_eq_toNat_cond] at positive ⊢
      split at positive <;> omega
    rw [utoa_eq (Nat.le_refl 10), same]

end Numerals

section Scanning

variable {m : Buffer} {args : Arguments} {p p' : Printing} {chars : List Byte} {fuel : Nat}

def Printing.print (args : Arguments) (p : Printing) (piece : Piece) : Printing :=
  { p with taken := if piece.takesArgument then p.taken + 1 else p.taken }.emit (piece.text args (args.word p.taken))

theorem Printing.take_eq {f : Word → List Byte} {piece : Piece} (p : Printing) (takes : piece.takesArgument = true)
    (text : ∀ val, f val = piece.text args val) : p.take args f = p.print args piece := by
  rw [Printing.take, Printing.print, if_pos takes, text]

theorem convert_eq (args : Arguments) (p : Printing) (c : Byte) : convert args p c = p.print args (specifier c) := by
  have base10 := utoa_eq (Nat.le_refl 10) false
  have base16 := utoa_eq (show 10 ≤ 16 by decide)
  rw [convert, specifier]
  simp only [apply_ite (p.print args)]
  refine ite_congr rfl (fun _ => p.take_eq rfl (itoaSigned_eq args)) fun _ => ?_
  refine ite_congr rfl (fun _ => p.take_eq rfl base10) fun _ => ?_
  refine ite_congr rfl (fun _ => p.take_eq rfl (base16 false)) fun _ => ?_
  refine ite_congr rfl (fun _ => p.take_eq rfl (base16 true)) fun _ => ?_
  refine ite_congr rfl (fun _ => p.take_eq rfl fun val => congrArg _ (base16 false val)) fun _ => ?_
  refine ite_congr rfl (fun _ => rfl) fun _ => ?_
  refine ite_congr rfl (fun _ => rfl) fun _ => ?_
  exact ite_congr rfl (fun _ => rfl) fun _ => rfl

/-- From `p` to `p'` the characters `chars` have been scanned, and no byte was read but theirs
and the one behind them. -/
structure Scanned (args : Arguments) (p : Printing) (chars : List Byte) (p' : Printing) : Prop where
  reads : ∀ a ∈ p'.reads, a ∈ p.reads ∨ p.format ≤ a ∧ a ≤ p.format + chars.length
  taken : p'.taken = p.taken + (pieces chars).countP Piece.takesArgument
  emitted : p'.emitted = p.emitted ++ render args p.taken (pieces chars)
  screen : p'.screen = putChars p.screen (render args p.taken (pieces chars))

theorem Scanned.cons {piece : Piece} {rest : List Byte} {n : Nat} {q : Printing} (h : Scanned args q rest p')
    (front : pieces chars = piece :: pieces rest) (length : chars.length = n + rest.length)
    (place : q.format = p.format + n)
    (reads : ∀ a ∈ q.reads, a ∈ p.reads ∨ p.format ≤ a ∧ a ≤ p.format + chars.length)
    (printed : q.taken = (p.print args piece).taken ∧ q.emitted = (p.print args piece).emitted ∧
      q.screen = (p.print args piece).screen) : Scanned args p chars p' := by
  obtain ⟨taken, emitted, screen⟩ := printed
  have count : q.taken = if piece.takesArgument then p.taken + 1 else p.taken := taken
  refine ⟨fun a ha => ?_, ?_, ?_, ?_⟩
  · rcases h.reads a ha with old | ⟨lo, hi⟩
    · exact reads a old
    · exact Or.inr ⟨by omega, by omega⟩
  · rw [h.taken, front, List.countP_cons, count]
    split <;> omega
  · rw [h.emitted, emitted, front, render, count]
    exact List.append_assoc ..
  · rw [h.screen, screen, front, render, count]
    exact (List.foldl_append ..).symm

theorem pieces_literal {c : Byte} (plain : c ≠ char '%') (rest : List Byte) :
    pieces (c :: rest) = .literal c :: pieces rest := by
  cases rest with
  | nil => exact if_neg plain
  | cons d rest => exact if_neg plain

theorem pieces_percent (d : Byte) (rest : List Byte) :
    pieces (char '%' :: d :: rest) = specifier d :: pieces rest := if_pos rfl

theorem specifier_ne_stray (c : Byte) : specifier c ≠ .stray := by
  rw [specifier]
  repeat' split
  all_goals exact Piece.noConfusion

theorem scanFormat_literal {c : Byte} (here : m p.format = c) (nonzero : c ≠ 0) (plain : c ≠ char '%') :
    scanFormat m args (fuel + 1) p = scanFormat m args fuel (p.read.emit [c]).advance := by
  simp only [scanFormat, here, if_neg nonzero, if_neg plain]

theorem scanFormat_percent {d : Byte} (here : m p.format = char '%') (next : m (p.format + 1) = d) :
    scanFormat m args (fuel + 1) p = scanFormat m args fuel (p.read.advance.read.print args (specifier d)).advance := by
  have nonzero : char '%' ≠ 0 := by decide
  have ahead : m p.read.advance.read.format = d := next
  simp only [scanFormat, here, if_neg nonzero, if_true, ahead, convert_eq]

theorem scanFormat_nul (here : m p.format = 0) : scanFormat m args (fuel + 1) p = some p.read := by
  simp only [scanFormat, here, if_true]

theorem scanFormat_scanned (noNul : 0 ∉ chars) (reads : Reads m p.format chars) (enough : chars.length < fuel)
    (clean : Piece.stray ∉ pieces chars) : ∃ p', scanFormat m args fuel p = some p' ∧ Scanned args p chars p' := by
  induction fuel generalizing p chars with
  | zero => omega
  | succ fuel ih =>
    cases chars with
    | nil =>
      refine ⟨p.read, scanFormat_nul (reads 0 (Nat.le_refl 0)), fun a ha => ?_, rfl, (List.append_nil _).symm, rfl⟩
      rcases List.mem_cons.mp ha with rfl | old
      · exact Or.inr ⟨Nat.le_refl _, Nat.le_add_right ..⟩
      · exact Or.inl old
    | cons c rest =>
      have here : m p.format = c := reads 0 (Nat.zero_le _)
      have nonzero : c ≠ 0 := fun zero => noNul (zero ▸ List.mem_cons_self)
      have restNul : 0 ∉ rest := fun h => noNul (List.mem_cons_of_mem c h)
      rw [List.length_cons] at enough
      by_cases percent : c = char '%'
      · subst percent
        cases rest with
        | nil => exact absurd List.mem_cons_self clean
        | cons d rest =>
          rw [pieces_percent, List.mem_cons, not_or] at clean
          have next : m (p.format + 1) = d := reads 1 (by simp)
          rw [scanFormat_percent here next]
          obtain ⟨p', run, scanned⟩ := ih (p := (p.read.advance.read.print args (specifier d)).advance)
            (fun h => restNul (List.mem_cons_of_mem d h)) reads.tail.tail
            (Nat.lt_of_succ_lt_succ (Nat.lt_of_succ_lt enough)) clean.2
          refine ⟨p', run, scanned.cons (n := 2) (pieces_percent d rest) ?_ rfl (fun a ha => ?_) ⟨rfl, rfl, rfl⟩⟩
          · simp only [List.length_cons]
            omega
          · rcases List.mem_cons.mp ha with rfl | ha
            · exact Or.inr ⟨Nat.le_succ _, by simp [Printing.advance, Printing.read]⟩
            · rcases List.mem_cons.mp ha with rfl | old
              · exact Or.inr ⟨Nat.le_refl _, Nat.le_add_right ..⟩
              · exact Or.inl old
      · rw [pieces_literal percent, List.mem_cons, not_or] at clean
        rw [scanFormat_literal here nonzero percent]
        obtain ⟨p', run, scanned⟩ := ih (p := (p.read.emit [c]).advance) restNul reads.tail
          (Nat.lt_of_succ_lt_succ enough) clean.2
        refine ⟨p', run, scanned.cons (n := 1) (pieces_literal percent rest) ?_ rfl (fun a ha => ?_) ⟨rfl, rfl, rfl⟩⟩
        · rw [List.length_cons, Nat.add_comm]
        · rcases List.mem_cons.mp ha with rfl | old
          · exact Or.inr ⟨Nat.le_refl _, Nat.le_add_right ..⟩
          · exact Or.inl old

/-- What each turn of the loop keeps holds behind the format. -/
theorem scanFormat_invariant {I : Printing → Prop} (literal : ∀ q c, I q → I (q.read.emit [c]).advance)
    (percent : ∀ q d, I q → I (q.read.advance.read.print args (specifier d)).advance) (start : I p)
    (run : scanFormat m args fuel p = some p') : ∃ q, I q ∧ p' = q.read := by
  induction fuel generalizing p with
  | zero => simp [scanFormat] at run
  | succ fuel ih =>
    by_cases nul : m p.format = 0
    · rw [scanFormat_nul nul] at run
      exact ⟨p, start, (Option.some.inj run).symm⟩
    by_cases sign : m p.format = char '%'
    · rw [scanFormat_percent sign rfl] at run
      exact ih (percent _ _ start) run
    · rw [scanFormat_literal rfl nul sign] at run
      exact ih (literal _ _ start) run

theorem scanFormat_reads (run : scanFormat m args fuel p = some p') : p.format ∈ p'.reads := by
  let I : Printing → Prop := fun q => p.format = q.format ∨ p.format ∈ q.reads
  have read : ∀ q, I q → p.format ∈ q.read.reads := by
    rintro q (here | read)
    · exact here ▸ List.mem_cons_self
    · exact List.mem_cons_of_mem _ read
  obtain ⟨q, kept, rfl⟩ := scanFormat_invariant (I := I) (fun q _ kept => Or.inr (read q kept))
    (fun q _ kept => Or.inr (List.mem_cons_of_mem _ (read q kept))) (Or.inl rfl) run
  exact read q kept

theorem scanFormat_ends {n : Nat} (zeros : ∀ i, n ≤ i → m i = 0) (enough : n < p.format + fuel) (fueled : 0 < fuel) :
    ∃ p', scanFormat m args fuel p = some p' := by
  induction fuel generalizing p with
  | zero => omega
  | succ fuel ih =>
    by_cases nul : m p.format = 0
    · exact ⟨_, scanFormat_nul nul⟩
    have inside : p.format < n := Nat.lt_of_not_le fun behind => nul (zeros _ behind)
    by_cases percent : m p.format = char '%'
    · rw [scanFormat_percent percent rfl]
      exact ih (show n < p.format + 1 + 1 + fuel by omega) (by omega)
    · rw [scanFormat_literal rfl nul percent]
      exact ih (show n < p.format + 1 + fuel by omega) (by omega)

theorem scanFormat_safe (safe : Safe p.screen) (run : scanFormat m args fuel p = some p') : Safe p'.screen := by
  obtain ⟨q, kept, rfl⟩ := scanFormat_invariant (I := fun q => Safe q.screen) (fun _ _ kept => kept.putChars _)
    (fun _ _ kept => kept.putChars _) safe run
  exact kept

theorem scanFormat_stray (noNul : 0 ∉ chars) (reads : Reads m p.format chars) (stray : Piece.stray ∈ pieces chars)
    (run : scanFormat m args fuel p = some p') : p.format + chars.length + 1 ∈ p'.reads := by
  induction fuel generalizing p chars with
  | zero => simp [scanFormat] at run
  | succ fuel ih =>
    cases chars with
    | nil => exact absurd stray List.not_mem_nil
    | cons c rest =>
      have here : m p.format = c := reads 0 (Nat.zero_le _)
      have nonzero : c ≠ 0 := fun zero => noNul (zero ▸ List.mem_cons_self)
      have restNul : 0 ∉ rest := fun h => noNul (List.mem_cons_of_mem c h)
      by_cases percent : c = char '%'
      · subst percent
        rw [scanFormat_percent here rfl] at run
        cases rest with
        | nil => exact scanFormat_reads run
        | cons d rest =>
          rw [pieces_percent, List.mem_cons, or_iff_right (specifier_ne_stray d).symm] at stray
          have behind := ih (fun h => restNul (List.mem_cons_of_mem d h)) reads.tail.tail stray run
          rwa [List.length_cons, List.length_cons, Nat.add_comm (rest.length + 1) 1, ← Nat.add_assoc,
            ← Nat.add_assoc, Nat.add_right_comm (p.format + 1)]
      · rw [scanFormat_literal here nonzero percent] at run
        rw [pieces_literal percent, List.mem_cons, or_iff_right Piece.noConfusion] at stray
        have behind := ih restNul reads.tail stray run
        rwa [List.length_cons, Nat.add_comm rest.length 1, ← Nat.add_assoc p.format]

end Scanning

section Strings

/-- The loop over a string ends: the screen of `kprintf` and `kprintf_color` is that of the loop. -/
theorem kprintf_ends (s : Display) (color : Byte) (useColor : Bool) (format : CStr) (args : Arguments) :
    ∃ p, kprintfInternal s color useColor format.get 0 args (format.length + 1) = some p := by
  have zeros : ∀ i, format.length ≤ i → format.get i = 0 := fun i behind => by
    rw [CStr.get, List.getD_eq_getElem?_getD, List.getElem?_eq_none behind, Option.getD_none]
  obtain ⟨p, run⟩ : ∃ p, scanFormat format.get args (format.length + 1)
      ⟨0, 0, [], [], if useColor then screenSetColor s color else s⟩ = some p :=
    scanFormat_ends zeros (show format.length < 0 + (format.length + 1) by omega) (Nat.succ_pos _)
  exact ⟨_, Option.map_eq_some_iff.mpr ⟨p, run, rfl⟩⟩

theorem kprintfInternal_safe {s : Display} (safe : Safe s) {color : Byte} {useColor : Bool} {m : Buffer} {format fuel : Nat}
    {args : Arguments} {p : Printing} (run : kprintfInternal s color useColor m format args fuel = some p) :
    Safe p.screen := by
  obtain ⟨q, scan, rfl⟩ := Option.map_eq_some_iff.mp run
  cases useColor with
  | false => exact (scanFormat_safe (p := ⟨format, 0, [], [], s⟩) safe scan).updateCursor
  | true =>
    have coloured := scanFormat_safe (p := ⟨format, 0, [], [], screenSetColor s color⟩) (safe.recolor color) scan
    exact (coloured.recolor s.currentColor).updateCursor

theorem kprintf_safe {s : Display} (safe : Safe s) (format : CStr) (args : Arguments) : Safe (kprintf s format args) := by
  obtain ⟨p, run⟩ := kprintf_ends s 0 false format args
  rw [kprintf, run]
  exact kprintfInternal_safe safe run

theorem kprintfColor_safe {s : Display} (safe : Safe s) (color : Byte) (format : CStr) (args : Arguments) :
    Safe (kprintfColor s color format args) := by
  obtain ⟨p, run⟩ := kprintf_ends s color true format args
  rw [kprintfColor, run]
  exact kprintfInternal_safe safe run

end Strings

/-- How many `%` there are at the very end. -/
def trailingPercents (chars : List Byte) : Nat := (chars.rtakeWhile (· == char '%')).length

theorem trailingPercents_cons (c : Byte) (chars : List Byte) : trailingPercents (c :: chars) =
    if trailingPercents chars = chars.length then chars.length + (if c = char '%' then 1 else 0)
    else trailingPercents chars := by
  have reverse : ∀ l : List Byte, trailingPercents l = (l.reverse.takeWhile (· == char '%')).length :=
    fun l => List.length_reverse
  rw [reverse, reverse, List.reverse_cons, List.takeWhile_append, List.length_reverse]
  split
  · rw [List.length_append, List.length_reverse]
    by_cases percent : c = char '%'
    · simp [percent]
    · simp [percent]
  · rfl

/-- Only an odd number of `%` at the end leaves one without a specifier. -/
theorem stray_iff (chars : List Byte) : Piece.stray ∈ pieces chars ↔ trailingPercents chars % 2 = 1 := by
  induction chars using pieces.induct with
  | case1 => exact iff_of_false List.not_mem_nil (by decide)
  | case2 => exact iff_of_true List.mem_cons_self (by decide)
  | case3 c plain =>
    have one : pieces [c] = [.literal c] := if_neg plain
    have none : trailingPercents [c] = 0 := by simp [trailingPercents, List.rtakeWhile, plain]
    rw [one, none]
    simp
  | case4 d rest ih =>
    rw [pieces_percent, List.mem_cons, or_iff_right (specifier_ne_stray d).symm, ih, trailingPercents_cons,
      trailingPercents_cons, List.length_cons]
    have bound : trailingPercents rest ≤ rest.length := (List.rtakeWhile_suffix _ _).length_le
    by_cases full : trailingPercents rest = rest.length
    · by_cases percent : d = char '%'
      · rw [if_pos full, if_pos percent, if_pos rfl, if_pos rfl]
        omega
      · rw [if_pos full, if_neg percent, if_neg (by omega)]
        omega
    · rw [if_neg full, if_neg (by omega)]
  | case5 c d rest plain ih =>
    rw [pieces_literal plain, List.mem_cons, or_iff_right Piece.noConfusion, ih, trailingPercents_cons c, if_neg plain]
    split <;> omega

/-- The format is scanned to its end and not further, each specifier takes its own argument,
and what is emitted is what the pieces ask for. -/
structure WithinFormat (format : Nat) (chars : List Byte) (args : Arguments) (coloured s : Display) (p : Printing) :
    Prop where
  reads : ∀ a ∈ p.reads, format ≤ a ∧ a ≤ format + chars.length
  taken : p.taken = (pieces chars).countP Piece.takesArgument
  emitted : p.emitted = render args 0 (pieces chars)
  screen : p.screen = screenUpdateCursor { putChars coloured p.emitted with currentColor := s.currentColor }

theorem putChars_color (s : Display) (chars : List Byte) : (putChars s chars).currentColor = s.currentColor := by
  induction chars generalizing s with
  | nil => rfl
  | cons c rest ih =>
    have one : (screenPutcharInternal s c).currentColor = s.currentColor := by
      rw [screenPutcharInternal]
      split
      · exact (wrapLine_color _).trans (place_color s c)
      · exact (wrapLine_color _).trans (place_color s c)
    exact (ih _).trans one

theorem restored_color (s : Display) (color : Byte) (useColor : Bool) (chars : List Byte) :
    let coloured := if useColor then screenSetColor s color else s
    (if useColor then screenSetColor (putChars coloured chars) s.currentColor else putChars coloured chars) =
      { putChars coloured chars with currentColor := s.currentColor } := by
  cases useColor with
  | true => rfl
  | false =>
    dsimp only
    rw [if_neg Bool.false_ne_true, if_neg Bool.false_ne_true, ← putChars_color s chars]

theorem kprintf_stray {s coloured : Display} {color : Byte} {useColor : Bool} {m : Buffer} {format fuel : Nat}
    {fmt : CStr} {args : Arguments} {p : Printing} (placed : Reads m format fmt.chars) (stray : Piece.stray ∈ pieces fmt.chars)
    (run : kprintfInternal s color useColor m format args fuel = some p) :
    ¬WithinFormat format fmt.chars args coloured s p := by
  intro within
  obtain ⟨q, scan, rfl⟩ := Option.map_eq_some_iff.mp run
  have behind : format + fmt.chars.length + 1 ∈ q.reads := scanFormat_stray fmt.noNul placed stray scan
  have bounds := within.reads _ behind
  omega

theorem kprintf_within_iff (s : Display) (color : Byte) (useColor : Bool) (m : Buffer) (format : Nat) (fmt : CStr)
    (args : Arguments) (placed : Reads m format fmt.chars) :
    (∃ fuel p, kprintfInternal s color useColor m format args fuel = some p ∧
      WithinFormat format fmt.chars args (if useColor then screenSetColor s color else s) s p) ↔
    trailingPercents fmt.chars % 2 = 0 := by
  have parity : trailingPercents fmt.chars % 2 = 0 ↔ Piece.stray ∉ pieces fmt.chars := by
    rw [stray_iff]
    omega
  rw [parity]
  constructor
  · rintro ⟨fuel, p, run, within⟩ stray
    exact kprintf_stray placed stray run within
  · intro clean
    let start : Printing := ⟨format, 0, [], [], if useColor then screenSetColor s color else s⟩
    have ended : ∃ q, scanFormat m args (fmt.length + 1) start = some q ∧ Scanned args start fmt.chars q :=
      scanFormat_scanned fmt.noNul placed (Nat.lt_succ_self _) clean
    obtain ⟨q, scan, scanned⟩ := ended
    refine ⟨_, _, Option.map_eq_some_iff.mpr ⟨q, scan, rfl⟩, fun a ha => ?_, ?_, ?_, ?_⟩
    · exact (scanned.reads a ha).resolve_left List.not_mem_nil
    · exact scanned.taken.trans (Nat.zero_add _)
    · exact scanned.emitted
    · have text : q.screen = putChars (if useColor then screenSetColor s color else s) q.emitted := by
        rw [scanned.screen, scanned.emitted]
        rfl
      dsimp only
      rw [text, restored_color]

def placedText (chars : List Byte) : Buffer := fun i => chars.getD i 0

theorem placedText_reads (chars : List Byte) : Reads (placedText chars) 0 chars := fun i _ => by
  rw [Nat.zero_add, placedText]

def minusFive : Arguments := { wordArguments [] with word := fun _ => -5 }

/-- `%d%%` prints `-5%`. -/
theorem kprintf_within_iff_signed : ∃ fuel p,
    kprintfInternal blankDisplay 0x0C true (placedText [0x25, 0x64, 0x25, 0x25]) 0 minusFive fuel = some p ∧
    WithinFormat 0 [0x25, 0x64, 0x25, 0x25] minusFive (screenSetColor blankDisplay 0x0C) blankDisplay p ∧
    p.emitted = [0x2D, 0x35, 0x25] := by
  obtain ⟨fuel, p, run, within⟩ := (kprintf_within_iff blankDisplay 0x0C true (placedText [0x25, 0x64, 0x25, 0x25]) 0
    ⟨[0x25, 0x64, 0x25, 0x25], by decide⟩ minusFive (placedText_reads _)).mpr (by decide)
  exact ⟨fuel, p, run, within, within.emitted.trans (by decide)⟩

/-- `9%` is read past its NUL. -/
theorem percent_at_end_runs_on : ¬∃ fuel p,
    kprintfInternal blankDisplay 0 false (placedText [0x39, 0x25]) 0 minusFive fuel = some p ∧
    WithinFormat 0 [0x39, 0x25] minusFive blankDisplay blankDisplay p := by
  rintro ⟨fuel, p, run, within⟩
  let fmt : CStr := ⟨[0x39, 0x25], by decide⟩
  have placed : Reads (placedText [0x39, 0x25]) 0 fmt.chars := placedText_reads _
  exact kprintf_stray placed ((stray_iff _).mpr (by decide)) run within

end Wittche.Kprintf
