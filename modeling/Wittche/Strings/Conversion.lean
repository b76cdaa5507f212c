import Mathlib.Data.List.GetD
import Wittche.Lib.Numerals
import Wittche.Shell.JobControl
import Wittche.Strings.Splitting

/-! `itoa` of `kernel/string.c`, in 32-bit arithmetic. The digits go into the string from the
last one on, a sign behind them, and the string is then reversed in place. The loop runs while
what is left is positive. -/

namespace Wittche.CString
open Bytes Numerals

def digitChar (digit : Word) : Byte :=
  (if digit.toInt < 10 then digit + 0x30 else digit - 10 + 0x61).setWidth 8

/-- The `do` loop of `itoa`, with the memory and `i` behind it. `none` is a loop that has not
ended within `fuel` turns. -/
def itoaDigits (ptr : Nat) (base : Word) : (fuel : Nat) → Buffer → (i : Nat) → (value : Word) → Option (Buffer × Nat)
  | 0, _, _, _ => none
  | fuel + 1, m, i, value =>
    let digit := value.srem base
    let m := Function.update m (ptr + i) (digitChar digit)
    let value := value.sdiv base
    if 0 < value.toInt then itoaDigits ptr base fuel m (i + 1) value else some (m, i + 1)

/-- The loop that reverses `ptr[start..stop]`. -/
def reverseFrom (ptr : Nat) : Buffer → (start stop : Nat) → Buffer
  | m, _, 0 => m
  | m, start, stop + 1 =>
    if start < stop + 1 then
      let temp := m (ptr + start)
      let m := Function.update m (ptr + start) (m (ptr + (stop + 1)))
      reverseFrom ptr (Function.update m (ptr + (stop + 1)) temp) (start + 1) stop
    else m

def itoa (m : Buffer) (value : Word) (str : Nat) (base : Word) (fuel : Nat) : Option Buffer :=
  if base.toInt < 2 ∨ 36 < base.toInt then some (Function.update m str 0)
  else
    let isNegative := value.toInt < 0 ∧ base = 10
    let value := if isNegative then -value else value
    match itoaDigits str base fuel m 0 value with
    | none => none
    | some (m, i) =>
      let (m, i) := if isNegative then (Function.update m (str + i) 0x2D, i + 1) else (m, i)
      let m := Function.update m (str + i) 0
      some (reverseFrom str m 0 (i - 1))

section Writing

variable {m : Buffer} {a : Nat} {c : Byte} {l : List Byte}

def put (m : Buffer) (a : Nat) (l : List Byte) : Buffer := copy m a (fun i => l.getD i 0) l.length

theorem put_inside {i : Nat} (lt : i < l.length) : put m a l (a + i) = l[i] := by
  rw [put, copy_inside ⟨Nat.le_add_right .., by omega⟩, Nat.add_sub_cancel_left]
  exact (List.getElem_eq_getD 0).symm

theorem put_outside {x : Nat} (out : x < a ∨ a + l.length ≤ x) : put m a l x = m x := copy_outside out

theorem put_append (m : Buffer) (a : Nat) (l r : List Byte) :
    put (put m a l) (a + l.length) r = put m a (l ++ r) := by
  funext x
  by_cases before : x < a
  · rw [put_outside (Or.inl (by omega)), put_outside (Or.inl before), put_outside (Or.inl before)]
  obtain ⟨i, rfl⟩ := Nat.exists_eq_add_of_le (Nat.le_of_not_lt before)
  by_cases first : i < l.length
  · have both : i < (l ++ r).length := by
      rw [List.length_append]
      omega
    rw [put_outside (Or.inl (by omega)), put_inside first, put_inside both, List.getElem_append_left first]
  obtain ⟨k, rfl⟩ := Nat.exists_eq_add_of_le (Nat.le_of_not_lt first)
  by_cases second : k < r.length
  · have both : l.length + k < (l ++ r).length := by
      rw [List.length_append]
      omega
    rw [← Nat.add_assoc, put_inside second, Nat.add_assoc, put_inside both, List.getElem_append_right (by omega)]
    simp only [Nat.add_sub_cancel_left]
  · rw [put_outside (Or.inr (by omega)), put_outside (Or.inr (by omega)),
      put_outside (Or.inr (by rw [List.length_append]; omega))]

theorem update_eq_put (m : Buffer) (a : Nat) (c : Byte) : Function.update m a c = put m a [c] := by
  funext x
  by_cases here : x = a
  · have first := put_inside (m := m) (a := a) (l := [c]) (i := 0) Nat.zero_lt_one
    rw [here, Function.update_self]
    exact first.symm
  · rw [Function.update_of_ne here, put_outside]
    rw [List.length_singleton]
    omega

theorem put_reads (m : Buffer) (a : Nat) (l : List Byte) : Reads (Function.update (put m a l) (a + l.length) 0) a l := by
  intro i hi
  rcases Nat.lt_or_eq_of_le hi with lt | rfl
  · rw [Function.update_of_ne (by omega), put_inside lt]
    exact List.getElem_eq_getD 0
  · rw [Function.update_self, List.getD_eq_default _ _ (Nat.le_refl _)]

end Writing

section Reversing

theorem reverseFrom_apply (ptr : Nat) (m : Buffer) (start stop x : Nat) : reverseFrom ptr m start stop x =
    if ptr + start ≤ x ∧ x ≤ ptr + stop then m (2 * ptr + start + stop - x) else m x := by
  induction stop generalizing m start with
  | zero =>
    rw [reverseFrom]
    split
    next only => rw [show 2 * ptr + start + 0 - x = x by omega]
    next => rfl
  | succ stop ih =>
    rw [reverseFrom]
    split
    next more =>
      rw [ih]
      -- The two ends are swapped, what lies between them is left to the other turns.
      by_cases left : x = ptr + start
      · rw [if_neg (by omega), if_pos (by omega), Function.update_of_ne (by omega), left, Function.update_self]
        congr 1
        omega
      by_cases right : x = ptr + (stop + 1)
      · rw [if_neg (by omega), if_pos (by omega), right, Function.update_self]
        congr 1
        omega
      by_cases inside : ptr + (start + 1) ≤ x ∧ x ≤ ptr + stop
      · rw [if_pos inside, if_pos (by omega), Function.update_of_ne (by omega), Function.update_of_ne (by omega)]
        congr 1
        omega
      · rw [if_neg inside, if_neg (by omega), Function.update_of_ne right, Function.update_of_ne left]
    next met =>
      split
      next only => rw [show 2 * ptr + start + (stop + 1) - x = x by omega]
      next => rfl

theorem reverseFrom_reads {m : Buffer} {a : Nat} {l : List Byte} (h : Reads m a l) :
    Reads (reverseFrom a m 0 (l.length - 1)) a l.reverse := by
  intro i hi
  rw [List.length_reverse] at hi
  rw [reverseFrom_apply]
  rcases Nat.lt_or_eq_of_le hi with lt | rfl
  · have mirrored : l.length - 1 - i < l.length := by omega
    rw [if_pos (by omega), show 2 * a + 0 + (l.length - 1) - (a + i) = a + (l.length - 1 - i) by omega,
      h _ (Nat.le_of_lt mirrored), List.getD_eq_getElem?_getD, List.getD_eq_getElem?_getD, List.getElem?_reverse lt]
  · rw [List.getD_eq_default _ _ (by simp)]
    split
    next empty =>
      obtain rfl : l = [] := List.eq_nil_of_length_eq_zero (by omega)
      rw [show 2 * a + 0 + (List.length ([] : List Byte) - 1) - (a + List.length ([] : List Byte)) = a by simp; omega]
      exact h.nul
    next => exact h.nul

end Reversing

/-- The characters of the digits, `0` to `9` and `a` to `z`. -/
def letter (d : Nat) : Byte := if d < 10 then BitVec.ofNat 8 (0x30 + d) else BitVec.ofNat 8 (0x61 + (d - 10))

section Digits

variable {m : Buffer} {a i b n fuel : Nat} {value base : Word}

theorem digitChar_ofNat : ∀ d < 36, digitChar (BitVec.ofNat 32 d) = letter d := by
  decide

theorem digitChar_eq {digit : Word} {d : Nat} (is : digit.toInt = d) (small : d < 36) : digitChar digit = letter d := by
  rw [← digitChar_ofNat d small, ← BitVec.ofInt_natCast, ← is, BitVec.ofInt_toInt]

theorem srem_natCast (of : base.toInt = b) (is : value.toInt = n) : (value.srem base).toInt = (n % b : Nat) := by
  rw [BitVec.toInt_srem, is, of]
  exact Int.ofNat_tmod n b

theorem sdiv_toInt (two : 2 ≤ base.toInt) (value : Word) : (value.sdiv base).toInt = value.toInt.tdiv base.toInt := by
  refine BitVec.toInt_sdiv_of_ne_or_ne value base (Or.inr fun minus => ?_)
  rw [minus] at two
  revert two
  decide

theorem sdiv_natCast (two : 2 ≤ b) (of : base.toInt = b) (is : value.toInt = n) :
    (value.sdiv base).toInt = (n / b : Nat) := by
  rw [sdiv_toInt (by omega), is, of]
  exact Int.ofNat_tdiv n b

theorem itoaDigits_eq (two : 2 ≤ b) (most : b ≤ 36) (of : base.toInt = b) (is : value.toInt = n)
    (enough : (row b n).length ≤ fuel) : itoaDigits a base fuel m i value =
      some (put m (a + i) ((row b n).map letter).reverse, i + (row b n).length) := by
  induction fuel generalizing m i value n with
  | zero =>
    have some := (Canonical.of_row (show 1 < b by omega) n).nonempty
    exact absurd (List.eq_nil_of_length_eq_zero (Nat.le_zero.mp enough)) some
  | succ fuel ih =>
    have digit : digitChar (value.srem base) = letter (n % b) :=
      digitChar_eq (srem_natCast of is) (Nat.lt_of_lt_of_le (Nat.mod_lt n (by omega)) most)
    have left := sdiv_natCast two of is
    simp only [itoaDigits, digit, left, update_eq_put]
    by_cases more : n / b = 0
    · rw [if_neg (by omega), row_last more (by omega)]
      rfl
    · have step := row_step (show 1 < b by omega) more
      rw [step, List.length_append] at enough
      rw [if_pos (Int.natCast_pos.mpr (Nat.pos_of_ne_zero more)), ih left (Nat.le_of_succ_le_succ enough), step,
        List.map_append, List.reverse_append, List.length_append, List.length_singleton]
      congr 2
      · exact put_append m (a + i) [letter (n % b)] _
      · omega

theorem itoaDigits_negative (two : 2 ≤ base.toInt) (negative : value.toInt < 0) (pos : 0 < fuel) :
    itoaDigits a base fuel m i value = some (put m (a + i) [digitChar (value.srem base)], i + 1) := by
  obtain ⟨fuel, rfl⟩ := Nat.exists_eq_succ_of_ne_zero (Nat.ne_of_gt pos)
  have stop : (value.sdiv base).toInt ≤ 0 := by
    have size := Int.tdiv_nonneg (show 0 ≤ -value.toInt by omega) (show 0 ≤ base.toInt by omega)
    rw [Int.neg_tdiv] at size
    rw [sdiv_toInt two]
    omega
  simp only [itoaDigits, update_eq_put]
  rw [if_neg (by omega)]

end Digits

/-- What `itoa` writes, given the characters that its loop writes. -/
theorem itoa_reads {m : Buffer} {str fuel : Nat} {value base : Word} {l : List Byte} (two : 2 ≤ base.toInt)
    (most : base.toInt ≤ 36)
    (digits : itoaDigits str base fuel m 0 (if value.toInt < 0 ∧ base = 10 then -value else value) =
      some (put m str l, l.length)) :
    ∃ m', itoa m value str base fuel = some m' ∧
      Reads m' str ((if value.toInt < 0 ∧ base = 10 then [0x2D] else []) ++ l.reverse) := by
  rw [itoa, if_neg (by omega)]
  dsimp only
  rw [digits]
  dsimp only
  by_cases negative : value.toInt < 0 ∧ base = 10
  · have signed : Function.update (put m str l) (str + l.length) 0x2D = put m str (l ++ [0x2D]) := by
      rw [update_eq_put, put_append]
    rw [if_pos negative, if_pos negative, signed]
    have text := reverseFrom_reads (put_reads m str (l ++ [0x2D]))
    rw [List.reverse_append, List.length_append, List.length_singleton] at text
    exact ⟨_, rfl, text⟩
  · rw [if_neg negative, if_neg negative]
    exact ⟨_, rfl, reverseFrom_reads (put_reads m str l)⟩

inductive Decimal : List Byte → Int → Prop
  | plain {text : List Byte} {n : Nat} (digits : Spells letter 10 text n) : Decimal text n
  | minus {text : List Byte} {n : Nat} (digits : Spells letter 10 text n) (pos : 0 < n) : Decimal (0x2D :: text) (-n)

theorem letter_ne_zero : ∀ d < 36, letter d ≠ 0 := by
  decide

section Decimals

open Shell

theorem letter_digit : ∀ d < 10, isDigit (letter d) = true ∧ (letter d).toNat - 0x30 = d := by
  decide

theorem digitsValue_map {ds : List Nat} (valid : ∀ d ∈ ds, d < 10) : digitsValue (ds.map letter) = rowValue 10 ds := by
  rw [digitsValue, rowValue, List.foldl_map]
  refine List.foldl_ext _ _ 0 fun n d mem => ?_
  rw [(letter_digit d (valid d mem)).2]

theorem Decimal.numeral {text : List Byte} {v : Int} (h : Decimal text v) : Numeral text v := by
  have digits : ∀ {text : List Byte} {n : Nat}, Spells letter 10 text n →
      text ≠ [] ∧ (∀ c ∈ text, isDigit c) ∧ digitsValue text = n := by
    rintro text n ⟨ds, rfl, canonical⟩
    refine ⟨by simpa using canonical.nonempty, fun c mem => ?_, ?_⟩
    · obtain ⟨d, inside, rfl⟩ := List.mem_map.mp mem
      exact (letter_digit d (canonical.valid d inside)).1
    · rw [digitsValue_map canonical.valid, canonical.value]
  cases h with
  | plain spells =>
    obtain ⟨some, all, value⟩ := digits spells
    exact value ▸ .plain some all
  | minus spells pos =>
    obtain ⟨some, all, value⟩ := digits spells
    exact value ▸ .minus some all

theorem Decimal.noNul {text : List Byte} {v : Int} (h : Decimal text v) : 0 ∉ text := by
  have digits : ∀ d < 10, letter d ≠ 0 := fun d lt => letter_ne_zero d (by omega)
  cases h with
  | plain spells => exact spells.not_mem digits
  | minus spells pos =>
    rw [List.mem_cons]
    exact not_or.mpr ⟨by decide, spells.not_mem digits⟩

theorem Decimal.atoi {text : List Byte} {value : Word} (h : Decimal text value.toInt) : atoi text = value := by
  have number := @leadingNumber_numeral [] text [] value.toInt (fun c mem => absurd mem List.not_mem_nil) h.numeral
    fun c mem => absurd mem (by simp)
  rw [List.append_nil, List.nil_append] at number
  rw [atoi_eq, number, BitVec.ofInt_toInt]

end Decimals

/-- The text of a number in a base: a signed numeral in base 10, one of the number modulo 2^32
in the others. -/
def Renders (value base : Word) (text : List Byte) : Prop :=
  if base = 10 then Decimal text value.toInt ∧ atoi text = value else Spells letter base.toNat text value.toNat

section Rendering

variable {m : Buffer} {str fuel b n : Nat} {value base : Word}

theorem toNat_of_toInt (is : value.toInt = n) : value.toNat = n := by
  have bound := value.isLt
  rw [BitVec.toInt_eq_toNat_cond] at is
  split at is <;> omega

theorem itoaDigits_row (m : Buffer) (str : Nat) (two : 2 ≤ b) (most : b ≤ 36) (of : base.toInt = b)
    (is : value.toInt = n) (enough : 32 ≤ fuel) : itoaDigits str base fuel m 0 value =
      some (put m str ((row b n).map letter).reverse, ((row b n).map letter).reverse.length) := by
  have bound : n < b ^ 32 :=
    calc n < 2 ^ 32 := by
            have high := BitVec.toInt_lt (x := value)
            omega
      _ ≤ b ^ 32 := Nat.pow_le_pow_left two 32
  have size := row_length_le (show 1 < b by omega) (by decide) bound
  rw [itoaDigits_eq two most of is (Nat.le_trans size enough), List.length_reverse, List.length_map, Nat.add_zero,
    Nat.zero_add]

theorem itoa_row (m : Buffer) (str : Nat) (two : 2 ≤ b) (most : b ≤ 36) (of : base.toInt = b)
    (is : (if value.toInt < 0 ∧ base = 10 then -value else value).toInt = n) (enough : 32 ≤ fuel) :
    ∃ m', itoa m value str base fuel = some m' ∧
      Reads m' str ((if value.toInt < 0 ∧ base = 10 then [0x2D] else []) ++ (row b n).map letter) := by
  have written := itoa_reads (by omega) (by omega) (itoaDigits_row m str two most of is enough)
  rwa [List.reverse_reverse] at written

theorem itoa_nonneg (m : Buffer) (str : Nat) (two : 2 ≤ base.toInt) (most : base.toInt ≤ 36) (enough : 32 ≤ fuel)
    (nonneg : 0 ≤ value.toInt) :
    ∃ m' text, itoa m value str base fuel = some m' ∧ 0 ∉ text ∧ Reads m' str text ∧ Renders value base text := by
  obtain ⟨b, of⟩ := Int.eq_ofNat_of_zero_le (show 0 ≤ base.toInt by omega)
  obtain ⟨n, is⟩ := Int.eq_ofNat_of_zero_le nonneg
  have plain : ¬(value.toInt < 0 ∧ base = 10) := fun both => by omega
  obtain ⟨m', eq, reads⟩ := itoa_row m str (show 2 ≤ b by omega) (by omega) of (by rw [if_neg plain]; exact is) enough
  rw [if_neg plain, List.nil_append] at reads
  have spells := Spells.of_row letter (show 1 < b by omega) n
  refine ⟨m', _, eq, spells.not_mem fun d lt => letter_ne_zero d (by omega), reads, ?_⟩
  rw [Renders]
  split
  next ten =>
    obtain rfl : b = 10 := by
      rw [ten] at of
      exact (Int.ofNat.inj of).symm
    have decimal : Decimal ((row 10 n).map letter) value.toInt := is ▸ .plain spells
    exact ⟨decimal, decimal.atoi⟩
  next => rwa [toNat_of_toInt of, toNat_of_toInt is]

theorem itoa_negative (m : Buffer) (str : Nat) (enough : 32 ≤ fuel) (negative : value.toInt < 0)
    (inner : value.toInt ≠ -2 ^ 31) :
    ∃ m' text, itoa m value str 10 fuel = some m' ∧ 0 ∉ text ∧ Reads m' str text ∧ Renders value 10 text := by
  have size : (-value).toInt = value.toInt.natAbs := by
    have low := BitVec.le_toInt value
    rw [BitVec.toInt_neg, show (value.toInt.natAbs : Int) = -value.toInt by omega]
    apply Int.bmod_eq_of_le <;> omega
  have minus : value.toInt < 0 ∧ (10 : Word) = 10 := ⟨negative, rfl⟩
  obtain ⟨m', eq, reads⟩ := itoa_row m str (by decide) (by decide) (show (10 : Word).toInt = (10 : Nat) from rfl)
    (by rw [if_pos minus]; exact size) enough
  rw [if_pos minus] at reads
  have decimal : Decimal (0x2D :: (row 10 value.toInt.natAbs).map letter) value.toInt := by
    have spelled := Decimal.minus (Spells.of_row letter (show 1 < 10 by decide) value.toInt.natAbs) (by omega)
    rwa [show -(value.toInt.natAbs : Int) = value.toInt by omega] at spelled
  refine ⟨m', _, eq, decimal.noNul, reads, ?_⟩
  rw [Renders, if_pos rfl]
  exact ⟨decimal, decimal.atoi⟩

theorem itoa_stopped {m' : Buffer} {text : List Byte} (two : 2 ≤ base.toInt) (most : base.toInt ≤ 36)
    (pos : 0 < fuel) (negative : (if value.toInt < 0 ∧ base = 10 then -value else value).toInt < 0)
    (eq : itoa m value str base fuel = some m') (noNul : 0 ∉ text) (reads : Reads m' str text) :
    text.length ≤ if value.toInt < 0 ∧ base = 10 then 2 else 1 := by
  have digits := itoaDigits_negative (a := str) (i := 0) (m := m) two negative pos
  obtain ⟨m'', eq', written⟩ := itoa_reads two most digits
  obtain rfl : m'' = m' := Option.some.inj (eq'.symm.trans eq)
  refine reads.length_le noNul (Eq.trans ?_ written.nul)
  congr 1
  split
  next => rfl
  next => rfl

theorem itoa_wrong {m' : Buffer} {text : List Byte} (two : 2 ≤ base.toInt) (most : base.toInt ≤ 36) (pos : 0 < fuel)
    (negative : value.toInt < 0) (wrong : base = 10 → value.toInt = -2 ^ 31)
    (eq : itoa m value str base fuel = some m') (noNul : 0 ∉ text) (reads : Reads m' str text) :
    ¬Renders value base text := by
  intro renders
  by_cases ten : base = 10
  · have least : value = BitVec.intMin 32 := by
      rw [← BitVec.toInt_inj, wrong ten]
      decide
    have short := itoa_stopped two most pos (by rw [if_pos ⟨negative, ten⟩, least]; decide) eq noNul reads
    rw [if_pos ⟨negative, ten⟩] at short
    rw [Renders, if_pos ten, wrong ten] at renders
    obtain ⟨decimal, -⟩ := renders
    generalize number : (-2 ^ 31 : Int) = v at decimal
    cases decimal with
    | plain digits => omega
    | minus digits =>
      have small := digits.lt_base (Nat.le_of_succ_le_succ short)
      omega
  · have other : ¬(value.toInt < 0 ∧ base = 10) := fun both => ten both.2
    have short := itoa_stopped two most pos (by rw [if_neg other]; exact negative) eq noNul reads
    rw [if_neg other] at short
    rw [Renders, if_neg ten] at renders
    have small := renders.lt_base short
    have large := BitVec.toInt_neg_iff.mp negative
    obtain ⟨b, of⟩ := Int.eq_ofNat_of_zero_le (show 0 ≤ base.toInt by omega)
    have size := toNat_of_toInt of
    omega

end Rendering

/-- `itoa` writes the number for those that are not negative, and in base 10 for all but the
least one. -/
theorem itoa_renders_iff (m : Buffer) (str : Nat) (value base : Word) (fuel : Nat) (two : 2 ≤ base.toInt)
    (most : base.toInt ≤ 36) (enough : 32 ≤ fuel) :
    (∃ m' text, itoa m value str base fuel = some m' ∧ 0 ∉ text ∧ Reads m' str text ∧ Renders value base text) ↔
      0 ≤ value.toInt ∨ base = 10 ∧ value.toInt ≠ -2 ^ 31 := by
  constructor
  · rintro ⟨m', text, eq, noNul, reads, renders⟩
    by_contra wrong
    simp only [not_or, not_and, not_not, not_le] at wrong
    exact itoa_wrong two most (by omega) wrong.1 wrong.2 eq noNul reads renders
  · intro right
    by_cases nonneg : 0 ≤ value.toInt
    · exact itoa_nonneg m str two most enough nonneg
    · obtain ⟨rfl, inner⟩ := right.resolve_left nonneg
      exact itoa_negative m str enough (Int.not_le.mp nonneg) inner

/-- -255 in base 10. -/
theorem itoa_renders_iff_decimal : ∃ m' text, itoa (fun _ => 0xFF) (-255) 100 10 32 = some m' ∧ 0 ∉ text ∧
    Reads m' 100 text ∧ Renders (-255) 10 text :=
  (itoa_renders_iff (fun _ => 0xFF) 100 (-255) 10 32 (by decide) (by decide) (by decide)).mpr (by decide)

/-- -1 in base 16 comes out as a slash, and the least number as `-(`. -/
theorem itoa_slash : (∃ m', itoa (fun _ => 0xFF) (-1) 100 16 32 = some m' ∧ m' 100 = 0x2F ∧ m' 101 = 0 ∧
      ¬∃ text, 0 ∉ text ∧ Reads m' 100 text ∧ Renders (-1) 16 text) ∧
    ∃ m', itoa (fun _ => 0xFF) 0x80000000 100 10 32 = some m' ∧ m' 100 = 0x2D ∧ m' 101 = 0x28 ∧ m' 102 = 0 ∧
      ¬∃ text, 0 ∉ text ∧ Reads m' 100 text ∧ Renders 0x80000000 10 text := by
  constructor
  · have run : (itoa (fun _ => 0xFF) (-1) 100 16 32).map (fun m => (m 100, m 101)) = some (0x2F, 0) := by decide
    obtain ⟨m', eq, bytes⟩ := Option.map_eq_some_iff.mp run
    obtain ⟨first, second⟩ := Prod.mk.inj bytes
    refine ⟨m', eq, first, second, ?_⟩
    rintro ⟨text, noNul, reads, renders⟩
    exact itoa_wrong (by decide) (by decide) (by decide) (by decide) (by decide) eq noNul reads renders
  · have run : (itoa (fun _ => 0xFF) 0x80000000 100 10 32).map (fun m => (m 100, m 101, m 102)) =
        some (0x2D, 0x28, 0) := by decide
    obtain ⟨m', eq, bytes⟩ := Option.map_eq_some_iff.mp run
    obtain ⟨first, more⟩ := Prod.mk.inj bytes
    obtain ⟨second, third⟩ := Prod.mk.inj more
    refine ⟨m', eq, first, second, third, ?_⟩
    rintro ⟨text, noNul, reads, renders⟩
    exact itoa_wrong (by decide) (by decide) (by decide) (by decide) (fun _ => by decide) eq noNul reads renders

end Wittche.CString
