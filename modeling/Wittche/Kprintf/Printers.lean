import Wittche.Kprintf.Format
import Wittche.Strings.Conversion

/-! The number printers of the kernel: `utoa` and `itoa_signed` of `kernel/kprintf.c` with the
memory that they write to, and the two of `kernel/screen.c`, which have loops of their own. All
of them write canonical numerals. -/

namespace Wittche.Kprintf
open Bytes CString Numerals Screen

/-- The loop of `utoa` that fills `temp`, with `temp` and `i` behind it. `none` is a loop that
has not ended within `fuel` turns. -/
def tempDigits (base : Nat) (uppercase : Bool) : (fuel : Nat) → Buffer → (i value : Nat) → Option (Buffer × Nat)
  | 0, _, _, _ => none
  | fuel + 1, temp, i, value =>
    if 0 < value then
      tempDigits base uppercase fuel (Function.update temp i (digit uppercase (value % base))) (i + 1) (value / base)
    else some (temp, i)

/-- The loop that copies `temp` backwards, with the string and `j` behind it. -/
def copyBack (temp : Buffer) (str : Nat) : (i : Nat) → Buffer → (j : Nat) → Buffer × Nat
  | 0, m, j => (m, j)
  | i + 1, m, j => copyBack temp str i (Function.update m (str + j) (temp i)) (j + 1)

/-- `utoa`, with the memory of the string and of `temp`. The loop has a turn more than `temp` has
entries. -/
def utoaInto (m temp : Buffer) (value : Word) (str base : Nat) (uppercase : Bool) : Option (Buffer × Buffer) :=
  if value = 0 then some (Function.update (Function.update m str (char '0')) (str + 1) 0, temp)
  else
    match tempDigits base uppercase 33 temp 0 value.toNat with
    | none => none
    | some (temp, i) =>
      let (m, j) := copyBack temp str i m 0
      some (Function.update m (str + j) 0, temp)

def itoaSignedInto (m temp : Buffer) (value : Word) (str : Nat) : Option (Buffer × Buffer) :=
  if value.toInt < 0 then utoaInto (Function.update m str (char '-')) temp (-value) (str + 1) 10 false
  else utoaInto m temp value str 10 false

section Loops

variable {base i fuel n : Nat} {temp : Buffer} {uppercase : Bool}

theorem tempDigits_eq (two : 1 < base) (uppercase : Bool) (enough : (Nat.digits base n).length < fuel) :
    tempDigits base uppercase fuel temp i n =
      some (put temp i ((Nat.digits base n).map (digit uppercase)), i + (Nat.digits base n).length) := by
  induction fuel generalizing temp i n with
  | zero => omega
  | succ fuel ih =>
    rw [tempDigits]
    split
    next pos =>
      have step := Nat.digits_def' two pos
      rw [step, List.length_cons] at enough
      rw [ih (Nat.lt_of_succ_lt_succ enough), step, update_eq_put, List.map_cons, List.length_cons]
      congr 2
      · exact put_append temp i [digit uppercase (n % base)] _
      · omega
    next zero =>
      obtain rfl : n = 0 := by omega
      rw [Nat.digits_zero]
      congr 2
      funext x
      exact (put_outside (by rw [List.map_nil, List.length_nil]; omega)).symm

theorem copyBack_eq (temp : Buffer) (str i : Nat) (m : Buffer) (j : Nat) :
    copyBack temp str i m j = (put m (str + j) ((List.range i).map temp).reverse, j + i) := by
  induction i generalizing m j with
  | zero =>
    rw [copyBack]
    congr 1
    funext x
    exact (put_outside (by simp; omega)).symm
  | succ i ih =>
    rw [copyBack, ih, update_eq_put, List.range_succ, List.map_append, List.reverse_append]
    congr 1
    · exact put_append m (str + j) [temp i] _
    · omega

theorem range_put (temp : Buffer) (l : List Byte) : (List.range l.length).map (put temp 0 l) = l := by
  apply List.ext_getElem
  · simp
  · intro k _ lt
    have inside := put_inside (m := temp) (a := 0) lt
    rw [Nat.zero_add] at inside
    simpa using inside

end Loops

section Texts

variable {base : Nat} {uppercase : Bool}

theorem digit_ne_zero : ∀ d < 16, ∀ uppercase, digit uppercase d ≠ 0 := by
  decide

theorem numeral_eq_row (base : Nat) (uppercase : Bool) (n : Nat) :
    numeral base uppercase n = (row base n).map (digit uppercase) := by
  rw [numeral, row]
  split
  next => rfl
  next => rw [List.map_reverse]

theorem utoaInto_eq (m temp : Buffer) (value : Word) (str : Nat) (ten : 10 ≤ base) (uppercase : Bool) :
    ∃ temp', utoaInto m temp value str base uppercase = some
        (Function.update (put m str (utoa value base uppercase)) (str + (utoa value base uppercase).length) 0, temp') ∧
      ∀ x, (utoa value base uppercase).length ≤ x → temp' x = temp x := by
  rw [utoa_eq ten, numeral, utoaInto]
  have zero : value = 0 ↔ value.toNat = 0 := by simp [← BitVec.toNat_inj]
  split
  next none =>
    rw [if_pos (zero.mp none)]
    exact ⟨temp, by rw [update_eq_put m str]; rfl, fun _ _ => rfl⟩
  next some =>
    rw [if_neg (mt zero.mpr some)]
    have few : (Nat.digits base value.toNat).length < 33 := by
      rw [Nat.lt_succ_iff, Nat.digits_length_le_iff (by omega)]
      calc value.toNat < 2 ^ 32 := value.isLt
        _ ≤ base ^ 32 := Nat.pow_le_pow_left (by omega) 32
    have size : (Nat.digits base value.toNat).length = ((Nat.digits base value.toNat).map (digit uppercase)).length :=
      (List.length_map _).symm
    rw [tempDigits_eq (by omega) uppercase few, Nat.zero_add, size]
    dsimp only
    rw [copyBack_eq, range_put, List.length_reverse, Nat.zero_add, Nat.add_zero]
    exact ⟨_, rfl, fun x behind => put_outside (Or.inr (by omega))⟩

theorem utoa_row (ten : 10 ≤ base) (uppercase : Bool) (value : Word) :
    utoa value base uppercase = (row base value.toNat).map (digit uppercase) := by
  rw [utoa_eq ten, numeral_eq_row]

theorem utoa_spells (ten : 10 ≤ base) (uppercase : Bool) (value : Word) :
    Spells (digit uppercase) base (utoa value base uppercase) value.toNat := by
  rw [utoa_row ten]
  exact Spells.of_row _ (by omega) _

theorem utoa_length (ten : 10 ≤ base) (uppercase : Bool) (value : Word) : (utoa value base uppercase).length ≤ 10 := by
  rw [utoa_row ten, List.length_map]
  refine row_length_le (by omega) (by decide) ?_
  calc value.toNat < 2 ^ 32 := value.isLt
    _ ≤ 10 ^ 10 := by decide
    _ ≤ base ^ 10 := Nat.pow_le_pow_left ten 10

theorem utoa_noNul (ten : 10 ≤ base) (most : base ≤ 16) (uppercase : Bool) (value : Word) :
    0 ∉ utoa value base uppercase := by
  refine (utoa_spells ten uppercase value).not_mem fun d lt => ?_
  exact digit_ne_zero d (Nat.lt_of_lt_of_le lt most) uppercase

/-- `utoa` in memory: a string that is the canonical numeral, with no byte of the string and no
entry of `temp` touched but the first 32. -/
structure WritesNumeral (m temp : Buffer) (value : Word) (str base : Nat) (uppercase : Bool) (m' temp' : Buffer) :
    Prop where
  written : utoaInto m temp value str base uppercase = some (m', temp')
  reads : Reads m' str (utoa value base uppercase)
  noNul : 0 ∉ utoa value base uppercase
  spells : Spells (digit uppercase) base (utoa value base uppercase) value.toNat
  inside : ∀ x, x < str ∨ str + 32 ≤ x → m' x = m x
  tempInside : ∀ x, 32 ≤ x → temp' x = temp x

theorem utoaInto_writes (m temp : Buffer) (value : Word) (str : Nat) (ten : 10 ≤ base) (most : base ≤ 16)
    (uppercase : Bool) : ∃ m' temp', WritesNumeral m temp value str base uppercase m' temp' := by
  have size := utoa_length ten uppercase value
  obtain ⟨temp', written, rest⟩ := utoaInto_eq m temp value str ten uppercase
  refine ⟨_, temp', written, put_reads m str _, utoa_noNul ten most uppercase value, utoa_spells ten uppercase value,
    fun x out => ?_, fun x out => rest x (by omega)⟩
  rw [Function.update_of_ne (by omega), put_outside (by omega)]

theorem itoaSignedInto_reads (m temp : Buffer) (value : Word) (str : Nat) :
    ∃ m' temp', itoaSignedInto m temp value str = some (m', temp') ∧ Reads m' str (itoaSigned value) := by
  rw [itoaSignedInto, itoaSigned]
  split
  next =>
    obtain ⟨temp', written, -⟩ := utoaInto_eq (Function.update m str (char '-')) temp (-value) (str + 1)
      (Nat.le_refl 10) false
    refine ⟨_, temp', written, ?_⟩
    have joined : put (Function.update m str (char '-')) (str + 1) (utoa (-value) 10 false) =
        put m str (char '-' :: utoa (-value) 10 false) := by
      rw [update_eq_put]
      exact put_append m str [char '-'] _
    rw [joined, Nat.add_assoc, Nat.add_comm 1]
    exact put_reads m str (char '-' :: utoa (-value) 10 false)
  next =>
    obtain ⟨temp', written, -⟩ := utoaInto_eq m temp value str (Nat.le_refl 10) false
    exact ⟨_, temp', written, put_reads m str _⟩

theorem itoaSigned_decimal (value : Word) : Decimal (itoaSigned value) value.toInt := by
  have spells : ∀ v : Word, Spells letter 10 (utoa v 10 false) v.toNat := fun v =>
    (utoa_spells (Nat.le_refl 10) false v).congr fun _ _ => rfl
  rw [itoaSigned]
  split
  next negative =>
    have size := spells (-value)
    rw [neg_toNat negative] at size
    have decimal := Decimal.minus size (by omega)
    rwa [show -(value.toInt.natAbs : Int) = value.toInt by omega] at decimal
  next nonneg =>
    obtain ⟨n, is⟩ := Int.eq_ofNat_of_zero_le (Int.not_lt.mp nonneg)
    have number := toNat_of_toInt is
    rw [is]
    exact .plain (number ▸ spells value)

end Texts

section Screens

theorem decReverse_eq (n : Nat) : decReverse n = (Nat.digits 10 n).map (digit false) := by
  induction n using Nat.strongRecOn with
  | ind n ih =>
    rw [decReverse]
    split
    next zero => rw [zero, Nat.digits_zero, List.map_nil]
    next some =>
      rw [Nat.digits_def' (by decide) (Nat.pos_of_ne_zero some), List.map_cons, ih (n / 10) (by omega), digit,
        if_pos (Nat.mod_lt n (by decide))]

theorem decText_eq (value : Word) : decText value = utoa value 10 false := by
  have zero : value = 0 ↔ value.toNat = 0 := by simp [← BitVec.toNat_inj]
  rw [utoa_eq (Nat.le_refl 10), decText, numeral, decReverse_eq]
  simp only [zero]
  rfl

theorem hexChar_eq (n : Nat) : hexChar n = digit true (n % 16) := by
  rw [hexChar, digit]
  split
  next => rfl
  next large =>
    rw [if_pos rfl]
    congr 1
    omega

theorem hexDigits_zero (k : Nat) : hexDigits k 0 = List.replicate k (char '0') := by
  induction k with
  | zero => rfl
  | succ k ih =>
    rw [hexDigits, Nat.zero_div, ih, List.replicate_succ']
    rfl

theorem hexDigits_eq {k n : Nat} (pos : 0 < k) (fits : n < 16 ^ k) :
    hexDigits k n = List.replicate (k - (row 16 n).length) (char '0') ++ (row 16 n).map (digit true) := by
  induction k generalizing n with
  | zero => omega
  | succ k ih =>
    rw [hexDigits, hexChar_eq]
    by_cases more : n / 16 = 0
    · rw [more, hexDigits_zero, row_last more (by decide)]
      rfl
    · have step := row_step (show 1 < 16 by decide) more
      have rest : n / 16 < 16 ^ k := by
        rw [Nat.div_lt_iff_lt_mul (by decide), ← Nat.pow_succ]
        exact fits
      have left : 0 < k := by
        rcases Nat.eq_zero_or_pos k with rfl | pos
        · exact absurd (by simpa using rest) more
        · exact pos
      rw [ih left rest, step, List.map_append, List.length_append, List.length_singleton, Nat.add_sub_add_right,
        List.append_assoc]
      rfl

theorem hexText_eq (value : Word) : hexText value =
    [char '0', char 'x'] ++ (List.replicate (8 - (utoa value 16 true).length) (char '0') ++ utoa value 16 true) := by
  rw [hexText, hexDigits_eq (by decide) value.isLt, utoa_row (by decide), List.length_map]
  rfl

end Screens

/-- The number printers agree on every word. -/
theorem number_printers_agree (v : Word) :
    (∀ m temp str, ∃ m' temp', WritesNumeral m temp v str 10 false m' temp') ∧
    (∀ m temp str uppercase, ∃ m' temp', WritesNumeral m temp v str 16 uppercase m' temp') ∧
    (∀ s, screenWriteDec s v = screenUpdateCursor (putChars s (utoa v 10 false))) ∧
    (∀ s, screenWriteHex s v = screenUpdateCursor (putChars s ([char '0', char 'x'] ++
      (List.replicate (8 - (utoa v 16 true).length) (char '0') ++ utoa v 16 true)))) ∧
    (utoa v 16 true).length ≤ 8 ∧
    (∀ m temp str, ∃ m' temp', itoaSignedInto m temp v str = some (m', temp') ∧ Reads m' str (itoaSigned v)) ∧
    0 ∉ itoaSigned v ∧ Decimal (itoaSigned v) v.toInt ∧ atoi (itoaSigned v) = v := by
  refine ⟨fun m temp str => utoaInto_writes m temp v str (by decide) (by decide) false,
    fun m temp str uppercase => utoaInto_writes m temp v str (by decide) (by decide) uppercase, fun s => ?_, fun s => ?_,
    ?_, fun m temp str => itoaSignedInto_reads m temp v str, (itoaSigned_decimal v).noNul, itoaSigned_decimal v,
    (itoaSigned_decimal v).atoi⟩
  · rw [screenWriteDec, decText_eq]
  · rw [screenWriteHex, hexText_eq]
  · rw [utoa_row (by decide), List.length_map]
    exact row_length_le (by decide) (by decide) v.isLt

end Wittche.Kprintf
