import Wittche.Lib.Bytes

/-! The string functions of `kernel/string.c` that the other modules call.
A C string is the list of its bytes before the terminating NUL. `strcmp` compares
memory with such a string, `strncpy` copies one into memory; both walk byte by byte
as the source does. -/

namespace Wittche.CString
open Bytes

@[ext] structure CStr where
  chars : List Byte
  noNul : 0 ∉ chars
deriving DecidableEq

/-- The byte at index `i`, the terminating NUL and what a reader sees behind it included. -/
def CStr.get (s : CStr) (i : Nat) : Byte := s.chars.getD i 0

def CStr.length (s : CStr) : Nat := s.chars.length

def ascii (s : String) : List Byte := s.toList.map fun c => BitVec.ofNat 8 c.toNat

def CStr.tail (s : CStr) : CStr := ⟨s.chars.tail, fun h => s.noNul (List.mem_of_mem_tail h)⟩

def CStr.take (s : CStr) (n : Nat) : CStr := ⟨s.chars.take n, fun h => s.noNul (List.mem_of_mem_take h)⟩

def CStr.drop (s : CStr) (n : Nat) : CStr := ⟨s.chars.drop n, fun h => s.noNul (List.mem_of_mem_drop h)⟩

/-- `strcmp` with both pointers advanced by `k`. -/
def strcmpFrom (p : Buffer) : (k : Nat) → List Byte → Int
  | k, [] => (p k).toNat
  | k, c :: rest =>
    if p k ≠ 0 ∧ p k = c then strcmpFrom p (k + 1) rest else (p k).toNat - c.toNat

def strcmp (p : Buffer) (s : CStr) : Int := strcmpFrom p 0 s.chars

/-- `str_starts_with` with both pointers advanced by `k`; the NUL of `str` stops the walk. -/
def strStartsWithFrom (p : Buffer) : (k : Nat) → List Byte → Bool
  | k, [] => decide (p k = 0)
  | k, c :: rest => if p k = 0 then true else if c ≠ p k then false else strStartsWithFrom p (k + 1) rest

def strStartsWith (str : CStr) (p : Buffer) : Bool := strStartsWithFrom p 0 str.chars

/-- The padding loop of `strncpy`: `n` more zero bytes from `d` on. -/
def padZero (dest : Buffer) : (d n : Nat) → Buffer
  | _, 0 => dest
  | d, n + 1 => padZero (Function.update dest d 0) (d + 1) n

/-- `strncpy` with `d` the destination pointer. When the terminating NUL is copied
the loop ends before it counts that byte, so the padding writes `n` further bytes. -/
def strncpyFrom (dest : Buffer) : (d : Nat) → List Byte → (n : Nat) → Buffer
  | _, _, 0 => dest
  | d, [], n + 1 => padZero (Function.update dest d 0) (d + 1) (n + 1)
  | d, c :: rest, n + 1 => strncpyFrom (Function.update dest d c) (d + 1) rest n

def strncpy (dest : Buffer) (d : Nat) (src : CStr) (n : Nat) : Buffer := strncpyFrom dest d src.chars n

/-- `strchr` as an offset from the start of the string; `none` is `NULL`. -/
def strchr (s : List Byte) (c : Byte) : Option Nat := s.findIdx? (· = c)

/-- The digit loop of `atoi`, in wrapping 32-bit arithmetic; `char` is signed. -/
def atoiDigits : (result : Word) → List Byte → Word
  | result, [] => result
  | result, c :: rest =>
    if 0x30 ≤ c.toInt ∧ c.toInt ≤ 0x39 then atoiDigits (result * 10 + (c.signExtend 32 - 0x30)) rest else result

def atoi (str : List Byte) : Word :=
  match str.dropWhile fun c => c = 0x20 ∨ c = 0x09 with
  | [] => 0
  | c :: rest =>
    if c = 0x2D then atoiDigits 0 rest * -1
    else if c = 0x2B then atoiDigits 0 rest * 1
    else atoiDigits 0 (c :: rest) * 1

theorem strchr_append {u : List Byte} {c : Byte} (absent : c ∉ u) (v : List Byte) :
    strchr (u ++ c :: v) c = some u.length := by
  have none : u.findIdx? (· = c) = .none := by
    rw [List.findIdx?_eq_none_iff]
    exact fun d inside => decide_eq_false fun same => absent (same ▸ inside)
  rw [strchr, List.findIdx?_append, none, List.findIdx?_cons]
  simp

theorem strcmpFrom_eq_zero {p : Buffer} {k : Nat} {s : List Byte} (noNul : 0 ∉ s) :
    strcmpFrom p k s = 0 ↔ ∀ i ≤ s.length, p (k + i) = s.getD i 0 := by
  induction s generalizing k with
  | nil =>
    rw [strcmpFrom]
    constructor
    · intro h i hi
      obtain rfl : i = 0 := by simpa using hi
      apply BitVec.eq_of_toNat_eq
      simpa using h
    · intro h
      have zero : p k = 0 := by simpa using h 0 (Nat.le_refl _)
      simp [zero]
  | cons c rest ih =>
    have nonzero : c ≠ 0 := fun h => noNul (by simp [h])
    rw [strcmpFrom]
    split
    next same =>
      rw [ih fun h => noNul (List.mem_cons_of_mem _ h)]
      constructor
      · intro h i hi
        cases i with
        | zero => simpa using same.2
        | succ i =>
          have step := h i (by simpa using hi)
          rwa [show k + 1 + i = k + (i + 1) by omega] at step
      · intro h i hi
        have step := h (i + 1) (by simpa using hi)
        rwa [show k + (i + 1) = k + 1 + i by omega] at step
    next differ =>
      constructor
      · intro zero
        exfalso
        have same : p k = c := by
          apply BitVec.eq_of_toNat_eq
          omega
        exact differ ⟨by rwa [same], same⟩
      · intro h
        have first : p k = c := by simpa using h 0 (by simp)
        exact absurd ⟨by rwa [first], first⟩ differ

theorem strcmp_eq_zero {p : Buffer} {s : CStr} :
    strcmp p s = 0 ↔ ∀ i ≤ s.length, p i = s.get i := by
  rw [strcmp, strcmpFrom_eq_zero s.noNul]
  simp [CStr.length, CStr.get]

theorem padZero_apply (dest : Buffer) (d n x : Nat) :
    padZero dest d n x = if d ≤ x ∧ x < d + n then 0 else dest x := by
  induction n generalizing dest d with
  | zero =>
    rw [padZero, if_neg (by omega)]
  | succ n ih =>
    rw [padZero, ih]
    by_cases first : x = d
    · subst first
      rw [if_neg (by omega), if_pos (by omega), Function.update_self]
    · rw [Function.update_of_ne first]
      by_cases inside : d + 1 ≤ x ∧ x < d + 1 + n
      · rw [if_pos inside, if_pos (by omega)]
      · rw [if_neg inside, if_neg (by omega)]

theorem strncpyFrom_apply (dest : Buffer) (d : Nat) (src : List Byte) (n x : Nat) :
    strncpyFrom dest d src n x =
      if d ≤ x ∧ x < d + n then src.getD (x - d) 0
      else if src.length < n ∧ x = d + n then 0 else dest x := by
  induction src generalizing dest d n with
  | nil =>
    cases n with
    | zero => rw [strncpyFrom, if_neg (by omega), if_neg (by simp)]
    | succ n =>
      rw [strncpyFrom, padZero_apply]
      by_cases first : x = d
      · subst first
        rw [if_neg (by omega), if_pos (by omega)]
        simp
      · rw [Function.update_of_ne first]
        by_cases inside : d + 1 ≤ x ∧ x < d + 1 + (n + 1)
        · rw [if_pos inside]
          by_cases last : x = d + (n + 1)
          · rw [if_neg (by omega), if_pos ⟨by simp, last⟩]
          · rw [if_pos (by omega)]
            simp
        · rw [if_neg inside, if_neg (by omega), if_neg (by omega)]
  | cons c rest ih =>
    cases n with
    | zero => rw [strncpyFrom, if_neg (by omega), if_neg (by simp)]
    | succ n =>
      rw [strncpyFrom, ih]
      by_cases first : x = d
      · subst first
        rw [if_neg (by omega), if_neg (by omega), if_pos (by omega), Function.update_self]
        simp
      · rw [Function.update_of_ne first]
        by_cases inside : d + 1 ≤ x ∧ x < d + 1 + n
        · rw [if_pos inside, if_pos (by omega), show x - d = (x - (d + 1)) + 1 by omega]
          simp
        · rw [if_neg inside, if_neg (show ¬(d ≤ x ∧ x < d + (n + 1)) by omega)]
          by_cases last : rest.length < n ∧ x = d + 1 + n
          · rw [if_pos last, if_pos ⟨by simpa using last.1, by omega⟩]
          · rw [if_neg last, if_neg]
            rintro ⟨short, rfl⟩
            exact last ⟨by simpa using short, by omega⟩

theorem strncpy_apply (dest : Buffer) (d : Nat) (src : CStr) (n x : Nat) :
    strncpy dest d src n x =
      if d ≤ x ∧ x < d + n then src.get (x - d)
      else if src.length < n ∧ x = d + n then 0 else dest x :=
  strncpyFrom_apply dest d src.chars n x

section Copies

/-- `strncpy` as above, with the addresses that it writes to. -/
def strncpyLogged (dest : Buffer) : (d : Nat) → List Byte → (n : Nat) → Buffer × List Nat
  | _, _, 0 => (dest, [])
  | d, [], n + 1 => (padZero (Function.update dest d 0) (d + 1) (n + 1), d :: List.range' (d + 1) (n + 1))
  | d, c :: rest, n + 1 =>
    let (m, writes) := strncpyLogged (Function.update dest d c) (d + 1) rest n
    (m, d :: writes)

/-- `strcpy` inside one memory, with the addresses that it writes to. `none` is a copy that
finds no NUL within `fuel` bytes. -/
def strcpyLogged (m : Buffer) : (d s fuel : Nat) → Option (Buffer × List Nat)
  | _, _, 0 => none
  | d, s, fuel + 1 =>
    let copied := Function.update m d (m s)
    if m s = 0 then some (copied, [d])
    else (strcpyLogged copied (d + 1) (s + 1) fuel).map fun (m, writes) => (m, d :: writes)

/-- The bytes at address `a` read as the string `s` with its NUL. -/
def Reads (m : Buffer) (a : Nat) (s : List Byte) : Prop := ∀ i ≤ s.length, m (a + i) = s.getD i 0

theorem strncpyLogged_fst (dest : Buffer) (d : Nat) (src : List Byte) (n : Nat) :
    (strncpyLogged dest d src n).1 = strncpyFrom dest d src n := by
  induction src generalizing dest d n with
  | nil => cases n <;> rfl
  | cons c rest ih =>
    cases n with
    | zero => rfl
    | succ n => exact ih _ (d + 1) n

theorem strncpyLogged_snd (dest : Buffer) (d : Nat) (src : List Byte) (n : Nat) :
    (strncpyLogged dest d src n).2 = List.range' d (if src.length < n then n + 1 else n) := by
  induction src generalizing dest d n with
  | nil =>
    cases n with
    | zero => rfl
    | succ n =>
      rw [if_pos (show [].length < n + 1 from Nat.succ_pos n)]
      rfl
  | cons c rest ih =>
    cases n with
    | zero => rfl
    | succ n =>
      have later := ih (Function.update dest d c) (d + 1) n
      simp only [strncpyLogged, later, List.length_cons, Nat.succ_lt_succ_iff]
      split
      · rfl
      · rfl

/-- What `strncpy` promises: the characters of the source, NULs up to `n`, and the rest as it
was. -/
structure StrncpyValues (dest : Buffer) (d : Nat) (src : CStr) (n : Nat) : Prop where
  copied : ∀ i < min n src.length, strncpy dest d src n (d + i) = src.get i
  padded : ∀ i, src.length ≤ i → i < n → strncpy dest d src n (d + i) = 0
  frame : ∀ i, n ≤ i → strncpy dest d src n (d + i) = dest (d + i)

theorem StrncpyValues.of_frame {dest : Buffer} {d n : Nat} {src : CStr} (frame : src.length < n → dest (d + n) = 0) :
    StrncpyValues dest d src n := by
  refine ⟨fun i lt => ?_, fun i behind lt => ?_, fun i le => ?_⟩
  · rw [strncpy_apply, if_pos (by omega), Nat.add_sub_cancel_left]
  · rw [strncpy_apply, if_pos (by omega), Nat.add_sub_cancel_left, CStr.get, List.getD_eq_getElem?_getD,
      List.getElem?_eq_none behind, Option.getD_none]
  · rw [strncpy_apply, if_neg (by omega)]
    split
    next short => rw [Nat.add_left_cancel short.2, frame short.1]
    next => rfl

theorem strncpyValues_iff (dest : Buffer) (d : Nat) (src : CStr) (n : Nat) :
    StrncpyValues dest d src n ↔ n ≤ src.length ∨ dest (d + n) = 0 := by
  constructor
  · intro values
    by_cases fits : n ≤ src.length
    · exact Or.inl fits
    · have kept := values.frame n (Nat.le_refl n)
      rw [strncpy_apply, if_neg (by omega), if_pos ⟨by omega, rfl⟩] at kept
      exact Or.inr kept.symm
  · rintro (fits | nul)
    · exact StrncpyValues.of_frame fun short => by omega
    · exact StrncpyValues.of_frame fun _ => nul

theorem strncpyLogged_iff (dest : Buffer) (d : Nat) (src : CStr) (n : Nat) :
    (strncpyLogged dest d src.chars n).2 = List.range' d n ↔ n ≤ src.length := by
  rw [strncpyLogged_snd]
  split
  next short =>
    refine iff_of_false (fun same => ?_) (Nat.not_le.mpr short)
    have lengths := congrArg List.length same
    rw [List.length_range', List.length_range'] at lengths
    omega
  next fits => exact iff_of_true rfl (Nat.le_of_not_lt fits)

theorem strncpyLogged_within {dest : Buffer} {d n x : Nat} {src : List Byte}
    (written : x ∈ (strncpyLogged dest d src n).2) : d ≤ x ∧ x ≤ d + n := by
  rw [strncpyLogged_snd, List.mem_range'_1] at written
  split at written <;> omega

theorem Reads.tail {m : Buffer} {a : Nat} {c : Byte} {s : List Byte} (h : Reads m a (c :: s)) : Reads m (a + 1) s := by
  intro i hi
  have next := h (i + 1) (Nat.succ_le_succ hi)
  rwa [show a + (i + 1) = a + 1 + i by omega, List.getD_cons_succ] at next

theorem Reads.frame {m m' : Buffer} {a : Nat} {s : List Byte} (h : Reads m a s)
    (same : ∀ x, a ≤ x → x ≤ a + s.length → m' x = m x) : Reads m' a s :=
  fun i hi => (same _ (Nat.le_add_right ..) (by omega)).trans (h i hi)

theorem Reads.nul {m : Buffer} {a : Nat} {s : List Byte} (h : Reads m a s) : m (a + s.length) = 0 := by
  rw [h _ (Nat.le_refl _), List.getD_eq_getElem?_getD, List.getElem?_eq_none (Nat.le_refl _), Option.getD_none]

theorem Reads.unique {m : Buffer} {a : Nat} {s t : List Byte} (h : Reads m a s) (h' : Reads m a t) (noNul : 0 ∉ s)
    (noNul' : 0 ∉ t) : s = t := by
  induction s generalizing a t with
  | nil =>
    cases t with
    | nil => rfl
    | cons c t =>
      have zero : (0 : Byte) = c := (h 0 (Nat.zero_le _)).symm.trans (h' 0 (Nat.zero_le _))
      exact absurd (zero ▸ List.mem_cons_self) noNul'
  | cons b s ih =>
    have first : m a = b := h 0 (Nat.zero_le _)
    cases t with
    | nil =>
      have zero : m a = 0 := h' 0 (Nat.zero_le _)
      exact absurd (first ▸ zero ▸ List.mem_cons_self) noNul
    | cons c t =>
      have same : m a = c := h' 0 (Nat.zero_le _)
      rw [← first, same, ih h.tail h'.tail (fun hs => noNul (List.mem_cons_of_mem _ hs))
        fun ht => noNul' (List.mem_cons_of_mem _ ht)]

theorem Reads.takeWhile_eq {m : Buffer} {a n : Nat} {s : List Byte} (h : Reads m a s) (noNul : 0 ∉ s)
    (short : s.length < n) : ((List.range n).map fun j => m (a + j)).takeWhile (· ≠ 0) = s := by
  obtain ⟨k, rfl⟩ := Nat.exists_eq_add_of_lt short
  have front : (List.range s.length).map (fun j => m (a + j)) = s := by
    apply List.ext_getElem?
    intro j
    by_cases lt : j < s.length
    · rw [List.getElem?_map, List.getElem?_range lt, Option.map_some, h j (Nat.le_of_lt lt), List.getD_eq_getElem?_getD,
        List.getElem?_eq_getElem lt, Option.getD_some]
    · rw [List.getElem?_eq_none (by simpa using lt), List.getElem?_eq_none (by omega)]
  rw [show s.length + k + 1 = s.length + (k + 1) by omega, List.range_add, List.map_append, front,
    List.takeWhile_append_of_pos fun b hb => by
      simp only [ne_eq, decide_eq_true_eq]
      exact fun zero => noNul (zero ▸ hb)]
  rw [List.range_succ_eq_map, List.map_cons, List.map_cons, Nat.add_zero, h.nul]
  simp

theorem strcpyLogged_eq {m : Buffer} {d s fuel : Nat} {str : List Byte} (noNul : 0 ∉ str) (reads : Reads m s str)
    (below : d + str.length < s) (enough : str.length < fuel) :
    ∃ m' writes, strcpyLogged m d s fuel = some (m', writes) ∧ Reads m' d str ∧
      (∀ x, x < d ∨ d + str.length < x → m' x = m x) ∧ ∀ x ∈ writes, d ≤ x ∧ x ≤ d + str.length := by
  induction str generalizing m d s fuel with
  | nil =>
    obtain ⟨fuel, rfl⟩ := Nat.exists_eq_add_of_lt enough
    have zero : m s = 0 := reads 0 (Nat.le_refl 0)
    rw [show List.length ([] : List Byte) + fuel + 1 = fuel + 1 by simp, strcpyLogged, if_pos zero, zero]
    refine ⟨_, _, rfl, ?_, ?_, ?_⟩
    · intro i hi
      obtain rfl : i = 0 := by simpa using hi
      exact Function.update_self ..
    · intro x out
      exact Function.update_of_ne (by simp at out; omega) ..
    · intro x hx
      simp at hx
      simp [hx]
  | cons c str ih =>
    obtain ⟨fuel, rfl⟩ : ∃ k, fuel = k + 1 := ⟨fuel - 1, by omega⟩
    have first : m s = c := reads 0 (Nat.zero_le _)
    have nonzero : c ≠ 0 := fun h => noNul (by simp [h])
    rw [List.length_cons] at below enough
    have moved : Reads (Function.update m d c) (s + 1) str := by
      intro i hi
      rw [Function.update_of_ne (by omega)]
      exact reads.tail i hi
    obtain ⟨m', writes, result, copy, frame, within⟩ :=
      ih (fun h => noNul (List.mem_cons_of_mem _ h)) moved (show d + 1 + str.length < s + 1 by omega)
        (show str.length < fuel by omega)
    rw [strcpyLogged, first, if_neg nonzero, result]
    refine ⟨_, _, rfl, ?_, ?_, ?_⟩
    · intro i hi
      cases i with
      | zero =>
        rw [Nat.add_zero, frame d (by omega), Function.update_self]
        rfl
      | succ i =>
        rw [show d + (i + 1) = d + 1 + i by omega, copy i (Nat.le_of_succ_le_succ hi), List.getD_cons_succ]
    · intro x out
      rw [List.length_cons] at out
      rw [frame x (by omega), Function.update_of_ne (by omega)]
    · intro x hx
      rw [List.length_cons]
      rcases List.mem_cons.mp hx with rfl | later
      · omega
      · have bounds := within x later
        omega

end Copies

section Memory

/-- `memset`: the bytes at `ptr` on, with 32-bit addresses. -/
def memset (m : Buffer) (ptr : Nat) (value : Byte) : (num : Nat) → Buffer
  | 0 => m
  | num + 1 => Function.update (memset m ptr value num) ((ptr + num) % 2 ^ 32) value

/-- `memcpy`, byte by byte upwards. -/
def memcpy (m : Buffer) (dest src : Nat) : (num : Nat) → Buffer
  | 0 => m
  | num + 1 =>
    let m := memcpy m dest src num
    Function.update m ((dest + num) % 2 ^ 32) (m ((src + num) % 2 ^ 32))

variable {m : Buffer} {ptr dest src num : Nat}

theorem memset_zero_or (m : Buffer) (ptr num x : Nat) : memset m ptr 0 num x = 0 ∨ memset m ptr 0 num x = m x := by
  induction num with
  | zero => exact Or.inr rfl
  | succ num ih =>
    rw [memset, Function.update_apply]
    split
    next => exact Or.inl rfl
    next => exact ih

theorem memset_eq (value : Byte) (fits : ptr + num ≤ 2 ^ 32) :
    memset m ptr value num = copy m ptr (fun _ => value) num := by
  induction num with
  | zero =>
    funext x
    rw [memset, copy_outside (by omega)]
  | succ num ih =>
    funext x
    rw [memset, ih (by omega), Nat.mod_eq_of_lt (by omega), Function.update_apply]
    by_cases last : x = ptr + num
    · rw [if_pos last, copy_inside (by omega)]
    · rw [if_neg last]
      by_cases inside : ptr ≤ x ∧ x < ptr + num
      · rw [copy_inside inside, copy_inside (by omega)]
      · rw [copy_outside (by omega), copy_outside (by omega)]

theorem memcpy_eq (inside : dest + num ≤ 2 ^ 32) (inside' : src + num ≤ 2 ^ 32)
    (apart : dest + num ≤ src ∨ src + num ≤ dest) :
    memcpy m dest src num = copy m dest (fun i => m (src + i)) num := by
  induction num with
  | zero =>
    funext x
    rw [memcpy, copy_outside (by omega)]
  | succ num ih =>
    funext x
    simp only [memcpy]
    rw [ih (by omega) (by omega) (by omega), Nat.mod_eq_of_lt (by omega), Nat.mod_eq_of_lt (by omega),
      Function.update_apply]
    by_cases last : x = dest + num
    · rw [if_pos last, copy_outside (show src + num < dest ∨ dest + num ≤ src + num by omega), last,
        copy_inside (by omega), Nat.add_sub_cancel_left]
    · rw [if_neg last]
      by_cases within : dest ≤ x ∧ x < dest + num
      · rw [copy_inside within, copy_inside (by omega)]
      · rw [copy_outside (by omega), copy_outside (by omega)]

end Memory

end Wittche.CString
