import Mathlib.Data.List.Induction
import Wittche.Keyboard.Queue

/-! The characters of the keyboard and the keys that are held. A byte stream is a sequence of
codes, each with or without the prefix; what is held and whether caps lock is on is read off
the codes. The driver keeps one flag for both shift keys, which the release of either clears,
prefixed or not, and it lets caps lock act on every key. -/

namespace Wittche.Keyboard
open Bytes

structure Code where
  extended : Bool
  byte : Byte
deriving DecidableEq

def Code.key (c : Code) : Byte := c.byte &&& 0x7F
def Code.made (c : Code) : Bool := c.byte &&& 0x80 == 0

/-- The codes of a byte stream; `pending` is a prefix byte in front of it. -/
def scan : (pending : Bool) → List Byte → List Code
  | _, [] => []
  | pending, b :: bs => if b = EXTENDED then scan true bs else ⟨pending, b⟩ :: scan false bs

def awaiting : (pending : Bool) → List Byte → Bool
  | pending, [] => pending
  | _, b :: bs => awaiting (b == EXTENDED) bs

def lastMade (p : Code → Bool) (codes : List Code) : Bool := ((codes.filter p).getLast?.map Code.made).getD false

def isHeld (key : Byte) (codes : List Code) : Bool := lastMade (fun c => !c.extended && c.key == key) codes

def shiftHeld (codes : List Code) : Bool := isHeld KEY_LSHIFT codes || isHeld KEY_RSHIFT codes

def capsOn (codes : List Code) : Bool := codes.count ⟨false, KEY_CAPS⟩ % 2 == 1

def isLetter (k : Byte) : Bool := decide (0x61 ≤ (asciiOf false k).toNat ∧ (asciiOf false k).toNat ≤ 0x7A)

def upperCase (codes : List Code) (k : Byte) : Bool :=
  if isLetter k then shiftHeld codes ^^ capsOn codes else shiftHeld codes

/-- The press of `k` appends the character that the keys held call for, if there is room. -/
def FollowsModifiers (d : Driver) (codes : List Code) (k : Byte) : Prop :=
  queued (keyboardHandler d k) =
    if (queued d).length < 255 then queued d ++ [asciiOf (upperCase codes k) k] else queued d

instance (d : Driver) (codes : List Code) (k : Byte) : Decidable (FollowsModifiers d codes k) :=
  inferInstanceAs (Decidable (_ = _))

inductive KeyboardOp where
  | scancode (b : Byte)
  | getchar

def Driver.step (d : Driver) : KeyboardOp → Driver
  | .scancode b => keyboardHandler d b
  | .getchar => (keyboardGetchar d).1

def Driver.run (d : Driver) (ops : List KeyboardOp) : Driver := ops.foldl Driver.step d

def KeyboardOp.byte? : KeyboardOp → Option Byte
  | .scancode b => some b
  | .getchar => none

def received (ops : List KeyboardOp) : List Byte := ops.filterMap KeyboardOp.byte?

/-- The codes of a shift key that the driver's flag follows: the make codes without the prefix,
and all break codes. -/
def shiftCode (c : Code) : Bool := (c.key == KEY_LSHIFT || c.key == KEY_RSHIFT) && !(c.made && c.extended)

section Codes

variable {pending : Bool} {codes : List Code}

theorem awaiting_snoc (pending : Bool) (bs : List Byte) (b : Byte) :
    awaiting pending (bs ++ [b]) = (b == EXTENDED) := by
  induction bs generalizing pending with
  | nil => rfl
  | cons x bs ih => exact ih _

theorem scan_snoc (pending : Bool) (bs : List Byte) (b : Byte) : scan pending (bs ++ [b]) =
    if b = EXTENDED then scan pending bs else scan pending bs ++ [⟨awaiting pending bs, b⟩] := by
  induction bs generalizing pending with
  | nil =>
    rw [List.nil_append, scan, scan, awaiting]
    split <;> rfl
  | cons x bs ih =>
    rw [List.cons_append, scan, scan, awaiting]
    by_cases marker : x = EXTENDED
    · rw [if_pos marker, if_pos marker, ih, marker]
      rfl
    · have same : (x == EXTENDED) = false := by simpa using marker
      rw [if_neg marker, if_neg marker, ih, same]
      split <;> rfl

theorem lastMade_snoc (p : Code → Bool) (codes : List Code) (c : Code) :
    lastMade p (codes ++ [c]) = if p c then c.made else lastMade p codes := by
  rw [lastMade, lastMade, List.filter_append]
  cases h : p c with
  | true => simp [h]
  | false => simp [h]

theorem capsOn_snoc (codes : List Code) (c : Code) :
    capsOn (codes ++ [c]) = if c = ⟨false, KEY_CAPS⟩ then !capsOn codes else capsOn codes := by
  rw [capsOn, capsOn, List.count_append, List.count_singleton]
  by_cases here : c = ⟨false, KEY_CAPS⟩
  · rw [if_pos here, if_pos (by simpa using here)]
    rcases Nat.mod_two_eq_zero_or_one (codes.count ⟨false, KEY_CAPS⟩) with even | odd
    · simp [Nat.add_mod, even]
    · simp [Nat.add_mod, odd]
  · rw [if_neg here, if_neg (by simpa using here), Nat.add_zero]

end Codes

section Flags

variable (d : Driver)

theorem add_flags (c : Byte) : (keyboardBufferAdd d c).extendedKey = d.extendedKey ∧
    (keyboardBufferAdd d c).shiftPressed = d.shiftPressed ∧ (keyboardBufferAdd d c).capsLock = d.capsLock := by
  rw [keyboardBufferAdd]
  split <;> exact ⟨rfl, rfl, rfl⟩

theorem getchar_flags : (keyboardGetchar d).1.extendedKey = d.extendedKey ∧
    (keyboardGetchar d).1.shiftPressed = d.shiftPressed ∧ (keyboardGetchar d).1.capsLock = d.capsLock := by
  rw [keyboardGetchar]
  split <;> exact ⟨rfl, rfl, rfl⟩

theorem release_flags (k : Byte) : (handleRelease d k).extendedKey = false ∧
    (handleRelease d k).shiftPressed = (if k = KEY_LSHIFT ∨ k = KEY_RSHIFT then false else d.shiftPressed) ∧
    (handleRelease d k).capsLock = d.capsLock := by
  rw [handleRelease]
  split
  · exact ⟨rfl, rfl, rfl⟩
  · split <;> exact ⟨rfl, rfl, rfl⟩

theorem extended_flags (k : Byte) : (handleExtended d k).extendedKey = false ∧
    (handleExtended d k).shiftPressed = d.shiftPressed ∧ (handleExtended d k).capsLock = d.capsLock := by
  rw [handleExtended]
  split
  · exact add_flags _ _
  · exact ⟨rfl, rfl, rfl⟩

theorem press_flags (k : Byte) : (handlePress d k).extendedKey = d.extendedKey ∧
    (handlePress d k).shiftPressed = (if k = KEY_LSHIFT ∨ k = KEY_RSHIFT then true else d.shiftPressed) ∧
    (handlePress d k).capsLock = if k = KEY_CAPS then !d.capsLock else d.capsLock := by
  rw [handlePress]
  split
  next shift =>
    have other : k ≠ KEY_CAPS := by
      rintro rfl
      exact absurd shift (by decide)
    rw [if_neg other]
    exact ⟨rfl, rfl, rfl⟩
  next =>
    split
    · exact ⟨rfl, rfl, rfl⟩
    · split
      · exact ⟨rfl, rfl, rfl⟩
      · dsimp only
        split
        · exact add_flags _ _
        · exact ⟨rfl, rfl, rfl⟩

end Flags

/-- The flags of the driver, read off the bytes since `keyboard_init`. -/
structure Agrees (pending : Bool) (d : Driver) (bs : List Byte) : Prop where
  placed : Placed d
  extended : d.extendedKey = awaiting pending bs
  shift : d.shiftPressed = lastMade shiftCode (scan pending bs)
  caps : d.capsLock = capsOn (scan pending bs)

theorem agrees_init (d : Driver) : Agrees d.extendedKey (keyboardInit d) [] := ⟨placed_init d, rfl, rfl, rfl⟩

theorem break_byte : ∀ b : Byte, b &&& 0x80 ≠ 0 → ∀ e, Code.made ⟨e, b⟩ = false ∧ b ≠ KEY_CAPS := by
  decide +kernel

theorem make_byte : ∀ b : Byte, b &&& 0x80 = 0 → ∀ e, Code.made ⟨e, b⟩ = true ∧ Code.key ⟨e, b⟩ = b := by
  decide +kernel

theorem Agrees.code {pending : Bool} {d d' : Driver} {bs : List Byte} {b : Byte} (h : Agrees pending d bs)
    (plain : b ≠ EXTENDED) (placed : Placed d') (extended : d'.extendedKey = false)
    (shift : d'.shiftPressed = if shiftCode ⟨d.extendedKey, b⟩ then Code.made ⟨d.extendedKey, b⟩ else d.shiftPressed)
    (caps : d'.capsLock = if (⟨d.extendedKey, b⟩ : Code) = ⟨false, KEY_CAPS⟩ then !d.capsLock else d.capsLock) :
    Agrees pending d' (bs ++ [b]) := by
  refine ⟨placed, ?_, ?_, ?_⟩
  · rw [extended, awaiting_snoc]
    exact (beq_eq_false_iff_ne.mpr plain).symm
  · rw [scan_snoc, if_neg plain, lastMade_snoc, ← h.extended, ← h.shift, shift]
  · rw [scan_snoc, if_neg plain, capsOn_snoc, ← h.extended, ← h.caps, caps]

theorem Agrees.handler {pending : Bool} {d : Driver} {bs : List Byte} (h : Agrees pending d bs) (b : Byte) :
    Agrees pending (keyboardHandler d b) (bs ++ [b]) := by
  have placed := h.placed.handler b
  by_cases marker : b = EXTENDED
  · subst marker
    refine ⟨placed, (awaiting_snoc pending bs EXTENDED).symm, ?_, ?_⟩
    · rw [scan_snoc, if_pos rfl]
      exact h.shift
    · rw [scan_snoc, if_pos rfl]
      exact h.caps
  by_cases made : b &&& 0x80 = 0
  · obtain ⟨make, key⟩ := make_byte b made d.extendedKey
    cases ext : d.extendedKey with
    | true =>
      have handled : keyboardHandler d b = handleExtended d b := by
        rw [keyboardHandler, if_neg marker, if_neg (not_not_intro made), if_pos ext]
      obtain ⟨extended, shift, caps⟩ := extended_flags d b
      rw [ext] at make key
      rw [handled] at placed ⊢
      refine h.code marker placed extended ?_ ?_
      · rw [ext, shift, shiftCode, make]
        simp
      · rw [ext, caps, if_neg (by simp)]
    | false =>
      have handled : keyboardHandler d b = handlePress d b := by
        rw [keyboardHandler, if_neg marker, if_neg (not_not_intro made), if_neg (by simp [ext])]
      obtain ⟨extended, shift, caps⟩ := press_flags d b
      rw [ext] at make key extended
      rw [handled] at placed ⊢
      refine h.code marker placed extended ?_ ?_
      · rw [ext, shift, shiftCode, make, key]
        simp
      · rw [ext, caps]
        simp
  · obtain ⟨broken, other⟩ := break_byte b made d.extendedKey
    have handled : keyboardHandler d b = handleRelease d (b &&& 0x7F) := by
      rw [keyboardHandler, if_neg marker, if_pos made]
    obtain ⟨extended, shift, caps⟩ := release_flags d (b &&& 0x7F)
    rw [handled] at placed ⊢
    refine h.code marker placed extended ?_ ?_
    · rw [shift, shiftCode, broken]
      simp [Code.key]
    · rw [caps, if_neg (by simp [other])]

theorem Agrees.getchar {pending : Bool} {d : Driver} {bs : List Byte} (h : Agrees pending d bs) :
    Agrees pending (keyboardGetchar d).1 bs := by
  obtain ⟨extended, shift, caps⟩ := getchar_flags d
  exact ⟨h.placed.getchar, extended.trans h.extended, shift.trans h.shift, caps.trans h.caps⟩

/-- The flags after any run are those that its bytes ask for. -/
theorem agrees_run (d : Driver) (ops : List KeyboardOp) :
    Agrees d.extendedKey ((keyboardInit d).run ops) (received ops) := by
  induction ops using List.reverseRecOn with
  | nil => exact agrees_init d
  | append_singleton ops op ih =>
    rw [Driver.run, List.foldl_append, received, List.filterMap_append]
    cases op with
    | scancode b => exact ih.handler b
    | getchar =>
      have same : received ops ++ List.filterMap KeyboardOp.byte? [.getchar] = received ops := List.append_nil _
      rw [← received, same]
      exact ih.getchar

def Mapped (k : Byte) : Prop := asciiOf false k ≠ 0

instance (k : Byte) : Decidable (Mapped k) := inferInstanceAs (Decidable (_ ≠ _))

theorem mapped_plain : ∀ k : Byte, Mapped k → k ≠ EXTENDED ∧ k &&& 0x80 = 0 ∧ specialKey k = 0 ∧
    ¬(k = KEY_LSHIFT ∨ k = KEY_RSHIFT) ∧ k ≠ KEY_CAPS ∧ k ≠ KEY_LCTRL ∧ ∀ upper, asciiOf upper k ≠ 0 := by
  decide +kernel

theorem handler_mapped {k : Byte} (mapped : Mapped k) (d : Driver) : keyboardHandler d k =
    if d.extendedKey then { d with extendedKey := false }
    else keyboardBufferAdd d (asciiOf (d.shiftPressed ^^ d.capsLock) k) := by
  obtain ⟨plain, made, special, shift, caps, ctrl, char⟩ := mapped_plain k mapped
  rw [keyboardHandler, if_neg plain, if_neg (not_not_intro made)]
  split
  · rw [handleExtended, if_neg (not_not_intro special)]
  · rw [handlePress, if_neg shift, if_neg caps, if_neg ctrl]
    dsimp only
    rw [if_pos (char _)]

/-- The condition on the bytes before the press of `k`: it has no prefix byte in front, nor is
one left from before `keyboard_init`, and where the two tables differ, the last code of a shift key and caps lock,
put together as the driver does for all keys, call for the right one. -/
def Unconfused (pending : Bool) (bs : List Byte) (k : Byte) : Prop :=
  awaiting pending bs = false ∧
    (asciiOf true k = asciiOf false k ∨
      (lastMade shiftCode (scan pending bs) ^^ capsOn (scan pending bs)) = upperCase (scan false bs) k)

theorem asciiOf_eq_iff (k : Byte) (u v : Bool) :
    asciiOf u k = asciiOf v k ↔ asciiOf true k = asciiOf false k ∨ u = v := by
  cases u <;> cases v <;> simp [eq_comm]

theorem followsModifiers_iff (d : Driver) (ops : List KeyboardOp) (k : Byte) (mapped : Mapped k) :
    FollowsModifiers ((keyboardInit d).run ops) (scan false (received ops)) k ↔
      (queued ((keyboardInit d).run ops)).length = 255 ∨ Unconfused d.extendedKey (received ops) k := by
  have agrees := agrees_run d ops
  generalize (keyboardInit d).run ops = s at agrees ⊢
  have capacity := queued_capacity s
  rw [FollowsModifiers, handler_mapped mapped]
  by_cases full : (queued s).length = 255
  · refine iff_of_true ?_ (Or.inl full)
    rw [if_neg (show ¬(queued s).length < 255 by omega)]
    split
    · rfl
    · rw [agrees.placed.add_full full]
  · rw [if_pos (show (queued s).length < 255 by omega), or_iff_right full, Unconfused, ← agrees.extended,
      ← agrees.shift, ← agrees.caps]
    split
    next waiting =>
      refine iff_of_false (fun same => ?_) (by simp [waiting])
      have unchanged : (queued s ++ [asciiOf (upperCase (scan false (received ops)) k) k]).length =
          (queued s).length := congrArg List.length same.symm
      simp at unchanged
    next clear =>
      have flag : s.extendedKey = false := by simpa using clear
      rw [(agrees.placed.add_room full _).1, List.append_right_inj, List.cons.injEq, eq_self, and_true, flag,
        eq_self, true_and, asciiOf_eq_iff]

/-- An `A` with the left shift key held. -/
theorem followsModifiers_iff_held : FollowsModifiers ((keyboardInit .static).run [.scancode 0x2A])
    (scan false [0x2A]) 0x1E :=
  (followsModifiers_iff .static [.scancode 0x2A] 0x1E (by decide)).mpr
    (Or.inr (by unfold Unconfused; decide))

/-- Caps lock on and the key of the `1`; both shift keys pressed, one released, and an `a`; the
left shift key pressed, a break of it with the prefix, and an `a`. -/
theorem modifiers_confused :
    ¬FollowsModifiers ((keyboardInit .static).run [.scancode 0x3A]) (scan false [0x3A]) 0x02 ∧
    ¬FollowsModifiers ((keyboardInit .static).run [.scancode 0x2A, .scancode 0x36, .scancode 0xB6])
      (scan false [0x2A, 0x36, 0xB6]) 0x1E ∧
    ¬FollowsModifiers ((keyboardInit .static).run [.scancode 0x2A, .scancode 0xE0, .scancode 0xAA])
      (scan false [0x2A, 0xE0, 0xAA]) 0x1E := by
  decide +kernel

end Wittche.Keyboard
