import Wittche.Lib.Segments
import Wittche.Heap.Model

/-! The block list in memory and the segment list it stands for.
`Rep m a l` reads the list at address `a` as the segments `l`: headers at the
prefix sums, each `next` the end of its block, the last one `NULL`. The walks of
`kmalloc` and `coalesce_free_blocks` are then first fit and coalescing on `l`, and
write nothing but headers of the list they leave behind. -/

namespace Wittche.Heap
open Bytes Segments

def Header (m : Buffer) (a : Nat) (s : Seg) (next : Nat) : Prop :=
  blockSize m a = s.size ∧ isFree m a = (if s.free then 1 else 0) ∧
    blockMagic m a = HEAP_MAGIC ∧ blockNext m a = next

def linkTo (a : Nat) : List Seg → Nat
  | [] => 0
  | _ :: _ => a

def Rep (m : Buffer) : Nat → List Seg → Prop
  | _, [] => True
  | a, s :: rest => Header m a s (linkTo (a + s.size) rest) ∧ Rep m (a + s.size) rest

def InHeader (a : Nat) (l : List Seg) (x : Nat) : Prop :=
  ∃ b ∈ place a l, b.1 ≤ x ∧ x < b.1 + HEADER_SIZE

def SizesOk (l : List Seg) : Prop := ∀ s ∈ l, MIN_BLOCK_SIZE ≤ s.size ∧ s.size % 4 = 0

theorem toNat_and_not_three (x : Word) : (x &&& ~~~3).toNat = x.toNat / 4 * 4 := by
  have three : ∀ i, (3#32).getLsbD i = decide (i < 2) := by
    intro i
    rw [BitVec.getLsbD_ofNat, show 3 = 2 ^ 2 - 1 by rfl, Nat.testBit_two_pow_sub_one]
    by_cases h : i < 2
    · simp [h, show i < 32 by omega]
    · simp [h]
  apply Nat.eq_of_testBit_eq
  intro i
  rw [BitVec.testBit_toNat, BitVec.getLsbD_and, BitVec.getLsbD_not,
    show x.toNat / 4 * 4 = x.toNat / 2 ^ 2 * 2 ^ 2 by rfl, Nat.testBit_mul_two_pow,
    Nat.testBit_div_two_pow, BitVec.testBit_toNat]
  change (x.getLsbD i && (decide (i < 32) && !(3#32).getLsbD i)) = _
  rw [three]
  by_cases low : i < 2
  · simp [low]
  · by_cases high : i < 32
    · simp [high, low, show 2 ≤ i by omega, show i - 2 + 2 = i by omega]
    · simp [high, show i - 2 + 2 = i by omega, BitVec.getLsbD_of_ge x i (by omega)]

theorem alignSize_toNat (size : Word) :
    (alignSize size).toNat = (size.toNat + 3) % 2 ^ 32 / 4 * 4 := by
  rw [alignSize, toNat_and_not_three, BitVec.toNat_add]
  rfl

theorem totalSize_spec (size : Word) : MIN_BLOCK_SIZE ≤ totalSize size ∧
    totalSize size % 4 = 0 ∧ totalSize size < 2 ^ 32 := by
  have aligned := alignSize_toNat size
  have wrap := Nat.mod_lt ((alignSize size).toNat + HEADER_SIZE) (show 0 < 2 ^ 32 by decide)
  have quarter : ((alignSize size).toNat + HEADER_SIZE) % 2 ^ 32 % 4 = 0 := by
    simp only [HEADER_SIZE]
    omega
  simp only [totalSize]
  generalize ((alignSize size).toNat + HEADER_SIZE) % 2 ^ 32 = total at *
  by_cases small : total < MIN_BLOCK_SIZE
  · rw [if_pos small]
    exact ⟨le_refl _, by decide, by decide⟩
  · rw [if_neg small]
    exact ⟨by omega, quarter, wrap⟩

@[simp] theorem blockSize_setSize (m : Buffer) (b v : Nat) : blockSize (setSize m b v) b = v % 2 ^ 32 := by
  simp [blockSize, setSize]

@[simp] theorem isFree_setFree (m : Buffer) (b v : Nat) : isFree (setFree m b v) b = v % 2 ^ 32 := by
  simp [isFree, setFree]

@[simp] theorem blockMagic_setMagic (m : Buffer) (b v : Nat) :
    blockMagic (setMagic m b v) b = v % 2 ^ 32 := by
  simp [blockMagic, setMagic]

@[simp] theorem blockNext_setNext (m : Buffer) (b v : Nat) : blockNext (setNext m b v) b = v % 2 ^ 32 := by
  simp [blockNext, setNext]

section SameBlock

variable (m : Buffer) (b v : Nat)

@[simp] theorem isFree_setSize : isFree (setSize m b v) b = isFree m b := by
  simp only [isFree, setSize, load_store_apart (show b + 4 ≤ b + 4 ∨ b + 4 + 4 ≤ b by omega)]

@[simp] theorem blockMagic_setSize : blockMagic (setSize m b v) b = blockMagic m b := by
  simp only [blockMagic, setSize, load_store_apart (show b + 4 ≤ b + 8 ∨ b + 8 + 4 ≤ b by omega)]

@[simp] theorem blockSize_setFree : blockSize (setFree m b v) b = blockSize m b := by
  simp only [blockSize, setFree, load_store_apart (show b + 4 + 4 ≤ b ∨ b + 4 ≤ b + 4 by omega)]

@[simp] theorem blockMagic_setFree : blockMagic (setFree m b v) b = blockMagic m b := by
  simp only [blockMagic, setFree,
    load_store_apart (show b + 4 + 4 ≤ b + 8 ∨ b + 8 + 4 ≤ b + 4 by omega)]

@[simp] theorem blockNext_setFree : blockNext (setFree m b v) b = blockNext m b := by
  simp only [blockNext, setFree,
    load_store_apart (show b + 4 + 4 ≤ b + 12 ∨ b + 12 + 4 ≤ b + 4 by omega)]

@[simp] theorem blockSize_setMagic : blockSize (setMagic m b v) b = blockSize m b := by
  simp only [blockSize, setMagic, load_store_apart (show b + 8 + 4 ≤ b ∨ b + 4 ≤ b + 8 by omega)]

@[simp] theorem isFree_setMagic : isFree (setMagic m b v) b = isFree m b := by
  simp only [isFree, setMagic,
    load_store_apart (show b + 8 + 4 ≤ b + 4 ∨ b + 4 + 4 ≤ b + 8 by omega)]

@[simp] theorem blockSize_setNext : blockSize (setNext m b v) b = blockSize m b := by
  simp only [blockSize, setNext, load_store_apart (show b + 12 + 4 ≤ b ∨ b + 4 ≤ b + 12 by omega)]

@[simp] theorem isFree_setNext : isFree (setNext m b v) b = isFree m b := by
  simp only [isFree, setNext,
    load_store_apart (show b + 12 + 4 ≤ b + 4 ∨ b + 4 + 4 ≤ b + 12 by omega)]

@[simp] theorem blockMagic_setNext : blockMagic (setNext m b v) b = blockMagic m b := by
  simp only [blockMagic, setNext,
    load_store_apart (show b + 12 + 4 ≤ b + 8 ∨ b + 8 + 4 ≤ b + 12 by omega)]

end SameBlock

def OnlyHeader (b : Nat) (m m' : Buffer) : Prop := ∀ x, x < b ∨ b + HEADER_SIZE ≤ x → m' x = m x

theorem OnlyHeader.trans {b : Nat} {m m' m'' : Buffer} (h : OnlyHeader b m m')
    (h' : OnlyHeader b m' m'') : OnlyHeader b m m'' :=
  fun x hx => (h' x hx).trans (h x hx)

theorem store_only {m : Buffer} {b k : Nat} {w : Word} (hk : k + 4 ≤ HEADER_SIZE) :
    OnlyHeader b m (store m (b + k) w) := by
  intro x hx
  exact store_apart (by omega)

theorem setSize_only (m : Buffer) (b v : Nat) : OnlyHeader b m (setSize m b v) :=
  store_only (k := 0) (by decide)

theorem setFree_only (m : Buffer) (b v : Nat) : OnlyHeader b m (setFree m b v) :=
  store_only (by decide)

theorem setMagic_only (m : Buffer) (b v : Nat) : OnlyHeader b m (setMagic m b v) :=
  store_only (by decide)

theorem setNext_only (m : Buffer) (b v : Nat) : OnlyHeader b m (setNext m b v) :=
  store_only (by decide)

theorem fields_congr {m m' : Buffer} {b : Nat} (h : ∀ x, b ≤ x → x < b + HEADER_SIZE → m' x = m x) :
    blockSize m' b = blockSize m b ∧ isFree m' b = isFree m b ∧
      blockMagic m' b = blockMagic m b ∧ blockNext m' b = blockNext m b := by
  have word : ∀ k, k + 4 ≤ HEADER_SIZE → load m' (b + k) = load m (b + k) := by
    intro k hk
    exact load_congr fun i hi => h _ (by omega) (by omega)
  simp only [blockSize, isFree, blockMagic, blockNext]
  rw [← Nat.add_zero b, word 0 (by simp [HEADER_SIZE]), Nat.add_zero, word 4 (by simp [HEADER_SIZE]),
    word 8 (by simp [HEADER_SIZE]), word 12 (by simp [HEADER_SIZE])]
  simp

theorem Header.congr {m m' : Buffer} {b next : Nat} {s : Seg} (hd : Header m b s next)
    (h : ∀ x, b ≤ x → x < b + HEADER_SIZE → m' x = m x) : Header m' b s next := by
  obtain ⟨size, free, magic, link⟩ := fields_congr h
  simpa only [Header, size, free, magic, link] using hd

theorem Rep.congr {m m' : Buffer} {a : Nat} {l : List Seg} (rep : Rep m a l)
    (h : ∀ x, InHeader a l x → m' x = m x) : Rep m' a l := by
  induction l generalizing a with
  | nil => trivial
  | cons s rest ih =>
    refine ⟨rep.1.congr fun x lo hi => h x ⟨(a, s), by simp [place], lo, hi⟩, ?_⟩
    refine ih rep.2 fun x hx => h x ?_
    obtain ⟨b, mem, bounds⟩ := hx
    exact ⟨b, by simp [place, mem], bounds⟩

theorem Rep.header {m : Buffer} {a : Nat} {l : List Seg} {x : Nat × Seg} (rep : Rep m a l)
    (mem : x ∈ place a l) : ∃ next, Header m x.1 x.2 next := by
  induction l generalizing a with
  | nil => simp [place] at mem
  | cons s rest ih =>
    rcases List.mem_cons.mp mem with rfl | mem
    · exact ⟨_, rep.1⟩
    · exact ih rep.2 mem

theorem inHeader_cons {a : Nat} {s : Seg} {rest : List Seg} {x : Nat} :
    InHeader a (s :: rest) x ↔
      (a ≤ x ∧ x < a + HEADER_SIZE) ∨ InHeader (a + s.size) rest x := by
  simp [InHeader, place]

theorem InHeader.lower {a : Nat} {l : List Seg} {x : Nat} (h : InHeader a l x) : a ≤ x := by
  obtain ⟨b, mem, lo, -⟩ := h
  exact (place_bounds mem).1.trans lo

theorem SizesOk.tail {s : Seg} {rest : List Seg} (h : SizesOk (s :: rest)) : SizesOk rest :=
  fun t ht => h t (by simp [ht])

theorem Rep.behind {m m' : Buffer} {a b : Nat} {l : List Seg} (rep : Rep m a l)
    (only : OnlyHeader b m m') (far : b + HEADER_SIZE ≤ a) : Rep m' a l :=
  rep.congr fun x hx => only x (Or.inr (far.trans hx.lower))

theorem Rep.cons_of_tail {m m' : Buffer} {a : Nat} {s : Seg} {rest rest' : List Seg}
    (size : MIN_BLOCK_SIZE ≤ s.size) (hd : Header m a s (linkTo (a + s.size) rest))
    (same : linkTo (a + s.size) rest' = linkTo (a + s.size) rest)
    (tail : Rep m' (a + s.size) rest')
    (frame : ∀ x, ¬InHeader (a + s.size) rest' x → m' x = m x) : Rep m' a (s :: rest') := by
  refine ⟨?_, tail⟩
  rw [same]
  refine hd.congr fun x lo hi => frame x fun inside => ?_
  have := inside.lower
  simp only [MIN_BLOCK_SIZE, HEADER_SIZE] at size hi
  omega

theorem splitBlock_header {m : Buffer} {a total : Nat} {s : Seg} {next : Nat}
    (hd : Header m a s next) (low : MIN_BLOCK_SIZE ≤ total) (fits : total + MIN_BLOCK_SIZE ≤ s.size)
    (bound : a + s.size < 2 ^ 32) (nextBound : next < 2 ^ 32) :
    Header (splitBlock m a total) a ⟨total, s.free⟩ (a + total) ∧
      Header (splitBlock m a total) (a + total) ⟨s.size - total, true⟩ next ∧
      ∀ x, (x < a ∨ a + HEADER_SIZE ≤ x) → (x < a + total ∨ a + total + HEADER_SIZE ≤ x) →
        splitBlock m a total x = m x := by
  obtain ⟨size, free, magic, link⟩ := hd
  simp only [MIN_BLOCK_SIZE] at low fits
  have wrap : (a + total) % 2 ^ 32 = a + total := Nat.mod_eq_of_lt (by omega)
  simp only [splitBlock, wrap]
  generalize hn : a + total = b
  -- the new header is written first, then the two fields of the old one
  let m₁ := setSize m b (blockSize m a - total)
  let m₂ := setFree m₁ b 1
  let m₃ := setMagic m₂ b HEAP_MAGIC
  let m₄ := setNext m₃ b (blockNext m₃ a)
  have newOnly₃ : OnlyHeader b m m₃ :=
    ((setSize_only _ _ _).trans (setFree_only _ _ _)).trans (setMagic_only _ _ _)
  have newOnly : OnlyHeader b m m₄ := newOnly₃.trans (setNext_only _ _ _)
  have oldOnly : OnlyHeader a m₄ (setNext (setSize m₄ a total) a b) :=
    (setSize_only _ _ _).trans (setNext_only _ _ _)
  have below : ∀ x, a ≤ x → x < a + HEADER_SIZE → x < b ∨ b + HEADER_SIZE ≤ x := by
    intro x lo hi
    simp only [HEADER_SIZE] at hi
    omega
  obtain ⟨-, -, -, link₃⟩ := fields_congr fun x lo hi => newOnly₃ x (below x lo hi)
  obtain ⟨-, free₄, magic₄, -⟩ := fields_congr fun x lo hi => newOnly x (below x lo hi)
  have newHd : Header m₄ b ⟨s.size - total, true⟩ next := by
    refine ⟨?_, ?_, ?_, ?_⟩
    · simp only [m₄, m₃, m₂, m₁, blockSize_setNext, blockSize_setMagic, blockSize_setFree,
        blockSize_setSize, size]
      exact Nat.mod_eq_of_lt (by omega)
    · simp [m₄, m₃, m₂]
    · simp [m₄, m₃, HEAP_MAGIC]
    · simp only [m₄, blockNext_setNext, link₃, link]
      exact Nat.mod_eq_of_lt nextBound
  refine ⟨⟨?_, ?_, ?_, ?_⟩, ?_, ?_⟩
  · simp only [blockSize_setNext, blockSize_setSize]
    exact Nat.mod_eq_of_lt (by omega)
  · simp only [isFree_setNext, isFree_setSize]
    exact free₄.trans free
  · simp only [blockMagic_setNext, blockMagic_setSize]
    exact magic₄.trans magic
  · simp only [blockNext_setNext]
    exact Nat.mod_eq_of_lt (by omega)
  · exact newHd.congr fun x lo hi => oldOnly x (by simp only [HEADER_SIZE]; omega)
  · intro x outA outB
    exact (oldOnly x outA).trans (newOnly x outB)

theorem linkTo_lt {a : Nat} {l : List Seg} {n : Nat} (h : a + total l < n) : linkTo a l < n := by
  cases l with
  | nil => exact Nat.lt_of_le_of_lt (Nat.zero_le _) h
  | cons s rest =>
    rw [linkTo]
    omega

/-- What `kmalloc`'s search leaves in memory, against first fit on the segments. -/
def Searched (need : Nat) (m : Buffer) (a : Nat) (l : List Seg) (m' : Buffer) (p : Nat) : Prop :=
  match firstFit need MIN_BLOCK_SIZE l with
  | none => m' = m ∧ p = 0
  | some (o, l') => p = a + o + HEADER_SIZE ∧ Rep m' a l' ∧ ∀ x, ¬InHeader a l' x → m' x = m x

theorem Rep.occupy {m : Buffer} {a : Nat} {s : Seg} {rest : List Seg} (rep : Rep m a (s :: rest))
    (large : MIN_BLOCK_SIZE ≤ s.size) : Rep (setFree m a 0) a (⟨s.size, false⟩ :: rest) ∧
      ∀ x, ¬InHeader a (⟨s.size, false⟩ :: rest) x → setFree m a 0 x = m x := by
  obtain ⟨⟨size, free, magic, link⟩, tail⟩ := rep
  have tagOnly := setFree_only m a 0
  simp only [MIN_BLOCK_SIZE] at large
  refine ⟨⟨⟨?_, ?_, ?_, ?_⟩, ?_⟩, ?_⟩
  · simpa using size
  · simp
  · simpa using magic
  · simpa using link
  · exact tail.behind tagOnly (by simp only [HEADER_SIZE]; omega)
  · intro x outside
    simp only [inHeader_cons, not_or] at outside
    exact tagOnly x (by omega)

theorem Rep.divide {need : Nat} {m : Buffer} {a : Nat} {s : Seg} {rest : List Seg} (rep : Rep m a (s :: rest))
    (low : MIN_BLOCK_SIZE ≤ need) (room : need + MIN_BLOCK_SIZE ≤ s.size) (bound : a + s.size + total rest < 2 ^ 32) :
    Rep (setFree (splitBlock m a need) a 0) a (⟨need, false⟩ :: ⟨s.size - need, true⟩ :: rest) ∧
      ∀ x, ¬InHeader a (⟨need, false⟩ :: ⟨s.size - need, true⟩ :: rest) x →
        setFree (splitBlock m a need) a 0 x = m x := by
  obtain ⟨hd, tail⟩ := rep
  have nextLt : linkTo (a + s.size) rest < 2 ^ 32 := linkTo_lt (by omega)
  obtain ⟨first, second, other⟩ := splitBlock_header hd low room (by omega) nextLt
  have tagOnly := setFree_only (splitBlock m a need) a 0
  simp only [MIN_BLOCK_SIZE] at low room
  have back : a + need + (s.size - need) = a + s.size := by omega
  refine ⟨⟨⟨?_, ?_, ?_, ?_⟩, ?_, ?_⟩, ?_⟩
  · simpa using first.1
  · simp
  · simpa using first.2.2.1
  · simpa [linkTo] using first.2.2.2
  · simp only [back]
    exact second.congr fun x lo hi => tagOnly x (by simp only [HEADER_SIZE]; omega)
  · simp only [back]
    refine tail.congr fun x hx => ?_
    have lo := hx.lower
    rw [tagOnly x (by simp only [HEADER_SIZE]; omega),
      other x (by simp only [HEADER_SIZE]; omega) (by simp only [HEADER_SIZE]; omega)]
  · intro x outside
    simp only [inHeader_cons, not_or] at outside
    rw [tagOnly x (by omega), other x (by omega) (by omega)]

theorem Searched.skip {need : Nat} {m m' : Buffer} {a p : Nat} {s : Seg} {rest : List Seg}
    (miss : (s.free && decide (need ≤ s.size)) = false) (large : MIN_BLOCK_SIZE ≤ s.size)
    (hd : Header m a s (linkTo (a + s.size) rest)) (spec : Searched need m (a + s.size) rest m' p) :
    Searched need m a (s :: rest) m' p := by
  simp only [Searched, firstFit, miss, Bool.false_eq_true, if_false]
  unfold Searched at spec
  cases found : firstFit need MIN_BLOCK_SIZE rest with
  | none =>
    rw [found] at spec
    simpa using spec
  | some r =>
    obtain ⟨o, l'⟩ := r
    rw [found] at spec
    obtain ⟨ptr, rep', frame⟩ := spec
    simp only [Option.map_some]
    have same : linkTo (a + s.size) l' = linkTo (a + s.size) rest := by
      cases rest with
      | nil => simp [firstFit] at found
      | cons t rest =>
        obtain ⟨b, t', rfl, -⟩ := firstFit_head found
        rfl
    refine ⟨by omega, Rep.cons_of_tail large hd same rep' frame, ?_⟩
    intro x outside
    exact frame x fun inside => outside (inHeader_cons.mpr (Or.inr inside))

theorem kmallocFrom_searched {need fuel : Nat} {m : Buffer} {a : Nat} {l : List Seg}
    (low : MIN_BLOCK_SIZE ≤ need) (rep : Rep m a l) (sizes : SizesOk l) (start : 0 < a)
    (bound : a + total l + MIN_BLOCK_SIZE < 2 ^ 32) (enough : l.length < fuel) :
    ∃ m' p, kmallocFrom need fuel m (linkTo a l) = some (m', p) ∧ Searched need m a l m' p := by
  induction l generalizing a fuel with
  | nil =>
    obtain ⟨fuel, rfl⟩ : ∃ k, fuel = k + 1 := ⟨fuel - 1, by simp at enough; omega⟩
    exact ⟨m, 0, by simp [kmallocFrom, linkTo], rfl, rfl⟩
  | cons s rest ih =>
    obtain ⟨fuel, rfl⟩ : ∃ k, fuel = k + 1 := ⟨fuel - 1, by simp at enough; omega⟩
    have large := (sizes s (by simp)).1
    have ⟨⟨size, free, magic, link⟩, tail⟩ := rep
    rw [total] at bound
    rw [linkTo, kmallocFrom, if_neg (by omega), if_neg (by simp [magic]), free, size]
    by_cases fits : s.free = true ∧ need ≤ s.size
    · have wrap : (need + MIN_BLOCK_SIZE) % 2 ^ 32 = need + MIN_BLOCK_SIZE := Nat.mod_eq_of_lt (by omega)
      have ptr : (a + HEADER_SIZE) % 2 ^ 32 = a + HEADER_SIZE := by
        simp only [MIN_BLOCK_SIZE] at bound
        exact Nat.mod_eq_of_lt (by simp only [HEADER_SIZE]; omega)
      rw [if_pos (by simp [fits]), wrap, ptr]
      refine ⟨_, _, rfl, ?_⟩
      simp only [Searched, firstFit, fits, decide_true, Bool.and_self, if_true]
      refine ⟨by omega, ?_⟩
      by_cases room : need + MIN_BLOCK_SIZE ≤ s.size
      · simp only [room, if_true]
        exact rep.divide low room (by omega)
      · simp only [room, if_false]
        exact rep.occupy large
    · have skip : ¬((if s.free = true then 1 else 0) ≠ 0 ∧ need ≤ s.size) := by
        simpa using fits
      rw [if_neg skip, link]
      obtain ⟨m', p, run, spec⟩ := ih tail sizes.tail (by omega) (by omega) (by simpa using enough)
      exact ⟨m', p, run, spec.skip (by simpa using fits) large rep.1⟩

theorem Rep.merge {m : Buffer} {a : Nat} {s t : Seg} {rest : List Seg} (rep : Rep m a (s :: t :: rest))
    (tag : s.free = true) (large : MIN_BLOCK_SIZE ≤ s.size) (bound : a + s.size + t.size + total rest < 2 ^ 32) :
    Rep (setNext (setSize m a (s.size + t.size)) a (linkTo (a + s.size + t.size) rest)) a
      (⟨s.size + t.size, true⟩ :: rest) := by
  obtain ⟨⟨size, free, magic, -⟩, -, tail⟩ := rep
  have sum : (s.size + t.size) % 2 ^ 32 = s.size + t.size := Nat.mod_eq_of_lt (by omega)
  have nextLt : linkTo (a + s.size + t.size) rest < 2 ^ 32 := linkTo_lt (by omega)
  have only := (setSize_only m a (s.size + t.size)).trans (setNext_only _ a (linkTo (a + s.size + t.size) rest))
  simp only [MIN_BLOCK_SIZE] at large
  refine ⟨⟨?_, ?_, ?_, ?_⟩, ?_⟩
  · simpa using sum
  · simpa [tag] using free
  · simpa using magic
  · simpa [← Nat.add_assoc] using Nat.mod_eq_of_lt nextLt
  · dsimp only
    rw [← Nat.add_assoc]
    exact tail.behind only (by simp only [HEADER_SIZE]; omega)

/-- `coalesce_free_blocks` from the block `s` at `a`, with `rest` behind it. -/
theorem coalesceFrom_rep {fuel : Nat} {m : Buffer} {a : Nat} {s : Seg} {rest : List Seg}
    (rep : Rep m a (s :: rest)) (sizes : SizesOk (s :: rest)) (start : 0 < a)
    (bound : a + s.size + total rest < 2 ^ 32) (enough : rest.length < fuel) :
    ∃ m', coalesceFrom fuel m a = some m' ∧ Rep m' a (mergeInto s rest) ∧
      ∀ x, ¬InHeader a (mergeInto s rest) x → m' x = m x := by
  induction rest generalizing a s m fuel with
  | nil =>
    obtain ⟨fuel, rfl⟩ : ∃ k, fuel = k + 1 := ⟨fuel - 1, by simp at enough; omega⟩
    have last : blockNext m a = 0 := rep.1.2.2.2
    exact ⟨m, by simp [coalesceFrom, last], rep, fun _ _ => rfl⟩
  | cons t rest ih =>
    obtain ⟨fuel, rfl⟩ : ∃ k, fuel = k + 1 := ⟨fuel - 1, by simp at enough; omega⟩
    have ⟨hd, hd', tail⟩ := rep
    have ⟨size, free, magic, link⟩ := hd
    have ⟨size', free', _, link'⟩ := hd'
    rw [linkTo] at link
    rw [total] at bound
    have own := sizes s (by simp)
    have behind := sizes t (by simp)
    simp only [MIN_BLOCK_SIZE] at own behind
    have wrap : (a + s.size) % 2 ^ 32 = a + s.size := Nat.mod_eq_of_lt (by omega)
    have go : ¬(a = 0 ∨ a + s.size = 0) := by omega
    simp only [coalesceFrom, link, go, if_false, free, free', size, wrap]
    by_cases both : s.free = true ∧ t.free = true
    · have cond : (if s.free = true then 1 else 0) ≠ 0 ∧ (if t.free = true then 1 else 0) ≠ 0 ∧
          True := by simp [both]
      rw [if_pos cond, size']
      let grown : Seg := ⟨s.size + t.size, true⟩
      have sum : (s.size + t.size) % 2 ^ 32 = s.size + t.size := Nat.mod_eq_of_lt (by omega)
      rw [sum]
      have sizeOnly := setSize_only m a (s.size + t.size)
      have away : ∀ x, a + s.size ≤ x → x < a + s.size + HEADER_SIZE → x < a ∨ a + HEADER_SIZE ≤ x := by
        intro x lo _
        simp only [HEADER_SIZE]
        omega
      obtain ⟨-, -, -, keep⟩ := fields_congr fun x lo hi => sizeOnly x (away x lo hi)
      rw [keep, link']
      have sizes' : SizesOk (grown :: rest) := by
        intro u hu
        rcases List.mem_cons.mp hu with rfl | hu
        · simp only [grown, MIN_BLOCK_SIZE]
          omega
        · exact sizes u (by simp [hu])
      obtain ⟨m', run, rep', frame⟩ := ih (s := grown) (rep.merge both.1 own.1 (by omega)) sizes' start
        (by simp only [grown]; omega) (by simpa using enough)
      have here : mergeInto s (t :: rest) = mergeInto grown rest := by simp [mergeInto, both, grown]
      rw [here]
      refine ⟨m', run, rep', fun x outside => ?_⟩
      rw [frame x outside]
      refine (sizeOnly.trans (setNext_only _ a _)) x ?_
      obtain ⟨h, l', eq, -⟩ := mergeInto_head grown rest
      rw [eq, inHeader_cons, not_or] at outside
      omega
    · have cond : ¬((if s.free = true then 1 else 0) ≠ 0 ∧ (if t.free = true then 1 else 0) ≠ 0 ∧
          True) := by simpa using both
      rw [if_neg cond]
      obtain ⟨m', run, rep', frame⟩ := ih (m := m) (a := a + s.size) (s := t) ⟨hd', tail⟩ sizes.tail
        (by omega) (by omega) (by simpa using enough)
      have here : mergeInto s (t :: rest) = s :: mergeInto t rest := by
        simp only [mergeInto]
        rw [if_neg (by simpa using both)]
      rw [here]
      obtain ⟨h, l', eq, -⟩ := mergeInto_head t rest
      refine ⟨m', run, ?_, ?_⟩
      · refine Rep.cons_of_tail (by simpa [MIN_BLOCK_SIZE] using own.1) hd ?_ rep' frame
        rw [eq]
        rfl
      · intro x outside
        exact frame x fun inside => outside (inHeader_cons.mpr (Or.inr inside))

theorem setFree_release {m : Buffer} {a o : Nat} {s : Seg} {l : List Seg} (rep : Rep m a l)
    (sizes : SizesOk l) (mem : (a + o, s) ∈ place a l) :
    Rep (setFree m (a + o) 1) a (release o l) := by
  induction l generalizing a o with
  | nil => simp [place] at mem
  | cons t rest ih =>
    obtain ⟨hd, tail⟩ := rep
    have own := sizes t (by simp)
    simp only [MIN_BLOCK_SIZE] at own
    by_cases start : o = 0
    · subst start
      have only := setFree_only m a 1
      simp only [release, if_true, Nat.add_zero]
      refine ⟨⟨?_, ?_, ?_, ?_⟩, tail.behind only (by simp only [HEADER_SIZE]; omega)⟩
      · simpa using hd.1
      · simp
      · simpa using hd.2.2.1
      · simpa using hd.2.2.2
    · have inner : (a + o, s) ∈ place (a + t.size) rest := by
        rw [place, List.mem_cons, Prod.mk.injEq] at mem
        exact mem.resolve_left fun both => start (by omega)
      have lo := (place_bounds inner).1
      simp only at lo
      have shift : a + o = a + t.size + (o - t.size) := by omega
      rw [shift] at inner ⊢
      rw [release, if_neg start]
      have rep' := ih tail sizes.tail inner
      have only := setFree_only m (a + t.size + (o - t.size)) 1
      refine ⟨?_, rep'⟩
      have link : linkTo (a + t.size) (release (o - t.size) rest) = linkTo (a + t.size) rest := by
        cases rest with
        | nil => rfl
        | cons u rest =>
          rw [release]
          split <;> rfl
      rw [link]
      exact hd.congr fun x lo hi => only x (by simp only [HEADER_SIZE] at *; omega)

end Wittche.Heap
