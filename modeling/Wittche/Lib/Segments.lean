import Mathlib.Algebra.Ring.Nat
import Mathlib.Tactic.Common
import Mathlib.Data.List.Chain

/-! Address ranges cut into consecutive free and taken segments.
A segment list is a list of sizes with a tag; addresses are prefix sums over a
base. The operations are first fit with an optional split, release, and one
left-to-right coalescing pass; the results say what they do to the taken
segments, to the total length and to neighbouring free segments. -/

namespace Wittche.Segments

structure Seg where
  size : Nat
  free : Bool
deriving Repr, DecidableEq

def total : List Seg → Nat
  | [] => 0
  | s :: rest => s.size + total rest

def place (base : Nat) : List Seg → List (Nat × Seg)
  | [] => []
  | s :: rest => (base, s) :: place (base + s.size) rest

def taken (base : Nat) (l : List Seg) : List (Nat × Seg) := (place base l).filter (!·.2.free)

/-- No two neighbouring segments are both free. -/
def Separated (l : List Seg) : Prop := l.IsChain fun a b => ¬(a.free = true ∧ b.free = true)

def mergeInto (a : Seg) : List Seg → List Seg
  | [] => [a]
  | b :: rest =>
    if a.free && b.free then mergeInto ⟨a.size + b.size, true⟩ rest else a :: mergeInto b rest

def coalesce : List Seg → List Seg
  | [] => []
  | a :: rest => mergeInto a rest

/-- First free segment of at least `need`; the rest is split off when it reaches `room`. -/
def firstFit (need room : Nat) : List Seg → Option (Nat × List Seg)
  | [] => none
  | a :: rest =>
    if a.free && decide (need ≤ a.size) then
      some (0, if need + room ≤ a.size then ⟨need, false⟩ :: ⟨a.size - need, true⟩ :: rest
        else ⟨a.size, false⟩ :: rest)
    else (firstFit need room rest).map fun r => (a.size + r.1, a :: r.2)

def release (offset : Nat) : List Seg → List Seg
  | [] => []
  | a :: rest => if offset = 0 then ⟨a.size, true⟩ :: rest else a :: release (offset - a.size) rest

@[simp] theorem taken_nil (base : Nat) : taken base [] = [] := rfl

theorem taken_cons (base : Nat) (a : Seg) (rest : List Seg) :
    taken base (a :: rest) =
      if a.free then taken (base + a.size) rest else (base, a) :: taken (base + a.size) rest := by
  cases h : a.free <;> simp [taken, place, h]

theorem place_bounds {base : Nat} {l : List Seg} {x : Nat × Seg} (h : x ∈ place base l) :
    base ≤ x.1 ∧ x.1 + x.2.size ≤ base + total l ∧ x.2 ∈ l := by
  induction l generalizing base with
  | nil => simp [place] at h
  | cons a rest ih =>
    rw [place, List.mem_cons] at h
    simp only [total]
    rcases h with rfl | h
    · simp only [List.mem_cons, true_or, and_true]
      omega
    · obtain ⟨lo, hi, mem⟩ := ih h
      exact ⟨by omega, by omega, List.mem_cons_of_mem _ mem⟩

theorem exists_place (base : Nat) {l : List Seg} {s : Seg} (h : s ∈ l) : ∃ a, (a, s) ∈ place base l := by
  induction l generalizing base with
  | nil => simp at h
  | cons t rest ih =>
    rcases List.mem_cons.mp h with rfl | h
    · exact ⟨base, List.mem_cons_self⟩
    · obtain ⟨a, mem⟩ := ih (base + t.size) h
      exact ⟨a, List.mem_cons_of_mem _ mem⟩

theorem place_apart (base : Nat) (l : List Seg) :
    (place base l).Pairwise fun x y => x.1 + x.2.size ≤ y.1 := by
  induction l generalizing base with
  | nil => simp [place]
  | cons a rest ih =>
    rw [place, List.pairwise_cons]
    exact ⟨fun y hy => (place_bounds hy).1, ih _⟩

theorem place_eq_or_apart {base : Nat} {l : List Seg} {x y : Nat × Seg} (hx : x ∈ place base l)
    (hy : y ∈ place base l) : x = y ∨ x.1 + x.2.size ≤ y.1 ∨ y.1 + y.2.size ≤ x.1 := by
  induction l generalizing base with
  | nil => simp [place] at hx
  | cons a rest ih =>
    rcases List.mem_cons.mp hx with rfl | hx <;> rcases List.mem_cons.mp hy with rfl | hy
    · exact Or.inl rfl
    · exact Or.inr (Or.inl (place_bounds hy).1)
    · exact Or.inr (Or.inr (place_bounds hx).1)
    · exact ih hx hy

theorem place_dvd {k base : Nat} {l : List Seg} {x : Nat × Seg} (hbase : k ∣ base)
    (hl : ∀ s ∈ l, k ∣ s.size) (hx : x ∈ place base l) : k ∣ x.1 := by
  induction l generalizing base with
  | nil => simp [place] at hx
  | cons a rest ih =>
    rcases List.mem_cons.mp hx with rfl | hx
    · exact hbase
    · exact ih (Nat.dvd_add hbase (hl a (by simp))) (fun s hs => hl s (by simp [hs])) hx

theorem mem_taken {base : Nat} {l : List Seg} {x : Nat × Seg} :
    x ∈ taken base l ↔ x ∈ place base l ∧ x.2.free = false := by
  simp [taken]

theorem taken_apart (base : Nat) (l : List Seg) :
    (taken base l).Pairwise fun x y => x.1 + x.2.size ≤ y.1 :=
  (place_apart base l).filter _

theorem total_mergeInto (a : Seg) (l : List Seg) : total (mergeInto a l) = a.size + total l := by
  induction l generalizing a with
  | nil => rfl
  | cons b rest ih =>
    rw [mergeInto]
    split
    · rw [ih, total, Nat.add_assoc]
    · rw [total, ih, total]

theorem taken_mergeInto (base : Nat) (a : Seg) (l : List Seg) :
    taken base (mergeInto a l) = taken base (a :: l) := by
  induction l generalizing base a with
  | nil => rfl
  | cons b rest ih =>
    rw [mergeInto]
    split
    next both =>
      simp only [Bool.and_eq_true] at both
      rw [ih]
      simp only [taken_cons, both, if_true, Nat.add_assoc]
    next => rw [taken_cons, taken_cons, ih]

theorem mergeInto_head (a : Seg) (l : List Seg) :
    ∃ h t, mergeInto a l = h :: t ∧ h.free = a.free := by
  induction l generalizing a with
  | nil => exact ⟨a, [], rfl, rfl⟩
  | cons b rest ih =>
    rw [mergeInto]
    split
    next both =>
      obtain ⟨h, t, eq, free⟩ := ih ⟨a.size + b.size, true⟩
      simp only [Bool.and_eq_true] at both
      exact ⟨h, t, eq, free.trans both.1.symm⟩
    next => exact ⟨a, mergeInto b rest, rfl, rfl⟩

theorem separated_mergeInto (a : Seg) (l : List Seg) : Separated (mergeInto a l) := by
  induction l generalizing a with
  | nil => exact List.isChain_singleton a
  | cons b rest ih =>
    rw [mergeInto]
    split
    · exact ih _
    next apart =>
      obtain ⟨h, t, eq, free⟩ := mergeInto_head b rest
      have tail := ih b
      rw [eq] at tail ⊢
      refine List.isChain_cons_cons.mpr ⟨?_, tail⟩
      rw [free]
      simpa using apart

theorem mergeInto_size {P : Nat → Prop} (add : ∀ x y, P x → P y → P (x + y)) {a : Seg} {l : List Seg}
    (ha : P a.size) (hl : ∀ s ∈ l, P s.size) : ∀ s ∈ mergeInto a l, P s.size := by
  induction l generalizing a with
  | nil => simpa [mergeInto] using ha
  | cons b rest ih =>
    have hb := hl b (by simp)
    have tail : ∀ s ∈ rest, P s.size := fun s hs => hl s (by simp [hs])
    rw [mergeInto]
    split
    · exact ih (add _ _ ha hb) tail
    · intro s hs
      rcases List.mem_cons.mp hs with rfl | hs
      · exact ha
      · exact ih hb tail s hs

theorem firstFit_total {need room : Nat} {l l' : List Seg} {o : Nat}
    (h : firstFit need room l = some (o, l')) : total l' = total l := by
  induction l generalizing o l' with
  | nil => simp [firstFit] at h
  | cons a rest ih =>
    rw [firstFit] at h
    split at h
    next fits =>
      simp only [Bool.and_eq_true, decide_eq_true_eq] at fits
      obtain ⟨-, rfl⟩ : 0 = o ∧ _ = l' := by simpa using h
      split <;> simp only [total]
      omega
    next =>
      obtain ⟨r, hr, eq⟩ := Option.map_eq_some_iff.mp h
      obtain ⟨-, rfl⟩ : a.size + r.1 = o ∧ a :: r.2 = l' := by simpa using eq
      rw [total, total, ih hr]

theorem firstFit_taken {need room : Nat} {l l' : List Seg} {o : Nat} (base : Nat) (pos : 0 < room)
    (h : firstFit need room l = some (o, l')) :
    ∃ size, need ≤ size ∧ size < need + room ∧
      (taken base l').Perm ((base + o, ⟨size, false⟩) :: taken base l) := by
  induction l generalizing base o l' with
  | nil => simp [firstFit] at h
  | cons a rest ih =>
    rw [firstFit] at h
    split at h
    next fits =>
      simp only [Bool.and_eq_true, decide_eq_true_eq] at fits
      obtain ⟨rfl, rfl⟩ : 0 = o ∧ _ = l' := by simpa using h
      split
      next room =>
        refine ⟨need, le_refl _, by omega, ?_⟩
        have back : base + need + (a.size - need) = base + a.size := by omega
        simp [taken_cons, fits.1, back]
      next small => exact ⟨a.size, fits.2, by omega, by simp [taken_cons, fits.1]⟩
    next =>
      obtain ⟨r, hr, eq⟩ := Option.map_eq_some_iff.mp h
      obtain ⟨rfl, rfl⟩ : a.size + r.1 = o ∧ a :: r.2 = l' := by simpa using eq
      obtain ⟨size, enough, close, perm⟩ := ih (base + a.size) hr
      refine ⟨size, enough, close, ?_⟩
      rw [taken_cons, taken_cons, ← Nat.add_assoc]
      split
      · exact perm
      · exact (perm.cons _).trans (List.Perm.swap _ _ _)

theorem firstFit_size {P : Nat → Prop} {need room : Nat} {l l' : List Seg} {o : Nat}
    (hneed : P need) (hrest : ∀ x, P x → need + room ≤ x → P (x - need))
    (hl : ∀ s ∈ l, P s.size) (h : firstFit need room l = some (o, l')) :
    ∀ s ∈ l', P s.size := by
  induction l generalizing o l' with
  | nil => simp [firstFit] at h
  | cons a rest ih =>
    have ha := hl a (by simp)
    have tail : ∀ s ∈ rest, P s.size := fun s hs => hl s (by simp [hs])
    rw [firstFit] at h
    split at h
    · obtain ⟨-, rfl⟩ : 0 = o ∧ _ = l' := by simpa using h
      split
      next room =>
        intro s hs
        simp only [List.mem_cons] at hs
        rcases hs with rfl | rfl | hs
        · exact hneed
        · exact hrest _ ha room
        · exact tail s hs
      next =>
        intro s hs
        rcases List.mem_cons.mp hs with rfl | hs
        · exact ha
        · exact tail s hs
    · obtain ⟨r, hr, eq⟩ := Option.map_eq_some_iff.mp h
      obtain ⟨-, rfl⟩ : a.size + r.1 = o ∧ a :: r.2 = l' := by simpa using eq
      intro s hs
      rcases List.mem_cons.mp hs with rfl | hs
      · exact ha
      · exact ih tail hr s hs

theorem firstFit_head {need room : Nat} {a : Seg} {rest l' : List Seg} {o : Nat}
    (h : firstFit need room (a :: rest) = some (o, l')) :
    ∃ b t, l' = b :: t ∧ (b.free = true → a.free = true) := by
  rw [firstFit] at h
  split at h
  · obtain ⟨-, rfl⟩ : 0 = o ∧ _ = l' := by simpa using h
    split
    · exact ⟨_, _, rfl, by simp⟩
    · exact ⟨_, _, rfl, by simp⟩
  · obtain ⟨r, -, eq⟩ := Option.map_eq_some_iff.mp h
    obtain ⟨-, rfl⟩ : a.size + r.1 = o ∧ a :: r.2 = l' := by simpa using eq
    exact ⟨_, _, rfl, id⟩

theorem firstFit_separated {need room : Nat} {l l' : List Seg} {o : Nat} (hl : Separated l)
    (h : firstFit need room l = some (o, l')) : Separated l' := by
  induction l generalizing o l' with
  | nil => simp [firstFit] at h
  | cons a rest ih =>
    have tail : Separated rest := hl.tail
    have fit := h
    rw [firstFit] at h
    split at h
    next fits =>
      simp only [Bool.and_eq_true, decide_eq_true_eq] at fits
      obtain ⟨-, rfl⟩ : 0 = o ∧ _ = l' := by simpa using h
      have after : ∀ s : Seg, Separated (s :: rest) ↔ Separated rest ∧
          ∀ b ∈ rest.head?, ¬(s.free = true ∧ b.free = true) := by
        intro s
        cases rest with
        | nil => simp [Separated]
        | cons b t => simp [Separated, List.isChain_cons_cons, and_comm]
      split
      · refine List.isChain_cons_cons.mpr ⟨by simp, ?_⟩
        refine (after ⟨a.size - need, true⟩).mpr ⟨tail, ?_⟩
        have own := ((after a).mp hl).2
        simpa [fits.1] using own
      · exact (after ⟨a.size, false⟩).mpr ⟨tail, by simp⟩
    next =>
      obtain ⟨r, hr, eq⟩ := Option.map_eq_some_iff.mp h
      obtain ⟨-, rfl⟩ : a.size + r.1 = o ∧ a :: r.2 = l' := by simpa using eq
      have inner := ih tail hr
      cases rest with
      | nil => simp [firstFit] at hr
      | cons c rest =>
        obtain ⟨b, t, same, less⟩ := firstFit_head hr
        rw [same] at inner ⊢
        have link := (List.isChain_cons_cons.mp hl).1
        exact List.isChain_cons_cons.mpr ⟨fun both => link ⟨both.1, less both.2⟩, inner⟩

theorem total_release (offset : Nat) (l : List Seg) : total (release offset l) = total l := by
  induction l generalizing offset with
  | nil => rfl
  | cons a rest ih =>
    rw [release]
    split
    · rfl
    · rw [total, total, ih]

theorem release_size {P : Nat → Prop} {offset : Nat} {l : List Seg} (hl : ∀ s ∈ l, P s.size) :
    ∀ s ∈ release offset l, P s.size := by
  induction l generalizing offset with
  | nil => simp [release]
  | cons a rest ih =>
    have tail : ∀ s ∈ rest, P s.size := fun s hs => hl s (by simp [hs])
    rw [release]
    split <;> intro s hs <;> rcases List.mem_cons.mp hs with rfl | hs
    · exact hl a (by simp)
    · exact tail s hs
    · exact hl s (by simp)
    · exact ih tail s hs

theorem release_ne_nil {offset : Nat} {l : List Seg} (h : l ≠ []) : release offset l ≠ [] := by
  cases l with
  | nil => exact absurd rfl h
  | cons a rest =>
    rw [release]
    split <;> simp

theorem release_taken {base offset : Nat} {l : List Seg} {s : Seg}
    (pos : ∀ s ∈ l, 0 < s.size) (h : (base + offset, s) ∈ taken base l) :
    (taken base l).Perm ((base + offset, s) :: taken base (release offset l)) := by
  induction l generalizing base offset with
  | nil => simp at h
  | cons a rest ih =>
    have tail : ∀ s ∈ rest, 0 < s.size := fun s hs => pos s (by simp [hs])
    have grow := pos a (by simp)
    rw [taken_cons] at h ⊢
    rw [release]
    by_cases start : offset = 0
    · subst start
      have past : (base, s) ∉ taken (base + a.size) rest := by
        intro mem
        have lo := (place_bounds (mem_taken.mp mem).1).1
        simp only at lo
        omega
      cases free : a.free
      · simp only [free, Bool.false_eq_true, if_false, List.mem_cons, past, or_false,
          Nat.add_zero, Prod.mk.injEq, true_and] at h
        subst h
        simp [taken_cons]
      · simp only [free, if_true] at h
        exact absurd h past
    · have inner : (base + offset, s) ∈ taken (base + a.size) rest := by
        cases free : a.free
        · simp only [free, Bool.false_eq_true, if_false, List.mem_cons, Prod.mk.injEq] at h
          exact h.resolve_left (fun both => start (by omega))
        · simpa [free] using h
      have lo := (place_bounds (mem_taken.mp inner).1).1
      simp only at lo
      have shift : base + offset = base + a.size + (offset - a.size) := by omega
      rw [shift] at inner
      have perm := ih tail inner
      rw [← shift] at perm
      rw [if_neg start, taken_cons]
      split
      · exact perm
      · exact (perm.cons _).trans (List.Perm.swap _ _ _)

theorem single_of_taken_nil {base : Nat} {l : List Seg} (hl : Separated l) (ne : l ≠ [])
    (none : taken base l = []) : l = [⟨total l, true⟩] := by
  cases l with
  | nil => exact absurd rfl ne
  | cons a rest =>
    have free : a.free = true := by
      by_contra h
      simp [taken_cons, h] at none
    cases rest with
    | nil =>
      cases a
      simp_all [total]
    | cons b t =>
      exfalso
      have link := (List.isChain_cons_cons.mp hl).1
      simp only [taken_cons, free, if_true] at none
      split at none
      next bfree => exact link ⟨free, bfree⟩
      next => simp at none

section Determined

variable {base : Nat} {a a' : Seg} {rest rest' : List Seg}

theorem taken_low {l : List Seg} {x : Nat × Seg} (h : x ∈ taken base l) : base ≤ x.1 :=
  (place_bounds (mem_taken.mp h).1).1

theorem mem_taken_rest (pos : 0 < a.size) (x : Nat × Seg) :
    x ∈ taken (base + a.size) rest ↔ x ∈ taken base (a :: rest) ∧ x ≠ (base, a) := by
  have behind : x ∈ taken (base + a.size) rest → x ≠ (base, a) := by
    rintro there rfl
    have low := taken_low there
    simp only at low
    omega
  rw [taken_cons]
  split
  · exact ⟨fun there => ⟨there, behind there⟩, fun both => both.1⟩
  · rw [List.mem_cons]
    exact ⟨fun there => ⟨Or.inr there, behind there⟩, fun both => both.1.resolve_left both.2⟩

theorem free_head_le (free : a.free = true) (free' : a'.free = true) (separated : Separated (a :: rest))
    (same : ∀ x, x ∈ taken base (a :: rest) → x ∈ taken base (a' :: rest'))
    (length : total (a :: rest) = total (a' :: rest')) : a'.size ≤ a.size := by
  cases rest with
  | nil =>
    simp only [total] at length
    omega
  | cons b rest =>
    have busy : ¬b.free = true := fun both => (List.isChain_cons_cons.mp separated).1 ⟨free, both⟩
    have there := same (base + a.size, b) (by simp [taken_cons, free, busy])
    rw [taken_cons, if_pos free'] at there
    have low := taken_low there
    simp only at low
    omega

theorem head_eq (pos : 0 < a.size) (pos' : 0 < a'.size) (separated : Separated (a :: rest))
    (separated' : Separated (a' :: rest')) (same : ∀ x, x ∈ taken base (a :: rest) ↔ x ∈ taken base (a' :: rest'))
    (length : total (a :: rest) = total (a' :: rest')) : a = a' := by
  -- A taken segment at the base is the first one.
  have first : ∀ {a b : Seg} {rest : List Seg}, 0 < b.size → (base, a) ∈ taken base (b :: rest) → a = b := by
    intro a b rest pos there
    by_contra other
    have behind := (mem_taken_rest pos (base, a)).mpr ⟨there, fun eq => other (Prod.mk.inj eq).2⟩
    have low := taken_low behind
    simp only at low
    omega
  cases free : a.free with
  | false => exact first pos' ((same _).mp (by simp [taken_cons, free]))
  | true =>
    cases free' : a'.free with
    | false => exact (first pos ((same _).mpr (by simp [taken_cons, free']))).symm
    | true =>
      have le := free_head_le free free' separated (fun x => (same x).mp) length
      have ge := free_head_le free' free separated' (fun x => (same x).mpr) length.symm
      obtain ⟨size, tag⟩ := a
      obtain ⟨size', tag'⟩ := a'
      rw [Seg.mk.injEq]
      exact ⟨Nat.le_antisymm ge le, free.trans free'.symm⟩

theorem eq_of_taken {l l' : List Seg} (separated : Separated l) (separated' : Separated l')
    (pos : ∀ s ∈ l, 0 < s.size) (pos' : ∀ s ∈ l', 0 < s.size) (same : ∀ x, x ∈ taken base l ↔ x ∈ taken base l')
    (length : total l = total l') : l = l' := by
  induction l generalizing base l' with
  | nil =>
    cases l' with
    | nil => rfl
    | cons a' rest' =>
      have some := pos' a' List.mem_cons_self
      simp only [total] at length
      omega
  | cons a rest ih =>
    cases l' with
    | nil =>
      have some := pos a List.mem_cons_self
      simp only [total] at length
      omega
    | cons a' rest' =>
      have some := pos a List.mem_cons_self
      obtain rfl := head_eq some (pos' a' List.mem_cons_self) separated separated' same length
      have behind : ∀ x, x ∈ taken (base + a.size) rest ↔ x ∈ taken (base + a.size) rest' := by
        intro x
        rw [mem_taken_rest some, mem_taken_rest some, same]
      have tail' : Separated rest' := separated'.tail
      rw [ih separated.tail tail' (fun s inside => pos s (List.mem_cons_of_mem _ inside))
        (fun s inside => pos' s (List.mem_cons_of_mem _ inside)) behind (Nat.add_left_cancel length)]

end Determined

section Stretches

variable {base need room : Nat} {l : List Seg}

theorem free_le_taken {l : List Seg} (separated : Separated l) :
    l.countP (·.free) ≤ l.countP (!·.free) + if l.head?.any (·.free) then 1 else 0 := by
  induction l with
  | nil => exact Nat.zero_le _
  | cons a rest ih =>
    have rest_le := ih separated.tail
    rw [List.countP_cons, List.countP_cons]
    cases free : a.free with
    | false =>
      simp only [List.head?_cons, Option.any_some, free]
      split at rest_le <;> simp <;> omega
    | true =>
      have alone : rest.head?.any (·.free) = false := by
        cases rest with
        | nil => rfl
        | cons b rest =>
          have apart := (List.isChain_cons_cons.mp separated).1
          simpa [free] using apart
      simp only [alone, List.head?_cons, Option.any_some, free] at rest_le ⊢
      simpa using rest_le

def Covered (base : Nat) (l : List Seg) (x : Nat) : Prop := ∃ y ∈ taken base l, y.1 ≤ x ∧ x < y.1 + y.2.size

/-- The `n` addresses from `a` on are in no taken segment, and there are no more of them
on either side. -/
structure Stretch (base : Nat) (l : List Seg) (a n : Nat) : Prop where
  pos : 0 < n
  low : base ≤ a
  high : a + n ≤ base + total l
  clear : ∀ x, a ≤ x → x < a + n → ¬Covered base l x
  left : a = base ∨ Covered base l (a - 1)
  right : a + n = base + total l ∨ Covered base l (a + n)

theorem place_cover {x : Nat} (low : base ≤ x) (high : x < base + total l) :
    ∃ y ∈ place base l, y.1 ≤ x ∧ x < y.1 + y.2.size := by
  induction l generalizing base with
  | nil =>
    rw [total] at high
    omega
  | cons s rest ih =>
    rw [total] at high
    by_cases here : x < base + s.size
    · exact ⟨(base, s), List.mem_cons_self, low, here⟩
    · obtain ⟨y, mem, bounds⟩ := ih (show base + s.size ≤ x by omega) (by omega)
      exact ⟨y, List.mem_cons_of_mem _ mem, bounds⟩

theorem place_separated (separated : Separated l) (pos : ∀ s ∈ l, 0 < s.size) {x y : Nat × Seg}
    (hx : x ∈ place base l) (hy : y ∈ place base l) (adjacent : x.1 + x.2.size = y.1) :
    ¬(x.2.free = true ∧ y.2.free = true) := by
  induction l generalizing base with
  | nil => simp [place] at hx
  | cons s rest ih =>
    have own := pos s (by simp)
    have tail : ∀ s ∈ rest, 0 < s.size := fun s hs => pos s (by simp [hs])
    rcases List.mem_cons.mp hx with rfl | hx
    · rcases List.mem_cons.mp hy with rfl | hy
      · simp only at adjacent
        omega
      · cases rest with
        | nil => simp [place] at hy
        | cons t rest =>
          have next := tail t (by simp)
          rcases List.mem_cons.mp hy with rfl | hy
          · exact (List.isChain_cons_cons.mp separated).1
          · have low := (place_bounds hy).1
            simp only at adjacent
            omega
    · rcases List.mem_cons.mp hy with rfl | hy
      · have low := (place_bounds hx).1
        simp only at adjacent
        omega
      · exact ih separated.tail tail hx hy

theorem covered_of_taken {x : Nat} {y : Nat × Seg} (mem : y ∈ place base l) (busy : ¬y.2.free = true)
    (low : y.1 ≤ x) (high : x < y.1 + y.2.size) : Covered base l x :=
  ⟨y, mem_taken.mpr ⟨mem, by simpa using busy⟩, low, high⟩

theorem not_covered_of_free {x : Nat} {y : Nat × Seg} (mem : y ∈ place base l) (free : y.2.free = true)
    (low : y.1 ≤ x) (high : x < y.1 + y.2.size) : ¬Covered base l x := by
  rintro ⟨z, there, low', high'⟩
  obtain ⟨mem', busy⟩ := mem_taken.mp there
  rcases place_eq_or_apart mem mem' with rfl | before | behind
  · rw [free] at busy
    exact Bool.noConfusion busy
  · omega
  · omega

theorem stretch_iff (separated : Separated l) (pos : ∀ s ∈ l, 0 < s.size) {a n : Nat} :
    Stretch base l a n ↔ (a, ⟨n, true⟩) ∈ place base l := by
  constructor
  · intro h
    obtain ⟨y, mem, low, high⟩ := place_cover h.low (Nat.lt_of_lt_of_le (Nat.lt_add_of_pos_right h.pos) h.high)
    have free : y.2.free = true := by
      by_contra busy
      exact h.clear a (Nat.le_refl a) (Nat.lt_add_of_pos_right h.pos) (covered_of_taken mem busy low high)
    have first : y.1 = a := by
      by_contra other
      rcases h.left with start | before
      · have low' := (place_bounds mem).1
        omega
      · exact not_covered_of_free mem free (by omega) (by omega) before
    have last : y.2.size = n := by
      rcases Nat.lt_trichotomy y.2.size n with short | same | long
      · -- Behind `y` is a neighbour, and it is not free.
        have bound := h.high
        obtain ⟨z, mem', low', high'⟩ := place_cover (show base ≤ a + y.2.size by have := h.low; omega)
          (show a + y.2.size < base + total l by omega)
        have next : y.1 + y.2.size = z.1 := by
          rcases place_eq_or_apart mem mem' with rfl | before | behind <;> omega
        have busy : ¬z.2.free = true := fun both => place_separated separated pos mem mem' next ⟨free, both⟩
        exact absurd (covered_of_taken mem' busy low' high') (h.clear _ (by omega) (by omega))
      · exact same
      · rcases h.right with ends | covered
        · have bound := (place_bounds mem).2.1
          omega
        · exact absurd covered (not_covered_of_free mem free (by omega) (by omega))
    have same : y = (a, ⟨n, true⟩) := by
      obtain ⟨start, ⟨size, tag⟩⟩ := y
      simp only at first last free
      rw [first, last, free]
    exact same ▸ mem
  · intro mem
    obtain ⟨low, high, inside⟩ := place_bounds mem
    have size := pos _ inside
    simp only at low high size
    refine ⟨size, low, high, fun x => not_covered_of_free mem rfl, ?_, ?_⟩
    · by_cases start : a = base
      · exact Or.inl start
      · right
        obtain ⟨z, mem', low', high'⟩ := place_cover (show base ≤ a - 1 by omega)
          (show a - 1 < base + total l by omega)
        have next : z.1 + z.2.size = a := by
          rcases place_eq_or_apart mem mem' with rfl | before | behind
          · simp only at low'
            omega
          · simp only at before
            omega
          · simp only at behind
            omega
        have busy : ¬z.2.free = true := fun both => place_separated separated pos mem' mem next ⟨both, rfl⟩
        exact covered_of_taken mem' busy low' high'
    · by_cases ends : a + n = base + total l
      · exact Or.inl ends
      · right
        obtain ⟨z, mem', low', high'⟩ := place_cover (show base ≤ a + n by omega)
          (show a + n < base + total l by omega)
        have next : a + n = z.1 := by
          rcases place_eq_or_apart mem mem' with rfl | before | behind
          · simp only at high'
            omega
          · simp only at before
            omega
          · simp only at behind
            omega
        have busy : ¬z.2.free = true := fun both => place_separated separated pos mem mem' next ⟨rfl, both⟩
        exact covered_of_taken mem' busy low' high'

theorem free_cover (separated : Separated l) (pos : ∀ s ∈ l, 0 < s.size) {a n : Nat} (some : 0 < n)
    (low : base ≤ a) (high : a + n ≤ base + total l) (clear : ∀ x, a ≤ x → x < a + n → ¬Covered base l x) :
    ∃ y ∈ place base l, y.2.free = true ∧ y.1 ≤ a ∧ a + n ≤ y.1 + y.2.size := by
  obtain ⟨y, mem, start, inside⟩ := place_cover low (Nat.lt_of_lt_of_le (Nat.lt_add_of_pos_right some) high)
  have free : y.2.free = true := by
    by_contra busy
    exact clear a (Nat.le_refl a) (Nat.lt_add_of_pos_right some) (covered_of_taken mem busy start inside)
  refine ⟨y, mem, free, start, ?_⟩
  by_contra short
  obtain ⟨z, mem', start', inside'⟩ := place_cover (show base ≤ y.1 + y.2.size by omega)
    (show y.1 + y.2.size < base + total l by omega)
  have next : y.1 + y.2.size = z.1 := by
    rcases place_eq_or_apart mem mem' with rfl | before | behind <;> omega
  have busy : ¬z.2.free = true := fun both => place_separated separated pos mem mem' next ⟨free, both⟩
  exact clear _ (by omega) (by omega) (covered_of_taken mem' busy start' inside')

theorem firstFit_none_iff : firstFit need room l = none ↔ ∀ s ∈ l, s.free = true → s.size < need := by
  induction l with
  | nil => simp [firstFit]
  | cons a rest ih =>
    rw [firstFit, List.forall_mem_cons]
    split
    next fits =>
      simp only [Bool.and_eq_true, decide_eq_true_eq] at fits
      simp only [reduceCtorEq, false_iff, not_and]
      intro small
      exact absurd (small fits.1) (Nat.not_lt.mpr fits.2)
    next skip =>
      simp only [Bool.and_eq_true, decide_eq_true_eq, not_and, not_le] at skip
      rw [Option.map_eq_none_iff, ih]
      exact ⟨fun rest => ⟨skip, rest⟩, fun both => both.2⟩

/-- First fit takes the lowest free segment that is large enough. -/
theorem firstFit_lowest {b o : Nat} {l' : List Seg} (h : firstFit need room l = some (o, l')) :
    ∃ s, (b + o, s) ∈ place b l ∧ s.free = true ∧ need ≤ s.size ∧
      ∀ y ∈ place b l, y.2.free = true → need ≤ y.2.size → b + o ≤ y.1 := by
  induction l generalizing b o l' with
  | nil => simp [firstFit] at h
  | cons a rest ih =>
    rw [firstFit] at h
    split at h
    next fits =>
      simp only [Bool.and_eq_true, decide_eq_true_eq] at fits
      obtain ⟨rfl, -⟩ : 0 = o ∧ _ = l' := by simpa using h
      exact ⟨a, List.mem_cons_self, fits.1, fits.2, fun y mem _ _ => (place_bounds mem).1⟩
    next skip =>
      simp only [Bool.and_eq_true, decide_eq_true_eq, not_and, not_le] at skip
      obtain ⟨r, hr, eq⟩ := Option.map_eq_some_iff.mp h
      obtain ⟨rfl, -⟩ : a.size + r.1 = o ∧ a :: r.2 = l' := by simpa using eq
      obtain ⟨s, mem, free, enough, lowest⟩ := ih (b := b + a.size) hr
      rw [Nat.add_assoc] at mem lowest
      refine ⟨s, List.mem_cons_of_mem _ mem, free, enough, fun y there tag large => ?_⟩
      rcases List.mem_cons.mp there with rfl | there
      · have small := skip tag
        simp only at large
        omega
      · exact lowest y there tag large

end Stretches

end Wittche.Segments
