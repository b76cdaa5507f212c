import Mathlib.Data.List.DropRight
import Mathlib.Data.List.TakeWhile

/-! Lists as lines of words. The words of a line are its longest runs without a separator;
a line is trimmed by dropping what it begins and ends with. -/

namespace Wittche.Words

section Splitting

variable {α : Type}

theorem dropWhile_head (p : α → Bool) (l : List α) : ∀ c ∈ (l.dropWhile p).head?, p c = false := by
  intro c first
  have some : l.dropWhile p ≠ [] := fun none => by rw [none] at first; cases first
  rw [List.head?_eq_some_head some] at first
  obtain rfl := Option.some.inj first
  exact List.head_dropWhile_not p some

variable [DecidableEq α]

/-- The longest runs without `a`, in order. -/
def words (a : α) (l : List α) : List (List α) := (l.splitOn a).filter (· ≠ [])

variable {a : α} {w : List α}

@[simp] theorem words_nil (a : α) : words a [] = [] := by
  simp [words, List.splitOn_eq_splitOnP]

theorem words_separator (a : α) (l : List α) : words a (a :: l) = words a l := by
  rw [words, ← List.nil_append (a :: l), List.splitOn_append_cons_self_of_not_mem List.not_mem_nil]
  exact List.filter_cons_of_neg (by simp)

theorem words_single (some : w ≠ []) (free : a ∉ w) : words a w = [w] := by
  rw [words, List.splitOn_eq_singleton free]
  simp [some]

theorem words_run (some : w ≠ []) (free : a ∉ w) (l : List α) : words a (w ++ a :: l) = w :: words a l := by
  rw [words, List.splitOn_append_cons_self_of_not_mem free]
  exact List.filter_cons_of_pos (by simpa using some)

theorem words_dropWhile (a : α) (l : List α) : words a (l.dropWhile (· = a)) = words a l := by
  induction l with
  | nil => rfl
  | cons c l ih =>
    by_cases same : c = a
    · rw [List.dropWhile_cons, if_pos (by simpa using same), ih, same, words_separator]
    · rw [List.dropWhile_cons, if_neg (by simpa using same)]

theorem words_cases (a : α) (l : List α) : (∀ c ∈ l, c = a) ∧ words a l = [] ∨
    ∃ u w v, l = u ++ (w ++ v) ∧ (∀ c ∈ u, c = a) ∧ w ≠ [] ∧ a ∉ w ∧ (∀ c ∈ v.head?, c = a) ∧
      words a l = w :: words a v := by
  have front : ∀ c ∈ l.takeWhile (· = a), c = a := fun c mem => by simpa using List.mem_takeWhile_imp mem
  rw [← words_dropWhile a l]
  cases shape : l.dropWhile (· = a) with
  | nil =>
    refine Or.inl ⟨fun c mem => front c ?_, words_nil a⟩
    rwa [← List.takeWhile_append_dropWhile (p := (· = a)) (l := l), shape, List.append_nil] at mem
  | cons c r =>
    have first : c ≠ a := by simpa using dropWhile_head (· = a) l c (by rw [shape]; rfl)
    have some : (c :: r).takeWhile (· ≠ a) ≠ [] := by simp [first]
    have free : a ∉ (c :: r).takeWhile (· ≠ a) := fun mem => by simpa using List.mem_takeWhile_imp mem
    have ends := dropWhile_head (· ≠ a) (c :: r)
    have split := List.takeWhile_append_dropWhile (p := (· ≠ a)) (l := c :: r)
    refine Or.inr ⟨l.takeWhile (· = a), (c :: r).takeWhile (· ≠ a), (c :: r).dropWhile (· ≠ a), ?_, front, some, free,
      fun d mem => by simpa using ends d mem, ?_⟩
    · rw [split, ← shape, List.takeWhile_append_dropWhile]
    · nth_rewrite 1 [← split]
      cases tail : (c :: r).dropWhile (· ≠ a) with
      | nil => rw [List.append_nil, words_single some free, words_nil]
      | cons d v =>
        obtain rfl : d = a := by simpa using ends d (by rw [tail]; rfl)
        rw [words_run some free, words_separator]

theorem words_front {l : List α} (some : l ≠ []) (front : ∀ c ∈ l.head?, c ≠ a) :
    ∃ w v, l = w ++ v ∧ w ≠ [] ∧ a ∉ w ∧ (∀ c ∈ v.head?, c = a) ∧ words a l = w :: words a v := by
  obtain ⟨c, t, rfl⟩ := List.exists_cons_of_ne_nil some
  have plain : c ≠ a := front c rfl
  rcases words_cases a (c :: t) with ⟨separators, -⟩ | ⟨u, w, v, shape, separators, word, free, ends, first⟩
  · exact absurd (separators c List.mem_cons_self) plain
  · cases u with
    | nil => exact ⟨w, v, shape, word, free, ends, first⟩
    | cons d u =>
      obtain ⟨rfl, -⟩ := List.cons.inj shape
      exact absurd (separators c List.mem_cons_self) plain

end Splitting

section Trimming

variable {α : Type} {p : α → Bool} {l : List α}

/-- What is left without the elements with `p` at both ends. -/
def trim (p : α → Bool) (l : List α) : List α := (l.dropWhile p).rdropWhile p

theorem trim_eq_self (front : ∀ c ∈ l.head?, p c = false) (back : ∀ c ∈ l.getLast?, p c = false) : trim p l = l := by
  have whole : l.dropWhile p = l := by
    cases l with
    | nil => rfl
    | cons c l => rw [List.dropWhile_cons, if_neg (by simp [front c rfl])]
  rw [trim, whole, List.rdropWhile_eq_self_iff]
  intro some
  have last := back _ (List.getLast?_eq_some_getLast some)
  simp [last]

theorem trim_part (p : α → Bool) (l : List α) : trim p l <:+: l :=
  (List.rdropWhile_prefix p _).isInfix.trans (List.dropWhile_suffix p).isInfix

theorem trim_head (p : α → Bool) (l : List α) : ∀ c ∈ (trim p l).head?, p c = false := by
  intro c front
  obtain ⟨rest, eq⟩ : trim p l <+: l.dropWhile p := List.rdropWhile_prefix p _
  refine dropWhile_head p l c ?_
  rw [← eq, List.head?_append, Option.mem_def.mp front]
  rfl

theorem takeWhile_trim (p : α → Bool) (l : List α) : (trim p l).takeWhile p = [] := by
  cases shape : trim p l with
  | nil => rfl
  | cons c t =>
    have plain := trim_head p l c (by rw [shape]; rfl)
    rw [List.takeWhile_cons, if_neg (by simp [plain])]

theorem trim_last (p : α → Bool) (l : List α) : ∀ c ∈ (trim p l).getLast?, p c = false := by
  intro c back
  have some : trim p l ≠ [] := by
    intro none
    rw [none] at back
    cases back
  have last := List.rdropWhile_last_not p (l.dropWhile p) some
  rw [List.getLast?_eq_some_getLast some] at back
  obtain rfl := Option.some.inj back
  exact Bool.eq_false_iff.mpr last

theorem trim_trim (p : α → Bool) (l : List α) : trim p (trim p l) = trim p l :=
  trim_eq_self (trim_head p l) (trim_last p l)

end Trimming

end Wittche.Words
