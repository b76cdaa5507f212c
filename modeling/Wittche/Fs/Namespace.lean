import Mathlib.Data.Set.Finite.Basic
import Mathlib.Data.Finite.Defs
import Wittche.Fs.Runs

/-! The root directory as a finite map from names to inode numbers.
The map is what the live entries say; the public functions look names up in it, add
a key, remove a key and list it. -/

namespace Wittche.Fs
open Bytes CString Execution

def nameFrom (p : Buffer) : (n k : Nat) → List Byte
  | 0, _ => []
  | n + 1, k => if p k = 0 then [] else p k :: nameFrom p n (k + 1)

def nameOf (p : Buffer) : List Byte := nameFrom p FS_MAX_FILENAME 0

theorem nameFrom_congr {p q : Buffer} {n k : Nat} (same : ∀ i, k ≤ i → i < k + n → p i = q i) :
    nameFrom p n k = nameFrom q n k := by
  induction n generalizing k with
  | zero => rfl
  | succ n ih =>
    rw [nameFrom, nameFrom, same k (Nat.le_refl k) (by omega), ih fun i lo hi => same i (by omega) (by omega)]

theorem all_le_succ {P : Nat → Prop} {n : Nat} : (∀ i ≤ n + 1, P i) ↔ P 0 ∧ ∀ i ≤ n, P (i + 1) := by
  constructor
  · exact fun h => ⟨h 0 (Nat.zero_le _), fun i hi => h (i + 1) (by omega)⟩
  · rintro ⟨first, rest⟩ i hi
    cases i with
    | zero => exact first
    | succ i => exact rest i (by omega)

theorem nameFrom_eq_iff {p : Buffer} {n k : Nat} {chars : List Byte} (stop : p (k + n) = 0)
    (noNul : 0 ∉ chars) : nameFrom p n k = chars ↔ ∀ i ≤ chars.length, p (k + i) = chars.getD i 0 := by
  -- At a NUL the name ends, whatever the bound is.
  have ended : ∀ {k : Nat} {chars : List Byte}, 0 ∉ chars → p k = 0 →
      ([] = chars ↔ ∀ i ≤ chars.length, p (k + i) = chars.getD i 0) := by
    intro k chars noNul zero
    cases chars with
    | nil => simp [zero]
    | cons c rest =>
      rw [List.length_cons, all_le_succ, Nat.add_zero, zero]
      simp only [reduceCtorEq, false_iff, not_and]
      intro first
      exact absurd (show c = 0 from first.symm) fun h => noNul (by simp [h])
  induction n generalizing k chars with
  | zero => exact ended noNul stop
  | succ n ih =>
    rw [nameFrom]
    split
    next zero => exact ended noNul zero
    next nonzero =>
      cases chars with
      | nil =>
        simp only [reduceCtorEq, false_iff]
        exact fun h => nonzero (h 0 (Nat.le_refl 0))
      | cons c rest =>
        have tail : 0 ∉ rest := fun h => noNul (List.mem_cons_of_mem _ h)
        have stop' : p (k + 1 + n) = 0 := by
          rw [show k + 1 + n = k + (n + 1) by omega]
          exact stop
        have shift : ∀ i, k + 1 + i = k + (i + 1) := fun i => by omega
        have rest_iff := ih stop' tail
        simp only [shift] at rest_iff
        rw [List.cons.injEq, List.length_cons, all_le_succ]
        simp only [Nat.add_zero, List.getD_cons_zero, List.getD_cons_succ]
        exact and_congr_right fun _ => rest_iff

theorem nameOf_eq_iff {p : Buffer} (stop : p FS_MAX_FILENAME = 0) (name : CStr) :
    nameOf p = name.chars ↔ ∀ i ≤ name.length, p i = name.get i := by
  rw [nameOf, nameFrom_eq_iff (by rw [Nat.zero_add]; exact stop) name.noNul]
  simp only [Nat.zero_add, CStr.length, CStr.get]

def View.entChars (V : View) (e : Nat) : List Byte := nameOf (V.entName e)

def View.entries (V : View) : Set (List Byte × Nat) :=
  {pair | pair.2 ≠ 0 ∧ ∃ e, V.ent e = pair.2 ∧ V.entChars e = pair.1}

/-- `M` is the map that the live entries make up. -/
def Represents (V : View) (M : List Byte → Option Nat) : Prop :=
  ∀ name n, M name = some n ↔ n ≠ 0 ∧ ∃ e, V.ent e = n ∧ V.entChars e = name

section

variable {V W : View} {M : List Byte → Option Nat} {ib db : Buffer} {hi hb : Nat → Prop}

theorem entChars_congr {e : Nat} (same : ∀ c < 28, W.entName e c = V.entName e c) :
    W.entChars e = V.entChars e := by
  refine nameFrom_congr fun i _ hi => same i ?_
  simp only [FS_MAX_FILENAME] at hi
  omega

theorem entries_congr (same : ∀ e, W.ent e = V.ent e ∧ (V.ent e ≠ 0 → W.entName e = V.entName e)) :
    W.entries = V.entries := by
  ext ⟨name, n⟩
  refine and_congr_right fun live => exists_congr fun e => ?_
  rw [(same e).1]
  refine and_congr_right fun entry => ?_
  rw [View.entChars, View.entChars, (same e).2 (by rw [entry]; exact live)]

theorem SameFile.entries (same : SameFile V W 0) : W.entries = V.entries := entries_congr same.ents

theorem mem_entries {e : Nat} (live : V.ent e ≠ 0) : (V.entChars e, V.ent e) ∈ V.entries :=
  ⟨live, e, rfl, rfl⟩

theorem Created.others {e n a : Nat} {name : CStr} (made : Created V W e name n) (ne : a ≠ e) :
    W.ent a = V.ent a ∧ (V.ent a ≠ 0 → W.entChars a = V.entChars a) :=
  ⟨by rw [made.ents, if_neg ne], fun live => entChars_congr (made.names a ne live)⟩

theorem Created.entries {e n : Nat} {name : CStr} (made : Created V W e name n) :
    (W.entChars e, n) ∉ V.entries ∧ W.entries = insert (W.entChars e, n) V.entries := by
  have nonzero : n ≠ 0 := fun zero => made.fresh (Or.inl zero)
  have here : W.ent e = n := by rw [made.ents, if_pos rfl]
  refine ⟨fun ⟨_, a, entry, _⟩ => made.fresh (Or.inr ⟨a, entry⟩), ?_⟩
  ext ⟨chars, m⟩
  rw [Set.mem_insert_iff, Prod.mk.injEq]
  constructor
  · rintro ⟨live, a, entry, same⟩
    by_cases mine : a = e
    · subst mine
      exact Or.inl ⟨same.symm, entry.symm.trans here⟩
    · obtain ⟨ent, old⟩ := made.others mine
      rw [ent] at entry
      exact Or.inr ⟨live, a, entry, (old (by rw [entry]; exact live)).symm.trans same⟩
  · rintro (⟨rfl, rfl⟩ | ⟨live, a, entry, same⟩)
    · exact ⟨nonzero, e, here, rfl⟩
    · have mine : a ≠ e := by
        rintro rfl
        exact live (entry.symm.trans made.unused)
      obtain ⟨ent, old⟩ := made.others mine
      exact ⟨live, a, ent.trans entry, (old (by rw [entry]; exact live)).trans same⟩

theorem SetEntry.entries {e : Nat} (set : SetEntry V W e 0) (c : Consistent V ib db hi hb)
    (live : V.ent e ≠ 0) :
    (V.entChars e, V.ent e) ∈ V.entries ∧ W.entries = V.entries \ {(V.entChars e, V.ent e)} := by
  have others : ∀ a, a ≠ e → W.ent a = V.ent a ∧ (V.ent a ≠ 0 → W.entChars a = V.entChars a) := by
    intro a ne
    exact ⟨by rw [set.ents, if_neg ne], fun live => entChars_congr (set.names a ne live)⟩
  have gone : W.ent e = 0 := by rw [set.ents, if_pos rfl]
  refine ⟨mem_entries live, ?_⟩
  ext ⟨chars, m⟩
  rw [Set.mem_sdiff, Set.mem_singleton_iff, Prod.mk.injEq]
  constructor
  · rintro ⟨nonzero, a, entry, same⟩
    have mine : a ≠ e := by
      rintro rfl
      exact nonzero (entry.symm.trans gone)
    obtain ⟨ent, old⟩ := others a mine
    rw [ent] at entry
    refine ⟨⟨nonzero, a, entry, (old (by rw [entry]; exact nonzero)).symm.trans same⟩, fun clash => mine ?_⟩
    exact (c.entInj e a live (clash.2.symm.trans entry.symm)).symm
  · rintro ⟨⟨nonzero, a, entry, same⟩, other⟩
    have mine : a ≠ e := by
      rintro rfl
      exact other ⟨same.symm, entry.symm⟩
    obtain ⟨ent, old⟩ := others a mine
    exact ⟨nonzero, a, ent.trans entry, (old (by rw [entry]; exact nonzero)).trans same⟩

theorem match_iff (c : Consistent V ib db hi hb) (name : CStr) (e : Nat) :
    V.Match name e ↔ V.ent e ≠ 0 ∧ V.entChars e = name.chars := by
  constructor
  · rintro ⟨live, same⟩
    exact ⟨live, (nameOf_eq_iff (c.named e live) name).mpr same⟩
  · rintro ⟨live, same⟩
    exact ⟨live, (nameOf_eq_iff (c.named e live) name).mp same⟩

theorem Represents.live (h : Represents V M) {e : Nat} (live : V.ent e ≠ 0) :
    M (V.entChars e) = some (V.ent e) := (h _ _).mpr ⟨live, e, rfl, rfl⟩

theorem Represents.owner (h : Represents V M) {name : List Byte} {n : Nat} (key : M name = some n) :
    V.Owner n := by
  obtain ⟨-, e, entry, -⟩ := (h name n).mp key
  exact Or.inr ⟨e, entry⟩

theorem Represents.find (h : Represents V M) (c : Consistent V ib db hi hb) (name : CStr) :
    (V.find name).map V.ent = M name.chars := by
  cases found : V.find name with
  | none =>
    rw [Option.map_none, eq_comm, Option.eq_none_iff_forall_ne_some]
    intro n key
    obtain ⟨nonzero, e, rfl, chars⟩ := (h _ _).mp key
    have miss := Scan.firstFrom_none.mp found e (Nat.zero_le e) (by have := ent_lt nonzero; omega)
    exact of_decide_eq_false miss ((match_iff c name e).mpr ⟨nonzero, chars⟩)
  | some e =>
    obtain ⟨live, chars⟩ := (match_iff c name e).mp (of_decide_eq_true (Scan.firstFrom_some found).2.2.1)
    rw [Option.map_some, ← chars, h.live live]

theorem Represents.finite (h : Represents V M) : {name | M name ≠ none}.Finite := by
  refine (Set.Finite.image V.entChars (Set.finite_lt_nat 160)).subset ?_
  intro name key
  obtain ⟨n, eq⟩ := Option.ne_none_iff_exists'.mp key
  obtain ⟨nonzero, e, rfl, chars⟩ := (h _ _).mp eq
  exact ⟨e, ent_lt nonzero, chars⟩

theorem Represents.congr (h : Represents V M)
    (same : ∀ e, W.ent e = V.ent e ∧ (V.ent e ≠ 0 → W.entName e = V.entName e)) : Represents W M := by
  intro name n
  change _ ↔ (name, n) ∈ W.entries
  rw [h name n, entries_congr same]
  rfl

theorem Created.chars {e n : Nat} {name : CStr} (made : Created V W e name n)
    (short : name.length ≤ FS_MAX_FILENAME) : W.entChars e = name.chars := by
  refine (nameOf_eq_iff made.stop name).mpr fun i hi => ?_
  by_cases last : i = 27
  · have none : name.chars.length ≤ 27 := by
      rw [← CStr.length]
      exact short
    rw [last, made.stop, CStr.get, List.getD_eq_getElem?_getD, List.getElem?_eq_none none, Option.getD_none]
  · exact made.name i (by simp only [FS_MAX_FILENAME] at short; omega)

theorem Represents.created (h : Represents V M) {e n : Nat} {name : CStr} (made : Created V W e name n)
    (short : name.length ≤ FS_MAX_FILENAME) (absent : M name.chars = none) :
    (∀ key, M key ≠ some n) ∧ Represents W (Function.update M name.chars (some n)) := by
  have chars := made.chars short
  refine ⟨fun key eq => ?_, fun key m => ?_⟩
  · obtain ⟨-, a, entry, -⟩ := (h _ _).mp eq
    exact made.fresh (Or.inr ⟨a, entry⟩)
  · change _ ↔ (key, m) ∈ W.entries
    rw [made.entries.2, chars, Set.mem_insert_iff, Prod.mk.injEq, Function.update_apply]
    split
    next here =>
      have unnamed : (name.chars, m) ∉ V.entries := by
        intro old
        rw [(h _ _).mpr old] at absent
        exact absurd absent (by simp)
      rw [here, Option.some.injEq, eq_comm]
      simp [unnamed]
    next other =>
      rw [h key m]
      simp only [other, false_and, false_or]
      rfl

theorem Represents.removed (h : Represents V M) (c : Consistent V ib db hi hb) {e : Nat}
    (set : SetEntry V W e 0) (live : V.ent e ≠ 0) :
    Represents W (Function.update M (V.entChars e) none) := by
  intro key m
  change _ ↔ (key, m) ∈ W.entries
  rw [(set.entries c live).2, Set.mem_sdiff, Set.mem_singleton_iff, Prod.mk.injEq, Function.update_apply]
  split
  next here =>
    have only : (V.entChars e, m) ∈ V.entries → m = V.ent e := by
      intro old
      have mapped := (h _ _).mpr old
      rw [h.live live, Option.some.injEq] at mapped
      exact mapped.symm
    subst here
    refine iff_of_false (by simp) fun old => old.2 ⟨rfl, only old.1⟩
  next other =>
    rw [h key m]
    simp only [other, false_and, not_false_eq_true, and_true]
    rfl

end

section Readdir

/-- Name and inode number of an entry as `fs_readdir` returns it. -/
def Dirent.pair (d : Dirent) : List Byte × Nat :=
  (nameOf fun j => if h : j < 28 then d.name ⟨j, h⟩ else 0, d.inode.toNat)

/-- Name and inode number of the live entries among `n` from `e` on. -/
def View.pairs (V : View) (n e : Nat) : List (List Byte × Nat) :=
  ((List.range' e n).filter fun a => decide (V.ent a ≠ 0)).map fun a => (V.entChars a, V.ent a)

theorem pairs_append (V : View) (m n e : Nat) : V.pairs (m + n) e = V.pairs m e ++ V.pairs n (e + m) := by
  rw [View.pairs, ← List.range'_append_1, List.filter_append, List.map_append]
  rfl

theorem pairs_one (V : View) (e : Nat) :
    V.pairs 1 e = if V.ent e ≠ 0 then [(V.entChars e, V.ent e)] else [] := by
  by_cases live : V.ent e = 0 <;> simp [View.pairs, live]

variable {V : View} {ib db : Buffer} {hi hb : Nat → Prop}

theorem direntAt_pair {k i : Nat} {data : Buffer} (used : V.blk 0 k ≠ 0)
    (contents : cut data = V.block (V.blk 0 k)) (h : i < 16) :
    (direntAt data i).pair = (V.entChars (16 * k + i), V.ent (16 * k + i)) := by
  obtain ⟨ent, names⟩ := ent_eq used contents h
  rw [Dirent.pair, direntAt, ent]
  refine Prod.ext (nameFrom_congr fun j _ hj => ?_) rfl
  have lt : j < 28 := by
    simp only [FS_MAX_FILENAME] at hj
    omega
  rw [dif_pos lt, names j lt]

theorem readdirEntries_pairs {k : Nat} {data : Buffer} (used : V.blk 0 k ≠ 0)
    (contents : cut data = V.block (V.blk 0 k)) {max : Int} {n i : Nat} (found : List Dirent)
    (inside : i + n ≤ 16) (room : (found.length + n : Nat) ≤ max) :
    (readdirEntries data max n i found).map Dirent.pair =
        found.map Dirent.pair ++ V.pairs n (16 * k + i) ∧
      (readdirEntries data max n i found).length ≤ found.length + n := by
  induction n generalizing i found with
  | zero => simp [readdirEntries, View.pairs]
  | succ n ih =>
    rw [readdirEntries, if_pos (by omega), Nat.add_comm n 1, pairs_append, pairs_one, Nat.add_assoc]
    have zero := ent_zero_iff used contents (show i < 16 by omega)
    by_cases live : direntInode data i = 0
    · rw [if_neg (not_not.mpr live), if_neg (not_not.mpr (zero.mpr live)), List.nil_append]
      obtain ⟨pairs, length⟩ := ih (i := i + 1) found (by omega) (by omega)
      exact ⟨pairs, by omega⟩
    · rw [if_pos live, if_pos fun h => live (zero.mp h)]
      obtain ⟨pairs, length⟩ := ih (i := i + 1) (found ++ [direntAt data i]) (by omega) (by
        rw [List.length_append]
        simp only [List.length_singleton]
        omega)
      rw [List.length_append, List.length_singleton] at length
      refine ⟨?_, by omega⟩
      rw [pairs, List.map_append, List.map_singleton, direntAt_pair used contents (by omega),
        List.append_assoc]

theorem pairs_behind (c : Consistent V ib db hi hb) {k : Nat} (missing : V.blk 0 k = 0) (n : Nat) :
    V.pairs n (16 * k) = [] := by
  rw [View.pairs, List.map_eq_nil_iff, List.filter_eq_nil_iff]
  intro a mem
  rw [List.mem_range'_1] at mem
  simpa using c.ent_behind missing mem.1

theorem readdirFrom_pairs {s : WitFs} (ready : Ready s) (c : Consistent s.view ib db hi hb) {max : Int}
    (room : 160 ≤ max) {n k : Nat} (h : k + n = 10) (data : Buffer) {found : List Dirent}
    (few : found.length ≤ 16 * k) :
    (readdirFrom s (s.view.inode 0) max n k data found).map Dirent.pair =
      found.map Dirent.pair ++ s.view.pairs (16 * n) (16 * k) := by
  induction n generalizing k data found with
  | zero => simp [readdirFrom, View.pairs]
  | succ n ih =>
    rw [readdirFrom]
    by_cases missing : (s.view.inode 0).block k = 0
    · rw [if_neg fun h => h.1 missing, pairs_behind c ((blk_word _ k).mp missing), List.append_nil]
    · have used : s.view.blk 0 k ≠ 0 := fun h => missing ((blk_word _ k).mpr h)
      rw [if_pos ⟨missing, by omega⟩]
      have space : ((found.length + ENTRIES_PER_BLOCK : Nat) : Int) ≤ max := by
        rw [entries_per_block]
        omega
      obtain ⟨pairs, length⟩ := readdirEntries_pairs used (readDir_contents ready c k data) found
        (show 0 + ENTRIES_PER_BLOCK ≤ 16 by decide) space
      rw [entries_per_block] at pairs length
      simp only []
      rw [entries_per_block, ih (by omega) _ (by omega), pairs, List.append_assoc,
        show 16 * (n + 1) = 16 + 16 * n by omega, pairs_append, Nat.add_zero,
        show 16 * (k + 1) = 16 * k + 16 by omega]

theorem pairs_nodup (c : Consistent V ib db hi hb) (n e : Nat) : (V.pairs n e).Nodup := by
  refine List.Nodup.map_on ?_ (List.Nodup.filter _ List.nodup_range')
  intro a mem b _ same
  have live : V.ent a ≠ 0 := by simpa using (List.mem_filter.mp mem).2
  exact c.entInj a b live (congrArg Prod.snd same)

theorem mem_pairs {M : List Byte → Option Nat} (h : Represents V M) (name : List Byte) (n : Nat) :
    (name, n) ∈ V.pairs 160 0 ↔ M name = some n := by
  rw [h name n, View.pairs, List.mem_map]
  constructor
  · rintro ⟨e, mem, same⟩
    have live : V.ent e ≠ 0 := by simpa using (List.mem_filter.mp mem).2
    obtain ⟨chars, entry⟩ := Prod.mk.inj same
    exact ⟨entry ▸ live, e, entry, chars⟩
  · rintro ⟨nonzero, e, entry, chars⟩
    have live : V.ent e ≠ 0 := by
      rw [entry]
      exact nonzero
    refine ⟨e, List.mem_filter.mpr ⟨?_, decide_eq_true live⟩, by rw [chars, entry]⟩
    rw [List.mem_range'_1]
    have lt := ent_lt live
    omega

theorem fsReaddir_root {s : WitFs} {leaked : Nat → Prop} (h : Sound s leaked) {path : CStr}
    (root : ¬NonRoot path) {max : Int} (room : 160 ≤ max) :
    ∃ found, fsReaddir s path max = (s, (found.length : Int), found) ∧
      found.map Dirent.pair = s.view.pairs 160 0 := by
  obtain ⟨heap, p, grant, pending, -, back⟩ := kmalloc_of_ready h.ready
  have ready' : Ready { s with heap := heap } := ⟨h.ready.disk, pending⟩
  have listed := readdirFrom_pairs ready' h.books.cons room (show 0 + 10 = 10 from rfl) heap.junk
    (show ([] : List Dirent).length ≤ 16 * 0 from Nat.le_refl 0)
  refine ⟨_, ?_, listed⟩
  rw [fsReaddir, h.on, Bool.not_true, if_neg Bool.false_ne_true, pathLookup_empty (not_not.mp root)]
  simp only [readInode_view h.ready (show 0 < TABLE_INODES by decide), h.books.cons.rootDir, if_false, grant,
    back { s with heap := heap } rfl]
  rfl

end Readdir

section Effects

variable {s : WitFs} {M : List Byte → Option Nat} {leaked stale : Nat → Prop}

def ShortName (path : CStr) : Prop := NonRoot path ∧ (pathName path).length ≤ FS_MAX_FILENAME

instance (path : CStr) : Decidable (ShortName path) := inferInstanceAs (Decidable (_ ∧ _))

theorem Represents.lookup (m : Represents s.view M) (h : Sound s leaked) {path : CStr} (named : NonRoot path) :
    pathLookup s path = (s, M (pathName path).chars) := by
  rw [pathLookup_eq h.ready h.books.cons named, m.find h.books.cons]

theorem Represents.unchanged {t : WitFs} (m : Represents s.view M) (same : SameFile s.view t.view 0) :
    Represents t.view M := m.congr same.ents

theorem Represents.create (m : Represents s.view M) (h : Sound s leaked) {path : CStr}
    (named : ShortName path) (type : Word) :
    ((fsCreate s path type).2 = -1 ∧ Represents (fsCreate s path type).1.view M) ∨
      (fsCreate s path type).2 = 0 ∧ M (pathName path).chars = none ∧
        ∃ n, (∀ key, M key ≠ some n) ∧
          Represents (fsCreate s path type).1.view (Function.update M (pathName path).chars (some n)) := by
  rcases fsCreate_spec h path type with
    ⟨t, eq, same, -⟩ | ⟨t, e, n, eq, -, -, made, -, -, absent⟩
  · rw [eq]
    exact Or.inl ⟨rfl, m.unchanged (same.same 0 (owner_root _))⟩
  · rw [eq]
    have none := m.find h.books.cons (pathName path)
    rw [absent, Option.map_none] at none
    exact Or.inr ⟨rfl, none.symm, n, m.created made named.2 none.symm⟩

theorem Represents.unlink (m : Represents s.view M) (h : Sound s leaked) {path : CStr} (named : NonRoot path) :
    ((fsUnlink s path).2 = 0 ↔ M (pathName path).chars ≠ none) ∧
      Represents (fsUnlink s path).1.view (Function.update M (pathName path).chars none) := by
  have found := m.find h.books.cons (pathName path)
  cases entry : s.view.find (pathName path) with
  | none =>
    rw [entry, Option.map_none] at found
    rw [fsUnlink_none h named entry, ← found]
    refine ⟨by simp, ?_⟩
    rw [found, Function.update_eq_self]
    exact m
  | some e =>
    rw [entry, Option.map_some] at found
    obtain ⟨t, eq, -, -, set, -⟩ := fsUnlink_some h named entry
    obtain ⟨live, chars⟩ := (match_iff h.books.cons (pathName path) e).mp
      (of_decide_eq_true (Scan.firstFrom_some entry).2.2.1)
    rw [eq, ← found]
    refine ⟨by simp, ?_⟩
    rw [← chars]
    exact m.removed h.books.cons set live

theorem Represents.takeDescriptor (m : Represents s.view M) (n : Nat) (flags : Word) :
    Represents (takeDescriptor s n flags).1.view M := by
  rw [Fs.takeDescriptor]
  split <;> exact m

theorem Represents.open (m : Represents s.view M) (h : Sound s leaked) (path : CStr) {flags : Word}
    (keep : flags &&& FS_OPEN_CREATE = 0) : Represents (fsOpen s path flags).1.view M := by
  rcases fsOpen_cases h path flags with ⟨n, -, eq⟩ | ⟨-, eq | ⟨create, -⟩⟩
  · rw [eq]
    exact m.takeDescriptor n flags
  · rw [eq]
    exact m
  · exact absurd keep create

theorem Represents.close (m : Represents s.view M) (fd : Int) : Represents (fsClose s fd).1.view M := by
  rw [fsClose]
  split <;> exact m

theorem Represents.read (m : Represents s.view M) (h : Inv s leaked stale) (fd : Int) (size : Nat) :
    Represents (fsRead s fd size).1.view M := by
  rw [h.read_view]
  exact m

theorem Represents.write (m : Represents s.view M) (h : Inv s leaked stale) (closed : RootClosed s) {fd : Int}
    (fresh : ¬stale fd.toNat) (buf : Buffer) (size : Nat) : Represents (fsWrite s fd buf size).1.view M := by
  by_cases usable : Usable s fd FS_OPEN_WRITE
  · obtain ⟨lt, used⟩ := validFd_spec usable.1
    obtain ⟨own, covers⟩ := h.handles _ lt used fresh
    have root := closed _ lt used
    obtain ⟨t, len, eq, -, -, wrote, -⟩ := fsWrite_spec h.sound usable rfl rfl own root covers buf size
    rw [eq]
    exact m.unchanged (wrote.others 0 (owner_root _) (Ne.symm root))
  · rw [fsWrite_unusable usable]
    exact m

end Effects

/-- The calls of a client that uses names of 1 to 27 characters. -/
def Named (s : WitFs) : FsOp → Prop
  | .fsCreate path _ => ShortName path
  | .fsMkdir path => ShortName path
  | .fsOpen path _ => ShortName path
  | .fsUnlink path => ShortName path ∧ NotOpen s path
  | .fsRmdir path => ShortName path ∧ NotOpen s path
  | _ => True

theorem Named.separate {s : WitFs} {op : FsOp} (ok : Named s op) : Separate s op := by
  cases op with
  | fsCreate path type => exact ok.1
  | fsMkdir path => exact ok.1
  | fsOpen path flags => exact ok.1
  | fsUnlink path => exact ⟨ok.1.1, ok.2⟩
  | fsRmdir path => exact ⟨ok.1.1, ok.2⟩
  | _ => trivial

/-- The root directory and the public functions implement the finite map `M`. -/
structure NamespaceLaw (s : WitFs) (M : List Byte → Option Nat) : Prop where
  represents : Represents s.view M
  finite : {name | M name ≠ none}.Finite
  lookup : ∀ path, NonRoot path → (pathLookup s path).2 = M (pathName path).chars
  createTaken : ∀ path type, ShortName path → M (pathName path).chars ≠ none →
    (fsCreate s path type).2 = -1 ∧ Represents (fsCreate s path type).1.view M
  createNew : ∀ path type, ShortName path → (fsCreate s path type).2 = 0 →
    ∃ n, (∀ key, M key ≠ some n) ∧
      Represents (fsCreate s path type).1.view (Function.update M (pathName path).chars (some n))
  unlink : ∀ path, ShortName path → NotOpen s path →
    ((fsUnlink s path).2 = 0 ↔ M (pathName path).chars ≠ none) ∧
      Represents (fsUnlink s path).1.view (Function.update M (pathName path).chars none)
  readdir : ∀ path max, ¬NonRoot path → 160 ≤ max →
    (fsReaddir s path max).2.1 = (fsReaddir s path max).2.2.length ∧
      ((fsReaddir s path max).2.2.map Dirent.pair).Nodup ∧
      ∀ name n, (name, n) ∈ (fsReaddir s path max).2.2.map Dirent.pair ↔ M name = some n
  close : ∀ fd, Represents (fsClose s fd).1.view M
  read : ∀ fd size, Represents (fsRead s fd size).1.view M
  write : ∀ fd buf size, Represents (fsWrite s fd buf size).1.view M
  openOnly : ∀ path flags, flags &&& FS_OPEN_CREATE = 0 → Represents (fsOpen s path flags).1.view M

theorem namespaceLaw {s : WitFs} {M : List Byte → Option Nat} (h : Tidy s) (closed : RootClosed s)
    (m : Represents s.view M) : NamespaceLaw s M where
  represents := m
  finite := m.finite
  lookup path named := by rw [m.lookup h.sound named]
  createTaken path type named taken := by
    rcases m.create h.sound named type with failed | ⟨-, absent, -⟩
    · exact failed
    · exact absurd absent taken
  createNew path type named done := by
    rcases m.create h.sound named type with ⟨failed, -⟩ | ⟨-, -, added⟩
    · rw [failed] at done
      exact absurd done (by decide)
    · exact added
  unlink path named _ := m.unlink h.sound named.1
  readdir path max root room := by
    obtain ⟨found, eq, pairs⟩ := fsReaddir_root h.sound root room
    rw [eq, pairs]
    exact ⟨rfl, pairs_nodup h.sound.books.cons 160 0, mem_pairs m⟩
  close := m.close
  read := m.read h
  write _ := m.write h closed id
  openOnly path _ := m.open h.sound path

/-- The map after a call of a client that keeps to `Named`. -/
theorem Represents.step {s : WitFs} {M : List Byte → Option Nat} (m : Represents s.view M) (h : Tidy s)
    (closed : RootClosed s) {op : FsOp} (ok : Named s op) : ∃ M', Represents (s.step op).view M' := by
  have create : ∀ {path}, ShortName path → ∀ type, ∃ M', Represents (fsCreate s path type).1.view M' := by
    intro path named type
    rcases m.create h.sound named type with ⟨-, kept⟩ | ⟨-, -, n, -, added⟩
    · exact ⟨M, kept⟩
    · exact ⟨_, added⟩
  cases op with
  | fsCreate path type => exact create ok type
  | fsMkdir path => exact create ok FS_TYPE_DIR
  | fsOpen path flags =>
    obtain ⟨M', made⟩ := create ok FS_TYPE_FILE
    rcases fsOpen_cases h.sound path flags with ⟨n, -, eq⟩ | ⟨-, eq | ⟨-, eq | ⟨t, n, done, -, eq⟩⟩⟩
    · exact ⟨M, by rw [WitFs.step, eq]; exact m.takeDescriptor n flags⟩
    · exact ⟨M, by rw [WitFs.step, eq]; exact m⟩
    · exact ⟨M', by rw [WitFs.step, eq]; exact made⟩
    · rw [done] at made
      exact ⟨M', by rw [WitFs.step, eq]; exact made.takeDescriptor n flags⟩
  | fsClose fd => exact ⟨M, m.close fd⟩
  | fsRead fd size => exact ⟨M, m.read h fd size⟩
  | fsWrite fd buf size => exact ⟨M, m.write h closed id buf size⟩
  | fsUnlink path => exact ⟨_, (m.unlink h.sound ok.1.1).2⟩
  | fsRmdir path => exact ⟨_, (m.unlink h.sound ok.1.1).2⟩
  | fsReaddir path max => exact ⟨M, by rw [WitFs.step, fsReaddir_state h.sound]; exact m⟩
  | fsStat path => exact ⟨M, by rw [WitFs.step, fsStat_state h.sound]; exact m⟩
  | fsExists path => exact ⟨M, by rw [WitFs.step, fsExists_state h.sound]; exact m⟩
  | timer ticks => exact ⟨M, m⟩

theorem named_step {s : WitFs} {op : FsOp}
    (h : (Tidy s ∧ RootClosed s) ∧ ∃ M, Represents s.view M) (ok : Named s op) :
    (Tidy (s.step op) ∧ RootClosed (s.step op)) ∧ ∃ M, Represents (s.step op).view M := by
  obtain ⟨inv, M, m⟩ := h
  exact ⟨separate_step inv ok.separate, m.step inv.1 inv.2 ok⟩

theorem represents_none {V : View} (free : ∀ e, V.ent e = 0) : Represents V fun _ => none := by
  intro name n
  simp only [reduceCtorEq, false_iff, not_and, not_exists]
  intro nonzero e entry
  rw [free e] at entry
  exact absurd entry.symm nonzero

theorem mounted_represents {s : WitFs} (ready : Ready s) : Represents (mounted s).view fun _ => none :=
  represents_none (mount_blank ready).noEntry

/-- In every state of a run with names of 1 to 27 characters the namespace is a finite map. -/
theorem named_runs_refine_map (s0 s : WitFs) (ops : List FsOp) (ready : Ready s0)
    (run : Exec Named WitFs.step (mounted s0) ops s) : ∃ M, NamespaceLaw s M := by
  obtain ⟨⟨tidy, closed⟩, M, m⟩ := run.invariant (fun _ _ => named_step)
    ⟨⟨mounted_tidy ready, mounted_rootClosed ready⟩, _, mounted_represents ready⟩
  exact ⟨M, namespaceLaw tidy closed m⟩

theorem named_runs_refine_map_small :
    ∃ M, NamespaceLaw (((mounted powerOn).step (.fsCreate pathA FS_TYPE_FILE)).step (.fsMkdir pathB)) M :=
  named_runs_refine_map powerOn _ [.fsCreate pathA FS_TYPE_FILE, .fsMkdir pathB] ⟨rfl, rfl⟩
    (.cons (show ShortName pathA by decide) (.cons (show ShortName pathB by decide) (.nil _)))

end Wittche.Fs
