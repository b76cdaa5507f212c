import Mathlib.Data.Set.Insert
import Mathlib.Logic.Function.Basic
import Mathlib.Tactic.Common

/-! Two-level tables in a store of pages. A directory is a page whose entries lead to
tables, a table one whose entries lead to what is stored. Some entries of the
directories may lead to tables that all of them share; each of the others is the only
way to its table. Before that, one table as a loop fills it. -/

namespace Wittche.Tables

variable {P I E : Type} [DecidableEq P] [DecidableEq I]

def put (m : P → I → E) (p : P) (i : I) (e : E) : P → I → E :=
  Function.update m p (Function.update (m p) i e)

theorem put_apply (m : P → I → E) (p q : P) (i j : I) (e : E) :
    put m p i e q j = if q = p ∧ j = i then e else m q j := by
  by_cases page : q = p
  · subst page
    by_cases index : j = i
    · subst index
      simp [put]
    · simp [put, index]
  · simp [put, page]

theorem put_other {m : P → I → E} {p q : P} (ne : q ≠ p) (i : I) (e : E) : put m p i e q = m q :=
  Function.update_of_ne ne ..

section Fill

variable {K V J : Type} [DecidableEq K] (key : J → K) (value : J → V)

theorem foldl_update_other {k : K} (is : List J) (t : K → V) (away : ∀ i ∈ is, key i ≠ k) :
    is.foldl (fun t i => Function.update t (key i) (value i)) t k = t k := by
  induction is generalizing t with
  | nil => rfl
  | cons i is ih =>
    rw [List.foldl_cons, ih _ (fun j inside => away j (List.mem_cons_of_mem i inside))]
    exact Function.update_of_ne (away i List.mem_cons_self).symm _ _

theorem foldl_update_key {key : J → K} (distinct : Function.Injective key) {i : J} {is : List J} (inside : i ∈ is)
    (t : K → V) :
    is.foldl (fun t i => Function.update t (key i) (value i)) t (key i) = value i := by
  induction is generalizing t with
  | nil => exact absurd inside List.not_mem_nil
  | cons j is ih =>
    rw [List.foldl_cons]
    by_cases later : i ∈ is
    · exact ih later _
    · obtain rfl : i = j := (List.mem_cons.mp inside).resolve_right later
      have away : ∀ k ∈ is, key k ≠ key i := by
        rintro k found same
        rw [distinct same] at found
        exact later found
      rw [foldl_update_other key value is _ away]
      exact Function.update_self _ _ _

end Fill

section Walk

variable (follow : E → Option P)

/-- Where the entries `i` of the directory `d` and `j` of its table lead. -/
def walk (m : P → I → E) (d : P) (i j : I) : Option P := (follow (m d i)).bind fun t => follow (m t j)

/-- The tables behind the indices in `own` each hang on one entry of one directory. -/
structure Owned (m : P → I → E) (dirs : Set P) (own : Set I) : Prop where
  single : ∀ d ∈ dirs, ∀ d' ∈ dirs, ∀ i ∈ own, ∀ i' t, follow (m d i) = some t →
    follow (m d' i') = some t → d' = d ∧ i' = i
  apart : ∀ d ∈ dirs, ∀ i t, follow (m d i) = some t → t ∉ dirs

variable {follow} {m : P → I → E} {dirs : Set P} {own : Set I} {d t : P} {i j : I} {e : E}

/-- Writing in a table that one entry owns changes what is behind that entry and nothing else. -/
theorem Owned.walk_put (o : Owned follow m dirs own) (dir : d ∈ dirs) (mine : i ∈ own)
    (table : follow (m d i) = some t) {d' : P} (dir' : d' ∈ dirs) (i' j' : I) :
    walk follow (put m t j e) d' i' j' =
      if d' = d ∧ i' = i ∧ j' = j then follow e else walk follow m d' i' j' := by
  have away : d' ≠ t := fun same => o.apart d dir i t table (same ▸ dir')
  rw [walk, put_other away]
  cases there : follow (m d' i') with
  | none =>
    have other : ¬(d' = d ∧ i' = i ∧ j' = j) := by
      rintro ⟨rfl, rfl, -⟩
      rw [table] at there
      exact absurd there (Option.some_ne_none t)
    simp [walk, there, other]
  | some t' =>
    by_cases same : t' = t
    · subst same
      obtain ⟨rfl, rfl⟩ := o.single d dir d' dir' i mine i' t' table there
      simp only [Option.bind_some, put_apply, true_and]
      split
      · rfl
      · simp [walk, there]
    · have other : ¬(d' = d ∧ i' = i ∧ j' = j) := by
        rintro ⟨rfl, rfl, -⟩
        rw [table] at there
        exact same (Option.some.inj there).symm
      simp [walk, there, other, put_other same]

theorem Owned.put_table (o : Owned follow m dirs own) (dir : d ∈ dirs) (table : follow (m d i) = some t) :
    Owned follow (put m t j e) dirs own := by
  have same : ∀ d' ∈ dirs, put m t j e d' = m d' := by
    intro d' dir'
    have away : d' ≠ t := fun clash => o.apart d dir i t table (clash ▸ dir')
    exact put_other away j e
  constructor
  · intro d1 dir1 d2 dir2
    rw [same d1 dir1, same d2 dir2]
    exact o.single d1 dir1 d2 dir2
  · intro d1 dir1
    rw [same d1 dir1]
    exact o.apart d1 dir1

/-- No directory leads to the page, and it is none itself. -/
def Fresh (follow : E → Option P) (m : P → I → E) (dirs : Set P) (t : P) : Prop :=
  t ∉ dirs ∧ ∀ d ∈ dirs, ∀ i, follow (m d i) ≠ some t

/-- A new empty table behind an entry that led nowhere. -/
def graft (m : P → I → E) (t : P) (blank : I → E) (d : P) (i : I) (e : E) : P → I → E :=
  put (Function.update m t blank) d i e

theorem graft_dir {blank : I → E} (fresh : Fresh follow m dirs t) {d' : P} (dir' : d' ∈ dirs)
    (i' : I) : graft m t blank d i e d' i' = if d' = d ∧ i' = i then e else m d' i' := by
  have away : d' ≠ t := fun same => fresh.1 (same ▸ dir')
  rw [graft, put_apply, Function.update_of_ne away]

theorem graft_page {blank : I → E} (dir : d ∈ dirs) {t' : P} (page : t' ∉ dirs) :
    graft m t blank d i e t' = if t' = t then blank else m t' := by
  have away : t' ≠ d := fun same => page (same ▸ dir)
  rw [graft, put_other away]
  split
  next same => rw [same, Function.update_self]
  next other => rw [Function.update_of_ne other]

theorem Owned.walk_graft (o : Owned follow m dirs own) {blank : I → E} (fresh : Fresh follow m dirs t)
    (dir : d ∈ dirs) (empty : follow (m d i) = none) (leads : follow e = some t)
    (nothing : ∀ j, follow (blank j) = none) {d' : P} (dir' : d' ∈ dirs) (i' j' : I) :
    walk follow (graft m t blank d i e) d' i' j' = walk follow m d' i' j' := by
  rw [walk, walk, graft_dir fresh dir']
  split
  next here =>
    rw [here.1, here.2, leads, empty, Option.bind_some, graft_page dir fresh.1, if_pos rfl, nothing]
    rfl
  next other =>
    cases there : follow (m d' i') with
    | none => rfl
    | some t' =>
      have different : t' ≠ t := fun same => fresh.2 d' dir' i' (same ▸ there)
      rw [Option.bind_some, Option.bind_some, graft_page dir (o.apart d' dir' i' t' there),
        if_neg different]

theorem Owned.graft (o : Owned follow m dirs own) {blank : I → E} (fresh : Fresh follow m dirs t)
    (leads : follow e = some t) : Owned follow (graft m t blank d i e) dirs own := by
  constructor
  · intro d1 dir1 d2 dir2 i1 mine1 i2 t1 there1 there2
    rw [graft_dir fresh dir1] at there1
    rw [graft_dir fresh dir2] at there2
    split at there1
    next first =>
      obtain rfl : t = t1 := Option.some.inj (leads.symm.trans there1)
      split at there2
      next second => exact ⟨second.1.trans first.1.symm, second.2.trans first.2.symm⟩
      next => exact absurd there2 (fresh.2 d2 dir2 i2)
    next =>
      split at there2
      next =>
        obtain rfl : t = t1 := Option.some.inj (leads.symm.trans there2)
        exact absurd there1 (fresh.2 d1 dir1 i1)
      next => exact o.single d1 dir1 d2 dir2 i1 mine1 i2 t1 there1 there2
  · intro d1 dir1 i1 t1 there
    rw [graft_dir fresh dir1] at there
    split at there
    next => exact Option.some.inj (leads.symm.trans there) ▸ fresh.1
    next => exact o.apart d1 dir1 i1 t1 there

omit [DecidableEq I] in
theorem Owned.add (o : Owned follow m dirs own) {blank : I → E} (fresh : Fresh follow m dirs t) {k : P}
    (model : k ∈ dirs) (empty : ∀ i ∈ own, follow (blank i) = none) (shared : ∀ i, i ∉ own → blank i = m k i) :
    Owned follow (Function.update m t blank) (insert t dirs) own := by
  have old : ∀ {d'}, d' ∈ dirs → Function.update m t blank d' = m d' := by
    intro d' dir'
    have away : d' ≠ t := fun same => fresh.1 (same ▸ dir')
    exact Function.update_of_ne away ..
  have new : ∀ {i' t'}, follow (blank i') = some t' → i' ∉ own ∧ follow (m k i') = some t' := by
    intro i' t' there
    by_cases mine : i' ∈ own
    · rw [empty i' mine] at there
      exact absurd there.symm (Option.some_ne_none t')
    · rw [shared i' mine] at there
      exact ⟨mine, there⟩
  constructor
  · rintro d1 (rfl | dir1) d2 dir2 i1 mine1 i2 t1 there1 there2
    · rw [Function.update_self] at there1
      exact absurd mine1 (new there1).1
    rw [old dir1] at there1
    rcases dir2 with rfl | dir2
    · rw [Function.update_self] at there2
      obtain ⟨away, there2⟩ := new there2
      exact absurd ((o.single d1 dir1 k model i1 mine1 i2 t1 there1 there2).2 ▸ mine1) away
    · rw [old dir2] at there2
      exact o.single d1 dir1 d2 dir2 i1 mine1 i2 t1 there1 there2
  · have apart : ∀ d ∈ dirs, ∀ i t', follow (m d i) = some t' → t' ∉ insert t dirs := by
      intro d dir i t' there inside
      rcases inside with rfl | inside
      · exact fresh.2 d dir i there
      · exact o.apart d dir i t' there inside
    rintro d1 (rfl | dir1) i1 t1 there
    · rw [Function.update_self] at there
      exact apart k model i1 t1 (new there).2
    · rw [old dir1] at there
      exact apart d1 dir1 i1 t1 there

omit [DecidableEq I] in
theorem Fresh.walk_update {blank : I → E} (fresh : Fresh follow m dirs t) {d' : P}
    (dir' : d' ∈ dirs) (i' j' : I) :
    walk follow (Function.update m t blank) d' i' j' = walk follow m d' i' j' := by
  have away : d' ≠ t := fun same => fresh.1 (same ▸ dir')
  rw [walk, walk, Function.update_of_ne away]
  cases there : follow (m d' i') with
  | none => rfl
  | some t' =>
    have different : t' ≠ t := fun same => fresh.2 d' dir' i' (same ▸ there)
    rw [Option.bind_some, Option.bind_some, Function.update_of_ne different]

end Walk

end Wittche.Tables
