import Wittche.Lib.Ledger
import Wittche.Paging.Isolation

/-! Who owns which page. The pages that are taken behind the kernel are the directories of
the user processes, the tables behind their entries and the frames behind these tables,
each in one place only, and the pages a call has taken and not yet mapped. -/

namespace Wittche.Paging
open Pmm Tables

/-- What a page is to a directory. -/
inductive Role
  | directory
  | table (i : Nat)
  | frame (n : Nat)
  deriving DecidableEq

def holds (s : PageTables) (d : Nat) : Role → Option Nat
  | .directory => some d
  | .table i => if 4 ≤ i then follow (s.entries d i) else none
  | .frame n => if 4096 ≤ n then frameAt s d n else none

def Held (s : PageTables) (dirs : Set Nat) (k : Nat × Role) (a : Nat) : Prop :=
  k.1 ∈ dirs ∧ holds s k.1 k.2 = some a

/-- The user directories and their pages; `loose` are the pages that are taken and not mapped. -/
structure Users (img : Image) (s : PageTables) (dirs : Set Nat) (loose : Nat → Prop) : Prop where
  spaces : Spaces img s (insert img.kernelDirectory dirs)
  kernelEmpty : ∀ i ∈ userEntries, follow (s.entries img.kernelDirectory i) = none
  bounded : ∀ d ∈ dirs, ∀ i, PAGE_DIRECTORY_ENTRIES ≤ i → follow (s.entries d i) = none
  within : ∀ k a, Held s dirs k a → Freeable a
  exclusive : Exclusive (Held s dirs)
  ledger : Ledger Freeable (fun a => bitmapTest s.pmm (a / PAGE_SIZE)) (fun a => ∃ k, Held s dirs k a) loose

section Users

variable {img : Image} {s : PageTables} {dirs : Set Nat} {loose : Nat → Prop} {a d f : Nat}

theorem Users.dir (h : Users img s dirs loose) (dir : d ∈ dirs) : Freeable d :=
  h.within (d, .directory) d ⟨dir, rfl⟩

theorem Users.dir_ne_zero (h : Users img s dirs loose) (dir : d ∈ dirs) : d ≠ 0 := by
  rintro rfl
  exact absurd (h.dir dir).1 (by decide)

theorem Users.fresh (h : Users img s dirs loose) (ok : Freeable a) (free : ∀ k, ¬Held s dirs k a) :
    Fresh follow s.entries (insert img.kernelDirectory dirs) a := by
  have high := ok.1
  have below := img.tablesBelow
  have below' := img.directoryBelow
  have low : ∀ d ∈ insert img.kernelDirectory dirs, ∀ i < 4, follow (s.entries d i) ≠ some a := by
    intro d dir i small there
    rw [h.spaces.shared d dir i small] at there
    have same := Option.some.inj there
    simp only [PAGE_SIZE, KERNEL_END] at *
    omega
  constructor
  · rintro (rfl | dir)
    · simp only [PAGE_SIZE, KERNEL_END] at *
      omega
    · exact free (a, .directory) ⟨dir, rfl⟩
  · intro d dir i there
    by_cases small : i < 4
    · exact low d dir i small there
    have user : i ∈ userEntries := Nat.not_lt.mp small
    rcases dir with rfl | dir
    · rw [h.kernelEmpty i user] at there
      exact absurd there.symm (Option.some_ne_none a)
    · exact free (d, .table i) ⟨dir, by simpa [holds, Nat.not_lt.mp small] using there⟩

theorem Users.fresh_loose (h : Users img s dirs loose) (mine : loose a) :
    Fresh follow s.entries (insert img.kernelDirectory dirs) a := by
  obtain ⟨ok, free⟩ := h.ledger.apart a mine
  exact h.fresh ok fun k held => free ⟨k, held⟩

theorem holds_congr {t : PageTables} (entries : ∀ i, follow (t.entries d i) = follow (s.entries d i))
    (frames : ∀ n, frameAt t d n = frameAt s d n) (r : Role) : holds t d r = holds s d r := by
  cases r with
  | directory => rfl
  | table i => rw [holds, holds, entries]
  | frame n => rw [holds, holds, frames]

theorem Users.allocPage (h : Users img s dirs loose) (given : s.allocPage.1.refused = s.refused) :
    Freeable s.allocPage.2 ∧ ¬loose s.allocPage.2 ∧ (∀ k, ¬Held s dirs k s.allocPage.2) ∧
      Users img s.allocPage.1 dirs fun a => a = s.allocPage.2 ∨ loose a := by
  obtain ⟨-, ok, more, fresh, bits⟩ := h.spaces.allocPage given
  have clear : bitmapTest s.pmm (s.allocPage.2 / PAGE_SIZE) = false := by
    obtain ⟨served, -⟩ : Served s.pmm 1 (s.allocPage.1.pmm, s.allocPage.2) ∧ _ := h.spaces.kept.allocPage
    have there : s.allocPage.2 ≠ 0 := by
      intro zero
      have high := ok.1
      rw [zero] at high
      exact absurd high (by decide)
    exact served.free there _ (Nat.le_refl _) (Nat.lt_succ_self _)
  have set : ∀ b, Freeable b → bitmapTest s.allocPage.1.pmm (b / PAGE_SIZE) =
      (decide (b = s.allocPage.2) || bitmapTest s.pmm (b / PAGE_SIZE)) := by
    intro b dom
    rw [bits]
    congr 2
    rw [eq_iff_iff]
    exact dom.page_inj ok
  have ledger := h.ledger.hold ok clear set
  refine ⟨ok, fun mine => ?_, fun k held => h.ledger.clear_not_owned ok clear ⟨k, held⟩,
    ⟨more, h.kernelEmpty, h.bounded, h.within, h.exclusive, ledger⟩⟩
  have set := (h.ledger.iff _ ok).mpr (Or.inr mine)
  rw [clear] at set
  exact Bool.noConfusion set

theorem Spaces.scribble (h : Spaces img s dirs) (ok : Freeable a) (fresh : Fresh follow s.entries dirs a)
    (words : Nat → Nat) : Spaces img { s with entries := Function.update s.entries a words } dirs := by
  have same : ∀ d ∈ dirs, Function.update s.entries a words d = s.entries d := by
    intro d dir
    have away : d ≠ a := fun clash => fresh.1 (clash ▸ dir)
    exact Function.update_of_ne away ..
  refine ⟨h.kept, h.current, h.kernel, ⟨?_, ?_⟩, h.held, ?_, ?_, ?_⟩
  · intro d dir d' dir'
    simp only [same d dir, same d' dir']
    exact h.owned.single d dir d' dir'
  · intro d dir
    simp only [same d dir]
    exact h.owned.apart d dir
  · intro d dir
    simp only [same d dir]
    exact h.tables d dir
  · intro d dir
    simp only [same d dir]
    exact h.shared d dir
  · intro i small
    have away : img.earlyPageTables + i * PAGE_SIZE ≠ a := by
      have high := ok.1
      have below := img.tablesBelow
      simp only [PAGE_SIZE, KERNEL_END] at *
      omega
    simp only [Function.update_of_ne away]
    exact h.identity i small

theorem Users.scribble (h : Users img s dirs loose) (mine : loose a) (words : Nat → Nat) :
    Users img { s with entries := Function.update s.entries a words } dirs loose ∧
      ∀ d ∈ dirs, ∀ n, frameAt { s with entries := Function.update s.entries a words } d n = frameAt s d n := by
  have fresh := h.fresh_loose mine
  have frames : ∀ d ∈ dirs, ∀ n, frameAt { s with entries := Function.update s.entries a words } d n =
      frameAt s d n := fun d dir n => fresh.walk_update (Or.inr dir) _ _
  have same : ∀ d ∈ insert img.kernelDirectory dirs, Function.update s.entries a words d = s.entries d := by
    intro d dir
    have away : d ≠ a := fun clash => fresh.1 (clash ▸ dir)
    exact Function.update_of_ne away ..
  have held : ∀ k b, Held { s with entries := Function.update s.entries a words } dirs k b ↔ Held s dirs k b := by
    rintro ⟨d, r⟩ b
    refine and_congr_right fun (dir : d ∈ dirs) => ?_
    rw [holds_congr (fun i => by simp only [same d (Or.inr dir)]) (frames d dir)]
  refine ⟨⟨h.spaces.scribble (h.ledger.apart a mine).1 fresh words, ?_, ?_, ?_, ?_, ?_⟩, frames⟩
  · simp only [same _ (Or.inl rfl)]
    exact h.kernelEmpty
  · intro d dir
    simp only [same d (Or.inr dir)]
    exact h.bounded d dir
  · exact fun k b there => h.within k b ((held k b).mp there)
  · exact h.exclusive.mono fun k b there => (held k b).mp there
  · simp only [held]
    exact h.ledger

theorem held_insert {t : PageTables} (new : d ∉ dirs) (old : ∀ d' ∈ dirs, ∀ r, holds t d' r = holds s d' r)
    (own : ∀ r, r ≠ .directory → holds t d r = none) (k : Nat × Role) (b : Nat) :
    Held t (insert d dirs) k b ↔ Held s dirs k b ∨ k = (d, .directory) ∧ b = d := by
  obtain ⟨d', r⟩ := k
  constructor
  · rintro ⟨rfl | dir, there⟩
    · by_cases first : r = .directory
      · subst first
        exact Or.inr ⟨rfl, (Option.some.inj there).symm⟩
      · rw [own r first] at there
        exact absurd there.symm (Option.some_ne_none b)
    · rw [old d' dir] at there
      exact Or.inl ⟨dir, there⟩
  · rintro (⟨dir, there⟩ | ⟨same, rfl⟩)
    · rw [← old d' dir] at there
      exact ⟨Or.inr dir, there⟩
    · rw [same]
      exact ⟨Or.inl rfl, rfl⟩

/-- A new directory is a page that is taken, with nothing behind it. -/
theorem Users.create (h : Users img s dirs loose) (given : (pagingCreateUserDirectory img s).1.refused = s.refused) :
    let r := pagingCreateUserDirectory img s
    r.2 ∉ dirs ∧ Freeable r.2 ∧ r.1.current = s.current ∧ (∀ n, 4096 ≤ n → frameAt r.1 r.2 n = none) ∧
      Users img r.1 (insert r.2 dirs) loose := by
  have given' : s.allocPage.1.refused = s.refused := by rw [← given, refused_createUserDirectory]
  obtain ⟨ok, notLoose, free, more⟩ := h.allocPage given'
  obtain ⟨new, -, spaces, current, old, empty⟩ := h.spaces.create given
  have there : s.allocPage.2 ≠ 0 := by
    intro zero
    have high := ok.1
    rw [zero] at high
    exact absurd high (by decide)
  have other : img.kernelDirectory ≠ s.allocPage.2 := fun same => (h.fresh ok free).1 (Or.inl same.symm)
  have result := createUserDirectory_eq there other
  rw [result] at new spaces current old empty ⊢
  have entries : ∀ d ∈ insert img.kernelDirectory dirs,
      Function.update s.entries s.allocPage.2 (userDirectory img s) d = s.entries d := by
    intro d dir
    have away : d ≠ s.allocPage.2 := fun clash => new (clash ▸ dir)
    exact Function.update_of_ne away ..
  have user : ∀ i, 4 ≤ i → userDirectory img s i = 0 := fun i high => if_neg (Nat.not_lt.mpr high)
  have claims := held_insert (s := s) (t := { s.allocPage.1 with
      entries := Function.update s.entries s.allocPage.2 (userDirectory img s) })
    (fun dir => new (Or.inr dir))
    (fun d dir r => holds_congr (fun i => by simp only [entries d (Or.inr dir)]) (old d (Or.inr dir)) r)
    (by
      rintro (_ | i | n) other
      · exact absurd rfl other
      · by_cases high : 4 ≤ i
        · simp only [holds, if_pos high, Function.update_self, user i high, follow_zero]
        · simp only [holds, if_neg high]
      · by_cases high : 4096 ≤ n
        · simp only [holds, if_pos high, empty n high]
        · simp only [holds, if_neg high])
  refine ⟨fun dir => new (Or.inr dir), ok, current, empty, ?_, ?_, ?_, ?_, ?_, ?_⟩
  · rw [Set.insert_comm]
    exact spaces
  · simp only [entries _ (Or.inl rfl)]
    exact h.kernelEmpty
  · rintro d (rfl | dir) i high
    · simp only [Function.update_self, user i ((by decide : 4 ≤ PAGE_DIRECTORY_ENTRIES).trans high), follow_zero]
    · simp only [entries d (Or.inr dir)]
      exact h.bounded d dir i high
  · intro k b held
    rcases (claims k b).mp held with held' | ⟨-, rfl⟩
    · exact h.within k b held'
    · exact ok
  · exact h.exclusive.insert free claims
  · exact more.ledger.claim notLoose claims

theorem held_update {t : PageTables} {k : Nat × Role} (dir : k.1 ∈ dirs) (empty : holds s k.1 k.2 = none)
    (change : ∀ d ∈ dirs, ∀ r, holds t d r = if (d, r) = k then some f else holds s d r) (k' : Nat × Role) (b : Nat) :
    Held t dirs k' b ↔ Held s dirs k' b ∨ k' = k ∧ b = f := by
  constructor
  · rintro ⟨dir', there⟩
    rw [change k'.1 dir' k'.2] at there
    split at there
    next here => exact Or.inr ⟨here, (Option.some.inj there).symm⟩
    next => exact Or.inl ⟨dir', there⟩
  · rintro (⟨dir', there⟩ | ⟨rfl, rfl⟩)
    · have other : (k'.1, k'.2) ≠ k := by
        rintro rfl
        rw [empty] at there
        exact absurd there.symm (Option.some_ne_none b)
      exact ⟨dir', by rw [change k'.1 dir' k'.2, if_neg other, there]⟩
    · exact ⟨dir, by rw [change k'.1 dir k'.2, if_pos rfl]⟩

theorem Users.graft (h : Users img s dirs loose) (dir : s.current ∈ dirs) {i : Nat} (user : i ∈ userEntries)
    (small : i < PAGE_DIRECTORY_ENTRIES) (absent : follow (s.entries s.current i) = none)
    (given : s.allocPage.1.refused = s.refused) : Users img (grafted s i) dirs loose := by
  obtain ⟨ok, notLoose, free, more⟩ := h.allocPage given
  have fresh := h.fresh ok free
  have leads := follow_newTable ok
  have high : 4 ≤ i := user
  have entries : ∀ d ∈ insert img.kernelDirectory dirs, ∀ i', (grafted s i).entries d i' =
      if d = s.current ∧ i' = i then makePde s.allocPage.2 (PAGE_PRESENT ||| PAGE_WRITE) else s.entries d i' :=
    fun d dir' i' => graft_dir fresh dir' i'
  have frames : ∀ d ∈ insert img.kernelDirectory dirs, ∀ n, frameAt (grafted s i) d n = frameAt s d n :=
    fun d dir' n => h.spaces.owned.walk_graft fresh (Or.inr dir) absent leads (fun _ => follow_zero) dir' _ _
  have claims := held_update (s := s) (t := grafted s i) (k := (s.current, .table i)) (f := s.allocPage.2) dir
    (by simp only [holds, if_pos high, absent]) (by
      rintro d dir' (_ | i' | n)
      · simp [holds]
      · simp only [holds, entries d (Or.inr dir'), Prod.mk.injEq, Role.table.injEq]
        by_cases here : d = s.current ∧ i' = i
        · rw [if_pos here, if_pos here, here.2, if_pos high, leads]
        · rw [if_neg here, if_neg here]
      · simp [holds, frames d (Or.inr dir')])
  refine ⟨h.spaces.graft user given, fun i' user' => ?_, fun d dir' i' large => ?_, fun k b held => ?_,
    h.exclusive.insert free claims, more.ledger.claim notLoose claims⟩
  · have other : ¬(img.kernelDirectory = s.current ∧ i' = i) := by
      rintro ⟨clash, -⟩
      have below := img.directoryBelow
      have above := (h.dir dir).1
      simp only [PAGE_SIZE, KERNEL_END] at *
      omega
    rw [entries _ (Or.inl rfl), if_neg other]
    exact h.kernelEmpty i' user'
  · have other : ¬(d = s.current ∧ i' = i) := by
      rintro ⟨-, rfl⟩
      omega
    rw [entries d (Or.inr dir'), if_neg other]
    exact h.bounded d dir' i' large
  · rcases (claims k b).mp held with held' | ⟨-, rfl⟩
    · exact h.within k b held'
    · exact ok

theorem Users.setFrame (h : Users img s dirs fun b => b = f ∨ loose b) (away : ¬loose f) (dir : d ∈ dirs) {v t : Nat}
    (user : 4096 ≤ v / PAGE_SIZE) (table : follow (s.entries d (getPageDirIndex v)) = some t)
    (empty : frameAt s d (v / PAGE_SIZE) = none) :
    Users img (s.setEntry t (getPageTableIndex v) (makePte f PAGE_USER_MODE)) dirs loose := by
  obtain ⟨ok, none⟩ := h.ledger.apart f (Or.inl rfl)
  have mapped : follow (makePte f PAGE_USER_MODE) = some f := by
    rw [follow_makePte (by decide), and_frame_aligned (ok.2.1.trans (by decide)) ok.2.2]
  have entries : ∀ d' ∈ insert img.kernelDirectory dirs,
      (s.setEntry t (getPageTableIndex v) (makePte f PAGE_USER_MODE)).entries d' = s.entries d' := by
    intro d' dir'
    have other : d' ≠ t := fun clash => h.spaces.owned.apart d (Or.inr dir) _ t table (clash ▸ dir')
    exact put_other other ..
  have frames := fun d' (dir' : d' ∈ insert img.kernelDirectory dirs) =>
    h.spaces.frameAt_setEntry user (Or.inr dir) table (makePte f PAGE_USER_MODE) dir'
  have claims := held_update (s := s) (t := s.setEntry t (getPageTableIndex v) (makePte f PAGE_USER_MODE))
    (k := (d, .frame (v / PAGE_SIZE))) (f := f) dir (by simp only [holds, if_pos user, empty]) (by
      rintro d' dir' (_ | i' | n)
      · simp [holds]
      · simp [holds, entries d' (Or.inr dir')]
      · simp only [holds, frames d' (Or.inr dir'), Prod.mk.injEq, Role.frame.injEq, mapped]
        by_cases here : d' = d ∧ n = v / PAGE_SIZE
        · rw [if_pos here, if_pos here, here.2, if_pos user]
        · rw [if_neg here, if_neg here])
  refine ⟨h.spaces.setEntry (Or.inr dir) (getPageDirIndex_user user) table _, ?_, fun d' dir' => ?_, fun k b held => ?_,
    h.exclusive.insert (fun k held => none ⟨k, held⟩) claims, h.ledger.claim away claims⟩
  · rw [entries _ (Or.inl rfl)]
    exact h.kernelEmpty
  · rw [entries d' (Or.inr dir')]
    exact h.bounded d' dir'
  · rcases (claims k b).mp held with held' | ⟨-, rfl⟩
    · exact h.within k b held'
    · exact ok

theorem Users.switch (h : Users img s dirs loose) (dir : d ∈ insert img.kernelDirectory dirs) :
    Users img (pagingSwitchDirectory s d) dirs loose :=
  ⟨h.spaces.switch dir, h.kernelEmpty, h.bounded, h.within, h.exclusive, h.ledger⟩

theorem Users.mapPage (h : Users img s dirs fun b => b = f ∨ loose b) (away : ¬loose f) (dir : s.current ∈ dirs)
    {v : Nat} (user : 4096 ≤ v / PAGE_SIZE) (small : v < 2 ^ 32)
    (empty : frameAt s s.current (v / PAGE_SIZE) = none)
    (given : (pagingMapPage s v f PAGE_USER_MODE).refused = s.refused) :
    Users img (pagingMapPage s v f PAGE_USER_MODE) dirs loose := by
  have given' := pageTable_given given
  have index : getPageDirIndex v < PAGE_DIRECTORY_ENTRIES := by
    rw [getPageDirIndex_eq]
    simp only [PAGE_SIZE, PAGE_DIRECTORY_ENTRIES] at *
    omega
  rcases pageTable_cases given' with ⟨t, table, result⟩ | ⟨absent, alloc, result⟩
  · rw [pagingMapPage, result]
    exact h.setFrame away dir user table empty
  · have more := h.graft dir (getPageDirIndex_user user) index absent alloc
    obtain ⟨ok, -, free, -⟩ := h.allocPage alloc
    have fresh := h.fresh ok free
    have leads := follow_newTable ok
    have table : follow ((grafted s (getPageDirIndex v)).entries s.current (getPageDirIndex v)) =
        some s.allocPage.2 := by
      rw [grafted, PageTables.entries_setEntry, put_apply, if_pos ⟨rfl, rfl⟩, leads]
    have same : frameAt (grafted s (getPageDirIndex v)) s.current (v / PAGE_SIZE) = none := by
      rw [← empty]
      exact h.spaces.owned.walk_graft fresh (Or.inr dir) absent leads (fun _ => follow_zero) (Or.inr dir) _ _
    rw [pagingMapPage, result]
    exact more.setFrame away dir user table same

theorem Users.mapUserCode (h : Users img s dirs fun b => b = f ∨ loose b) (away : ¬loose f) (dir : d ∈ dirs)
    {v : Nat} (user : 4096 ≤ v / PAGE_SIZE) (small : v < 2 ^ 32) (empty : frameAt s d (v / PAGE_SIZE) = none)
    (given : (pagingMapUserCode s d v f PAGE_SIZE).refused = s.refused) :
    Users img (pagingMapUserCode s d v f PAGE_SIZE) dirs loose := by
  have ok := (h.ledger.apart f (Or.inl rfl)).1
  have wrapV : (v + 0 * PAGE_SIZE) % 2 ^ 32 = v := by
    rw [Nat.zero_mul, Nat.add_zero, Nat.mod_eq_of_lt small]
  have wrapF : (f + 0 * PAGE_SIZE) % 2 ^ 32 = f := by
    rw [Nat.zero_mul, Nat.add_zero, Nat.mod_eq_of_lt (ok.2.1.trans (by decide))]
  have one : (PAGE_SIZE + PAGE_SIZE - 1) % 2 ^ 32 / PAGE_SIZE = 1 := by decide
  have result : pagingMapUserCode s d v f PAGE_SIZE =
      pagingSwitchDirectory (pagingMapPage (pagingSwitchDirectory s d) v f PAGE_USER_MODE) s.current := by
    simp only [pagingMapUserCode, one, mapPagesFrom, wrapV, wrapF]
    rfl
  rw [result] at given ⊢
  exact ((h.switch (Or.inr dir)).mapPage away dir user small empty given).switch h.spaces.current

end Users

section Free

/-- The places behind entry `i` of a directory. -/
def tableRoles (i : Nat) : List Role :=
  (List.range PAGE_TABLE_ENTRIES).map (fun j => .frame (i * 1024 + j)) ++ [.table i]

def roles : List Role :=
  (List.range (PAGE_DIRECTORY_ENTRIES - 4)).flatMap (fun i => tableRoles (i + 4)) ++ [.directory]

def directoryPages (s : PageTables) (d : Nat) : List Nat := roles.filterMap (holds s d)

theorem roles_nodup : roles.Nodup := by
  rw [roles, List.nodup_append]
  refine ⟨List.nodup_flatMap.mpr ⟨fun i _ => ?_, List.nodup_range.imp fun {i i'} other r => ?_⟩,
    List.nodup_singleton _, ?_⟩
  · rw [tableRoles, List.nodup_append]
    refine ⟨List.nodup_range.map fun j j' same => ?_, List.nodup_singleton _, ?_⟩
    · have same' := Role.frame.inj same
      omega
    · simp only [List.mem_map, List.mem_singleton]
      rintro _ ⟨j, -, rfl⟩ _ rfl
      exact Role.noConfusion
  · simp only [tableRoles, List.mem_append, List.mem_map, List.mem_range, List.mem_singleton, PAGE_TABLE_ENTRIES]
    grind
  · simp only [tableRoles, List.mem_flatMap, List.mem_append, List.mem_map, List.mem_singleton]
    grind

variable {img : Image} {s : PageTables} {dirs : Set Nat} {loose : Nat → Prop} {a d : Nat}

theorem mem_roles {r : Role} : r ∈ roles ↔ r = .directory ∨
    ∃ i < PAGE_DIRECTORY_ENTRIES - 4, r = .table (i + 4) ∨ ∃ j < PAGE_TABLE_ENTRIES, r = .frame ((i + 4) * 1024 + j) := by
  simp only [roles, tableRoles, List.mem_append, List.mem_flatMap, List.mem_map, List.mem_range, List.mem_singleton]
  grind

theorem holds_frame {i j : Nat} (high : 4 ≤ i) (inside : j < PAGE_TABLE_ENTRIES) :
    holds s d (.frame (i * 1024 + j)) = (follow (s.entries d i)).bind fun t => follow (s.entries t j) := by
  have index : (i * 1024 + j) / 1024 = i ∧ (i * 1024 + j) % 1024 = j := by
    simp only [PAGE_TABLE_ENTRIES] at inside
    omega
  rw [holds, if_pos (by omega), frameAt, walk, index.1, index.2]

theorem freeTable_pages (entries : Nat → Nat → Nat) (p : PageMap) (t : Nat) : freeTable entries p t =
    pmmFreePage (((List.range PAGE_TABLE_ENTRIES).filterMap fun j => follow (entries t j)).foldl pmmFreePage p) t := by
  rw [freeTable, List.foldl_filterMap]
  generalize List.range PAGE_TABLE_ENTRIES = turns
  congr 2
  funext p j
  by_cases absent : entries t j &&& PAGE_PRESENT = 0
  · rw [follow, if_pos absent, if_pos absent]
  · rw [follow, if_neg absent, if_neg absent]

theorem foldl_tableRoles (p : PageMap) {i : Nat} (high : 4 ≤ i) :
    ((tableRoles i).filterMap (holds s d)).foldl pmmFreePage p =
      if s.entries d i &&& PAGE_PRESENT = 0 then p
      else freeTable s.entries p (s.entries d i &&& 0xFFFFF000) := by
  have table : holds s d (.table i) = follow (s.entries d i) := if_pos high
  have frames : (List.range PAGE_TABLE_ENTRIES).filterMap (holds s d ∘ fun j => .frame (i * 1024 + j)) =
      (List.range PAGE_TABLE_ENTRIES).filterMap fun j => (follow (s.entries d i)).bind fun t =>
        follow (s.entries t j) :=
    List.filterMap_congr fun j inside => holds_frame high (List.mem_range.mp inside)
  rw [tableRoles, List.filterMap_append, List.filterMap_map, List.foldl_append, frames]
  by_cases absent : s.entries d i &&& PAGE_PRESENT = 0
  · have none : follow (s.entries d i) = none := if_pos absent
    simp [none, absent, table]
  · have some : follow (s.entries d i) = some (s.entries d i &&& 0xFFFFF000) := if_neg absent
    rw [List.filterMap_cons, table]
    simp only [some, Option.bind_some, if_neg absent, freeTable_pages, List.filterMap_nil, List.foldl_cons,
      List.foldl_nil]

theorem freeDirectory_current (s : PageTables) (d : Nat) : (pagingFreeDirectory s d).current = s.current := by
  rw [pagingFreeDirectory]
  split <;> rfl

theorem freeDirectory_entries (s : PageTables) (d : Nat) : (pagingFreeDirectory s d).entries = s.entries := by
  rw [pagingFreeDirectory]
  split <;> rfl

theorem freeDirectory_pages (there : d ≠ 0) :
    (pagingFreeDirectory s d).pmm = (directoryPages s d).foldl pmmFreePage s.pmm := by
  rw [pagingFreeDirectory, if_neg there, directoryPages, roles, List.filterMap_append, List.foldl_append,
    List.filterMap_flatMap, List.foldl_flatMap]
  simp only [foldl_tableRoles _ (Nat.le_add_left 4 _)]
  rfl

theorem Users.mem_directoryPages (h : Users img s dirs loose) (dir : d ∈ dirs) :
    a ∈ directoryPages s d ↔ ∃ r, holds s d r = some a := by
  rw [directoryPages, List.mem_filterMap]
  constructor
  · rintro ⟨r, -, there⟩
    exact ⟨r, there⟩
  rintro ⟨r, there⟩
  refine ⟨r, mem_roles.mpr ?_, there⟩
  have inside : ∀ {i t}, 4 ≤ i → follow (s.entries d i) = some t → i - 4 < PAGE_DIRECTORY_ENTRIES - 4 ∧
      i = i - 4 + 4 := by
    intro i t high there
    have small : i < PAGE_DIRECTORY_ENTRIES := by
      by_contra large
      rw [h.bounded d dir i (Nat.not_lt.mp large)] at there
      exact absurd there.symm (Option.some_ne_none t)
    omega
  cases r with
  | directory => exact Or.inl rfl
  | table i =>
    by_cases high : 4 ≤ i
    · rw [holds, if_pos high] at there
      obtain ⟨small, same⟩ := inside high there
      exact Or.inr ⟨i - 4, small, Or.inl (congrArg Role.table same)⟩
    · rw [holds, if_neg high] at there
      exact absurd there.symm (Option.some_ne_none a)
  | frame n =>
    by_cases high : 4096 ≤ n
    · rw [holds, if_pos high, frameAt, walk] at there
      obtain ⟨t, table, -⟩ := Option.bind_eq_some_iff.mp there
      obtain ⟨small, same⟩ := inside (show 4 ≤ n / 1024 by omega) table
      refine Or.inr ⟨n / 1024 - 4, small, Or.inr ⟨n % 1024, Nat.mod_lt _ (by decide), congrArg Role.frame ?_⟩⟩
      omega
    · rw [holds, if_neg high] at there
      exact absurd there.symm (Option.some_ne_none a)

theorem Users.directoryPages_nodup (h : Users img s dirs loose) (dir : d ∈ dirs) : (directoryPages s d).Nodup := by
  refine roles_nodup.filterMap fun r r' a there there' => ?_
  exact congrArg Prod.snd (h.exclusive (d, r) (d, r') a ⟨dir, there⟩ ⟨dir, there'⟩)

theorem Users.free_bits (h : Users img s dirs loose) (dir : d ∈ dirs) (ok : Freeable a) :
    bitmapTest (pagingFreeDirectory s d).pmm (a / PAGE_SIZE) = true ↔
      bitmapTest s.pmm (a / PAGE_SIZE) = true ∧ ∀ r, holds s d r ≠ some a := by
  have freed := Frees.pages (directoryPages s d) s.pmm
  rw [← freeDirectory_pages (h.dir_ne_zero dir)] at freed
  have mine : (∃ b ∈ directoryPages s d, Freeable b ∧ a / PAGE_SIZE = b / PAGE_SIZE) ↔ ∃ r, holds s d r = some a := by
    rw [← h.mem_directoryPages dir]
    constructor
    · rintro ⟨b, call, ok', same⟩
      rwa [(ok.page_inj ok').mp same]
    · exact fun call => ⟨a, call, ok, rfl⟩
  rw [freed.bits, mine, not_exists]

theorem held_free {k : Nat × Role} : Held (pagingFreeDirectory s d) (dirs \ {d}) k a ↔ Held s dirs k a ∧ k.1 ≠ d := by
  have entries := freeDirectory_entries s d
  have holding : holds (pagingFreeDirectory s d) k.1 k.2 = holds s k.1 k.2 :=
    holds_congr (fun i => by rw [entries]) (fun n => by rw [frameAt, frameAt, entries]) k.2
  rw [Held, Held, holding]
  constructor
  · rintro ⟨⟨dir', away⟩, there⟩
    exact ⟨⟨dir', there⟩, away⟩
  · rintro ⟨⟨dir', there⟩, away⟩
    exact ⟨⟨dir', away⟩, there⟩

theorem Users.free_spaces (h : Users img s dirs loose) (dir : d ∈ dirs) (other : s.current ≠ d) :
    Spaces img (pagingFreeDirectory s d) (insert img.kernelDirectory (dirs \ {d})) := by
  have freed := Frees.pages (directoryPages s d) s.pmm
  rw [← freeDirectory_pages (h.dir_ne_zero dir)] at freed
  have entries := freeDirectory_entries s d
  -- a page of another directory is none of this one
  have taken : ∀ {k b}, Held s dirs k b → k.1 ≠ d → Taken (pagingFreeDirectory s d).pmm b := by
    intro k b held away
    have ok := h.within k b held
    refine ⟨ok, (h.free_bits dir ok).mpr ⟨(h.ledger.iff b ok).mpr (Or.inl ⟨k, held⟩), fun r mine => away ?_⟩⟩
    exact congrArg Prod.fst (h.exclusive k (d, r) b held ⟨dir, mine⟩)
  have sub : ∀ d' ∈ insert img.kernelDirectory (dirs \ {d}), d' ∈ insert img.kernelDirectory dirs := by
    rintro d' (rfl | dir')
    · exact Or.inl rfl
    · exact Or.inr dir'.1
  refine ⟨freed.kept h.spaces.kept, ?_, Or.inl rfl, ⟨?_, ?_⟩, ?_, ?_, ?_, ?_⟩
  · rw [freeDirectory_current]
    exact h.spaces.current.imp_right fun dir' => ⟨dir', other⟩
  · rw [entries]
    exact fun d1 dir1 d2 dir2 => h.spaces.owned.single d1 (sub d1 dir1) d2 (sub d2 dir2)
  · rw [entries]
    exact fun d1 dir1 i t there inside => h.spaces.owned.apart d1 (sub d1 dir1) i t there (sub t inside)
  · rintro d' (rfl | ⟨dir', away⟩)
    · exact Or.inl rfl
    · exact Or.inr (taken (k := (d', .directory)) ⟨dir', rfl⟩ away)
  · rw [entries]
    rintro d' (rfl | ⟨dir', away⟩) i user t table
    · rw [h.kernelEmpty i user] at table
      exact absurd table.symm (Option.some_ne_none t)
    · exact taken (k := (d', .table i)) ⟨dir', (if_pos user).trans table⟩ away
  · rw [entries]
    exact fun d' dir' => h.spaces.shared d' (sub d' dir')
  · rw [entries]
    exact h.spaces.identity

/-- `paging_free_directory` gives back the pages of one directory, and no others. -/
theorem Users.free (h : Users img s dirs loose) (dir : d ∈ dirs) (other : s.current ≠ d) :
    Users img (pagingFreeDirectory s d) (dirs \ {d}) loose ∧
      ∀ a, Freeable a → (bitmapTest (pagingFreeDirectory s d).pmm (a / PAGE_SIZE) = true ↔
        bitmapTest s.pmm (a / PAGE_SIZE) = true ∧ ∀ r, holds s d r ≠ some a) := by
  have entries := freeDirectory_entries s d
  refine ⟨⟨h.free_spaces dir other, ?_, ?_, ?_, ?_, ?_⟩, fun a ok => h.free_bits dir ok⟩
  · rw [entries]
    exact h.kernelEmpty
  · rw [entries]
    exact fun d' dir' => h.bounded d' dir'.1
  · exact fun k b held => h.within k b (held_free.mp held).1
  · exact h.exclusive.mono fun k b held => (held_free.mp held).1
  · refine h.ledger.retire h.exclusive (fun k b => held_free) fun b ok => ?_
    rw [h.free_bits dir ok]
    refine and_congr_right fun _ => ⟨?_, fun away r there => away (d, r) rfl ⟨dir, there⟩⟩
    rintro away k rfl held
    exact away k.2 held.2

end Free

section Room

variable {s : PageTables} {n : Nat}

theorem Room.freeDirectory (h : Room n s) (d : Nat) : Room n (pagingFreeDirectory s d) := by
  by_cases there : d = 0
  · rw [pagingFreeDirectory, if_pos there]
    exact h
  · have freed := Frees.pages (directoryPages s d) s.pmm
    rw [← freeDirectory_pages there] at freed
    exact ⟨freed.kept h.1, h.2.trans (Bitmap.clearCount_mono fun i set => ((freed.bits i).mp set).1)⟩

end Room

/-- At boot there are no user directories, and no page behind the kernel is taken. -/
theorem pagingInit_users (img : Image) {s : PageTables} {p : PageMap} (pmm : s.pmm = pmmInit p) :
    Users img (pagingInit img s) ∅ fun _ => False := by
  obtain ⟨r, mapped, result⟩ := pagingInit_mapped img s
  have kept : Kept s.pmm := by
    rw [pmm]
    exact pmmInit_kept p
  have spaces := pagingInit_spaces img kept
  have pages : (pagingInit img s).pmm = pmmInit p := by
    rw [result, ← pmm]
    exact mapped.pmm
  refine ⟨?_, fun i user => ?_, fun d none => absurd none id, fun k a held => absurd held.1 id,
    fun k k' a held => absurd held.1 id, fun a ok => ?_, fun a none => none.elim⟩
  · rwa [insert_empty_eq]
  · rw [result]
    change follow (r.1.entries img.kernelDirectory i) = none
    rw [mapped.directory i, if_neg (by have := Nat.not_lt.mpr user; omega), follow_zero]
  · rw [pages, pmmInit_test p ok.page.2, decide_eq_true_eq]
    have high := ok.page.1
    constructor
    · intro low
      omega
    · rintro (⟨k, none, -⟩ | none)
      · exact none.elim
      · exact none.elim

end Wittche.Paging
