import Wittche.Fs.Root

/-! What `fs_readdir` returns when the caller's array is too short for the whole directory: the
entries from the front, as many as there is room for. -/

namespace Wittche.Fs
open Bytes CString Execution

section Prefixes

theorem take_take_append {α : Type} (l r : List α) (m : Nat) : (l.take m ++ r).take m = (l ++ r).take m := by
  rw [List.take_append, List.take_append, List.take_take, Nat.min_self, List.length_take]
  congr 2
  omega

theorem take_of_full {α : Type} {l : List α} {m : Nat} (full : l.length = m) (r : List α) : (l ++ r).take m = l := by
  rw [← full, List.take_left]

end Prefixes

/-- Entry `e` as `fs_readdir` copies it. -/
def View.dirent (V : View) (e : Nat) : Dirent := ⟨BitVec.ofNat 32 (V.ent e), fun j => V.entName e j.val⟩

def View.dirents (V : View) (n e : Nat) : List Dirent :=
  ((List.range' e n).filter fun a => decide (V.ent a ≠ 0)).map V.dirent

section Readdir

variable {s : WitFs} {V : View} {ib db : Buffer} {hi hb : Nat → Prop} {k i : Nat} {data : Buffer} {max : Nat}

theorem dirents_append (V : View) (m n e : Nat) : V.dirents (m + n) e = V.dirents m e ++ V.dirents n (e + m) := by
  rw [View.dirents, ← List.range'_append_1, List.filter_append, List.map_append]
  rfl

theorem dirents_one (V : View) (e : Nat) : V.dirents 1 e = if V.ent e ≠ 0 then [V.dirent e] else [] := by
  by_cases live : V.ent e = 0 <;> simp [View.dirents, live]

theorem dirents_behind (c : Consistent V ib db hi hb) (missing : V.blk 0 k = 0) (n : Nat) : V.dirents n (16 * k) = [] := by
  rw [View.dirents, List.map_eq_nil_iff, List.filter_eq_nil_iff]
  intro a mem
  rw [List.mem_range'_1] at mem
  simpa using c.ent_behind missing mem.1

theorem direntAt_eq (used : V.blk 0 k ≠ 0) (contents : cut data = V.block (V.blk 0 k)) (h : i < 16) :
    direntAt data i = V.dirent (16 * k + i) := by
  obtain ⟨ent, names⟩ := ent_eq used contents h
  rw [direntAt, View.dirent, ent, BitVec.ofNat_toNat, BitVec.setWidth_eq]
  congr 1
  funext j
  exact (names j.val j.isLt).symm

theorem readdirEntries_take (used : V.blk 0 k ≠ 0) (contents : cut data = V.block (V.blk 0 k)) {n : Nat}
    (found : List Dirent) (inside : i + n ≤ 16) (room : found.length ≤ max) :
    readdirEntries data max n i found = (found ++ V.dirents n (16 * k + i)).take max := by
  induction n generalizing i found with
  | zero => rw [readdirEntries, View.dirents, List.range'_zero, List.filter_nil, List.map_nil, List.append_nil,
      List.take_of_length_le room]
  | succ n ih =>
    rw [readdirEntries]
    by_cases more : found.length < max
    · have zero := ent_zero_iff used contents (show i < 16 by omega)
      rw [if_pos (by omega), Nat.add_comm n 1, dirents_append, dirents_one, Nat.add_assoc]
      by_cases live : direntInode data i = 0
      · rw [if_neg (not_not.mpr live), if_neg (not_not.mpr (zero.mpr live)), List.nil_append]
        exact ih found (by omega) room
      · rw [if_pos live, if_pos fun h => live (zero.mp h), ← List.append_assoc,
          ← direntAt_eq used contents (show i < 16 by omega)]
        refine ih _ (by omega) ?_
        rw [List.length_append, List.length_singleton]
        exact more
    · rw [if_neg (by omega), take_of_full (by omega)]

theorem readdirFrom_take (ready : Ready s) (c : Consistent s.view ib db hi hb) {n : Nat} (h : k + n = 10) (data : Buffer)
    {found : List Dirent} (room : found.length ≤ max) :
    readdirFrom s (s.view.inode 0) max n k data found = (found ++ s.view.dirents (16 * n) (16 * k)).take max := by
  induction n generalizing k data found with
  | zero => rw [readdirFrom, View.dirents, Nat.mul_zero, List.range'_zero, List.filter_nil, List.map_nil, List.append_nil,
      List.take_of_length_le room]
  | succ n ih =>
    rw [readdirFrom]
    by_cases missing : (s.view.inode 0).block k = 0
    · rw [if_neg fun h => h.1 missing, dirents_behind c ((blk_word _ k).mp missing), List.append_nil,
        List.take_of_length_le room]
    · by_cases more : found.length < max
      · have used : s.view.blk 0 k ≠ 0 := fun h => missing ((blk_word _ k).mpr h)
        have block := readdirEntries_take used (readDir_contents ready c k data) found
          (show 0 + ENTRIES_PER_BLOCK ≤ 16 by decide) room
        rw [if_pos ⟨missing, by omega⟩]
        dsimp only
        rw [block, ih (by omega) _ (List.length_take_le ..), take_take_append, List.append_assoc, Nat.add_zero,
          entries_per_block, show 16 * (n + 1) = 16 + 16 * n by omega, dirents_append,
          show 16 * (k + 1) = 16 * k + 16 by omega]
      · rw [if_neg fun h => more (by omega), take_of_full (by omega)]

theorem readdirFrom_none (x : Inode) (n : Nat) (data : Buffer) {max : Int} (none : max ≤ 0) :
    readdirFrom s x max n k data [] = [] := by
  cases n with
  | zero => rfl
  | succ n => rw [readdirFrom, if_neg fun h => absurd (h.2.trans_le none) (lt_irrefl _)]

/-- The live entries of the root directory from the front, as many as fit. -/
theorem fsReaddir_take {leaked : Nat → Prop} (h : Sound s leaked) {path : CStr} (root : ¬NonRoot path) (max : Int) :
    fsReaddir s path max = (s, (((s.view.dirents 160 0).take max.toNat).length : Int),
      (s.view.dirents 160 0).take max.toNat) := by
  obtain ⟨heap, p, grant, pending, -, back⟩ := kmalloc_of_ready h.ready
  have ready' : Ready { s with heap := heap } := ⟨h.ready.disk, pending⟩
  have listed : readdirFrom { s with heap := heap } (s.view.inode 0) max FS_DIRECT_BLOCKS 0 heap.junk [] =
      (s.view.dirents 160 0).take max.toNat := by
    by_cases none : max ≤ 0
    · rw [readdirFrom_none _ _ _ none, Int.toNat_of_nonpos none, List.take_zero]
    · have room : ([] : List Dirent).length ≤ max.toNat := Nat.zero_le _
      have front := readdirFrom_take ready' h.books.cons (show 0 + 10 = 10 from rfl) heap.junk room
      rw [Int.toNat_of_nonneg (by omega)] at front
      exact front
  rw [fsReaddir, h.on, Bool.not_true, if_neg Bool.false_ne_true, pathLookup_empty (not_not.mp root)]
  simp only [readInode_view h.ready (show 0 < TABLE_INODES by decide), h.books.cons.rootDir, if_false, grant,
    back { s with heap := heap } rfl, listed]

end Readdir

end Wittche.Fs
