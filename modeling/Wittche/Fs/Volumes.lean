import Wittche.Fs.Isolation
import Wittche.Fs.Remount

/-! Runs with any paths, flags and sizes in which the disk is formatted and mounted as well.
Formatting leaves the descriptors in use without a file, mounting closes them. The runs keep
off the root directory, and off what a stale descriptor shares with another file. -/

namespace Wittche.Fs
open Bytes CString Execution

/-- The root is not unlinked. Nothing is written into it, nor, through a stale descriptor, into
an inode or a block that another file has got. -/
def Careful (s : WitFs) (stale : Nat → Prop) : FsOp → Prop
  | .fsUnlink path => NonRoot path
  | .fsRmdir path => NonRoot path
  | .fsWrite fd _ size => Usable s fd FS_OPEN_WRITE →
      (stale fd.toNat → Apart s (s.openFiles fd.toNat).inode) ∧ ((s.openFiles fd.toNat).inode ≠ 0 ∨ size = 0)
  | _ => True

def CarefulVolume (x : Tracked) : VolumeOp → Prop
  | .call op => Careful x.fs x.stale op
  | .fsFormat => True
  | .fsInit => True

def Tracked.volumeStep (x : Tracked) : VolumeOp → Tracked
  | .call op => x.step op
  | .fsFormat => ⟨fsFormat x.fs, fun fd => (x.fs.openFiles fd).inUse = true⟩
  | .fsInit => ⟨fsInit x.fs, fun _ => False⟩

section Calls

variable {s : WitFs} {leaked stale : Nat → Prop}

/-- A careful call does no harm, or writes through a stale descriptor that shares nothing. -/
theorem Careful.cases {op : FsOp} (ok : Careful s stale op) : Harmless s stale op ∨
    ∃ fd buf size, op = .fsWrite fd buf size ∧ Usable s fd FS_OPEN_WRITE ∧ stale fd.toNat ∧
      Apart s (s.openFiles fd.toNat).inode := by
  cases op with
  | fsUnlink path => exact Or.inl ok
  | fsRmdir path => exact Or.inl ok
  | fsWrite fd buf size =>
    by_cases drifts : Usable s fd FS_OPEN_WRITE ∧ stale fd.toNat
    · exact Or.inr ⟨fd, buf, size, rfl, drifts.1, drifts.2, (ok drifts.1).1 drifts.2⟩
    · exact Or.inl fun usable => ⟨fun old => drifts ⟨usable, old⟩, (ok usable).2⟩
  | _ => exact Or.inl trivial

theorem Inv.careful_step (h : Inv s leaked stale) {op : FsOp} (ok : Careful s stale op) :
    ∃ leaked', Inv (s.step op) leaked' (staleAfter s stale op) := by
  rcases ok.cases with harmless | ⟨fd, buf, size, rfl, usable, old, apart⟩
  · exact ⟨leaked, h.step harmless⟩
  · exact h.write_apart usable apart old buf size

end Calls

section Recount

variable (d : Word × Word) {s : WitFs} {stale : Nat → Prop}

theorem names_recount (path : CStr) (fd : Nat) : Names (recount d s) path fd ↔ Names s path fd := by
  rw [Names, pathLookup_recount]
  rfl

theorem staleAfter_recount (op : FsOp) : staleAfter (recount d s) stale op = staleAfter s stale op := by
  cases op with
  | fsUnlink path => simp only [staleAfter, names_recount]
  | fsRmdir path => simp only [staleAfter, names_recount]
  | _ => rfl

theorem Careful.recount {op : FsOp} (ok : Careful s stale op) : Careful (recount d s) stale op := by
  cases op <;> exact ok

end Recount

/-- Up to the counters, which are `d` away, right books that the disk is in step with. -/
structure Settled (d : Word × Word) (x : Tracked) : Prop where
  inv : ∃ leaked, Inv (recount d x.fs) leaked x.stale
  synced : Synced x.fs

section Steps

variable {d : Word × Word} {x : Tracked}

theorem Settled.sound (h : Settled d x) : ∃ leaked, Sound (recount d x.fs) leaked := by
  obtain ⟨leaked, inv⟩ := h.inv
  exact ⟨leaked, inv.sound⟩

theorem Settled.call (h : Settled d x) {op : FsOp} (ok : Careful x.fs x.stale op) : Settled d (x.step op) := by
  obtain ⟨leaked, inv⟩ := h.inv
  have next := inv.careful_step (ok.recount d)
  have synced := ((synced_recount d x.fs).mpr h.synced).step inv op
  rw [step_recount, staleAfter_recount] at next
  rw [step_recount] at synced
  exact ⟨next, (synced_recount d _).mp synced⟩

/-- The descriptors in use keep their inode numbers, and the inodes other than the root's
their block numbers. -/
theorem Settled.format (h : Settled d x) : Settled (0, 0) (x.volumeStep .fsFormat) := by
  obtain ⟨leaked, inv⟩ := h.inv
  have ready := h.synced.ready
  have formatted := fsFormat_formatted ready
  obtain ⟨on, superblock, files, inodes, blocks⟩ := fsFormat_memory ready
  obtain ⟨sound, -⟩ := formatted.sound rfl formatted.ready.heap on superblock inodes blocks
  refine ⟨⟨fun _ => False, ?_, fun fd _ used fresh => ?_, fun fd lt used => ?_⟩,
    formatted.synced rfl formatted.ready.heap superblock inodes blocks⟩
  · rw [recount_zero]
    exact sound
  · change ((fsFormat x.fs).openFiles fd).inUse = true at used
    rw [files] at used
    exact absurd used fresh
  · change ((fsFormat x.fs).openFiles fd).inUse = true at used
    change ((fsFormat x.fs).openFiles fd).inode < TABLE_INODES ∧
      ∀ k, (fsFormat x.fs).view.blk ((fsFormat x.fs).openFiles fd).inode k < FS_MAX_DATA_BLOCKS
    rw [files] at used ⊢
    obtain ⟨inside, low⟩ := inv.slots fd lt used
    refine ⟨inside, fun k => ?_⟩
    by_cases root : (x.fs.openFiles fd).inode = 0
    · rw [root, (blk_word _ k).mp (formatted.rootEmpty k)]
      decide
    · rw [View.blk, fsFormat_inode ready root]
      exact low k

theorem Settled.step (h : Settled d x) {op : VolumeOp} (ok : CarefulVolume x op) :
    ∃ d', Settled d' (x.volumeStep op) := by
  cases op with
  | call op => exact ⟨d, h.call ok⟩
  | fsFormat => exact ⟨(0, 0), h.format⟩
  | fsInit =>
    obtain ⟨leaked, inv⟩ := h.inv
    exact ⟨mountGap d x.fs, ⟨leaked, h.synced.remount inv⟩, h.synced.mounts.synced h.synced⟩

end Steps

theorem mounted_settled {s : WitFs} (ready : Ready s) : Settled (0, 0) (Tracked.mounted s) :=
  ⟨⟨_, (mounted_intact ready).tidy⟩, (mounted_intact ready).synced⟩

/-- In every state of a careful run the books are right, counters aside. -/
theorem careful_run_settled {s0 : WitFs} {x : Tracked} {ops : List VolumeOp} (ready : Ready s0)
    (run : Exec CarefulVolume Tracked.volumeStep (Tracked.mounted s0) ops x) : ∃ d, Settled d x := by
  have keep : ∀ x op, (∃ d, Settled d x) → CarefulVolume x op → ∃ d, Settled d (x.volumeStep op) := by
    rintro x op ⟨d, here⟩ ok
    exact here.step ok
  exact run.invariant keep ⟨(0, 0), mounted_settled ready⟩

end Wittche.Fs
