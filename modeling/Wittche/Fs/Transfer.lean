import Wittche.Fs.Names

/-! The loops of `fs_read` and `fs_write`.
Both cut a request at block boundaries and move the descriptor's position with every
turn. For each loop there is one rule: a property that every turn keeps holds at the
end, and if bytes are left over, the loop has met one of its two ways out. -/

namespace Wittche.Fs
open Bytes

section Chunks

theorem chunk_eq (p left : Nat) : chunk p left = min left (512 - p % 512) := by
  have size : FS_BLOCK_SIZE = 512 := rfl
  rw [chunk, size]
  split <;> omega

theorem chunk_le (p left : Nat) : chunk p left ≤ left ∧ chunk p left ≤ 512 - p % 512 := by
  rw [chunk_eq]
  omega

theorem chunk_cases (p left : Nat) :
    chunk p left = left ∨ (p + chunk p left) / 512 = p / 512 + 1 := by
  rw [chunk_eq]
  omega

theorem chunk_end {p : Nat} (left : Nat) (h : p / 512 < 10) : p + chunk p left ≤ 5120 := by
  have bound := (chunk_le p left).2
  omega

theorem chunk_pos {p left : Nat} (h : 0 < left) : 0 < chunk p left := by
  rw [chunk_eq]
  omega

end Chunks

def movedTo (s : WitFs) (fd p : Nat) : Nat → OpenFile :=
  Function.update s.openFiles fd { s.openFiles fd with position := p }

@[simp] theorem movedTo_self (s : WitFs) (fd p : Nat) :
    movedTo s fd p fd = { s.openFiles fd with position := p } := Function.update_self ..

theorem movedTo_other (s : WitFs) {fd i : Nat} (h : i ≠ fd) (p : Nat) :
    movedTo s fd p i = s.openFiles i := Function.update_of_ne h ..

theorem movedTo_here (s : WitFs) (fd : Nat) : movedTo s fd (s.openFiles fd).position = s.openFiles :=
  Function.update_eq_self ..

def WitFs.moved (s : WitFs) (fd p : Nat) : WitFs := { s with openFiles := movedTo s fd p }

@[simp] theorem moved_view (s : WitFs) (fd p : Nat) : (s.moved fd p).view = s.view := rfl

@[simp] theorem moved_position (s : WitFs) (fd p : Nat) : ((s.moved fd p).openFiles fd).position = p := by
  simp [WitFs.moved]

theorem advance_moved (s : WitFs) {fd p n : Nat} (small : p + n < 2 ^ 32) :
    advance (s.moved fd p) fd n = s.moved fd (p + n) := by
  simp only [advance, WitFs.moved, movedTo, Function.update_self, Function.update_idem]
  rw [Nat.mod_eq_of_lt small]

theorem advance_openFiles {s t : WitFs} {fd p n : Nat} (h : s.openFiles = movedTo t fd p)
    (small : p + n < 2 ^ 32) : (advance s fd n).openFiles = movedTo t fd (p + n) := by
  simp only [advance, h, movedTo, Function.update_self, Function.update_idem]
  rw [Nat.mod_eq_of_lt small]

def blockAt (s : WitFs) (fd : Nat) : Nat := (s.openFiles fd).position / 512

def lengthAt (s : WitFs) (fd left : Nat) : Nat := chunk (s.openFiles fd).position left

theorem enough_turns {s t : WitFs} {fd turns size done : Nat}
    (enough : 10 < turns + 1 + blockAt s fd ∨ size ≤ done) (left : done < size)
    (moved : (t.openFiles fd).position = (s.openFiles fd).position + lengthAt s fd (size - done)) :
    10 < turns + blockAt t fd ∨ size ≤ done + lengthAt s fd (size - done) := by
  rcases chunk_cases (s.openFiles fd).position (size - done) with finished | boundary
  · refine Or.inr ?_
    rw [lengthAt, finished]
    omega
  · refine Or.inl ?_
    rw [blockAt, moved, lengthAt, boundary]
    rw [blockAt] at enough
    omega

theorem turns_suffice : 10 < FS_DIRECT_BLOCKS + 1 := by decide

theorem position_fits {s : WitFs} {fd : Nat} (left : Nat) (low : blockAt s fd < 10) :
    (s.openFiles fd).position + lengthAt s fd left < 2 ^ 32 := by
  have bound := chunk_end left low
  rw [lengthAt]
  omega

section Write

variable {fd size : Nat} {buf : Buffer} {I : WitFs → Inode → Nat → Prop}

theorem allocDataBlock_none {s t : WitFs} (h : allocDataBlock s = (t, none)) : t = s := by
  rw [allocDataBlock] at h
  split at h
  · exact (Prod.mk.inj h).1.symm
  · exact absurd (Prod.mk.inj h).2 (by simp)

theorem allocDataBlock_openFiles {s t : WitFs} {b : Nat} (h : allocDataBlock s = (t, some b)) :
    t.openFiles = s.openFiles := by
  rw [allocDataBlock] at h
  split at h
  · exact absurd (Prod.mk.inj h).2 (by simp)
  · rw [← (Prod.mk.inj h).1]
    rfl

theorem writeChunk_position (buf : Buffer) {s : WitFs} (x : Inode) (data : Buffer) (done : Nat) {n : Nat}
    (small : (s.openFiles fd).position + n < 2 ^ 32) :
    ((writeChunk fd buf s x data done n).1.openFiles fd).position = (s.openFiles fd).position + n := by
  simp only [writeChunk, advance, writeBlock, Function.update_self]
  exact Nat.mod_eq_of_lt small

/-- A turn of `fs_write` in a block the file has keeps `I`. -/
def TurnOld (fd size : Nat) (buf : Buffer) (I : WitFs → Inode → Nat → Prop) : Prop :=
  ∀ s x data done, I s x done → done < size → blockAt s fd < 10 → x.block (blockAt s fd) ≠ 0 →
    let n := lengthAt s fd (size - done)
    let r := writeChunk fd buf s x (readBlock s (dataBlockNum (x.block (blockAt s fd))) data) done n
    I r.1 r.2.1 (done + n)

/-- A turn of `fs_write` in a block it has just got keeps `I`. -/
def TurnNew (fd size : Nat) (buf : Buffer) (I : WitFs → Inode → Nat → Prop) : Prop :=
  ∀ s s' x b done, I s x done → done < size → blockAt s fd < 10 → x.block (blockAt s fd) = 0 →
    allocDataBlock s = (s', some b) →
    let n := lengthAt s fd (size - done)
    let r := writeChunk fd buf s' (x.setBlock (blockAt s fd) (BitVec.ofNat 32 b)) (fun _ => 0) done n
    I r.1 r.2.1 (done + n)

/-- The rule for the loop of `fs_write`. -/
theorem writeFrom_rule (old : TurnOld fd size buf I) (new : TurnNew fd size buf I) {turns : Nat} {s : WitFs}
    {x : Inode} {done : Nat} (data : Buffer) (start : I s x done)
    (enough : 10 < turns + blockAt s fd ∨ size ≤ done) :
    ∃ s' x' done', writeFrom fd buf size turns s x data done = (s', x', done') ∧ I s' x' done' ∧
      (done' < size → 10 ≤ blockAt s' fd ∨
        x'.block (blockAt s' fd) = 0 ∧ allocDataBlock s' = (s', none)) := by
  induction turns generalizing s x done data with
  | zero =>
    refine ⟨s, x, done, rfl, start, fun left => Or.inl ?_⟩
    rcases enough with past | finished
    · omega
    · omega
  | succ turns ih =>
    rw [writeFrom]
    split
    next left =>
      simp only []
      split
      next past => exact ⟨s, x, done, rfl, start, fun _ => Or.inl past⟩
      next low =>
        have lt : blockAt s fd < 10 := Nat.lt_of_not_le low
        have index : (s.openFiles fd).position / FS_BLOCK_SIZE = blockAt s fd := rfl
        have length : chunk (s.openFiles fd).position (size - done) = lengthAt s fd (size - done) := rfl
        rw [index, length]
        by_cases missing : x.block (blockAt s fd) = 0
        · rw [ensureBlock, if_pos missing]
          cases alloc : allocDataBlock s with
          | mk s' found =>
            cases found with
            | none =>
              have same := allocDataBlock_none alloc
              subst same
              exact ⟨s', x, done, rfl, start, fun _ => Or.inr ⟨missing, alloc⟩⟩
            | some b =>
              have files := allocDataBlock_openFiles alloc
              have small := position_fits (size - done) lt
              rw [← files] at small
              have moved := writeChunk_position buf (x.setBlock (blockAt s fd) (BitVec.ofNat 32 b))
                (fun _ => 0) done small
              rw [files] at moved
              exact ih _ (new s s' x b done start left lt missing alloc) (enough_turns enough left moved)
        · rw [ensureBlock, if_neg missing]
          have moved := writeChunk_position buf x (readBlock s (dataBlockNum (x.block (blockAt s fd))) data)
            done (position_fits (size - done) lt)
          exact ih _ (old s x data done start left lt missing) (enough_turns enough left moved)
    next finished => exact ⟨s, x, done, rfl, start, fun left => absurd left finished⟩

end Write

section Read

variable {fd size : Nat} {x : Inode} {I : WitFs → List Byte → Prop}

theorem readFrom_rule
    (turn : ∀ s data done, I s done → done.length < size → blockAt s fd < 10 →
      x.block (blockAt s fd) ≠ 0 →
      I (advance s fd (lengthAt s fd (size - done.length)))
        (done ++ (List.range (lengthAt s fd (size - done.length))).map fun i =>
          readBlock s (dataBlockNum (x.block (blockAt s fd))) data ((s.openFiles fd).position % 512 + i)))
    {turns : Nat} {s : WitFs} {done : List Byte} (data : Buffer) (start : I s done)
    (enough : 10 < turns + blockAt s fd ∨ size ≤ done.length) :
    ∃ s' done', readFrom fd x size turns s data done = (s', done') ∧ I s' done' ∧
      (done'.length < size → 10 ≤ blockAt s' fd ∨ x.block (blockAt s' fd) = 0) := by
  induction turns generalizing s done data with
  | zero =>
    refine ⟨s, done, rfl, start, fun left => Or.inl ?_⟩
    omega
  | succ turns ih =>
    rw [readFrom]
    split
    next left =>
      simp only []
      split
      next stop => exact ⟨s, done, rfl, start, fun _ => stop⟩
      next go =>
        have lt : blockAt s fd < 10 := Nat.lt_of_not_le fun h => go (Or.inl h)
        have used : x.block (blockAt s fd) ≠ 0 := fun h => go (Or.inr h)
        refine ih _ (turn s data done start left lt used) ?_
        have moved : ((advance s fd (lengthAt s fd (size - done.length))).openFiles fd).position =
            (s.openFiles fd).position + lengthAt s fd (size - done.length) := by
          simp only [advance, Function.update_self]
          exact Nat.mod_eq_of_lt (position_fits _ lt)
        rw [List.length_append, List.length_map, List.length_range]
        exact enough_turns enough left moved
    next finished => exact ⟨s, done, rfl, start, fun left => absurd left finished⟩

end Read

def View.byteAt (V : View) (n i : Nat) : Byte := V.block (V.blk n (i / 512)) (i % 512)

def View.bytesAt (V : View) (n p len : Nat) : List Byte := (List.range len).map fun i => V.byteAt n (p + i)

@[simp] theorem bytesAt_length (V : View) (n p len : Nat) : (V.bytesAt n p len).length = len := by
  simp [View.bytesAt]

theorem bytesAt_append (V : View) (n p m len : Nat) :
    V.bytesAt n p (m + len) = V.bytesAt n p m ++ V.bytesAt n (p + m) len := by
  simp only [View.bytesAt, List.range_add, List.map_append, List.map_map, Function.comp_def, Nat.add_assoc]

theorem Covers.extend {V : View} {n p len : Nat} (h : Covers V n p)
    (used : ∀ i < len, V.blk n ((p + i) / 512) ≠ 0) : Covers V n (p + len) := by
  intro k hk
  by_cases before : 512 * k < p
  · exact h k before
  · have here := used (512 * k - p) (by omega)
    rwa [show (p + (512 * k - p)) / 512 = k by omega] at here

section

variable {s : WitFs} {n : Nat}

theorem word_zero (V : View) (n k : Nat) : (V.inode n).block k = 0 ↔ V.blk n k = 0 := by
  rw [View.blk, ← BitVec.toNat_zero, BitVec.toNat_inj]
  rfl

theorem readChunk_bytes (ready : Ready s) (low : ∀ k, s.view.blk n k < FS_MAX_DATA_BLOCKS) (q len : Nat)
    (data : Buffer) (inside : len ≤ 512 - q % 512) :
    ((List.range len).map fun i =>
      readBlock s (dataBlockNum ((s.view.inode n).block (q / 512))) data (q % 512 + i)) =
      s.view.bytesAt n q len := by
  refine List.map_congr_left fun i hi => ?_
  rw [List.mem_range] at hi
  have contents := readBlock_view ready (low (q / 512)) data
  rw [View.byteAt, show (q + i) / 512 = q / 512 by omega, show (q + i) % 512 = q % 512 + i by omega,
    View.blk, ← contents, cut_apply (by omega)]

/-- The loop of `fs_read` delivers the bytes of the file and moves the position. -/
theorem readFrom_spec (fd : Nat) (ready : Ready s) (low : ∀ k, s.view.blk n k < FS_MAX_DATA_BLOCKS) (size : Nat)
    (data : Buffer) :
    ∃ len, readFrom fd (s.view.inode n) size (FS_DIRECT_BLOCKS + 1) s data [] =
        (s.moved fd ((s.openFiles fd).position + len),
          s.view.bytesAt n (s.openFiles fd).position len) ∧
      len ≤ size ∧ (∀ i < len, s.view.blk n (((s.openFiles fd).position + i) / 512) ≠ 0) ∧
      (len < size → s.view.blk n (((s.openFiles fd).position + len) / 512) = 0) := by
  generalize here : (s.openFiles fd).position = p
  let I : WitFs → List Byte → Prop := fun t done =>
    t = s.moved fd (p + done.length) ∧ done = s.view.bytesAt n p done.length ∧
      done.length ≤ size ∧ ∀ i < done.length, s.view.blk n ((p + i) / 512) ≠ 0
  have turn : ∀ t data done, I t done → done.length < size → blockAt t fd < 10 →
      (s.view.inode n).block (blockAt t fd) ≠ 0 →
      I (advance t fd (lengthAt t fd (size - done.length)))
        (done ++ (List.range (lengthAt t fd (size - done.length))).map fun i =>
          readBlock t (dataBlockNum ((s.view.inode n).block (blockAt t fd))) data
            ((t.openFiles fd).position % 512 + i)) := by
    rintro t data done ⟨rfl, bytes, -, filled⟩ left index used
    have fits := position_fits (size - done.length) index
    simp only [blockAt, lengthAt, moved_position] at index used fits ⊢
    have inside := chunk_le (p + done.length) (size - done.length)
    have ready' : Ready (s.moved fd (p + done.length)) := ⟨ready.disk, ready.heap⟩
    have copied := readChunk_bytes ready' low (p + done.length) _ data inside.2
    rw [moved_view] at copied
    have block : s.view.blk n ((p + done.length) / 512) ≠ 0 := fun h => used ((word_zero _ n _).mpr h)
    have length : (done ++ s.view.bytesAt n (p + done.length)
        (chunk (p + done.length) (size - done.length))).length =
        done.length + chunk (p + done.length) (size - done.length) := by
      rw [List.length_append, bytesAt_length]
    rw [copied, advance_moved s fits]
    refine ⟨?_, ?_, ?_, ?_⟩
    all_goals rw [length]
    · rw [Nat.add_assoc]
    · rw [bytesAt_append, ← bytes]
    · omega
    · intro i hi
      by_cases before : i < done.length
      · exact filled i before
      · rw [show (p + i) / 512 = (p + done.length) / 512 by omega]
        exact block
  have start : I s [] :=
    ⟨by simp [← here, WitFs.moved, movedTo_here], rfl, Nat.zero_le _, fun i hi => absurd hi (Nat.not_lt_zero i)⟩
  obtain ⟨t, done, eq, ⟨state, bytes, le, filled⟩, stop⟩ :=
    readFrom_rule turn data start (Or.inl (Nat.lt_add_right (blockAt s fd) turns_suffice))
  refine ⟨done.length, ?_, le, filled, fun left => ?_⟩
  · rw [eq, state, ← bytes]
  · have out := stop left
    rw [state] at out
    simp only [blockAt, moved_position] at out
    rcases out with past | zero
    · exact blk_of_ge _ n past
    · exact (word_zero _ n _).mp zero

end

def Usable (s : WitFs) (fd : Int) (flag : Word) : Prop :=
  validFd s fd = true ∧ (s.openFiles fd.toNat).flags &&& flag ≠ 0

instance (s : WitFs) (fd : Int) (flag : Word) : Decidable (Usable s fd flag) :=
  inferInstanceAs (Decidable (_ ∧ _))

/-- The bytes `fs_read` goes for, with its 32-bit sum. -/
def readSize (length position size : Nat) : Nat :=
  if length ≤ position then 0
  else if length < (position + size) % 2 ^ 32 then length - position else size

section

variable {s : WitFs} {fd : Int}

theorem fsRead_unusable (h : ¬Usable s fd FS_OPEN_READ) (size : Nat) : fsRead s fd size = (s, -1, []) := by
  rw [fsRead]
  split
  next => rfl
  next valid =>
    rw [if_pos]
    by_contra flag
    exact h ⟨by simpa using valid, flag⟩

theorem moved_here (s : WitFs) (fd : Nat) : s.moved fd (s.openFiles fd).position = s := by
  rw [WitFs.moved, movedTo_here]

theorem fsRead_spec (ready : Ready s) (usable : Usable s fd FS_OPEN_READ) {n p : Nat}
    (inode : (s.openFiles fd.toNat).inode = n) (position : (s.openFiles fd.toNat).position = p)
    (lt : n < TABLE_INODES) (low : ∀ k, s.view.blk n k < FS_MAX_DATA_BLOCKS) (size : Nat) :
    ∃ len : Nat, fsRead s fd size = (s.moved fd.toNat (p + len), (len : Int), s.view.bytesAt n p len) ∧
      len ≤ readSize (s.view.inode n).size.toNat p size ∧
      (∀ i < len, s.view.blk n ((p + i) / 512) ≠ 0) ∧
      (len < readSize (s.view.inode n).size.toNat p size → s.view.blk n ((p + len) / 512) = 0) := by
  obtain ⟨valid, flag⟩ := usable
  rw [fsRead, valid, Bool.not_true, if_neg Bool.false_ne_true, if_neg flag, inode,
    readInode_view ready lt]
  simp only [position, readSize]
  split
  next => exact ⟨0, by rw [Nat.add_zero, ← position, moved_here]; rfl, Nat.le_refl 0,
      fun i hi => absurd hi (Nat.not_lt_zero i), by omega⟩
  next =>
    obtain ⟨heap, q, grant, pending, -, back⟩ := kmalloc_of_ready ready
    have ready' : Ready { s with heap := heap } := ⟨ready.disk, pending⟩
    rw [grant]
    simp only []
    obtain ⟨len, loop, le, filled, stop⟩ := readFrom_spec fd.toNat ready' low
      (if (s.view.inode n).size.toNat < (p + size) % 2 ^ 32 then (s.view.inode n).size.toNat - p else size)
      heap.junk
    simp only [position] at loop filled stop
    refine ⟨len, ?_, le, filled, stop⟩
    erw [loop]
    rw [back _ rfl]
    exact Prod.ext rfl (Prod.ext (congrArg Int.ofNat (bytesAt_length s.view n p len)) rfl)

end

end Wittche.Fs
