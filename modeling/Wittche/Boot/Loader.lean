import Wittche.Lib.Bytes

/-! The reads of `boot/boot.asm`. The boot sector asks the BIOS four times for sectors, by
cylinder, head and sector, and goes on to the kernel if no call failed. Its messages and the
switch to protected mode are left out. -/

namespace Wittche.Boot
open Bytes

/-- The registers of `int 0x13` with `ah = 2`. -/
structure Request where
  al : Nat
  ch : Nat
  cl : Nat
  dh : Nat
  dl : Nat
  es : Nat
  bx : Nat

def reads : List Request :=
  [⟨62, 0, 2, 0, 0x80, 0x1000, 0⟩, ⟨63, 0, 1, 1, 0x80, 0x17C0, 0⟩, ⟨63, 1, 1, 0, 0x80, 0x1FA0, 0⟩,
   ⟨63, 1, 1, 1, 0x80, 0x2780, 0⟩]

/-- The service behind `int 0x13`: the memory when it returns, or the carry flag. -/
abbrev Bios := Request → Buffer → Option Buffer

/-- The boot sector up to its success message; `none` is `disk_error`. -/
def loadKernel (bios : Bios) (m : Buffer) : Option Buffer := reads.foldlM (fun m r => bios r m) m

def KERNEL_ADDRESS : Nat := 0x10000

def BOOT_ADDRESS : Nat := 0x7C00

section Service

def Request.buffer (r : Request) : Nat := r.es * 16 + r.bx

def Request.cylinder (r : Request) : Nat := r.cl / 64 * 256 + r.ch

def Request.sector (r : Request) : Nat := r.cl % 64

/-- A drive with its sectors numbered from 0. -/
structure Drive where
  heads : Nat
  sectors : Nat
  contents : Nat → Buffer

def Drive.first (d : Drive) (r : Request) : Nat := (r.cylinder * d.heads + r.dh) * d.sectors + (r.sector - 1)

/-- What a call that succeeds does: the sectors are in the buffer, and of the memory from the
boot sector on nothing else is touched. -/
structure Serves (bios : Bios) (d : Drive) : Prop where
  read : ∀ r m m', r.dl = 0x80 → bios r m = some m' → ∀ i < r.al * 512,
    m' (r.buffer + i) = d.contents (d.first r + i / 512) (i % 512)
  frame : ∀ r m m', r.dl = 0x80 → bios r m = some m' → ∀ x, BOOT_ADDRESS ≤ x →
    x < r.buffer ∨ r.buffer + r.al * 512 ≤ x → m' x = m x

end Service

section Image

variable {bios : Bios} {d : Drive} {m m' : Buffer} {n : Nat}

/-- The first `n` sectors behind the boot sector are in memory, where the kernel is to be. -/
def KernelAt (contents : Nat → Buffer) (m : Buffer) (n : Nat) : Prop :=
  ∀ i < n * 512, m (KERNEL_ADDRESS + i) = contents (1 + i / 512) (i % 512)

/-- The sector that comes to the `k`-th place. -/
def source (heads sectors k : Nat) : Nat :=
  if k < 62 then 1 + k
  else if k < 125 then sectors + (k - 62)
  else if k < 188 then heads * sectors + (k - 125)
  else (heads + 1) * sectors + (k - 188)

theorem Serves.place (serves : Serves bios d) {r : Request} {rs : List Request} (drive : r.dl = 0x80) (step : bios r m = some m')
    {m'' : Buffer} (rest : rs.foldlM (fun m r => bios r m) m' = some m'') {i : Nat} (inside : i < r.al * 512)
    (high : BOOT_ADDRESS ≤ r.buffer) (apart : ∀ q ∈ rs, q.dl = 0x80 ∧ r.buffer + i < q.buffer) :
    m'' (r.buffer + i) = d.contents (d.first r + i / 512) (i % 512) := by
  rw [← serves.read r m m' drive step i inside]
  clear step
  induction rs generalizing m' with
  | nil => rw [Option.some.inj rest]
  | cons q rs ih =>
    obtain ⟨mid, here, rest⟩ := Option.bind_eq_some_iff.mp rest
    have away := apart q List.mem_cons_self
    rw [ih rest fun q mem => apart q (List.mem_cons_of_mem _ mem)]
    exact serves.frame q m' mid away.1 here _ (Nat.le_trans high (Nat.le_add_right ..)) (Or.inl away.2)

theorem Serves.place_from (serves : Serves bios d) (base count : Nat) {r : Request} {rs : List Request} (drive : r.dl = 0x80)
    (step : bios r m = some m') {m'' : Buffer} (rest : rs.foldlM (fun m r => bios r m) m' = some m'') {i : Nat}
    (start : r.buffer = KERNEL_ADDRESS + base * 512) (length : r.al = count) (low : base * 512 ≤ i)
    (inside : i < (base + count) * 512) (apart : ∀ q ∈ rs, q.dl = 0x80 ∧ KERNEL_ADDRESS + (base + count) * 512 ≤ q.buffer) :
    m'' (KERNEL_ADDRESS + i) = d.contents (d.first r + (i / 512 - base)) (i % 512) := by
  have address : KERNEL_ADDRESS + i = r.buffer + (i - base * 512) := by omega
  have boot : BOOT_ADDRESS ≤ KERNEL_ADDRESS := by decide
  have place := serves.place (i := i - base * 512) drive step rest (by omega) (by omega) fun q mem => by
    have behind := apart q mem
    exact ⟨behind.1, by omega⟩
  rw [address, place, show (i - base * 512) / 512 = i / 512 - base by omega, show (i - base * 512) % 512 = i % 512 by omega]

/-- Where the sectors come to, whatever the drive looks like. -/
theorem Serves.loaded (serves : Serves bios d) (done : loadKernel bios m = some m') {i : Nat} (inside : i < 251 * 512) :
    m' (KERNEL_ADDRESS + i) = d.contents (source d.heads d.sectors (i / 512)) (i % 512) := by
  obtain ⟨m1, first, rest1⟩ := Option.bind_eq_some_iff.mp done
  obtain ⟨m2, second, rest2⟩ := Option.bind_eq_some_iff.mp rest1
  obtain ⟨m3, third, rest3⟩ := Option.bind_eq_some_iff.mp rest2
  obtain ⟨m4, fourth, rest4⟩ := Option.bind_eq_some_iff.mp rest3
  rw [source]
  by_cases low1 : i / 512 < 62
  · rw [if_pos low1, serves.place_from 0 62 rfl first rest1 rfl rfl (by omega) (by omega) (by decide)]
    simp [Drive.first, Request.cylinder, Request.sector]
  by_cases low2 : i / 512 < 125
  · rw [if_neg low1, if_pos low2, serves.place_from 62 63 rfl second rest2 rfl rfl (by omega) (by omega) (by decide)]
    simp [Drive.first, Request.cylinder, Request.sector]
  by_cases low3 : i / 512 < 188
  · rw [if_neg low1, if_neg low2, if_pos low3,
      serves.place_from 125 63 rfl third rest3 rfl rfl (by omega) (by omega) (by decide)]
    simp [Drive.first, Request.cylinder, Request.sector]
  · rw [if_neg low1, if_neg low2, if_neg low3,
      serves.place_from 188 63 rfl fourth rest4 rfl rfl (by omega) (by omega) (by decide)]
    simp [Drive.first, Request.cylinder, Request.sector]

end Image

section Exact

variable {heads sectors n : Nat}

def plainBios (d : Drive) : Bios := fun r m =>
  some (copy m r.buffer (fun i => d.contents (d.first r + i / 512) (i % 512)) (r.al * 512))

theorem plainBios_serves (d : Drive) : Serves (plainBios d) d := by
  refine ⟨fun r m m' _ same i inside => ?_, fun r m m' _ same x _ apart => ?_⟩
  · rw [← Option.some.inj same, copy_inside ⟨Nat.le_add_right .., by omega⟩, Nat.add_sub_cancel_left]
  · rw [← Option.some.inj same, copy_outside apart]

theorem plainBios_loads (d : Drive) (m : Buffer) : ∃ m', loadKernel (plainBios d) m = some m' := ⟨_, rfl⟩

/-- The sectors are in their places if the reads follow each other on the disk. -/
theorem source_iff (few : n ≤ 251) : (∀ k < n, source heads sectors k = 1 + k) ↔
    n ≤ 62 ∨ sectors = 63 ∧ (n ≤ 125 ∨ heads = 2) := by
  constructor
  · intro inOrder
    by_cases one : n ≤ 62
    · exact Or.inl one
    have second := inOrder 62 (by omega)
    rw [source, if_neg (by decide), if_pos (by decide)] at second
    have track : sectors = 63 := by omega
    refine Or.inr ⟨track, ?_⟩
    by_cases two : n ≤ 125
    · exact Or.inl two
    have third := inOrder 125 (by omega)
    rw [source, if_neg (by decide), if_neg (by decide), if_pos (by decide), track] at third
    exact Or.inr (by omega)
  · rintro fits k below
    rw [source]
    split
    next => rfl
    next =>
      obtain ⟨rfl, rest⟩ := fits.resolve_left (by omega)
      split
      next => omega
      next =>
        obtain rfl := rest.resolve_left (by omega)
        split <;> omega

/-- A kernel of `n` sectors comes to its place from every disk, under every BIOS, exactly if it
fits in the first read, or the disk has 63 sectors on a track and, for more than two reads, two
heads. -/
theorem kernel_loaded_iff (heads sectors n : Nat) (few : n ≤ 251) :
    (∀ contents bios m m', Serves bios ⟨heads, sectors, contents⟩ → loadKernel bios m = some m' → KernelAt contents m' n) ↔
      n ≤ 62 ∨ sectors = 63 ∧ (n ≤ 125 ∨ heads = 2) := by
  rw [← source_iff few]
  constructor
  · intro always k below
    by_contra other
    -- a disk that is zero but for the sector that belongs to place `k`
    obtain ⟨m', done⟩ := plainBios_loads ⟨heads, sectors, fun s _ => if s = 1 + k then 1 else 0⟩ fun _ => 0
    have serves := plainBios_serves ⟨heads, sectors, fun s _ => if s = 1 + k then 1 else 0⟩
    have wanted := always _ _ _ m' serves done (k * 512) (by omega)
    have got := serves.loaded done (show k * 512 < 251 * 512 by omega)
    rw [Nat.mul_div_cancel _ (by decide)] at wanted got
    have differ : (if source heads sectors k = 1 + k then (1 : Byte) else 0) = if 1 + k = 1 + k then 1 else 0 :=
      got.symm.trans wanted
    rw [if_neg other, if_pos rfl] at differ
    exact absurd differ (by decide)
  · intro inOrder contents bios m m' serves done i inside
    have place := inOrder (i / 512) (by omega)
    have read : i < 251 * 512 := Nat.lt_of_lt_of_le inside (Nat.mul_le_mul_right 512 few)
    exact (serves.loaded done read).trans (congrArg (fun s => contents s (i % 512)) place)

theorem kernel_loaded_iff_second : (∀ contents bios m m', Serves bios ⟨16, 63, contents⟩ → loadKernel bios m = some m' →
    KernelAt contents m' 126) ↔ 126 ≤ 62 ∨ 63 = 63 ∧ (126 ≤ 125 ∨ 16 = 2) :=
  kernel_loaded_iff 16 63 126 (by decide)

end Exact

end Wittche.Boot
