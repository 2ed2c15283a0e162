/-
The boot floppy behind its low-memory copies, `fs_cached_floppy_read` and
`fs_cached_floppy_write` of `src/kernel/core/fs/fs_core.c`.

The boot loader leaves copies of the boot sector, the first FAT and the root directory in
low memory and tells the kernel where (`fs_floppy_boot_info_t`). A read takes a sector
from its copy when it has one, and from the floppy controller when it does not. A write
goes to the copy and to the controller, in this order: the copy is changed first, and
when the transfer then fails the function returns the error and the copy stays changed.

So a copy is right after a write exactly when the write has not failed at a sector that
has a copy with other bytes (`write_coherent_iff`). With that condition on the writes of
a run the copies equal the medium throughout, and every read returns the medium's bytes.

A controller may fail any transfer, by number, and a failed transfer leaves the medium as
it was. Sectors past the 2880 of the medium are refused without a transfer. The context
and the buffer pointer are not null.
-/
import System1.Base
import System1.Lib.ByteStore

set_option autoImplicit false

namespace System1.FloppyCache

open System1.Lib Function List

def FLOPPY_SECTORS : Nat := 2880

abbrev Sector : Type := Fin 512 → UInt8

/-! ## Sectors in memory -/

/-- The sector at an address. -/
def sectorAt (mem : Nat → UInt8) (addr : Nat) : Sector := fun j => mem (addr + j.val)

/-- `fs_copy_bytes(addr, src, 512u)`. -/
def storeSector (mem : Nat → UInt8) (addr : Nat) (src : Sector) : Nat → UInt8 :=
  overlay mem addr 512 fun k => src (Fin.ofNat 512 k)

theorem sectorAt_storeSector (mem : Nat → UInt8) (addr : Nat) (src : Sector) :
    sectorAt (storeSector mem addr src) addr = src := by
  funext j
  unfold sectorAt storeSector
  rw [overlay_hit j.isLt]
  simp

variable {addr : Nat}

theorem sectorAt_storeSector_apart {mem : Nat → UInt8} {other : Nat} {src : Sector}
    (h : addr + 512 ≤ other ∨ other + 512 ≤ addr) :
    sectorAt (storeSector mem addr src) other = sectorAt mem other := by
  funext j
  unfold sectorAt storeSector
  apply overlay_miss
  omega

/-! ## The boot information -/

/-- The fields of `fs_floppy_boot_info_t` that the two functions read. -/
structure BootInfo where
  boot_sector_addr : Nat
  fat_addr : Nat
  root_dir_addr : Nat
  fat_lba : Nat
  fat_sectors : Nat
  root_lba : Nat
  root_sectors : Nat

/-- Boot information of a floppy: the FAT and the root directory are sectors of the medium,
behind the boot sector and apart from each other, and the three copies lie apart. -/
structure Layout extends BootInfo where
  boot_ne : boot_sector_addr ≠ 0
  fat_pos : 0 < fat_lba
  fat_root : fat_lba + fat_sectors ≤ root_lba
  root_end : root_lba + root_sectors ≤ FLOPPY_SECTORS
  boot_fat : boot_sector_addr + 512 ≤ fat_addr ∨
    fat_addr + fat_sectors * 512 ≤ boot_sector_addr
  boot_root : boot_sector_addr + 512 ≤ root_dir_addr ∨
    root_dir_addr + root_sectors * 512 ≤ boot_sector_addr
  fat_dir : fat_addr + fat_sectors * 512 ≤ root_dir_addr ∨
    root_dir_addr + root_sectors * 512 ≤ fat_addr

/-- Where the read path looks for the copy of a sector. -/
def readAddr (info : BootInfo) (lba : Nat) : Option Nat :=
  if lba = 0 then some info.boot_sector_addr
  else if lba ≥ info.fat_lba ∧ lba < u32 (info.fat_lba + info.fat_sectors) then
    some (info.fat_addr + (lba - info.fat_lba) * 512)
  else if lba ≥ info.root_lba ∧ lba < u32 (info.root_lba + info.root_sectors) then
    some (info.root_dir_addr + (lba - info.root_lba) * 512)
  else none

/-- Where the write path puts the copy; it has no copy of the boot sector at address 0. -/
def writeAddr (info : BootInfo) (lba : Nat) : Option Nat :=
  if lba = 0 ∧ info.boot_sector_addr ≠ 0 then some info.boot_sector_addr
  else if lba ≥ info.fat_lba ∧ lba < u32 (info.fat_lba + info.fat_sectors) then
    some (info.fat_addr + (lba - info.fat_lba) * 512)
  else if lba ≥ info.root_lba ∧ lba < u32 (info.root_lba + info.root_sectors) then
    some (info.root_dir_addr + (lba - info.root_lba) * 512)
  else none

/-! ## The drive -/

/-- Memory, the medium, and the number of transfers made. -/
structure Drive where
  mem : Nat → UInt8
  medium : Nat → Sector
  transfers : Nat

/-- A controller fails the transfers of its choice, with any error code. -/
structure Controller where
  fault : Nat → Option FsErr

variable (C : Controller)

def floppy_controller_read_sector (d : Drive) (lba : Nat) : Except FsErr Sector × Drive :=
  if lba ≥ FLOPPY_SECTORS then (.error .INVALID, d)
  else
    match C.fault d.transfers with
    | some rc => (.error rc, { d with transfers := d.transfers + 1 })
    | none => (.ok (d.medium lba), { d with transfers := d.transfers + 1 })

def floppy_controller_write_sector (d : Drive) (src : Sector) (lba : Nat) :
    Except FsErr Unit × Drive :=
  if lba ≥ FLOPPY_SECTORS then (.error .INVALID, d)
  else
    match C.fault d.transfers with
    | some rc => (.error rc, { d with transfers := d.transfers + 1 })
    | none => (.ok (), { d with
        medium := update d.medium lba src, transfers := d.transfers + 1 })

/-- The loop of `fs_cached_floppy_read`: `n` sectors are still to be read, from the `i`th
on, and `out` are the ones read. -/
def readLoop (info : BootInfo) (lba : Nat) : Nat → Nat → List Sector → Drive →
    Except FsErr (List Sector) × Drive
  | 0, _, out, d => (.ok out, d)
  | n + 1, i, out, d =>
    match readAddr info (u32 (lba + i)) with
    | some addr => readLoop info lba n (i + 1) (out ++ [sectorAt d.mem addr]) d
    | none =>
      match floppy_controller_read_sector C d (u32 (lba + i)) with
      | (.ok s, d') => readLoop info lba n (i + 1) (out ++ [s]) d'
      | (.error rc, d') => (.error rc, d')

def fs_cached_floppy_read (info : BootInfo) (d : Drive) (lba count : Nat) :
    Except FsErr (List Sector) × Drive :=
  readLoop C info lba count 0 [] d

/-- The copy of a sector takes the new bytes, if there is one. -/
def storeCopy (info : BootInfo) (d : Drive) (lba : Nat) (src : Sector) : Drive :=
  match writeAddr info lba with
  | some addr => { d with mem := storeSector d.mem addr src }
  | none => d

/-- The loop of `fs_cached_floppy_write` over the sectors of the buffer. -/
def writeLoop (info : BootInfo) (lba : Nat) : List Sector → Nat → Drive →
    Except FsErr Unit × Drive
  | [], _, d => (.ok (), d)
  | src :: rest, i, d =>
    match floppy_controller_write_sector C (storeCopy info d (u32 (lba + i)) src) src
        (u32 (lba + i)) with
    | (.ok (), d') => writeLoop info lba rest (i + 1) d'
    | (.error rc, d') => (.error rc, d')

def fs_cached_floppy_write (info : BootInfo) (d : Drive) (lba : Nat) (data : List Sector) :
    Except FsErr Unit × Drive :=
  writeLoop C info lba data 0 d

/-! ## Coherence -/

/-- The three copies equal the medium. -/
structure Coherent (info : BootInfo) (d : Drive) : Prop where
  boot : sectorAt d.mem info.boot_sector_addr = d.medium 0
  fat : ∀ j < info.fat_sectors,
    sectorAt d.mem (info.fat_addr + j * 512) = d.medium (info.fat_lba + j)
  root : ∀ j < info.root_sectors,
    sectorAt d.mem (info.root_dir_addr + j * 512) = d.medium (info.root_lba + j)

variable {lba : Nat} {d : Drive}

namespace Layout

variable {C} (L : Layout)

/-- The sums of the boot information do not wrap. -/
theorem ends_eq : u32 (L.fat_lba + L.fat_sectors) = L.fat_lba + L.fat_sectors ∧
    u32 (L.root_lba + L.root_sectors) = L.root_lba + L.root_sectors := by
  have hfat := L.fat_root
  have hroot : L.root_lba + L.root_sectors ≤ 2880 := L.root_end
  exact ⟨u32_of_lt (by omega), u32_of_lt (by omega)⟩

/-- The two paths agree on where the copies are. -/
theorem writeAddr_eq (lba : Nat) : writeAddr L.toBootInfo lba = readAddr L.toBootInfo lba := by
  grind [writeAddr, readAddr, L.boot_ne]

/-- The sectors that have a copy, and where it is. -/
theorem readAddr_eq_some :
    readAddr L.toBootInfo lba = some addr ↔
      (lba = 0 ∧ addr = L.boot_sector_addr) ∨
      (∃ j < L.fat_sectors, lba = L.fat_lba + j ∧ addr = L.fat_addr + j * 512) ∨
      ∃ j < L.root_sectors, lba = L.root_lba + j ∧ addr = L.root_dir_addr + j * 512 := by
  have hpos := L.fat_pos
  have hsep := L.fat_root
  unfold readAddr
  rw [L.ends_eq.1, L.ends_eq.2]
  constructor
  · intro h
    split at h
    · next h0 => exact .inl ⟨h0, (Option.some.inj h).symm⟩
    split at h
    · next hf =>
      exact .inr (.inl ⟨lba - L.fat_lba, by omega, by omega, (Option.some.inj h).symm⟩)
    split at h
    · next hr =>
      exact .inr (.inr ⟨lba - L.root_lba, by omega, by omega, (Option.some.inj h).symm⟩)
    · cases h
  · grind

/-- Coherence, sector by sector. -/
theorem coherent_iff (d : Drive) : Coherent L.toBootInfo d ↔
    ∀ lba addr, readAddr L.toBootInfo lba = some addr → sectorAt d.mem addr = d.medium lba := by
  constructor
  · intro h lba addr haddr
    rcases L.readAddr_eq_some.mp haddr with ⟨rfl, rfl⟩ | ⟨j, hj, rfl, rfl⟩ | ⟨j, hj, rfl, rfl⟩
    · exact h.boot
    · exact h.fat j hj
    · exact h.root j hj
  · intro h
    refine ⟨h 0 _ (L.readAddr_eq_some.mpr (.inl ⟨rfl, rfl⟩)), fun j hj => ?_, fun j hj => ?_⟩
    · exact h _ _ (L.readAddr_eq_some.mpr (.inr (.inl ⟨j, hj, rfl, rfl⟩)))
    · exact h _ _ (L.readAddr_eq_some.mpr (.inr (.inr ⟨j, hj, rfl, rfl⟩)))

/-- Copies of different sectors lie apart. -/
theorem readAddr_apart {lba' addr' : Nat} (h : readAddr L.toBootInfo lba = some addr)
    (h' : readAddr L.toBootInfo lba' = some addr') (hne : lba ≠ lba') :
    addr + 512 ≤ addr' ∨ addr' + 512 ≤ addr := by
  have h1 := L.boot_fat
  have h2 := L.boot_root
  have h3 := L.fat_dir
  rcases L.readAddr_eq_some.mp h with ⟨rfl, rfl⟩ | ⟨j, hj, rfl, rfl⟩ | ⟨j, hj, rfl, rfl⟩ <;>
    rcases L.readAddr_eq_some.mp h' with ⟨rfl, rfl⟩ | ⟨j', hj', rfl, rfl⟩ | ⟨j', hj', rfl, rfl⟩ <;>
    omega

/-- A sector with a copy is on the medium. -/
theorem readAddr_lt (h : readAddr L.toBootInfo lba = some addr) :
    lba < FLOPPY_SECTORS := by
  have h1 := L.fat_root
  have h2 := L.root_end
  have h3 : 0 < FLOPPY_SECTORS := Nat.succ_pos _
  rcases L.readAddr_eq_some.mp h with ⟨rfl, rfl⟩ | ⟨j, hj, rfl, rfl⟩ | ⟨j, hj, rfl, rfl⟩ <;> omega

/-! ## Reading -/

/-- A read changes nothing but the count of transfers, and from coherent copies a
successful one delivers the medium's bytes. -/
theorem readLoop_spec (lba n i : Nat) (out : List Sector) (h : Coherent L.toBootInfo d)
    (hout : out = (range i).map fun j => d.medium (u32 (lba + j))) :
    (readLoop C L.toBootInfo lba n i out d).2.mem = d.mem ∧
    (readLoop C L.toBootInfo lba n i out d).2.medium = d.medium ∧
    ∀ l, (readLoop C L.toBootInfo lba n i out d).1 = .ok l →
      l = (range (i + n)).map fun j => d.medium (u32 (lba + j)) := by
  induction n generalizing i out d with
  | zero =>
    refine ⟨rfl, rfl, fun l hl => ?_⟩
    rw [← Except.ok.inj hl]
    exact hout
  | succ n ih =>
    have hnext : ∀ s, s = d.medium (u32 (lba + i)) →
        out ++ [s] = (range (i + 1)).map fun j => d.medium (u32 (lba + j)) := by
      intro s hs
      rw [hs, hout, range_succ, map_append, map_singleton]
    rw [show i + (n + 1) = i + 1 + n by omega]
    unfold readLoop
    split
    · next haddr => exact ih (i + 1) _ h (hnext _ ((L.coherent_iff d).mp h _ _ haddr))
    next =>
      unfold floppy_controller_read_sector
      by_cases hbound : u32 (lba + i) ≥ FLOPPY_SECTORS
      · rw [if_pos hbound]
        exact ⟨rfl, rfl, fun l hl => by cases hl⟩
      rw [if_neg hbound]
      cases C.fault d.transfers with
      | some rc => exact ⟨rfl, rfl, fun l hl => by cases hl⟩
      | none =>
        exact ih (d := { d with transfers := d.transfers + 1 }) (i + 1) _
          ⟨h.boot, h.fat, h.root⟩ (hnext _ rfl)

/-! ## Writing -/

/-- The transfer of the sector at `lba` that has number `t` fails or is refused. -/
def Fails (C : Controller) (t lba : Nat) : Prop :=
  ¬ (lba < FLOPPY_SECTORS ∧ C.fault t = none)

/-- The first sector of the data whose transfer fails has no copy, or the medium already
holds its bytes. -/
def Harmless (C : Controller) (d : Drive) (lba : Nat) (data : List Sector) : Prop :=
  ∀ k src, data[k]? = some src → (∀ j < k, ¬ Fails C (d.transfers + j) (u32 (lba + j))) →
    Fails C (d.transfers + k) (u32 (lba + k)) →
    (readAddr L.toBootInfo (u32 (lba + k))).isSome = true → d.medium (u32 (lba + k)) = src

/-- A copy that has the new bytes is right exactly when the medium has them too. -/
theorem coherent_storeCopy_iff (h : Coherent L.toBootInfo d) (lba : Nat) (src : Sector) (t : Nat) :
    Coherent L.toBootInfo { storeCopy L.toBootInfo d lba src with transfers := t } ↔
      ((readAddr L.toBootInfo lba).isSome = true → d.medium lba = src) := by
  rw [coherent_iff]
  unfold storeCopy
  rw [L.writeAddr_eq]
  cases haddr : readAddr L.toBootInfo lba with
  | none =>
    simp only [Option.isSome_none, Bool.false_eq_true, false_implies, iff_true]
    exact (L.coherent_iff d).mp h
  | some addr =>
    simp only [Option.isSome_some, true_implies]
    constructor
    · grind [sectorAt_storeSector]
    · intro hsrc lba' addr' haddr'
      by_cases hne : lba' = lba
      · grind [sectorAt_storeSector]
      · grind [sectorAt_storeSector_apart, L.readAddr_apart, L.coherent_iff]

/-- A transferred sector is the same in its copy and on the medium. -/
theorem coherent_written (h : Coherent L.toBootInfo d) (lba : Nat) (src : Sector) (t : Nat) :
    Coherent L.toBootInfo { storeCopy L.toBootInfo d lba src with
      medium := update d.medium lba src, transfers := t } := by
  rw [coherent_iff]
  intro lba' addr' haddr'
  have hold := (L.coherent_iff d).mp h lba' addr' haddr'
  grind [L.writeAddr_eq, sectorAt_storeSector, storeCopy, L.readAddr_apart,
    sectorAt_storeSector_apart]

/-- Consecutive sectors that are all on the medium do not wrap. -/
theorem consecutive {a k : Nat} (h : ∀ j ≤ k, u32 (a + j) < FLOPPY_SECTORS) :
    u32 (a + k) = u32 a + k := by
  induction k with
  | zero => rfl
  | succ k ih => grind [FLOPPY_SECTORS, u32]

theorem storeCopy_medium (info : BootInfo) (d : Drive) (lba : Nat) (src : Sector) :
    (storeCopy info d lba src).medium = d.medium ∧
      (storeCopy info d lba src).transfers = d.transfers := by
  unfold storeCopy
  cases writeAddr info lba <;> exact ⟨rfl, rfl⟩

section

variable {src : Sector} {rest : List Sector}

/-- If the first transfer fails, only its own sector matters. -/
theorem harmless_of_fails (hfails : Fails C d.transfers (u32 lba)) :
    L.Harmless C d lba (src :: rest) ↔
      ((readAddr L.toBootInfo (u32 lba)).isSome = true → d.medium (u32 lba) = src) := by
  constructor
  · exact fun h => h 0 src rfl (fun j hj => absurd hj (Nat.not_lt_zero j)) hfails
  · intro hfirst k src' hk hbefore _ hcached
    cases k with
    | zero =>
      cases hk
      exact hfirst hcached
    | succ k => exact absurd hfails (hbefore 0 (Nat.succ_pos k))

/-- Where the first transfer succeeds the rest decides. -/
theorem harmless_of_succeeds (hok : ¬ Fails C d.transfers (u32 lba)) (mem : Nat → UInt8) :
    L.Harmless C d lba (src :: rest) ↔
      L.Harmless C ⟨mem, update d.medium (u32 lba) src, d.transfers + 1⟩ (lba + 1) rest := by
  unfold Harmless
  rw [← Nat.and_forall_add_one]
  refine (and_iff_right fun _ _ _ hfails => absurd hfails hok).trans ?_
  refine forall₃_congr fun k src' _ => ?_
  simp only [Nat.forall_lt_succ_left, Nat.add_right_comm _ 1, ← Nat.add_assoc]
  rw [and_iff_right (show ¬ Fails C (d.transfers + 0) (u32 (lba + 0)) from hok)]
  refine forall₃_congr fun hbefore _ hcached => ?_
  -- the sectors behind the first are other sectors of the medium
  obtain ⟨addr, haddr⟩ := Option.isSome_iff_exists.mp hcached
  have hall : ∀ j ≤ k + 1, u32 (lba + j) < FLOPPY_SECTORS := by
    intro j hj
    match j with
    | 0 => exact (Decidable.not_not.mp hok).1
    | j + 1 =>
      obtain rfl | hlt := Nat.eq_or_lt_of_le (Nat.le_of_succ_le_succ hj)
      · exact L.readAddr_lt haddr
      · exact (Decidable.not_not.mp (hbefore j hlt)).1
  rw [update_of_ne]
  rw [Nat.add_assoc, consecutive hall]
  omega

end

/-- **When the copies survive a write**: exactly when its failure, if it fails, is
harmless. -/
theorem writeLoop_coherent_iff (lba : Nat) (data : List Sector) (i : Nat)
    (h : Coherent L.toBootInfo d) :
    Coherent L.toBootInfo (writeLoop C L.toBootInfo lba data i d).2 ↔
      L.Harmless C d (lba + i) data := by
  -- on the sectors of the buffer: the first one fails, or the rest decides
  induction data generalizing i d with
  | nil => grind [writeLoop, Harmless]
  | cons src rest ih =>
    obtain ⟨hmedium, htransfers⟩ := storeCopy_medium L.toBootInfo d (u32 (lba + i)) src
    by_cases hfails : Fails C d.transfers (u32 (lba + i))
    · have hres : ∃ rc t, writeLoop C L.toBootInfo lba (src :: rest) i d =
          (.error rc, { storeCopy L.toBootInfo d (u32 (lba + i)) src with transfers := t }) := by
        unfold writeLoop floppy_controller_write_sector
        by_cases hbound : u32 (lba + i) ≥ FLOPPY_SECTORS
        · rw [if_pos hbound]
          exact ⟨_, _, rfl⟩
        rw [if_neg hbound, htransfers]
        cases hfault : C.fault d.transfers with
        | some rc => exact ⟨rc, _, rfl⟩
        | none => exact absurd ⟨Nat.lt_of_not_ge hbound, hfault⟩ hfails
      obtain ⟨rc, t, hres⟩ := hres
      rw [hres, L.coherent_storeCopy_iff h, L.harmless_of_fails hfails]
    obtain ⟨hlt, hfault⟩ := Decidable.not_not.mp hfails
    have hres : writeLoop C L.toBootInfo lba (src :: rest) i d =
        writeLoop C L.toBootInfo lba rest (i + 1)
          { storeCopy L.toBootInfo d (u32 (lba + i)) src with
            medium := update d.medium (u32 (lba + i)) src
            transfers := d.transfers + 1 } := by grind [writeLoop, floppy_controller_write_sector]
    grind [L.coherent_written, L.harmless_of_succeeds]

end Layout

/-! ## Runs -/

/-- A call of the device. -/
inductive Call where
  | read (lba count : Nat)
  | write (lba : Nat) (data : List Sector)

def step (info : BootInfo) (d : Drive) : Call → Drive
  | .read lba count => (fs_cached_floppy_read C info d lba count).2
  | .write lba data => (fs_cached_floppy_write C info d lba data).2

/-- No write fails at a sector that has a copy, unless it writes what the medium holds. -/
def Safe (L : Layout) (d : Drive) : Call → Prop
  | .read _ _ => True
  | .write lba data => L.Harmless C d lba data

inductive Reach (L : Layout) (d0 : Drive) : Drive → Prop where
  | start : Reach L d0 d0
  | step {d : Drive} (c : Call) : Reach L d0 d → Safe C L d c → Reach L d0 (step C L.toBootInfo d c)

variable {C}

/-- Every read of coherent copies. -/
theorem read_medium (L : Layout) (h : Coherent L.toBootInfo d) (lba count : Nat) :
    Coherent L.toBootInfo (fs_cached_floppy_read C L.toBootInfo d lba count).2 ∧
    ∀ l, (fs_cached_floppy_read C L.toBootInfo d lba count).1 = .ok l →
      l = (range count).map fun i => d.medium (u32 (lba + i)) := by
  obtain ⟨hmem, hmedium, hl⟩ := L.readLoop_spec (C := C) lba count 0 [] h rfl
  rw [Nat.zero_add] at hl
  refine ⟨?_, hl⟩
  unfold fs_cached_floppy_read
  exact ⟨by rw [hmem, hmedium]; exact h.boot, by rw [hmem, hmedium]; exact h.fat,
    by rw [hmem, hmedium]; exact h.root⟩

theorem Coherent.step {L : Layout} (h : Coherent L.toBootInfo d) {c : Call} (hsafe : Safe C L d c) :
    Coherent L.toBootInfo (step C L.toBootInfo d c) := by
  cases c with
  | read lba count => exact (read_medium L h lba count).1
  | write lba data => exact (L.writeLoop_coherent_iff lba data 0 h).mpr hsafe

/-- **Coherence of the copies.** In every run whose writes do not fail at a sector that has
a copy with other bytes, the copies equal the medium in every state, and every successful
read returns the medium's bytes. The condition is exact: from any of these states, a write
keeps the copies right if and only if it meets it. -/
theorem copies_coherent (C : Controller) (L : Layout) (d0 : Drive) (h0 : Coherent L.toBootInfo d0)
    (d : Drive) (h : Reach C L d0 d) :
    Coherent L.toBootInfo d ∧
    (∀ lba count l, (fs_cached_floppy_read C L.toBootInfo d lba count).1 = .ok l →
      l = (range count).map fun i => d.medium (u32 (lba + i))) ∧
    ∀ lba data, Coherent L.toBootInfo (fs_cached_floppy_write C L.toBootInfo d lba data).2 ↔
      Safe C L d (.write lba data) := by
  have hd : Coherent L.toBootInfo d := by
    induction h with
    | start => exact h0
    | step c _ hsafe ih => exact ih.step hsafe
  refine ⟨hd, fun lba count => (read_medium L hd lba count).2, fun lba data => ?_⟩
  exact L.writeLoop_coherent_iff lba data 0 hd

/-- The layout of a 1.44 MB floppy, with its copies in low memory. -/
def sampleLayout : Layout where
  boot_sector_addr := 0x7C00
  fat_addr := 0xA000
  root_dir_addr := 0xC000
  fat_lba := 1
  fat_sectors := 9
  root_lba := 19
  root_sectors := 14
  boot_ne := by decide
  fat_pos := by decide
  fat_root := by decide
  root_end := by decide
  boot_fat := by decide
  boot_root := by decide
  fat_dir := by decide

/-- An empty floppy with its copies. -/
def emptyDrive : Drive := ⟨fun _ => 0, fun _ _ => 0, 0⟩

theorem emptyDrive_coherent : Coherent sampleLayout.toBootInfo emptyDrive :=
  ⟨rfl, fun _ _ => rfl, fun _ _ => rfl⟩

/-- A controller that fails its first transfer. -/
def failsFirst : Controller := ⟨fun t => if t = 0 then some .INVALID else none⟩

/-- A write that fails at a sector of the data area leaves the copies right. -/
theorem copies_coherent_after_failure :
    (fs_cached_floppy_write failsFirst sampleLayout.toBootInfo emptyDrive 100 [fun _ => 0x55]).1 =
      .error .INVALID ∧
    Coherent sampleLayout.toBootInfo
      (fs_cached_floppy_write failsFirst sampleLayout.toBootInfo emptyDrive 100
        [fun _ => 0x55]).2 := by
  have hsafe : Safe failsFirst sampleLayout emptyDrive (.write 100 [fun _ => 0x55]) := by
    intro k src hk hbefore hfails hcached
    cases k with
    | zero => cases hcached
    | succ k => cases hk
  exact ⟨rfl, (copies_coherent failsFirst sampleLayout emptyDrive emptyDrive_coherent _
    (Reach.start.step (.write 100 [fun _ => 0x55]) hsafe)).1⟩

/-- **A failed write to the FAT leaves its copy ahead of the medium.** The write reports its
error and the medium is as before, but the next read of the sector succeeds and returns the
bytes that were not written. -/
theorem failed_write_leaves_copy_ahead :
    Coherent sampleLayout.toBootInfo emptyDrive ∧
    ∃ d, fs_cached_floppy_write failsFirst sampleLayout.toBootInfo emptyDrive 1 [fun _ => 0x55] =
        (.error .INVALID, d) ∧
      d.medium 1 = (fun _ => 0) ∧ ¬ Coherent sampleLayout.toBootInfo d ∧
      (fs_cached_floppy_read failsFirst sampleLayout.toBootInfo d 1 1).1 = .ok [fun _ => 0x55] := by
  have hwrite : writeAddr sampleLayout.toBootInfo (u32 (1 + 0)) = some 0xA000 := by decide
  have hread : readAddr sampleLayout.toBootInfo (u32 (1 + 0)) = some 0xA000 := by decide
  refine ⟨emptyDrive_coherent, ⟨storeSector emptyDrive.mem 0xA000 fun _ => 0x55,
    emptyDrive.medium, 1⟩, ?_, rfl, fun h => ?_, ?_⟩
  · simp only [fs_cached_floppy_write, writeLoop, storeCopy, hwrite]
    rfl
  · have hfat := h.fat 0 (by decide)
    rw [show sampleLayout.fat_addr + 0 * 512 = 0xA000 from rfl, sectorAt_storeSector] at hfat
    exact absurd (congrFun hfat 0) (by decide)
  · simp only [fs_cached_floppy_read, readLoop, hread, sectorAt_storeSector]
    rfl

end System1.FloppyCache
