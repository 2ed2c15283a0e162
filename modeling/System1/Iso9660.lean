/-
Reading files of the ISO9660 driver, `src/kernel/core/fs/iso9660_core.c`.

A file is an extent: the number of its first sector of 2048 bytes and its size, two 32-bit
words of a directory record that nothing has checked. `iso_read_file` and `iso_read` walk
the sectors of the extent, and `iso_read_2048` multiplies a sector number by four to get the
number of a block. The product is a 32-bit one and the block layer compares the product with
the size of the device, so a sector number from `2 ^ 30` on is not refused: it is read as the
sector `2 ^ 30` below. That is the only way to get wrong bytes (`extent_read_iff`).

What `iso_resolve_path` answers is an argument here, and so is the device: its bytes, and a
read function that may fail at any time but delivers no other bytes than these.
-/
import System1.Base

set_option autoImplicit false

namespace System1.Iso9660

open List

def ISO9660_SECTOR_SIZE : Nat := 2048
def ISO9660_OPEN_FILE_CAP : Nat := 16

/-- A block device of at most `2 ^ 32` blocks, since block numbers have 32 bits. A
`sector_count` of 0 stands for an unknown size. -/
structure Device where
  sector_size : Nat
  sector_count : Nat
  content : List UInt8
  read : Nat → Nat → Except FsErr (List UInt8)
  length_le : content.length ≤ 512 * 2 ^ 32
  read_ok : ∀ lba count bytes, read lba count = .ok bytes →
    512 * (lba + count) ≤ content.length ∧ bytes = (content.drop (512 * lba)).take (512 * count)

/-- Where a record says that its file is. -/
structure Extent where
  lba : Nat
  size : Nat
  lba_lt : lba < 2 ^ 32
  size_lt : size < 2 ^ 32

/-- `g_iso_open_files`, with `none` for an entry that is not used. -/
abbrev OpenFiles : Type := Fin ISO9660_OPEN_FILE_CAP → Option Extent

variable (dev : Device)

def block_core_read (lba count : Nat) : Except FsErr (List UInt8) :=
  if dev.sector_size ≠ 512 then .error .INVALID
  else if dev.sector_count ≠ 0 ∧ (lba ≥ dev.sector_count ∨ count > dev.sector_count - lba) then
    .error .INVALID
  else dev.read lba count

def iso_read_2048 (iso_lba : Nat) : Except FsErr (List UInt8) :=
  if dev.sector_size ≠ 512 then .error .INVALID else block_core_read dev (u32 (iso_lba * 4)) 4

/-- The loop over the sectors of an extent. `iso_read` starts it at any offset in a sector,
`iso_read_file` at the first byte; `buffer` is what has been copied. -/
def copySectors (lba target copied sector_idx : Nat) (sector_offset : Fin ISO9660_SECTOR_SIZE)
    (buffer : List UInt8) : Except FsErr (List UInt8) :=
  if copied < target then
    match iso_read_2048 dev (u32 (lba + sector_idx)) with
    | .error rc => .error rc
    | .ok sector =>
      let chunk := min (ISO9660_SECTOR_SIZE - sector_offset) (target - copied)
      copySectors lba target (copied + chunk) (sector_idx + 1) ⟨0, by decide⟩
        (buffer ++ (sector.drop sector_offset).take chunk)
  else .ok buffer
termination_by target - copied
decreasing_by
  have := sector_offset.isLt
  omega

/-- `resolved` is the answer of `iso_resolve_path`: an extent and whether it is a
directory. -/
def iso_read_file (resolved : Except FsErr (Extent × Bool)) (cap : Nat) :
    Except FsErr (List UInt8) :=
  match resolved with
  | .error rc => .error rc
  | .ok (file, is_dir) =>
    if is_dir then .error .NOT_DIR
    else if cap < file.size then .error .NO_SPACE
    else copySectors dev file.lba file.size 0 0 ⟨0, by decide⟩ []

def iso_open (files : OpenFiles) (resolved : Except FsErr (Extent × Bool)) (flags : Nat) :
    Except FsErr (Nat × OpenFiles) :=
  if flags &&& (FS_O_WRONLY ||| FS_O_CREAT ||| FS_O_TRUNC ||| FS_O_APPEND) ≠ 0 then
    .error .READ_ONLY
  else
    match resolved with
    | .error rc => .error rc
    | .ok (file, is_dir) =>
      if is_dir then .error .NOT_DIR
      else
        match (finRange ISO9660_OPEN_FILE_CAP).find? fun i => (files i).isNone with
        | some i => .ok (i.val + 1, fun j => if j = i then some file else files j)
        | none => .error .NO_SPACE

def iso_read (files : OpenFiles) (node_id offset cap : Nat) : Except FsErr (List UInt8) :=
  if h : node_id = 0 ∨ node_id > ISO9660_OPEN_FILE_CAP then .error .INVALID
  else
    match files ⟨node_id - 1, by omega⟩ with
    | none => .error .INVALID
    | some file =>
      if offset ≥ file.size then .ok []
      else
        copySectors dev file.lba (min (file.size - offset) cap) 0 (offset / ISO9660_SECTOR_SIZE)
          ⟨offset % ISO9660_SECTOR_SIZE, Nat.mod_lt _ (by decide)⟩ []

/-! ## Slices -/

/-- The bytes are the `n` bytes of the device from `a` on, which are there. -/
def Slice (content : List UInt8) (a n : Nat) (bytes : List UInt8) : Prop :=
  bytes = (content.drop a).take n ∧ bytes.length = n

section

variable {dev} {content b b' : List UInt8} {a n m : Nat}

theorem Slice.append (h : Slice content a n b) (h' : Slice content (a + n) m b') :
    Slice content a (n + m) (b ++ b') := by
  constructor
  · rw [h.1, h'.1, ← drop_drop, ← take_add]
  · rw [length_append, h.2, h'.2]

theorem Slice.sub (h : Slice content a n b) {o : Nat} (hle : o + m ≤ n) :
    Slice content (a + o) m ((b.drop o).take m) := by
  constructor
  · rw [h.1, drop_take, drop_drop, take_take, Nat.min_eq_left (by omega)]
  · rw [length_take, length_drop, h.2]
    omega

/-- What a block number below `2 ^ 32` delivers. -/
theorem iso_read_2048_slice {k : Nat} (h : iso_read_2048 dev k = .ok b) :
    Slice dev.content (512 * u32 (k * 4)) ISO9660_SECTOR_SIZE b := by
  unfold iso_read_2048 block_core_read at h
  split at h
  · cases h
  split at h
  · cases h
  obtain ⟨hle, hb⟩ := dev.read_ok _ _ _ h
  refine ⟨hb, ?_⟩
  rw [hb, length_take, length_drop]
  unfold ISO9660_SECTOR_SIZE
  omega

/-- The sector is not read as another one. -/
def Unaliased (dev : Device) (k : Nat) : Prop :=
  k < 2 ^ 30 ∨ ∃ rc, block_core_read dev (k * 4 % 2 ^ 32) 4 = .error rc

/-- Sector numbers wrap before they are multiplied; that makes no difference. -/
theorem iso_read_2048_eq (k : Nat) :
    iso_read_2048 dev (u32 k) = block_core_read dev (k * 4 % 2 ^ 32) 4 := by
  unfold iso_read_2048
  rw [show u32 (u32 k * 4) = k * 4 % 2 ^ 32 by unfold u32; omega]
  split
  · next h => rw [block_core_read, if_pos h]
  · rfl

theorem Unaliased.slice {k : Nat} (hk : Unaliased dev k) (h : iso_read_2048 dev (u32 k) = .ok b) :
    Slice dev.content (2048 * k) ISO9660_SECTOR_SIZE b := by
  rcases hk with hk | ⟨rc, hrc⟩
  · have hs := iso_read_2048_slice h
    rwa [show 512 * u32 (u32 k * 4) = 2048 * k by unfold u32; omega] at hs
  · rw [iso_read_2048_eq, hrc] at h
    cases h

/-- The loop has copied a slice when it starts a sector, and a bigger one after it. -/
theorem copySectors_slice {lba target copied sector_idx : Nat}
    {sector_offset : Fin ISO9660_SECTOR_SIZE} {buffer bytes : List UInt8}
    (hgood : ∀ j, 2048 * j < sector_offset + (target - copied) →
      Unaliased dev (lba + sector_idx + j)) (hle : copied ≤ target)
    (ha : copied < target → a + copied = 2048 * (lba + sector_idx) + sector_offset)
    (hbuf : Slice dev.content a copied buffer)
    (h : copySectors dev lba target copied sector_idx sector_offset buffer = .ok bytes) :
    Slice dev.content a target bytes := by
  induction hn : target - copied using Nat.strongRecOn
    generalizing copied sector_idx sector_offset buffer with
  | ind n ih =>
  rw [copySectors] at h
  by_cases hlt : copied < target
  · rw [if_pos hlt] at h
    cases hread : iso_read_2048 dev (u32 (lba + sector_idx)) with
    | error rc =>
      rw [hread] at h
      cases h
    | ok sector =>
      rw [hread] at h
      have hso := sector_offset.isLt
      simp only [ISO9660_SECTOR_SIZE] at hso h
      have hsector := (hgood 0 (by omega)).slice hread
      have hchunk := hsector.sub (m := min (2048 - sector_offset) (target - copied))
        (o := sector_offset) (by unfold ISO9660_SECTOR_SIZE; omega)
      rw [Nat.add_zero, ← ha hlt] at hchunk
      refine ih _ (by omega) (fun j hj => ?_) (by omega) (fun hmore => ?_)
        (hbuf.append hchunk) h rfl
      · rw [show lba + (sector_idx + 1) + j = lba + sector_idx + (j + 1) by omega]
        refine hgood (j + 1) ?_
        simp only at hj
        omega
      · -- a sector that is not the last one has been read to its end
        have := ha hlt
        simp only
        omega
  · rw [if_neg hlt] at h
    cases h
    rwa [show target = copied by omega]

end

/-! ## Files -/

/-- An answer is an error or the bytes of the extent from `offset` on. -/
def Delivers (file : Extent) (offset n : Nat) (answer : Except FsErr (List UInt8)) : Prop :=
  ∀ bytes, answer = .ok bytes → Slice dev.content (2048 * file.lba + offset) n bytes

/-- Read at once or through a handle, the file is its extent. -/
structure ReadsExtent (file : Extent) : Prop where
  whole : ∀ cap ≥ file.size,
    Delivers dev file 0 file.size (iso_read_file dev (.ok (file, false)) cap)
  part : ∀ files flags node_id files',
    iso_open files (.ok (file, false)) flags = .ok (node_id, files') →
    ∀ offset cap, Delivers dev file offset (min (file.size - offset) cap)
      (iso_read dev files' node_id offset cap)

variable {dev} {file : Extent}

/-- A handle reads the file it was opened on. -/
theorem iso_read_opened {files files' : OpenFiles} {flags node_id : Nat}
    (h : iso_open files (.ok (file, false)) flags = .ok (node_id, files')) (offset cap : Nat) :
    iso_read dev files' node_id offset cap =
      if offset ≥ file.size then .ok []
      else copySectors dev file.lba (min (file.size - offset) cap) 0 (offset / ISO9660_SECTOR_SIZE)
        ⟨offset % ISO9660_SECTOR_SIZE, Nat.mod_lt _ (by decide)⟩ [] := by
  unfold iso_open at h
  split at h
  · cases h
  simp only [Bool.false_eq_true, if_false] at h
  split at h
  · next i _ =>
    cases h
    unfold iso_read
    rw [dif_neg (by omega)]
    simp
  · cases h

/-- **Extents.** A file reads as its extent exactly if none of its sectors from `2 ^ 30` on is
answered with a sector that the device has `2 ^ 30` sectors, or a multiple, below it. -/
theorem extent_read_iff (dev : Device) (file : Extent) :
    ReadsExtent dev file ↔ ∀ j, 2048 * j < file.size → Unaliased dev (file.lba + j) := by
  constructor
  · intro hreads j hj
    -- otherwise one byte of that sector is read through a handle
    by_contra hbad
    obtain ⟨hhigh, hok⟩ := not_or.mp hbad
    obtain ⟨sector, hsector⟩ : ∃ b, iso_read_2048 dev (u32 (file.lba + j)) = .ok b := by
      rw [iso_read_2048_eq]
      cases h : block_core_read dev ((file.lba + j) * 4 % 2 ^ 32) 4 with
      | error rc => exact absurd ⟨rc, h⟩ hok
      | ok b => exact ⟨b, rfl⟩
    have hopen : iso_open (fun _ => none) (.ok (file, false)) FS_O_RDONLY =
        .ok (1, fun i => if i = ⟨0, by decide⟩ then some file else none) := rfl
    have hexact := hreads.part _ _ _ _ hopen (2048 * j) 1
    rw [iso_read_opened hopen, if_neg (by omega), copySectors, if_pos (by omega),
      show 2048 * j / ISO9660_SECTOR_SIZE = j from Nat.mul_div_cancel_left j (by decide), hsector]
      at hexact
    dsimp only at hexact
    rw [copySectors, if_neg (by simp [ISO9660_SECTOR_SIZE])] at hexact
    obtain ⟨hbytes, hlength⟩ := hexact _ rfl
    rw [hbytes, length_take, length_drop] at hlength
    have := dev.length_le
    omega
  · intro hgood
    refine ⟨fun cap hcap bytes h => ?_,
      fun files flags node_id files' hopen offset cap bytes h => ?_⟩
    · simp only [iso_read_file, Bool.false_eq_true, if_false, if_neg (Nat.not_lt.mpr hcap)] at h
      exact copySectors_slice (fun j hj => hgood j (by simpa using hj)) (Nat.zero_le _) (by simp)
        ⟨by simp, rfl⟩ h
    · rw [iso_read_opened hopen] at h
      split at h
      · next hend =>
        cases h
        rw [Nat.sub_eq_zero_of_le hend]
        exact ⟨by simp, by simp⟩
      refine copySectors_slice (fun j hj => ?_) (Nat.zero_le _) (fun _ => ?_) ⟨by simp, rfl⟩ h
      · rw [Nat.add_assoc]
        refine hgood _ ?_
        simp only [ISO9660_SECTOR_SIZE] at hj ⊢
        omega
      · simp only [ISO9660_SECTOR_SIZE]
        omega

/-- A device of one sector that is full of the byte 7. -/
def tinyDevice : Device where
  sector_size := 512
  sector_count := 4
  content := replicate 2048 7
  read := fun lba count =>
    if 512 * (lba + count) ≤ 2048 then
      .ok (((replicate 2048 7).drop (512 * lba)).take (512 * count))
    else .error .INVALID
  length_le := by rw [length_replicate]; decide
  read_ok := by grind

/-- An extent far behind its end is read without an error. -/
theorem far_extent_read :
    (iso_read_file tinyDevice (.ok (⟨2 ^ 30, 1, by decide, by decide⟩, false)) 1).toOption =
      some [7] ∧ tinyDevice.content.length < 2048 * 2 ^ 30 :=
  ⟨by decide +kernel, by rw [tinyDevice, length_replicate]; decide⟩

end System1.Iso9660
