/-
The FAT12 driver, `src/kernel/core/fs/fat12_core.c`: names, the boot sector, the file
allocation table, directory walks and the operations that change a volume.

Everything the driver knows comes from 512-byte sectors it reads through
`block_core_read`, and everything it does is a `block_core_write`. So each function is a
`Prog` over those two calls: the block layer and the device behind it are the
environment, and one model serves a device that never fails, one that fails whenever it
likes, and volumes whose contents are arbitrary.

# What is kept of the C text

* Sector buffers are values: every function that looks at `g_fat12_work_sector` has just
  filled it, so nothing is carried over from one call to the next.
* Sector numbers and offsets are `uint32_t`; a sum that could leave that range is
  truncated by `u32`.
* A walk along a cluster chain goes on for as long as the table says, which on a corrupt
  volume is for ever. Those loops take fuel and end in `spin` when it runs out.
* The two copies of every directory walk, one for the fixed root directory and one for a
  cluster chain, are one walk over the slots of a directory; each user of it says what it
  does with a slot.
-/
import System1.Base
import System1.Lib.Prog
import System1.Lib.Packed12
import Mathlib.Data.Fintype.Basic
import Mathlib.Data.List.DropRight

set_option autoImplicit false

namespace System1.Fat12

open System1.Lib Function Packed12 Prog

/-! ## The block layer -/

/-- The bytes of a sector; those from 512 on are never looked at. -/
abbrev Sector := Nat → UInt8

/-- A call of `block_core_read` or `block_core_write` for one sector. -/
inductive Req where
  | read (lba : Nat)
  | write (lba : Nat) (data : Sector)

def Resp : Req → Type
  | .read _ => Except FsErr Sector
  | .write _ _ => Except FsErr Unit

/-- A driver routine: it returns a value or an error code. -/
abbrev Io (α : Type) := Prog Resp FsErr α

def block_core_read (lba : Nat) : Io Sector := .call (.read lba) ofExcept

def block_core_write (lba : Nat) (data : Sector) : Io Unit := .call (.write lba data) ofExcept

/-- `block_device_t`, without the two functions themselves: whether they are there, and
the geometry. -/
structure BlockDevice where
  read : Bool
  write : Bool
  sector_size : Nat
  sector_count : Nat
  sector_count_lt : sector_count < 2 ^ 32

/-! ## Constants -/

def FAT12_ATTR_VOLUME_ID : UInt8 := 0x08
def FAT12_ATTR_DIRECTORY : UInt8 := 0x10
def FAT12_ATTR_LONG_NAME : UInt8 := 0x0F
def FAT12_ENTRY_FREE : UInt8 := 0x00
def FAT12_ENTRY_DELETED : UInt8 := 0xE5
def FAT12_CLUSTER_FREE : Nat := 0x000
def FAT12_CLUSTER_EOC : Nat := 0xFFF

/-- From this value on a table entry ends a chain. -/
def CHAIN_END : Nat := 0xFF8

def SLASH : UInt8 := 0x2F
def DOT : UInt8 := 0x2E
def SPACE : UInt8 := 0x20
def TILDE : UInt8 := 0x7E

/-! ## Names -/

def fat12_lower (c : UInt8) : UInt8 := if 0x41 ≤ c ∧ c ≤ 0x5A then c + 0x20 else c

/-- `c - ('a' - 'A')` for the letters. -/
def upper (c : UInt8) : UInt8 := if 0x61 ≤ c ∧ c ≤ 0x7A then c - 0x20 else c

def isDigit (c : UInt8) : Bool := 0x30 ≤ c ∧ c ≤ 0x39

/-- A stored name `ALIAS~12` answers to every longer name that starts with `ALIAS`. A name
asked for that ends before the alias does differs from it at its NUL, whatever the bytes
behind that NUL are. -/
def fat12_short_alias_eq (stored requested : List UInt8) : Bool :=
  let short := stored.takeWhile (· ≠ TILDE)
  let tail := stored.drop short.length
  if tail = [] ∨ short = [] ∨ requested.length ≤ short.length then false
  else if (tail.drop 1).all isDigit = false then false
  else short.map fat12_lower = (requested.take short.length).map fat12_lower

def fat12_name_eq (a b : List UInt8) : Bool :=
  if a.map fat12_lower = b.map fat12_lower then true else fat12_short_alias_eq a b

/-- The eleven bytes of a stored name: eight and three. -/
abbrev Name83 := Fin 11 → UInt8

def Name83.blank : Name83 := fun _ => SPACE

def Name83.put (out : Name83) (i : Nat) (c : UInt8) : Name83 :=
  fun j => if j.val = i then c else out j

/-- The loop of `fat12_make_83_dir_name`. -/
def makeDirName : List UInt8 → Nat → Name83 → Except FsErr Name83
  | [], _, out => .ok out
  | c :: rest, len, out =>
    if c = SLASH ∨ c = DOT ∨ len ≥ 8 then .error .INVALID
    else makeDirName rest (len + 1) (out.put len (upper c))

def fat12_make_83_dir_name (name : List UInt8) : Except FsErr Name83 :=
  if name = [] then .error .INVALID else makeDirName name 0 .blank

/-- The loop of `fat12_make_83_file_name`. -/
def makeFileName : List UInt8 → Nat → Nat → Bool → Name83 → Except FsErr Name83
  | [], base_len, _, _, out => if base_len = 0 then .error .INVALID else .ok out
  | c :: rest, base_len, ext_len, in_ext, out =>
    if c = SLASH then .error .INVALID
    else if c = DOT then
      if in_ext = true ∨ base_len = 0 ∨ rest = [] then .error .INVALID
      else makeFileName rest base_len ext_len true out
    else if in_ext = false then
      if base_len ≥ 8 then .error .INVALID
      else makeFileName rest (base_len + 1) ext_len in_ext (out.put base_len (upper c))
    else if ext_len ≥ 3 then .error .INVALID
    else makeFileName rest base_len (ext_len + 1) in_ext (out.put (8 + ext_len) (upper c))

def fat12_make_83_file_name (name : List UInt8) : Except FsErr Name83 :=
  if name = [] ∨ name.head? = some DOT then .error .INVALID
  else makeFileName name 0 0 false .blank

/-- The path of the directory and the name in it. -/
def fat12_split_create_path (path : List UInt8) : Except FsErr (List UInt8 × List UInt8) :=
  if path.head? ≠ some SLASH then .error .INVALID
  else if path.length ≥ FS_PATH_CAP then .error .INVALID
  else
    let name := path.rtakeWhile (· ≠ SLASH)
    let slash := path.length - name.length - 1
    if path.length ≤ 1 ∨ slash = path.length - 1 then .error .INVALID
    else if name.length ≥ FS_NAME_CAP then .error .INVALID
    else .ok (if slash = 0 then [SLASH] else path.take slash, name)

/-- The components of a path, in the order the cursor meets them. -/
def components (path : List UInt8) : List (List UInt8) :=
  (path.splitOn SLASH).filter (· ≠ [])

/-! ## Directory slots -/

/-- The 32 bytes of a directory entry. -/
abbrev Slot := Nat → UInt8

namespace Slot

variable (e : Slot)

def first : UInt8 := e 0
def attr : UInt8 := e 11
def name : Name83 := fun i => e i
def cluster : Nat := le16 (e 26) (e 27)
def size : Nat := le32 (e 28) (e 29) (e 30) (e 31)

def isDir : Bool := e.attr &&& FAT12_ATTR_DIRECTORY ≠ 0

/-- A slot the walks step over: deleted, a volume label or part of a long name. -/
def skipped : Bool :=
  e.first = FAT12_ENTRY_DELETED ∨ e.attr &&& FAT12_ATTR_VOLUME_ID ≠ 0 ∨
    e.attr = FAT12_ATTR_LONG_NAME

end Slot

/-- `fat12_entry_ref_t`: where a slot is. -/
structure EntryRef where
  lba : Nat
  offset : Nat
  deriving DecidableEq, Repr

def slotAt (sector : Sector) (offset : Nat) : Slot := fun j => sector (offset + j)

/-- The slots of a sector in order. -/
def sectorSlots (lba : Nat) (sector : Sector) : List (EntryRef × Slot) :=
  (List.range 16).map fun i => (⟨lba, i * 32⟩, slotAt sector (i * 32))

/-- `fat12_image_write_dir_entry`: the bytes of a new entry. -/
def fat12_image_write_dir_entry (name83 : Name83) (attr : UInt8) (cluster size : Nat) : Slot :=
  fun j =>
    if h : j < 11 then name83 ⟨j, h⟩
    else if j = 11 then attr
    else if j = 26 then UInt8.ofNat cluster
    else if j = 27 then UInt8.ofNat (cluster / 2 ^ 8)
    else if j = 28 then UInt8.ofNat size
    else if j = 29 then UInt8.ofNat (size / 2 ^ 8)
    else if j = 30 then UInt8.ofNat (size / 2 ^ 16)
    else if j = 31 then UInt8.ofNat (size / 2 ^ 24)
    else 0

/-- A sector with the slot at `offset` replaced. -/
def putSlot (sector : Sector) (offset : Nat) (e : Slot) : Sector :=
  fun j => if offset ≤ j ∧ j < offset + 32 then e (j - offset) else sector j

/-! ## The boot sector -/

/-- `fat12_bpb_t`, as `fat12_parse_bpb` accepts it; a sector has 512 bytes. -/
structure Bpb where
  sectors_per_cluster : Nat
  reserved_sectors : Nat
  fat_count : Nat
  root_entry_count : Nat
  sectors_per_fat : Nat
  spc_pos : 0 < sectors_per_cluster
  spc_lt : sectors_per_cluster < 2 ^ 8
  reserved_pos : 0 < reserved_sectors
  reserved_lt : reserved_sectors < 2 ^ 16
  fats_pos : 0 < fat_count
  fats_lt : fat_count < 2 ^ 8
  root_pos : 0 < root_entry_count
  root_lt : root_entry_count < 2 ^ 16
  spf_pos : 0 < sectors_per_fat
  spf_lt : sectors_per_fat < 2 ^ 16

namespace Bpb

variable (b : Bpb)

def root_dir_lba : Nat := b.reserved_sectors + b.fat_count * b.sectors_per_fat

def root_dir_sectors : Nat := (b.root_entry_count * 32 + 511) / 512

/-- The first sector of cluster 2. -/
def data_lba : Nat := b.root_dir_lba + b.root_dir_sectors

end Bpb

def fat12_parse_bpb (sector : Sector) : Except FsErr Bpb :=
  let spc := (sector 13).toNat
  let reserved := le16 (sector 14) (sector 15)
  let fats := (sector 16).toNat
  let root := le16 (sector 17) (sector 18)
  let total16 := le16 (sector 19) (sector 20)
  let total32 := le32 (sector 32) (sector 33) (sector 34) (sector 35)
  let spf := le16 (sector 22) (sector 23)
  if h : le16 (sector 11) (sector 12) = 512 ∧ 0 < spc ∧ 0 < reserved ∧ 0 < fats ∧ 0 < root ∧
      0 < spf ∧ ¬ (total16 = 0 ∧ total32 = 0) then
    .ok {
      sectors_per_cluster := spc
      reserved_sectors := reserved
      fat_count := fats
      root_entry_count := root
      sectors_per_fat := spf
      spc_pos := h.2.1
      spc_lt := (sector 13).toNat_lt
      reserved_pos := h.2.2.1
      reserved_lt := le16_lt _ _
      fats_pos := h.2.2.2.1
      fats_lt := (sector 16).toNat_lt
      root_pos := h.2.2.2.2.1
      root_lt := le16_lt _ _
      spf_pos := h.2.2.2.2.2.1
      spf_lt := le16_lt _ _ }
  else .error .INVALID

/-- `fat12_image_cluster_to_lba` and `fat12_cluster_to_lba`. -/
def fat12_cluster_to_lba (b : Bpb) (cluster : Nat) : Nat :=
  if cluster < 2 then b.root_dir_lba
  else u32 (b.root_dir_lba + b.root_dir_sectors + (cluster - 2) * b.sectors_per_cluster)

def fat12_dev_total_clusters (b : Bpb) (dev : BlockDevice) : Nat :=
  if dev.sector_count ≤ b.data_lba then 0
  else (dev.sector_count - b.data_lba) / b.sectors_per_cluster

/-! ## The file allocation table -/

/-- Entry `cluster` of the first table; it may lie across two sectors. -/
def fat12_dev_get_fat_entry (b : Bpb) (cluster : Nat) : Io Nat := do
  let offset := u32 (cluster + cluster / 2)
  let sector := u32 (b.reserved_sectors + offset / 512)
  let byte_offset := offset % 512
  let work ← block_core_read sector
  if byte_offset = 511 then do
    let next ← block_core_read (u32 (sector + 1))
    return decode cluster (work byte_offset) (next 0)
  else return decode cluster (work byte_offset) (work (byte_offset + 1))

/-- The body of the loop of `fat12_dev_set_fat_entry`: the entry in one of the tables. -/
def setFatCopy (b : Bpb) (cluster value fat_index : Nat) : Io Unit := do
  let fat_offset := u32 (cluster + cluster / 2)
  let sector := u32 (b.reserved_sectors + fat_index * b.sectors_per_fat + fat_offset / 512)
  let byte_offset := fat_offset % 512
  let work ← block_core_read sector
  let work := update work byte_offset
    (lowByte cluster value (work byte_offset))
  if byte_offset = 511 then do
    block_core_write sector work
    let next ← block_core_read (u32 (sector + 1))
    block_core_write (u32 (sector + 1))
      (update next 0 (highByte cluster value (next 0)))
  else
    block_core_write sector (update work (byte_offset + 1)
      (highByte cluster value (work (byte_offset + 1))))

/-- The tables from `fat_index` on, `count` of them. -/
def setFatCopies (b : Bpb) (cluster value : Nat) : Nat → Nat → Io Unit
  | 0, _ => return ()
  | count + 1, fat_index => do
    setFatCopy b cluster value fat_index
    setFatCopies b cluster value count (fat_index + 1)

def fat12_dev_set_fat_entry (b : Bpb) (cluster value : Nat) : Io Unit :=
  setFatCopies b cluster (value &&& 0x0FFF) b.fat_count 0

/-! ## Walking a directory -/

/-- What a walk does with a slot: go on, or stop with a result. -/
inductive Step (σ α : Type) where
  | next (s : σ)
  | stop (a : α)

section Walk

variable {σ α : Type} (visit : σ → EntryRef → Slot → Step σ α)

/-- The slots of a list in order. -/
def scanSlots : List (EntryRef × Slot) → σ → Step σ α
  | [], s => .next s
  | (ref, e) :: rest, s =>
    match visit s ref e with
    | .next s => scanSlots rest s
    | .stop a => .stop a

/-- `count` sectors from `base_lba + idx` on. -/
def scanSectors (base_lba : Nat) : Nat → Nat → σ → Io (Step σ α)
  | 0, _, s => return .next s
  | count + 1, idx, s => do
    let lba := u32 (base_lba + idx)
    let sector ← block_core_read lba
    match scanSlots visit (sectorSlots lba sector) s with
    | .next s => scanSectors base_lba count (idx + 1) s
    | .stop a => return .stop a

/-- The clusters of a chain, followed by `next_cluster`. -/
def scanChain (b : Bpb) (next_cluster : Nat → Io Nat) : Nat → Nat → σ → Io (Step σ α)
  | 0, _, _ => .spin
  | fuel + 1, cluster, s =>
    if cluster < CHAIN_END then do
      match ← scanSectors visit (fat12_cluster_to_lba b cluster) b.sectors_per_cluster 0 s with
      | .next s =>
        let next ← next_cluster cluster
        scanChain b next_cluster fuel next s
      | .stop a => return .stop a
    else return .next s

/-- A whole directory; the one that starts at cluster 0 is the root. -/
def scanDir (b : Bpb) (next_cluster : Nat → Io Nat) (fuel dir_cluster : Nat) (s : σ) :
    Io (Step σ α) :=
  if dir_cluster = 0 then scanSectors visit b.root_dir_lba b.root_dir_sectors 0 s
  else scanChain visit b next_cluster fuel dir_cluster s

end Walk

/-- What `fat12_dev_find_entry` reports. -/
structure Found where
  cluster : Nat
  attr : UInt8
  ref : EntryRef

/-- A slot in the eyes of `fat12_dev_find_entry`. -/
def findEntryVisit (name83 : Name83) (_ : Unit) (ref : EntryRef) (e : Slot) :
    Step Unit (Except FsErr Found) :=
  if e.first = FAT12_ENTRY_FREE then .stop (.error .NOT_FOUND)
  else if e.skipped then .next ()
  else if e.name = name83 then .stop (.ok ⟨e.cluster, e.attr, ref⟩)
  else .next ()

/-- A slot in the eyes of `fat12_dev_find_free_entry`. -/
def findFreeVisit (_ : Unit) (ref : EntryRef) (e : Slot) : Step Unit EntryRef :=
  if e.first = FAT12_ENTRY_FREE ∨ e.first = FAT12_ENTRY_DELETED then .stop ref else .next ()

section Device

variable (fuel : Nat) (b : Bpb)

def fat12_dev_find_entry (dir_cluster : Nat) (name83 : Name83) : Io Found := do
  match ← scanDir (findEntryVisit name83) b (fat12_dev_get_fat_entry b) fuel dir_cluster () with
  | .next _ => .fail .NOT_FOUND
  | .stop r => ofExcept r

/-- The loop of `fat12_dev_resolve_dir`. -/
def resolveDirLoop : List (List UInt8) → Nat → Io Nat
  | [], current_cluster => return current_cluster
  | component :: rest, current_cluster =>
    if component.length ≥ FS_NAME_CAP then .fail .INVALID
    else do
      let name83 ← ofExcept (fat12_make_83_dir_name component)
      let found ← fat12_dev_find_entry fuel b current_cluster name83
      if found.attr &&& FAT12_ATTR_DIRECTORY = 0 then .fail .NOT_DIR
      else resolveDirLoop rest found.cluster

def fat12_dev_resolve_dir (path : List UInt8) : Io Nat :=
  if path.head? ≠ some SLASH then .fail .INVALID
  else resolveDirLoop fuel b (components path) 0

def fat12_dev_find_free_entry (dir_cluster : Nat) : Io EntryRef := do
  match ← scanDir findFreeVisit b (fat12_dev_get_fat_entry b) fuel dir_cluster () with
  | .next _ => .fail .NO_SPACE
  | .stop ref => return ref

def fat12_dev_write_entry (ref : EntryRef) (name83 : Name83) (attr : UInt8)
    (cluster size : Nat) : Io Unit :=
  if ref.offset > 480 then .fail .INVALID
  else do
    let work ← block_core_read ref.lba
    block_core_write ref.lba
      (putSlot work ref.offset (fat12_image_write_dir_entry name83 attr cluster size))

/-- `g_fat12_work_sector[ref.offset] = FAT12_ENTRY_DELETED`, in place on the device. -/
def deleteEntry (ref : EntryRef) : Io Unit := do
  let work ← block_core_read ref.lba
  block_core_write ref.lba (update work ref.offset FAT12_ENTRY_DELETED)

def fat12_dev_zero_sector (lba : Nat) : Io Unit := block_core_write lba fun _ => 0

/-! ## Clusters -/

/-- The loop that clears a new cluster. -/
def zeroSectors (lba : Nat) : Nat → Nat → Io Unit
  | 0, _ => return ()
  | count + 1, sector_idx => do
    fat12_dev_zero_sector (u32 (lba + sector_idx))
    zeroSectors lba count (sector_idx + 1)

/-- A free cluster is taken: marked as the end of a chain and cleared. When clearing
fails it is given back. -/
def takeCluster (cluster : Nat) : Io Nat := do
  match ← (fat12_dev_set_fat_entry b cluster FAT12_CLUSTER_EOC).attempt with
  | .error _ => return 0
  | .ok () =>
    match ← (zeroSectors (fat12_cluster_to_lba b cluster) b.sectors_per_cluster 0).attempt with
    | .ok () => return cluster
    | .error _ => do
      let _ ← (fat12_dev_set_fat_entry b cluster FAT12_CLUSTER_FREE).attempt
      return 0

/-- The clusters from `cluster` on, `count` of them. -/
def allocLoop : Nat → Nat → Io Nat
  | 0, _ => return 0
  | count + 1, cluster => do
    match ← (fat12_dev_get_fat_entry b cluster).attempt with
    | .error _ => return 0
    | .ok value =>
      if value = FAT12_CLUSTER_FREE then takeCluster b cluster
      else allocLoop count (cluster + 1)

/-- 0 when there is no free cluster, and when the device fails. -/
def fat12_dev_alloc_cluster (dev : BlockDevice) : Io Nat :=
  allocLoop b (u32 (fat12_dev_total_clusters b dev + 2) - 2) 2

def fat12_dev_free_cluster_chain : Nat → Nat → Io Unit
  | 0, _ => .spin
  | fuel + 1, cluster =>
    if 2 ≤ cluster ∧ cluster < CHAIN_END then do
      let next ← fat12_dev_get_fat_entry b cluster
      fat12_dev_set_fat_entry b cluster FAT12_CLUSTER_FREE
      fat12_dev_free_cluster_chain fuel next
    else return ()

end Device

/-! ## The operations on a device -/

/-- The boot sector is read again by every operation. -/
def readBpb : Io Bpb := do
  let sector ← block_core_read 0
  ofExcept (fat12_parse_bpb sector)

/-- How every operation starts: the boot sector, the directory of the path and the stored
form of its last component. -/
def withParent {α : Type} (fuel : Nat) (make83 : List UInt8 → Except FsErr Name83)
    (path : CString) (k : Bpb → Nat → Name83 → Io α) : Io α := do
  let b ← readBpb
  let parts ← ofExcept (fat12_split_create_path path.bytes)
  let leaf83 ← ofExcept (make83 parts.2)
  let parent_cluster ← fat12_dev_resolve_dir fuel b parts.1
  k b parent_cluster leaf83

def dot83 : Name83 := Name83.blank.put 0 DOT

def dotdot83 : Name83 := (Name83.blank.put 0 DOT).put 1 DOT

/-- The name is not taken: a slot, a cluster, the entry and the two entries inside. -/
def createDir (dev : BlockDevice) (fuel : Nat) (b : Bpb) (parent_cluster : Nat)
    (leaf83 : Name83) : Io Unit := do
  let parent_ref ← fat12_dev_find_free_entry fuel b parent_cluster
  let new_cluster ← fat12_dev_alloc_cluster b dev
  if new_cluster = 0 then .fail .NO_SPACE
  else do
    match ← (fat12_dev_write_entry parent_ref leaf83 FAT12_ATTR_DIRECTORY new_cluster
        0).attempt with
    | .error rc => do
      let _ ← (fat12_dev_free_cluster_chain b fuel new_cluster).attempt
      .fail rc
    | .ok () => do
      let lba := fat12_cluster_to_lba b new_cluster
      fat12_dev_write_entry ⟨lba, 0⟩ dot83 FAT12_ATTR_DIRECTORY new_cluster 0
      fat12_dev_write_entry ⟨lba, 32⟩ dotdot83 FAT12_ATTR_DIRECTORY parent_cluster 0

def fat12_core_create_dir_on_device (dev : BlockDevice) (fuel : Nat) (path : CString) : Io Unit :=
  withParent fuel fat12_make_83_dir_name path fun b parent_cluster leaf83 => do
    match ← (fat12_dev_find_entry fuel b parent_cluster leaf83).attempt with
    | .ok found =>
      if found.attr &&& FAT12_ATTR_DIRECTORY ≠ 0 then return () else .fail .EXISTS
    | .error .NOT_FOUND => createDir dev fuel b parent_cluster leaf83
    | .error rc => .fail rc

section WriteFile

variable (dev : BlockDevice) (fuel : Nat) (b : Bpb) (data : List UInt8)

/-- The sectors of one cluster: 512 bytes of the data each, padded with zeros, until the
data ends. The value is how much has been written. -/
def writeSectors (lba : Nat) : Nat → Nat → Nat → Io Nat
  | 0, _, written => return written
  | count + 1, sector_idx, written =>
    if written < data.length then do
      block_core_write (u32 (lba + sector_idx)) fun j => data.getD (written + j) 0
      writeSectors lba count (sector_idx + 1) (min data.length (written + 512))
    else return written

/-- Room ran out: the clusters of the new chain are given back, and a file that was
there before is left empty. -/
def writeRollback (first_cluster : Nat) (entry_ref : EntryRef) (have_entry : Bool)
    (leaf83 : Name83) : Io Nat := do
  if first_cluster ≠ 0 then
    let _ ← (fat12_dev_free_cluster_chain b fuel first_cluster).attempt
  if have_entry then
    let _ ← (fat12_dev_write_entry entry_ref leaf83 0 0 0).attempt
  .fail .NO_SPACE

/-- The loop over clusters; the value is the first of them. Every round writes at least
one byte, so `data.length` rounds are enough. -/
def writeLoop (entry_ref : EntryRef) (have_entry : Bool) (leaf83 : Name83) :
    Nat → Nat → Nat → Nat → Io Nat
  | 0, first_cluster, _, written =>
    if written < data.length then .spin else return first_cluster
  | rounds + 1, first_cluster, prev_cluster, written =>
    if written < data.length then do
      let cluster ← fat12_dev_alloc_cluster b dev
      if cluster = 0 then writeRollback fuel b first_cluster entry_ref have_entry leaf83
      else do
        if prev_cluster ≠ 0 then
          fat12_dev_set_fat_entry b prev_cluster cluster
        let written ← writeSectors data (fat12_cluster_to_lba b cluster) b.sectors_per_cluster 0
          written
        writeLoop entry_ref have_entry leaf83 rounds
          (if first_cluster = 0 then cluster else first_cluster) cluster written
    else return first_cluster

/-- The data is written and then the entry. -/
def writeData (entry_ref : EntryRef) (have_entry : Bool) (leaf83 : Name83) : Io Unit := do
  let first_cluster ← writeLoop dev fuel b data entry_ref have_entry leaf83 data.length 0 0 0
  fat12_dev_write_entry entry_ref leaf83 0 first_cluster data.length

end WriteFile

def fat12_core_write_file_on_device (dev : BlockDevice) (fuel : Nat) (path : CString)
    (data : List UInt8) : Io Unit :=
  withParent fuel fat12_make_83_file_name path fun b parent_cluster leaf83 => do
    match ← (fat12_dev_find_entry fuel b parent_cluster leaf83).attempt with
    | .ok found =>
      if found.attr &&& FAT12_ATTR_DIRECTORY ≠ 0 then .fail .EXISTS
      else do
        if found.cluster ≠ 0 then
          fat12_dev_free_cluster_chain b fuel found.cluster
        writeData dev fuel b data found.ref true leaf83
    | .error .NOT_FOUND => do
      let entry_ref ← fat12_dev_find_free_entry fuel b parent_cluster
      writeData dev fuel b data entry_ref false leaf83
    | .error rc => .fail rc

/-- The entry goes first and the clusters after it. -/
def fat12_core_unlink_on_device (fuel : Nat) (path : CString) : Io Unit :=
  withParent fuel fat12_make_83_file_name path fun b parent_cluster leaf83 => do
    let found ← fat12_dev_find_entry fuel b parent_cluster leaf83
    if found.attr &&& FAT12_ATTR_DIRECTORY ≠ 0 then .fail .IS_DIR
    else do
      deleteEntry found.ref
      if found.cluster ≠ 0 then
        fat12_dev_free_cluster_chain b fuel found.cluster

/-- A slot in the eyes of `fat12_rmdir`: `true` for an entry that is in the way, `false`
for the end of the entries. -/
def emptyVisit (_ : Unit) (_ : EntryRef) (e : Slot) : Step Unit Bool :=
  if e.first = FAT12_ENTRY_FREE then .stop false
  else if e.skipped then .next ()
  else if e 0 = DOT ∧ (e 1 = SPACE ∨ e 1 = DOT) then .next ()
  else .stop true

/-- The sectors of one cluster of a directory that is to be removed. -/
def emptySectors (lba : Nat) : Nat → Nat → Io Unit
  | 0, _ => return ()
  | count + 1, sector => do
    let work ← block_core_read (u32 (lba + sector))
    match scanSlots emptyVisit (sectorSlots (u32 (lba + sector)) work) () with
    | .stop true => .fail .NOT_EMPTY
    | _ => emptySectors lba count (sector + 1)

/-- The clusters of a directory that is to be removed, `visits` of them at most. -/
def emptyChain (b : Bpb) : Nat → Nat → Io Unit
  | visits, current =>
    if 2 ≤ current ∧ current < CHAIN_END then
      match visits with
      | 0 => .fail .INVALID
      | visits + 1 => do
        emptySectors (fat12_cluster_to_lba b current) b.sectors_per_cluster 0
        let next ← fat12_dev_get_fat_entry b current
        emptyChain b visits next
    else return ()

/-- `fat12_rmdir`, for a driver whose current directory is `cwd`. -/
def fat12_rmdir (dev : BlockDevice) (fuel : Nat) (cwd path : CString) : Io Unit :=
  if dev.write = false then .fail .READ_ONLY
  else if path.bytes = [SLASH] ∨ path.bytes = cwd.bytes then .fail .INVALID
  else
    withParent fuel fat12_make_83_dir_name path fun b parent_cluster leaf83 => do
      let found ← fat12_dev_find_entry fuel b parent_cluster leaf83
      if found.attr &&& FAT12_ATTR_DIRECTORY = 0 ∨ found.cluster < 2 then .fail .NOT_DIR
      else do
        emptyChain b 4096 found.cluster
        deleteEntry found.ref
        fat12_dev_free_cluster_chain b fuel found.cluster

end System1.Fat12
