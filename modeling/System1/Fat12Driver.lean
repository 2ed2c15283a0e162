/-
The FAT12 driver as the filesystem layer sees it: lookups by display name, open files and
the driver calls of `fat12_core.c`.

A path is looked up twice in different ways. `open`, `read` and `stat` compare it with the
names a listing shows, case folded and with long names put together from the slots before
an entry (`fat12_find_entry_in_dir`). What changes the volume encodes the path into eleven
bytes and compares those (`fat12_dev_find_entry`, in `Fat12.lean`).

The boot sector the driver mounted is a parameter, since it is stored once and read by
every lookup. A call that can fail after it has changed an open file returns the error as
a value beside the new state; the others fail as programs do.

`fat12_find_entry_in_dir` also says where the entry is, which the C function does not.
Nothing here looks at that.
-/
import System1.Fat12

set_option autoImplicit false

namespace System1.Fat12

open System1.Lib List

def FAT12_OPEN_FILE_CAP : Nat := 16
def FAT12_WRITE_BUFFER_CAP : Nat := 4096

/-! ## Display names -/

/-- The string a buffer holds. -/
def cString (buffer : List UInt8) : List UInt8 := buffer.takeWhile (· ≠ 0)

/-- Bytes without the spaces at their end. -/
def trimmed (bytes : List UInt8) : List UInt8 := bytes.rdropWhile (· = SPACE)

/-- `fat12_copy_83_name`. -/
def fat12_copy_83_name (e : Slot) : List UInt8 :=
  let base := trimmed ((range 8).map e)
  let ext := trimmed ((range 3).map fun i => e (8 + i))
  cString ((base ++ if ext = [] then [] else DOT :: ext).map fat12_lower)

/-- A long name under assembly: the 24 bytes of its buffer, once a last part has come. -/
abbrev Lfn := Option (Nat → UInt8)

/-- Where a long-name slot has its thirteen characters. -/
def lfnOffsets : List Nat := [1, 3, 5, 7, 9, 14, 16, 18, 20, 22, 24, 28, 30]

/-- `fat12_lfn_copy_char`. -/
def fat12_lfn_copy_char (out : Nat → UInt8) (pos value : Nat) : Nat → UInt8 :=
  if pos + 1 ≥ FS_NAME_CAP ∨ value = 0xFFFF then out
  else if value < 0x80 then Function.update out pos (UInt8.ofNat value)
  else Function.update out pos 0x3F

/-- The loop of `fat12_lfn_read_entry`, from the character at `pos` on. -/
def lfnChars (e : Slot) : List Nat → Nat → (Nat → UInt8) → (Nat → UInt8)
  | [], _, name => name
  | offset :: rest, pos, name =>
    if pos + 1 < FS_NAME_CAP then
      let ch := le16 (e offset) (e (offset + 1))
      let name := fat12_lfn_copy_char name pos ch
      if ch = 0 then name else lfnChars e rest (pos + 1) name
    else name

/-- `fat12_lfn_read_entry`; `none` is a cleared name. -/
def fat12_lfn_read_entry (lfn : Lfn) (e : Slot) : Lfn :=
  let seq := (e.first &&& 0x1F).toNat
  if seq = 0 then none
  else
    let lfn := if e.first &&& 0x40 ≠ 0 then some fun _ => 0 else lfn
    lfn.map fun name =>
      let base := (seq - 1) * 13
      if base ≥ FS_NAME_CAP then name else lfnChars e lfnOffsets base name

/-- `fat12_copy_display_name`. -/
def fat12_copy_display_name (e : Slot) (lfn : Lfn) : List UInt8 :=
  match lfn with
  | some name =>
    if name 0 ≠ 0 then (cString ((range FS_NAME_CAP).map name)).take (FS_NAME_CAP - 1)
    else fat12_copy_83_name e
  | none => fat12_copy_83_name e

/-! ## Lookups -/

/-- What `fat12_find_entry_in_dir` reports, and where it found it. -/
structure Entry where
  cluster : Nat
  attr : UInt8
  size : Nat
  ref : EntryRef

/-- A slot in the eyes of `fat12_find_entry_in_dir`. -/
def findNameVisit (name : List UInt8) (lfn : Lfn) (ref : EntryRef) (e : Slot) :
    Step Lfn (Except FsErr Entry) :=
  if e.first = FAT12_ENTRY_FREE then .stop (.error .NOT_FOUND)
  else if e.first = FAT12_ENTRY_DELETED then .next none
  else if e.attr = FAT12_ATTR_LONG_NAME then .next (fat12_lfn_read_entry lfn e)
  else if e.attr &&& FAT12_ATTR_VOLUME_ID ≠ 0 then .next none
  else if fat12_name_eq (fat12_copy_display_name e lfn) name then
    .stop (.ok ⟨e.cluster, e.attr, e.size, ref⟩)
  else .next none

section Mounted

variable (fuel : Nat) (b : Bpb)

/-- `fat12_get_next_cluster`: a chain that cannot be read ends. -/
def fat12_get_next_cluster (cluster : Nat) : Io Nat := do
  match ← (fat12_dev_get_fat_entry b cluster).attempt with
  | .ok next => return next
  | .error _ => return 0xFFF

def fat12_find_entry_in_dir (dir_cluster : Nat) (name : List UInt8) : Io Entry := do
  match ← scanDir (findNameVisit name) b (fat12_get_next_cluster b) fuel dir_cluster none with
  | .next _ => .fail .NOT_FOUND
  | .stop r => Prog.ofExcept r

/-- What a path names. -/
structure PathInfo where
  cluster : Nat
  is_dir : Bool
  size : Nat
  deriving DecidableEq, Repr

def dotName : List UInt8 := [DOT]
def dotdotName : List UInt8 := [DOT, DOT]

/-- The loop of `fat12_resolve_path_info`. -/
def resolvePathLoop : List (List UInt8) → PathInfo → Io PathInfo
  | [], info => return info
  | component :: rest, info =>
    if component.length ≥ FS_NAME_CAP then .fail .INVALID
    else if component = dotName ∨ (component = dotdotName ∧ info.cluster = 0) then
      resolvePathLoop rest info
    else do
      let found ← fat12_find_entry_in_dir fuel b info.cluster component
      if rest ≠ [] ∧ found.attr &&& FAT12_ATTR_DIRECTORY = 0 then .fail .NOT_DIR
      else
        resolvePathLoop rest
          ⟨found.cluster, found.attr &&& FAT12_ATTR_DIRECTORY ≠ 0, found.size⟩

/-- `fat12_resolve_path_info`, from the root or from the current directory. -/
def fat12_resolve_path_info (cwd_cluster : Nat) (path : List UInt8) : Io PathInfo :=
  if path = [] then .fail .INVALID
  else
    resolvePathLoop fuel b (components path)
      ⟨if path.head? = some SLASH then 0 else cwd_cluster, true, 0⟩

/-! ## Reading -/

/-- The sectors of one cluster, behind `offset` bytes that are skipped; the value is what
is still to be skipped and the bytes so far. -/
def readSectors (lba target : Nat) : Nat → Nat → Nat → List UInt8 → Io (Nat × List UInt8)
  | 0, _, offset, out => return (offset, out)
  | count + 1, sector_idx, offset, out =>
    if out.length < target then
      if offset ≥ 512 then readSectors lba target count (sector_idx + 1) (offset - 512) out
      else do
        let sector ← block_core_read (u32 (lba + sector_idx))
        let chunk := min (512 - offset) (target - out.length)
        readSectors lba target count (sector_idx + 1) 0
          (out ++ (range chunk).map fun i => sector (offset + i))
    else return (offset, out)

/-- The loop over clusters of `fat12_read` and `fat12_read_file`. Every cluster gives at
least one byte, so `target` rounds are enough. -/
def readClusters (target : Nat) : Nat → Nat → Nat → List UInt8 → Io (List UInt8)
  | 0, _, _, out => if out.length < target then .spin else return out
  | rounds + 1, cluster, offset, out =>
    if out.length < target then
      if cluster < 2 ∨ cluster ≥ CHAIN_END then .fail .INVALID
      else do
        let (offset, out) ← readSectors (fat12_cluster_to_lba b cluster) target
          b.sectors_per_cluster 0 offset out
        if out.length < target then do
          let next ← fat12_get_next_cluster b cluster
          readClusters target rounds next offset out
        else return out
    else return out

/-- The clusters before the one an offset lies in. -/
def skipClusters : Nat → Nat → Io Nat
  | 0, cluster => return cluster
  | count + 1, cluster =>
    if cluster < 2 ∨ cluster ≥ CHAIN_END then .fail .INVALID
    else do
      let next ← fat12_get_next_cluster b cluster
      skipClusters count next

def fat12_read_file (cwd_cluster : Nat) (path : List UInt8) (cap : Nat) : Io (List UInt8) := do
  let info ← fat12_resolve_path_info fuel b cwd_cluster path
  if info.is_dir then .fail .NOT_DIR
  else if cap < info.size then .fail .NO_SPACE
  else readClusters b info.size info.size info.cluster 0 []

def fat12_stat (cwd_cluster : Nat) (path : List UInt8) : Io FsStat := do
  let info ← fat12_resolve_path_info fuel b cwd_cluster path
  return ⟨if info.is_dir then FS_MODE_DIR else FS_MODE_FILE, if info.is_dir then 0 else info.size⟩

end Mounted

/-! ## Open files -/

/-- `fat12_open_file_t`. -/
structure OpenFile where
  used : Bool
  cluster : Nat
  size : Nat
  flags : Nat
  path : List UInt8
  deriving DecidableEq, Repr

def OpenFile.closed : OpenFile := ⟨false, 0, 0, 0, []⟩

abbrev HandleIx := Fin FAT12_OPEN_FILE_CAP

/-- The variables of the driver behind a mount. -/
structure Driver where
  g_fat12_cwd : List UInt8
  g_fat12_cwd_cluster : Nat
  g_fat12_open_files : HandleIx → OpenFile

/-- The open file of a node identifier. -/
def handleOf (node_id : Nat) : Option HandleIx :=
  if h : 0 < node_id ∧ node_id - 1 < FAT12_OPEN_FILE_CAP then some ⟨node_id - 1, h.2⟩ else none

/-- An open file that is in use. -/
def Driver.file (d : Driver) (node_id : Nat) : Option HandleIx :=
  (handleOf node_id).filter fun i => (d.g_fat12_open_files i).used

def Driver.setFile (d : Driver) (i : HandleIx) (file : OpenFile) : Driver :=
  { d with g_fat12_open_files := Function.update d.g_fat12_open_files i file }

/-- The file may be written through: its access mode has the write bit. -/
def writable (flags : Nat) : Bool :=
  flags &&& FS_O_RDWR = FS_O_WRONLY ∨ flags &&& FS_O_RDWR = FS_O_RDWR

section Calls

variable (dev : BlockDevice) (fuel : Nat) (b : Bpb)

def fat12_make_dir (path : CString) : Io Unit :=
  if dev.write = false then .fail .READ_ONLY
  else fat12_core_create_dir_on_device dev fuel path

/-- The path is resolved, and where it names nothing and the open may create, an empty
file is written first. -/
def openLookup (d : Driver) (path : CString) (flags : Nat) : Io PathInfo := do
  match ← (fat12_resolve_path_info fuel b d.g_fat12_cwd_cluster path.bytes).attempt with
  | .ok info => return info
  | .error rc =>
    if rc = .NOT_FOUND ∧ flags &&& FS_O_CREAT ≠ 0 then
      if dev.write = false then .fail .READ_ONLY
      else if writable flags = false then .fail .INVALID
      else do
        fat12_core_write_file_on_device dev fuel path []
        fat12_resolve_path_info fuel b d.g_fat12_cwd_cluster path.bytes
    else .fail rc

/-- A file opened for truncation is written empty. -/
def openTruncate (path : CString) (flags : Nat) (info : PathInfo) : Io PathInfo :=
  if flags &&& FS_O_TRUNC ≠ 0 then
    if writable flags = false then .fail .INVALID
    else if dev.write = false then .fail .READ_ONLY
    else do
      fat12_core_write_file_on_device dev fuel path []
      return { info with cluster := 0, size := 0 }
  else return info

def fat12_open (d : Driver) (path : CString) (flags : Nat) : Io (Nat × Driver) := do
  let info ← openLookup dev fuel b d path flags
  if info.is_dir then .fail .IS_DIR
  else do
    let info ← openTruncate dev fuel path flags info
    match (finRange FAT12_OPEN_FILE_CAP).find?
        fun i => (d.g_fat12_open_files i).used = false with
    | none => .fail .NO_SPACE
    | some i =>
      return (i.val + 1, d.setFile i
        ⟨true, info.cluster, info.size, flags, path.bytes.take (FS_PATH_CAP - 1)⟩)

def fat12_read (d : Driver) (node_id offset cap : Nat) : Io (List UInt8) :=
  match d.file node_id with
  | none => .fail .INVALID
  | some i =>
    let file := d.g_fat12_open_files i
    if offset ≥ file.size then return []
    else if min (file.size - offset) cap = 0 then return []
    else do
      let target := min (file.size - offset) cap
      let cluster_bytes := b.sectors_per_cluster * 512
      let cluster ← skipClusters b (offset / cluster_bytes) file.cluster
      readClusters b target target cluster (offset % cluster_bytes) []

/-- `b` with zeros up to `offset` and `buffer` over it there. -/
def patched (old : List UInt8) (offset : Nat) (buffer : List UInt8) : List UInt8 :=
  (range (max old.length (offset + buffer.length))).map fun i =>
    if offset ≤ i ∧ i < offset + buffer.length then buffer.getD (i - offset) 0 else old.getD i 0

/-- What the file holds before a write. A file whose recorded size is 0 is not read. -/
def writeOld (d : Driver) (file : OpenFile) : Io (List UInt8) :=
  if file.size ≠ 0 then
    fat12_read_file fuel b d.g_fat12_cwd_cluster file.path FAT12_WRITE_BUFFER_CAP
  else return []

/-- The new contents are written as a whole, and the open file is brought up to date. -/
def writeBack (d : Driver) (i : HandleIx) (content : List UInt8) (count : Nat) :
    Io (Except FsErr Nat × Driver) := do
  let file := d.g_fat12_open_files i
  match ← (fat12_core_write_file_on_device dev fuel (.cut file.path) content).attempt with
  | .error rc => return (.error rc, d)
  | .ok () =>
    match ← (fat12_resolve_path_info fuel b d.g_fat12_cwd_cluster file.path).attempt with
    | .error rc => return (.error rc, d)
    | .ok info =>
      if info.is_dir then return (.error .INVALID, d)
      else
        return (.ok count, d.setFile i { file with cluster := info.cluster, size := info.size })

def fat12_write (d : Driver) (node_id offset : Nat) (buffer : List UInt8) :
    Io (Except FsErr Nat × Driver) :=
  match d.file node_id with
  | none => return (.error .INVALID, d)
  | some i =>
    let file := d.g_fat12_open_files i
    if writable file.flags = false ∨ dev.write = false then return (.error .READ_ONLY, d)
    else if buffer = [] then return (.ok 0, d)
    else if offset > FAT12_WRITE_BUFFER_CAP ∨ buffer.length > FAT12_WRITE_BUFFER_CAP - offset then
      return (.error .NO_SPACE, d)
    else if file.size > FAT12_WRITE_BUFFER_CAP then return (.error .NO_SPACE, d)
    else do
      match ← (writeOld fuel b d file).attempt with
      | .error rc => return (.error rc, d)
      | .ok old =>
        writeBack dev fuel b (d.setFile i { file with size := old.length }) i
          (patched old offset buffer) buffer.length

/-- Every open file with the removed path is given up. -/
def fat12_unlink (d : Driver) (path : CString) : Io Driver :=
  if dev.write = false then .fail .READ_ONLY
  else do
    fat12_core_unlink_on_device fuel path
    return { d with g_fat12_open_files := fun i =>
      let file := d.g_fat12_open_files i
      if file.used ∧ file.path = path.bytes then { file with used := false, path := [] } else file }

end Calls

end System1.Fat12
