/-
The SPRG program format and its loader, `src/kernel/core/sprg/sprg_core.c`.

A `.prg` file has a 28-byte header and a table of 32-byte program headers. The
kernel reads the file twice. `sprg_core_validate_file` reads the header and the
table and checks them; `sprg_core_load_file` then streams every segment to its
user address and zero-fills the rest. Both go through `fs_core_read`, which may
hand over fewer bytes than asked for, so each transfer is a loop.

The loader is a `Prog` over five requests: the three filesystem calls it makes,
the close it never looks at, and the store to user memory. `fs_core_read` writes
into the buffer it is given, and for a segment that buffer is user memory. So the
answer to a read carries the bytes, a failed read carries whatever it left in the
buffer before failing, and the store that follows is the loader's.

Addresses are `uintptr_t`, 32 or 64 bits wide; `W` is that width.
-/
import System1.Base
import System1.Lib.Prog
import System1.Lib.ByteStore

set_option autoImplicit false

namespace System1.Sprg

open System1.Lib

/-! ## Constants and records of `sprg_core.h` -/

def SPRG_HEADER_SIZE : Nat := 28
def SPRG_PHDR_SIZE : Nat := 32
def SPRG_STREAM_CHUNK : Nat := 512
def SPRG_VERSION : Nat := 1
def SPRG_PHDR_LOAD : Nat := 1
def SPRG_MAX_PHDRS : Nat := 8
def SPRG_MAX_FILE_SIZE : Nat := 65536

/-- `SPRG_FLAG_X` is bit 2 of the segment flags; `R` and `W` are bits 0 and 1. -/
def SPRG_FLAG_X : Nat := 4

/-- The bytes `SPRG`. -/
def SPRG_MAGIC : List UInt8 := [0x53, 0x50, 0x52, 0x47]

/-- The error codes of `sprg_core.h`; `SPRG_OK` is a normal return. -/
inductive SprgErr where
  | INVALID
  | NOT_FOUND
  | TOO_LARGE
  | BAD_MAGIC
  | BAD_VERSION
  | BAD_ARCH
  | BAD_HEADER
  | UNSUPPORTED
  deriving DecidableEq, Repr

/-- `sprg_segment_t`. -/
structure Segment where
  type : Nat
  offset : Nat
  vaddr : Nat
  filesz : Nat
  memsz : Nat
  flags : Nat
  align : Nat
  reserved : Nat
  deriving DecidableEq, Repr

/-- `sprg_image_t`; `segment_count` is the length of the segment list. -/
structure Image where
  entry : Nat
  arch : Nat
  file_size : Nat
  segments : List Segment
  deriving DecidableEq, Repr

/-! ## What the loader asks for -/

/-- The answer of `fs_core_read`: the bytes it delivered, or an error code and the
bytes it had already put into the buffer. -/
inductive ReadAnswer where
  | got (bytes : List UInt8)
  | error (rc : FsErr) (left : List UInt8)
  deriving DecidableEq, Repr

inductive Req where
  | fs_stat (path : CString)
  | fs_core_open (path : CString)
  | fs_core_close (node_id : Nat)
  | fs_core_read (node_id offset size : Nat)
  | store (addr : Nat) (bytes : List UInt8)

@[reducible] def Resp : Req → Type
  | .fs_stat _ => Except FsErr FsStat
  | .fs_core_open _ => Except FsErr Nat
  | .fs_core_close _ => Unit
  | .fs_core_read _ _ _ => ReadAnswer
  | .store _ _ => Unit

abbrev M (α : Type) : Type := Prog Resp SprgErr α

def fs_stat (path : CString) : M (Except FsErr FsStat) := .call (.fs_stat path) .done
def fs_core_open (path : CString) : M (Except FsErr Nat) := .call (.fs_core_open path) .done
def fs_core_close (node_id : Nat) : M Unit := .call (.fs_core_close node_id) .done
def fs_core_read (node_id offset size : Nat) : M ReadAnswer :=
  .call (.fs_core_read node_id offset size) .done
def store (addr : Nat) (bytes : List UInt8) : M Unit := .call (.store addr bytes) .done

/-! ## Checks on header values -/

/-- `sprg_le32(&p[i])`. -/
def sprg_le32 (p : List UInt8) (i : Nat) : Nat :=
  le32 (p.getD i 0) (p.getD (i + 1) 0) (p.getD (i + 2) 0) (p.getD (i + 3) 0)

/-- The path ends in `.prg`. -/
def sprg_has_prg_suffix (path : CString) : Bool :=
  decide (path.bytes.drop (path.bytes.length - 4) = [0x2e, 0x70, 0x72, 0x67])

def sprg_range_valid (offset size file_size : Nat) : Bool :=
  if offset > file_size then false
  else if size > file_size - offset then false
  else true

/-- The ends are computed in 32 bits; an end that wraps counts as an overlap. -/
def sprg_segments_overlap (left_addr left_size right_addr right_size : Nat) : Bool :=
  if left_size = 0 ∨ right_size = 0 then false
  else
    let left_end := u32 (left_addr + left_size)
    let right_end := u32 (right_addr + right_size)
    if left_end < left_addr ∨ right_end < right_addr then true
    else decide (left_addr < right_end ∧ right_addr < left_end)

/-- The loops over `i` and `j > i` of `sprg_validate_segment_table`, as a recursion
on the segments from `i` on. -/
def sprg_validate_segment_table (file_size : Nat) : List Segment → Except SprgErr Unit
  | [] => .ok ()
  | seg :: rest =>
    if seg.type ≠ SPRG_PHDR_LOAD then .error .UNSUPPORTED
    else if seg.memsz < seg.filesz then .error .BAD_HEADER
    else if sprg_range_valid seg.offset seg.filesz file_size = false then .error .BAD_HEADER
    else if seg.reserved ≠ 0 then .error .BAD_HEADER
    else if rest.any (fun t =>
        sprg_segments_overlap seg.vaddr seg.memsz t.vaddr t.memsz) then .error .BAD_HEADER
    else sprg_validate_segment_table file_size rest

/-! ## Reading the headers -/

/-- The `while (done < size)` loop of `sprg_read_exact`; `buffer` is what has been
filled so far. A read that delivers nothing ends it with an error. -/
def sprg_read_exact_loop (node_id offset size done : Nat) (buffer : List UInt8) :
    M (List UInt8) :=
  if _hlt : done < size then do
    let chunk := min (size - done) SPRG_STREAM_CHUNK
    match ← fs_core_read node_id (u32 (offset + done)) chunk with
    | .error _ _ => .fail .INVALID
    | .got bytes =>
      if _hpos : bytes.length = 0 then .fail .INVALID
      else sprg_read_exact_loop node_id offset size (done + bytes.length) (buffer ++ bytes)
  else .done buffer
termination_by size - done
decreasing_by omega

def sprg_read_exact (node_id offset size : Nat) : M (List UInt8) :=
  sprg_read_exact_loop node_id offset size 0 []

/-- `(void)fs_core_close(node_id); return err;` -/
def closeAndFail {α : Type} (node_id : Nat) (err : SprgErr) : M α := do
  fs_core_close node_id
  .fail err

/-- `rc = f(...); if (rc != SPRG_OK) { (void)fs_core_close(node_id); return rc; }` -/
def orClose {α : Type} (node_id : Nat) (p : M α) : M α := do
  match ← p.attempt with
  | .ok a => .done a
  | .error e => closeAndFail node_id e

/-- The program header in `phdr`. -/
def segmentOf (phdr : List UInt8) : Segment where
  type := sprg_le32 phdr 0
  offset := sprg_le32 phdr 4
  vaddr := sprg_le32 phdr 8
  filesz := sprg_le32 phdr 12
  memsz := sprg_le32 phdr 16
  flags := sprg_le32 phdr 20
  align := sprg_le32 phdr 24
  reserved := sprg_le32 phdr 28

/-- The `for (i = 0u; i < phnum; ++i)` loop that reads the table: `n` headers are
still to be read, `segs` are the ones read. -/
def sprg_read_phdrs (node_id phoff i : Nat) : Nat → List Segment → M (List Segment)
  | 0, segs => .done segs
  | n + 1, segs => do
    let phdr ← orClose node_id
      (sprg_read_exact node_id (u32 (phoff + i * SPRG_PHDR_SIZE)) SPRG_PHDR_SIZE)
    sprg_read_phdrs node_id phoff (i + 1) n (segs ++ [segmentOf phdr])

/-- How a failed `fs_stat` or `fs_core_open` is reported. -/
def openError (rc : FsErr) : SprgErr :=
  if rc = .NOT_FOUND then .NOT_FOUND else .INVALID

def sprg_core_validate_file (path : CString) (expected_arch : Nat) : M Image := do
  if sprg_has_prg_suffix path = false then .fail .INVALID
  else
    match ← fs_stat path with
    | .error rc => .fail (openError rc)
    | .ok st =>
      if st.mode &&& FS_MODE_FILE = 0 then .fail .INVALID
      else if st.size > SPRG_MAX_FILE_SIZE then .fail .TOO_LARGE
      else
        match ← fs_core_open path with
        | .error rc => .fail (openError rc)
        | .ok node_id =>
          let header ← orClose node_id (sprg_read_exact node_id 0 SPRG_HEADER_SIZE)
          if header.take 4 ≠ SPRG_MAGIC then closeAndFail node_id .BAD_MAGIC
          else if sprg_le32 header 4 ≠ SPRG_VERSION then closeAndFail node_id .BAD_VERSION
          else if sprg_le32 header 8 ≠ expected_arch then closeAndFail node_id .BAD_ARCH
          else if sprg_le32 header 24 ≠ 0 ∨ sprg_le32 header 20 = 0 ∨
              sprg_le32 header 20 > SPRG_MAX_PHDRS then closeAndFail node_id .BAD_HEADER
          else if sprg_range_valid (sprg_le32 header 16)
              (sprg_le32 header 20 * SPRG_PHDR_SIZE) st.size = false then
            closeAndFail node_id .BAD_HEADER
          else
            let segs ← sprg_read_phdrs node_id (sprg_le32 header 16) 0 (sprg_le32 header 20) []
            fs_core_close node_id
            let image : Image :=
              { entry := sprg_le32 header 12, arch := sprg_le32 header 8
                file_size := st.size, segments := segs }
            match sprg_validate_segment_table st.size segs with
            | .error e => .fail e
            | .ok () => .done image

/-! ## Loading the segments -/

/-- The `while (done < seg->filesz)` loop: stream the file part of a segment to
`start`. What a failing read left in the buffer is in memory too. -/
def sprg_copy_segment (W node_id start offset filesz done : Nat) : M Unit :=
  if _hlt : done < filesz then do
    let chunk := min (filesz - done) SPRG_STREAM_CHUNK
    match ← fs_core_read node_id (u32 (offset + done)) chunk with
    | .error _ left =>
      store ((start + done) % 2 ^ W) left
      closeAndFail node_id .INVALID
    | .got bytes =>
      store ((start + done) % 2 ^ W) bytes
      if _hpos : bytes.length = 0 then closeAndFail node_id .INVALID
      else sprg_copy_segment W node_id start offset filesz (done + bytes.length)
  else .done ()
termination_by filesz - done
decreasing_by omega

/-- One iteration of the loop over the segments, which says whether the entry point
lies in the segment and the segment is executable. -/
def sprg_load_segment (W node_id user_min user_max entry : Nat) (seg : Segment) : M Bool := do
  let start := seg.vaddr
  let stop := (start + seg.memsz) % 2 ^ W
  if stop < start ∨ start < user_min ∨ stop > user_max then closeAndFail node_id .BAD_HEADER
  -- a flag bit above R, W and X
  else if seg.flags / 8 ≠ 0 then closeAndFail node_id .BAD_HEADER
  else
    sprg_copy_segment W node_id start seg.offset seg.filesz 0
    store ((start + seg.filesz) % 2 ^ W) (List.replicate (seg.memsz - seg.filesz) 0)
    .done (decide (seg.flags &&& SPRG_FLAG_X ≠ 0 ∧ start ≤ entry ∧ entry < stop))

/-- The loop over the segments; the accumulator is `entry_is_executable`. -/
def sprg_load_segments (W node_id user_min user_max entry : Nat) :
    List Segment → Bool → M Bool
  | [], entry_is_executable => .done entry_is_executable
  | seg :: rest, entry_is_executable => do
    let hit ← sprg_load_segment W node_id user_min user_max entry seg
    sprg_load_segments W node_id user_min user_max entry rest (entry_is_executable || hit)

def sprg_core_load_file (W : Nat) (path : CString) (expected_arch user_min user_max : Nat) :
    M Image := do
  if user_min ≥ user_max then .fail .INVALID
  else
    let image ← sprg_core_validate_file path expected_arch
    match ← fs_core_open path with
    | .error rc => .fail (openError rc)
    | .ok node_id =>
      let entry_is_executable ←
        sprg_load_segments W node_id user_min user_max image.entry image.segments false
      fs_core_close node_id
      if entry_is_executable = false then .fail .BAD_HEADER else .done image

/-! ## The environment

The filesystem is a parameter: it answers by call number, so it may chunk a read
differently every time and fail whenever it wants. The rest of the environment is
user memory and a record of every address stored to. -/

/-- A filesystem as the loader sees it; the first argument is the call number. -/
structure Fs where
  stat : Nat → Except FsErr FsStat
  «open» : Nat → Except FsErr Nat
  read : Nat → Nat → Nat → Nat → ReadAnswer

/-- The loader's environment: calls made so far, memory, and addresses written. -/
structure Env where
  calls : Nat
  mem : Nat → UInt8
  written : List Nat

/-- The environment's answer to one request. -/
def handler (W : Nat) (fs : Fs) (s : Env) : (r : Req) → Resp r × Env
  | .fs_stat _ => (fs.stat s.calls, { s with calls := s.calls + 1 })
  | .fs_core_open _ => (fs.open s.calls, { s with calls := s.calls + 1 })
  | .fs_core_close _ => ((), { s with calls := s.calls + 1 })
  | .fs_core_read node_id offset size =>
    (fs.read s.calls node_id offset size, { s with calls := s.calls + 1 })
  | .store addr bytes =>
    ((), { s with
      mem := storeBytes (2 ^ W) s.mem addr bytes
      written := s.written ++ storeAddrs (2 ^ W) addr bytes.length })

/-- The filesystem serves the unchanged file `file`: a successful `stat` reports its
length, a read delivers at most what was asked for and only bytes of the file from
the offset asked for, and a failed read leaves at most that many bytes behind. -/
structure Fs.Serves (fs : Fs) (file : List UInt8) : Prop where
  stat_size : ∀ t st, fs.stat t = .ok st → st.size = file.length
  read_got : ∀ t node_id offset size bytes, fs.read t node_id offset size = .got bytes →
    bytes.length ≤ size ∧ bytes <+: file.drop offset
  read_error : ∀ t node_id offset size rc left, fs.read t node_id offset size = .error rc left →
    left.length ≤ size

/-- The final outcome and environment of one `sprg_core_load_file` call. -/
def load (W : Nat) (fs : Fs) (path : CString) (expected_arch user_min user_max : Nat)
    (mem : Nat → UInt8) : Outcome SprgErr Image × Env :=
  (sprg_core_load_file W path expected_arch user_min user_max).run (handler W fs)
    { calls := 0, mem := mem, written := [] }

end System1.Sprg
