/-
File descriptors and processes, `src/kernel/core/posix/fd_core.c` and
`src/kernel/core/process/process_core.c`.

A process has a table of 32 descriptors. A used entry names an open file
description, one of 32 in a table shared by all processes; the description holds the
node, the offset and the open flags, and counts the entries that name it. `dup`,
`dup2` and `spawn` share descriptions, and the last close gives the node back to the
filesystem.

The filesystem and the terminal are parameters (`FsOps`), as functions on a state of
any type, so a statement about every `FsOps` is one about every behaviour of the
layers below. Return codes are the source's own: a negative number is an error.

An entry is the index of its description, or nothing when unused: `fd_zero_entry`
clears both fields, so an unused entry carries no index. A descriptor table is always
that of a process and is named by the process's slot. The fields of a process that
only the loader and the scheduler read are left out.
-/
import System1.Base
import Mathlib.Logic.Function.Basic
import Mathlib.Data.List.FinRange

set_option autoImplicit false

namespace System1.Fd

def POSIX_FD_CAP : Nat := 32
def POSIX_OFD_CAP : Nat := 32
def PROCESS_MAX : Nat := 16

/-- A descriptor number inside the table. -/
abbrev FdIx : Type := Fin POSIX_FD_CAP

/-- An index into `g_descriptions`. -/
abbrev DescIx : Type := Fin POSIX_OFD_CAP

/-- A slot of `g_processes`. -/
abbrev ProcIx : Type := Fin PROCESS_MAX

def POSIX_EBADF : Int := 9
def POSIX_EINVAL : Int := 22
def POSIX_ENOSPC : Int := 28

def fs_core_to_errno : FsErr → Int
  | .NOT_FOUND => 2
  | .EXISTS => 17
  | .NOT_DIR => 20
  | .INVALID => 22
  | .NO_SPACE => 28
  | .READ_ONLY => 30
  | .IS_DIR => 21
  | .NOT_EMPTY => 39

/-- `fd_to_errno` of an error code. -/
def fd_to_errno (rc : FsErr) : Int := -(fs_core_to_errno rc)

/-- Conversion to `int`, 32 bits wide and wrapping. -/
def toInt (n : Int) : Int := (n + 2 ^ 31) % 2 ^ 32 - 2 ^ 31

inductive FdKind where
  | UNUSED
  | TTY_IN
  | TTY_OUT
  | VFS
  deriving DecidableEq, Repr

/-- `fd_description_t`. -/
structure Description where
  used : Bool
  refs : Nat
  kind : FdKind
  node_id : Nat
  offset : Nat
  flags : Nat
  deriving DecidableEq, Repr

/-- `fd_description_zero`. -/
def Description.zero : Description := ⟨false, 0, .UNUSED, 0, 0, 0⟩

/-- `fd_table_t`. -/
structure FdTable where
  entries : FdIx → Option DescIx
  initialized : Bool

/-- A table after `fd_core_table_reset`. -/
def FdTable.zero : FdTable := ⟨fun _ => none, false⟩

inductive ProcState where
  | UNUSED
  | RUNNABLE
  | RUNNING
  | BLOCKED
  | ZOMBIE
  deriving DecidableEq, Repr

/-- `process_t`. -/
structure Process where
  pid : Nat
  ppid : Nat
  state : ProcState
  cwd : List UInt8
  fd_table : FdTable

/-- A slot after `process_clear`. -/
def Process.zero : Process := ⟨0, 0, .UNUSED, [], FdTable.zero⟩

/-- What lies below the descriptor layer, as functions on a state of type `σ`. The
directory of the calling process is passed to `fs_core_open`. -/
structure FsOps (σ : Type) where
  fs_core_open : σ → List UInt8 → CString → Nat → Except FsErr Nat × σ
  fs_core_read : σ → Nat → Nat → Nat → Except FsErr (List UInt8) × σ
  fs_core_write : σ → Nat → Nat → List UInt8 → Except FsErr Nat × σ
  fs_core_size : σ → Nat → Except FsErr Nat × σ
  fs_core_close : σ → Nat → Except FsErr Unit × σ
  tty_readline : σ → Nat → (Int × List UInt8) × σ
  tty_write : σ → Int → List UInt8 → σ

/-- The static variables of both modules and the state below them. `closed` records
the calls of `fs_core_close` made for a description, with its node; nothing reads
it. -/
structure Kernel (σ : Type) where
  g_processes : ProcIx → Process
  g_current_process : ProcIx
  g_next_pid : Nat
  g_descriptions : DescIx → Description
  fs : σ
  closed : List (DescIx × Nat)

section

variable {σ : Type} (ops : FsOps σ)

/-! ## Stores -/

def Kernel.setProc (k : Kernel σ) (p : ProcIx) (proc : Process) : Kernel σ :=
  { k with g_processes := Function.update k.g_processes p proc }

def Kernel.setDesc (k : Kernel σ) (i : DescIx) (d : Description) : Kernel σ :=
  { k with g_descriptions := Function.update k.g_descriptions i d }

/-- The descriptor table of a process. -/
def Kernel.table (k : Kernel σ) (p : ProcIx) : FdTable := (k.g_processes p).fd_table

def Kernel.setTable (k : Kernel σ) (p : ProcIx) (t : FdTable) : Kernel σ :=
  k.setProc p { k.g_processes p with fd_table := t }

/-- Store one entry of a table. -/
def Kernel.setEntry (k : Kernel σ) (p : ProcIx) (fd : FdIx) (e : Option DescIx) : Kernel σ :=
  k.setTable p { k.table p with entries := Function.update (k.table p).entries fd e }

/-! ## Descriptions and tables -/

def fd_core_table_reset (k : Kernel σ) (p : ProcIx) : Kernel σ := k.setTable p FdTable.zero

def fd_alloc_description (k : Kernel σ) (kind : FdKind) (node_id flags offset : Nat) :
    Option (DescIx × Kernel σ) :=
  match (List.finRange POSIX_OFD_CAP).find? fun i => (k.g_descriptions i).used = false with
  | none => none
  | some i =>
    some (i, k.setDesc i
      { used := true, refs := 1, kind := kind, node_id := node_id, offset := offset
        flags := flags })

/-- A descriptor number as an index, when it is in range. -/
def fdIx (fd : Int) : Option FdIx :=
  if h : 0 ≤ fd ∧ fd < POSIX_FD_CAP then some ⟨fd.toNat, by omega⟩ else none

/-- The description an entry names, when both are in use. -/
def fd_description (k : Kernel σ) (p : ProcIx) (fd : FdIx) : Option DescIx :=
  match (k.table p).entries fd with
  | none => none
  | some i => if (k.g_descriptions i).used = false then none else some i

/-- `fd_description` on a descriptor number. -/
def fd_lookup (k : Kernel σ) (p : ProcIx) (fd : Int) : Option (FdIx × DescIx) :=
  match fdIx fd with
  | none => none
  | some f =>
    match fd_description k p f with
    | none => none
    | some i => some (f, i)

/-- `none` is the `-POSIX_ENOSPC` return. -/
def fd_assign_new_description (k : Kernel σ) (p : ProcIx) (fd : FdIx) (kind : FdKind)
    (node_id flags offset : Nat) : Option (Kernel σ) :=
  match fd_alloc_description k kind node_id flags offset with
  | none => none
  | some (i, k) => some (k.setEntry p fd (some i))

/-- The end of `fd_release_entry`, once the last reference is gone. -/
def fd_close_description (k : Kernel σ) (i : DescIx) : Int × Kernel σ :=
  if (k.g_descriptions i).kind = .VFS then
    match ops.fs_core_close k.fs (k.g_descriptions i).node_id with
    | (rc, fs) =>
      (match rc with
        | .ok () => 0
        | .error rc => fd_to_errno rc,
      { k.setDesc i Description.zero with
        fs := fs, closed := k.closed ++ [(i, (k.g_descriptions i).node_id)] })
  else (0, k.setDesc i Description.zero)

def fd_release_entry (k : Kernel σ) (p : ProcIx) (fd : FdIx) : Int × Kernel σ :=
  match fd_description k p fd with
  | none => (-POSIX_EBADF, k)
  | some i =>
    let k := k.setEntry p fd none
    let d := k.g_descriptions i
    let d := if d.refs > 0 then { d with refs := d.refs - 1 } else d
    let k := k.setDesc i d
    if d.refs ≠ 0 then (0, k) else fd_close_description ops k i

/-- The loop of `fd_core_table_destroy`. -/
def fd_core_table_destroy_loop (p : ProcIx) : List FdIx → Kernel σ → Kernel σ
  | [], k => k
  | fd :: fds, k =>
    if ((k.table p).entries fd).isSome then
      fd_core_table_destroy_loop p fds (fd_release_entry ops k p fd).2
    else fd_core_table_destroy_loop p fds k

def fd_core_table_destroy (k : Kernel σ) (p : ProcIx) : Kernel σ :=
  fd_core_table_reset (fd_core_table_destroy_loop ops p (List.finRange POSIX_FD_CAP) k) p

/-- The standard descriptors of a new table; when the descriptions run out the table
is left empty and uninitialised. -/
def fd_core_table_init (k : Kernel σ) (p : ProcIx) : Kernel σ :=
  let k := fd_core_table_reset k p
  match fd_assign_new_description k p ⟨0, by decide⟩ .TTY_IN 0 0 0 with
  | none => fd_core_table_destroy ops k p
  | some k =>
    match fd_assign_new_description k p ⟨1, by decide⟩ .TTY_OUT 0 0 0 with
    | none => fd_core_table_destroy ops k p
    | some k =>
      match fd_assign_new_description k p ⟨2, by decide⟩ .TTY_OUT 0 0 0 with
      | none => fd_core_table_destroy ops k p
      | some k => k.setTable p { k.table p with initialized := true }

/-- The count is a `uint16_t`. -/
def Kernel.addRef (k : Kernel σ) (i : DescIx) : Kernel σ :=
  k.setDesc i { k.g_descriptions i with refs := ((k.g_descriptions i).refs + 1) % 2 ^ 16 }

/-- The loop of `fd_core_table_clone`; `false` is the exit on a bad entry. -/
def fd_core_table_clone_loop (dst src : ProcIx) : List FdIx → Kernel σ → Bool × Kernel σ
  | [], k => (true, k)
  | fd :: fds, k =>
    match (k.table src).entries fd with
    | none => fd_core_table_clone_loop dst src fds k
    | some i =>
      if (k.g_descriptions i).used = false then (false, k)
      else fd_core_table_clone_loop dst src fds ((k.setEntry dst fd (some i)).addRef i)

def fd_core_table_clone (k : Kernel σ) (dst src : ProcIx) : Int × Kernel σ :=
  if (k.table src).initialized = false then (-POSIX_EINVAL, k)
  else
    match fd_core_table_clone_loop dst src (List.finRange POSIX_FD_CAP)
        (fd_core_table_reset k dst) with
    | (false, k) => (-POSIX_EBADF, fd_core_table_destroy ops k dst)
    | (true, k) => (0, k.setTable dst { k.table dst with initialized := true })

/-! ## Descriptor calls -/

/-- `fd_core_init`, which every call makes first. -/
def fd_core_init (k : Kernel σ) : Kernel σ :=
  if (k.table k.g_current_process).initialized = false then
    fd_core_table_init ops k k.g_current_process
  else k

/-- `fd_find_free` from descriptor 0. -/
def fd_find_free (k : Kernel σ) (p : ProcIx) : Option FdIx :=
  (List.finRange POSIX_FD_CAP).find? fun fd => (k.table p).entries fd = none

/-- `(void)fs_core_close(node_id); return rc;` -/
def closeNode (k : Kernel σ) (node_id : Nat) (rc : Int) : Int × Kernel σ :=
  (rc, { k with fs := (ops.fs_core_close k.fs node_id).2 })

/-- Where an open or a write starts: at the end of the file with `FS_O_APPEND`, at the
given offset otherwise. -/
def fd_start_offset (k : Kernel σ) (node_id flags offset : Nat) : Except FsErr Nat × Kernel σ :=
  if flags &&& FS_O_APPEND ≠ 0 then
    ((ops.fs_core_size k.fs node_id).1, { k with fs := (ops.fs_core_size k.fs node_id).2 })
  else (.ok offset, k)

def fd_core_open (k : Kernel σ) (path : CString) (flags : Nat) : Int × Kernel σ :=
  let k := fd_core_init ops k
  let p := k.g_current_process
  match ops.fs_core_open k.fs (k.g_processes p).cwd path flags with
  | (.error rc, fs) => (fd_to_errno rc, { k with fs := fs })
  | (.ok node_id, fs) =>
    match fd_start_offset ops { k with fs := fs } node_id flags 0 with
    | (.error rc, k) => closeNode ops k node_id (fd_to_errno rc)
    | (.ok offset, k) =>
      match fd_find_free k p with
      | none => closeNode ops k node_id (-POSIX_ENOSPC)
      | some fd =>
        match fd_alloc_description k .VFS node_id flags offset with
        | none => closeNode ops k node_id (-POSIX_ENOSPC)
        | some (i, k) => (fd.val, k.setEntry p fd (some i))

def fd_core_close (k : Kernel σ) (fd : Int) : Int × Kernel σ :=
  let k := fd_core_init ops k
  match fd_lookup k k.g_current_process fd with
  | none => (-POSIX_EBADF, k)
  | some (f, _) => fd_release_entry ops k k.g_current_process f

/-- The return code and, after a success, the bytes put into the buffer. -/
def fd_core_read (k : Kernel σ) (fd : Int) (count : Nat) : (Int × List UInt8) × Kernel σ :=
  let k := fd_core_init ops k
  match fd_lookup k k.g_current_process fd with
  | none => ((-POSIX_EBADF, []), k)
  | some (_, i) =>
    let d := k.g_descriptions i
    if count = 0 then ((0, []), k)
    else if d.kind = .TTY_IN then
      ((ops.tty_readline k.fs count).1, { k with fs := (ops.tty_readline k.fs count).2 })
    else if d.kind ≠ .VFS then ((-POSIX_EBADF, []), k)
    else if d.flags &&& FS_O_RDWR = FS_O_WRONLY then ((-POSIX_EBADF, []), k)
    else
      match ops.fs_core_read k.fs d.node_id d.offset count with
      | (.error rc, fs) => ((fd_to_errno rc, []), { k with fs := fs })
      | (.ok bytes, fs) =>
        let k := { k with fs := fs }
        ((toInt bytes.length, bytes),
          k.setDesc i { d with offset := u32 (d.offset + bytes.length) })

def fd_core_write (k : Kernel σ) (fd : Int) (buffer : List UInt8) : Int × Kernel σ :=
  let k := fd_core_init ops k
  match fd_lookup k k.g_current_process fd with
  | none => (-POSIX_EBADF, k)
  | some (_, i) =>
    let d := k.g_descriptions i
    if buffer.length = 0 then (0, k)
    else if d.kind = .TTY_OUT then
      (toInt buffer.length, { k with fs := ops.tty_write k.fs fd buffer })
    else if d.kind ≠ .VFS then (-POSIX_EBADF, k)
    else if d.flags &&& FS_O_RDWR = FS_O_RDONLY then (-POSIX_EBADF, k)
    else
      -- an appending descriptor moves to the end of the file first, and stays there
      -- when the write then fails
      match fd_start_offset ops k d.node_id d.flags d.offset with
      | (.error rc, k) => (fd_to_errno rc, k)
      | (.ok offset, k) =>
        let d := { d with offset := offset }
        let k := k.setDesc i d
        match ops.fs_core_write k.fs d.node_id d.offset buffer with
        | (.error rc, fs) => (fd_to_errno rc, { k with fs := fs })
        | (.ok written, fs) =>
          let k := { k with fs := fs }
          (toInt written, k.setDesc i { d with offset := u32 (d.offset + written) })

def FS_SEEK_SET : Nat := 0
def FS_SEEK_CUR : Nat := 1
def FS_SEEK_END : Nat := 2

/-- The `switch` of `fd_core_lseek`: what the offset is counted from. -/
def fd_seek_base (k : Kernel σ) (d : Description) (whence : Nat) : Except Int Int × Kernel σ :=
  if whence = FS_SEEK_SET then (.ok 0, k)
  else if whence = FS_SEEK_CUR then (.ok (toInt d.offset), k)
  else if whence = FS_SEEK_END then
    match ops.fs_core_size k.fs d.node_id with
    | (.error rc, fs) => (.error (fd_to_errno rc), { k with fs := fs })
    | (.ok size, fs) => (.ok (toInt size), { k with fs := fs })
  else (.error (-POSIX_EINVAL), k)

/-- The sum of base and offset is an `int`. -/
def fd_core_lseek (k : Kernel σ) (fd offset : Int) (whence : Nat) : Int × Kernel σ :=
  let k := fd_core_init ops k
  match fd_lookup k k.g_current_process fd with
  | none => (-POSIX_EBADF, k)
  | some (_, i) =>
    let d := k.g_descriptions i
    if d.kind ≠ .VFS then (-POSIX_EBADF, k)
    else
      match fd_seek_base ops k d whence with
      | (.error rc, k) => (rc, k)
      | (.ok base, k) =>
        let next := toInt (base + offset)
        if next < 0 then (-POSIX_EINVAL, k)
        else (next, k.setDesc i { d with offset := next.toNat })

def fd_core_dup (k : Kernel σ) (oldfd : Int) : Int × Kernel σ :=
  let k := fd_core_init ops k
  let p := k.g_current_process
  match fd_lookup k p oldfd with
  | none => (-POSIX_EBADF, k)
  | some (old, i) =>
    match fd_find_free k p with
    | none => (-POSIX_ENOSPC, k)
    | some new => (new.val, (k.setEntry p new ((k.table p).entries old)).addRef i)

def fd_core_dup2 (k : Kernel σ) (oldfd newfd : Int) : Int × Kernel σ :=
  let k := fd_core_init ops k
  let p := k.g_current_process
  match fd_lookup k p oldfd with
  | none => (-POSIX_EBADF, k)
  | some (old, i) =>
    match fdIx newfd with
    | none => (-POSIX_EBADF, k)
    | some new =>
      if oldfd = newfd then (newfd, k)
      else
        let released : Int × Kernel σ :=
          if ((k.table p).entries new).isSome then fd_release_entry ops k p new else (0, k)
        if released.1 < 0 then released
        else
          let k := released.2
          (newfd, (k.setEntry p new ((k.table p).entries old)).addRef i)

/-! ## Processes -/

def process_clear (k : Kernel σ) (p : ProcIx) : Kernel σ := k.setProc p Process.zero

/-- `process_copy_string` into a path buffer. -/
def process_copy_string (src : List UInt8) : List UInt8 := src.take (FS_PATH_CAP - 1)

/-- The first slot in use with the given process number. -/
def process_find_pid (k : Kernel σ) (pid : Nat) : Option ProcIx :=
  (List.finRange PROCESS_MAX).find? fun p =>
    (k.g_processes p).state ≠ .UNUSED ∧ (k.g_processes p).pid = pid

/-- The first half of `process_core_spawn_exec`: the child is filled field by field. When
the current process sits in a slot that is itself unused, child and parent are the same
structure. -/
def process_fill (k : Kernel σ) (child parent : ProcIx) : Kernel σ :=
  let k := process_clear k child
  let k := { k.setProc child { k.g_processes child with pid := k.g_next_pid } with
    g_next_pid := u32 (k.g_next_pid + 1) }
  k.setProc child { k.g_processes child with
    ppid := (k.g_processes parent).pid
    state := .RUNNING
    cwd := process_copy_string (k.g_processes parent).cwd }

def process_core_spawn_exec (k : Kernel σ) : Option ProcIx × Kernel σ :=
  match (List.finRange PROCESS_MAX).find? fun p => (k.g_processes p).state = .UNUSED with
  | none => (none, k)
  | some child =>
    match fd_core_table_clone ops (process_fill k child k.g_current_process) child
        k.g_current_process with
    | (rc, k) =>
      if rc < 0 then (none, process_clear k child)
      else (some child, { k with g_current_process := child })

def process_core_exit_current (k : Kernel σ) : Kernel σ :=
  let c := k.g_current_process
  let k := k.setProc c { k.g_processes c with state := .ZOMBIE }
  match process_find_pid k (k.g_processes c).ppid with
  | none => k
  | some q =>
    { k.setProc q { k.g_processes q with state := .RUNNING } with g_current_process := q }

def process_core_reap (k : Kernel σ) (p : ProcIx) : Kernel σ :=
  if (k.g_processes p).state ≠ .ZOMBIE then k
  else process_clear (fd_core_table_destroy ops k p) p

/-- Static memory at boot. -/
def Kernel.zero (fs : σ) : Kernel σ where
  g_processes := fun _ => Process.zero
  g_current_process := ⟨0, by decide⟩
  g_next_pid := 0
  g_descriptions := fun _ => Description.zero
  fs := fs
  closed := []

/-- The path `/`. -/
def rootPath : List UInt8 := [0x2F]

def process_core_init (k : Kernel σ) : Kernel σ :=
  let k := { k with g_next_pid := 1, g_processes := fun _ => Process.zero }
  let initial : ProcIx := ⟨0, by decide⟩
  let k := { k.setProc initial { Process.zero with
      pid := k.g_next_pid, ppid := 0, state := .RUNNING, cwd := process_copy_string rootPath } with
    g_next_pid := u32 (k.g_next_pid + 1) }
  let k := fd_core_table_init ops k initial
  { k with g_current_process := initial }

end

end System1.Fd
