/-
A reference model of POSIX descriptors.

This is what the descriptor layer is for, said without descriptions in use, reference
counts, nodes or data slots. There is one byte array per file, one offset per open file
description, and a table of descriptors per process that names descriptions; several
descriptors may name one description and then share its offset. A read returns the
slice at the offset and moves the offset past it. A write replaces the range at the
offset, or at the end of the file for a descriptor opened with `FS_O_APPEND`, fills a
gap with zeros and moves the offset past what it wrote.

What descriptors do not decide is left to an oracle: which node a path leads to and
whether opening it made a new file, which description is fresh, whether there is storage
for a file that has none, what devices and the terminal answer, which slot a spawn takes
and who runs after an exit. The oracle's answers are constrained only by `Oracle.Ok`:
what is called fresh names nothing yet, and what is called created did not exist.
-/
import System1.FdRuns
import System1.Vfs
import System1.Lib.Bytes

set_option autoImplicit false

namespace System1.Posix

open System1.Lib System1.Fd Function

/-- The most bytes a file can have. -/
def FILE_CAP : Nat := 4096

/-- An open file description: what it refers to, its offset and its open flags. -/
structure OpenFile where
  kind : FdKind
  node : Nat
  offset : Nat
  flags : Nat
  deriving DecidableEq, Repr

/-- The state of the reference model. Files are named by their node. -/
structure Ref where
  table : ProcIx → FdTable
  current : ProcIx
  descr : DescIx → OpenFile
  file : Nat → Option (List UInt8)

/-- The answers the descriptor model does not determine. -/
structure Oracle where
  /-- The descriptions of a new table, when there are enough. -/
  std : Option (DescIx × DescIx × DescIx)
  /-- What opening the path returned. -/
  opened : Except FsErr Nat
  /-- The file that opening the path created. -/
  created : Option Nat
  /-- The description for an open, when there is one. -/
  fresh : Option DescIx
  /-- There is storage for a file that has none yet. -/
  storage : Bool
  device_read : Except FsErr (List UInt8)
  device_write : Except FsErr Nat
  device_size : Except FsErr Nat
  tty_line : Int × List UInt8
  /-- The slot a spawn takes, and whether the spawn succeeds. -/
  child : Option ProcIx
  spawned : Bool
  /-- The current process after an exit. -/
  next : ProcIx
  /-- The process to reap has exited. -/
  zombie : Bool
  /-- The answer of a call on paths, and the file it removed. -/
  path_rc : Except FsErr Unit
  removed : Option Nat

/-- The calls of a run: those of the descriptor and process layers, and the calls on
paths. -/
inductive SysCall where
  | fd (c : Fd.Call)
  | unlink (path : CString)
  | make_dir (path : CString)
  | rmdir (path : CString)

/-- The files after opening a path: a created file is empty, and so is an opened one
with `FS_O_TRUNC`. -/
def openFiles (file : Nat → Option (List UInt8)) (created : Option Nat) (opened : Except FsErr Nat)
    (flags : Nat) : Nat → Option (List UInt8) :=
  let file :=
    match created with
    | none => file
    | some n => update file n (some [])
  match opened with
  | .error _ => file
  | .ok n =>
    if Vfs.isPseudo n = false ∧ flags &&& FS_O_TRUNC ≠ 0 then update file n (some [])
    else file

namespace Ref

variable (r : Ref) (o : Oracle)

def setTable (p : ProcIx) (t : FdTable) : Ref := { r with table := update r.table p t }

/-- Store one descriptor of the current process. -/
def setEntry (f : FdIx) (e : Option DescIx) : Ref :=
  r.setTable r.current { r.table r.current with
    entries := update (r.table r.current).entries f e }

def setDescr (i : DescIx) (d : OpenFile) : Ref :=
  { r with descr := update r.descr i d }

def setFile (n : Nat) (b : Option (List UInt8)) : Ref :=
  { r with file := update r.file n b }

/-- Some table names the description. -/
def Named (i : DescIx) : Prop := ∃ p f, (r.table p).entries f = some i

/-- A terminal description. -/
def tty (kind : FdKind) : OpenFile := ⟨kind, 0, 0, 0⟩

/-- The table of a process at its first call: standard input, output and error. -/
def stdTable (a b c : DescIx) : FdTable :=
  ⟨fun f => if f.val = 0 then some a else if f.val = 1 then some b
    else if f.val = 2 then some c else none, true⟩

/-- Every call first makes sure that the current process has a table. -/
def start (std : Option (DescIx × DescIx × DescIx)) : Ref :=
  if (r.table r.current).initialized then r
  else
    match std with
    | none => r.setTable r.current FdTable.zero
    | some (a, b, c) =>
      (((r.setTable r.current (stdTable a b c)).setDescr a (tty .TTY_IN)).setDescr b
        (tty .TTY_OUT)).setDescr c (tty .TTY_OUT)

/-- The description behind a descriptor number. -/
def lookup (fd : Int) : Option (FdIx × DescIx) :=
  (fdIx fd).bind fun f => ((r.table r.current).entries f).map fun i => (f, i)

/-- The lowest free descriptor. -/
def lowest : Option FdIx :=
  (List.finRange POSIX_FD_CAP).find? fun f => (r.table r.current).entries f = none

/-- The length of the file behind a node. -/
def size (n : Nat) : Except FsErr Nat :=
  if Vfs.isPseudo n then o.device_size
  else
    match r.file n with
    | none => .error .INVALID
    | some b => .ok b.length

/-- Where a write goes: to the end of the file when appending. -/
def place (d : OpenFile) : Except FsErr Nat :=
  if d.flags &&& FS_O_APPEND ≠ 0 then r.size o d.node else .ok d.offset

/-! ## Opening and closing -/

def open_ (flags : Nat) : Int × Ref :=
  let r := { r with file := openFiles r.file o.created o.opened flags }
  match o.opened with
  | .error rc => (fd_to_errno rc, r)
  | .ok n =>
    match r.place o ⟨.VFS, n, 0, flags⟩ with
    | .error rc => (fd_to_errno rc, r)
    | .ok offset =>
      match r.lowest, o.fresh with
      | some f, some i =>
        (f.val, (r.setEntry f (some i)).setDescr i ⟨.VFS, n, offset, flags⟩)
      | _, _ => (-POSIX_ENOSPC, r)

def close (fd : Int) : Int × Ref :=
  match r.lookup fd with
  | none => (-POSIX_EBADF, r)
  | some (f, _) => (0, r.setEntry f none)

/-! ## Reading, writing and seeking -/

/-- A read through a VFS description: a device answers, a file gives its slice. -/
def readVfs (i : DescIx) (count : Nat) : (Int × List UInt8) × Ref :=
  let d := r.descr i
  if Vfs.isPseudo d.node then
    match o.device_read with
    | .error rc => ((fd_to_errno rc, []), r)
    | .ok bytes =>
      ((toInt bytes.length, bytes),
        r.setDescr i { d with offset := u32 (d.offset + bytes.length) })
  else
    match r.file d.node with
    | none => ((fd_to_errno .INVALID, []), r)
    | some b =>
      let bytes := readAt b d.offset count
      (((bytes.length : Int), bytes), r.setDescr i { d with offset := d.offset + bytes.length })

def read (fd : Int) (count : Nat) : (Int × List UInt8) × Ref :=
  match r.lookup fd with
  | none => ((-POSIX_EBADF, []), r)
  | some (_, i) =>
    let d := r.descr i
    if count = 0 then ((0, []), r)
    else if d.kind = .TTY_IN then (o.tty_line, r)
    else if d.kind ≠ .VFS ∨ d.flags &&& FS_O_RDWR = FS_O_WRONLY then ((-POSIX_EBADF, []), r)
    else r.readVfs o i count

/-- A write to a file at a given place. One that does not fit, or finds no storage,
fails and leaves every file as it was. -/
def writeFile (i : DescIx) (b : List UInt8) (offset : Nat) (buffer : List UInt8) : Int × Ref :=
  let d := { r.descr i with offset := offset }
  if FILE_CAP < offset + buffer.length ∨ (b = [] ∧ o.storage = false) then
    (fd_to_errno .NO_SPACE, r.setDescr i d)
  else
    ((buffer.length : Int),
      (r.setFile d.node (some (writeAt 0 b offset buffer))).setDescr i
        { d with offset := offset + buffer.length })

/-- A write to a device at a given place. -/
def writeDevice (i : DescIx) (offset : Nat) : Int × Ref :=
  let d := { r.descr i with offset := offset }
  match o.device_write with
  | .error rc => (fd_to_errno rc, r.setDescr i d)
  | .ok n => (toInt n, r.setDescr i { d with offset := u32 (offset + n) })

/-- A write through a VFS description. -/
def writeVfs (i : DescIx) (buffer : List UInt8) : Int × Ref :=
  let d := r.descr i
  match r.place o d with
  | .error rc => (fd_to_errno rc, r)
  | .ok offset =>
    if Vfs.isPseudo d.node then r.writeDevice o i offset
    else
      match r.file d.node with
      | none => (fd_to_errno .INVALID, r)
      | some b => r.writeFile o i b offset buffer

def write (fd : Int) (buffer : List UInt8) : Int × Ref :=
  match r.lookup fd with
  | none => (-POSIX_EBADF, r)
  | some (_, i) =>
    let d := r.descr i
    if buffer.length = 0 then (0, r)
    else if d.kind = .TTY_OUT then (toInt buffer.length, r)
    else if d.kind ≠ .VFS ∨ d.flags &&& FS_O_RDWR = FS_O_RDONLY then (-POSIX_EBADF, r)
    else r.writeVfs o i buffer

/-- What the offset of a seek is counted from. -/
def base (d : OpenFile) (whence : Nat) : Except Int Int :=
  if whence = FS_SEEK_SET then .ok 0
  else if whence = FS_SEEK_CUR then .ok (toInt d.offset)
  else if whence = FS_SEEK_END then
    match r.size o d.node with
    | .error rc => .error (fd_to_errno rc)
    | .ok n => .ok (toInt n)
  else .error (-POSIX_EINVAL)

def lseek (fd offset : Int) (whence : Nat) : Int × Ref :=
  match r.lookup fd with
  | none => (-POSIX_EBADF, r)
  | some (_, i) =>
    let d := r.descr i
    if d.kind ≠ .VFS then (-POSIX_EBADF, r)
    else
      match r.base o d whence with
      | .error rc => (rc, r)
      | .ok base =>
        let next := toInt (base + offset)
        if next < 0 then (-POSIX_EINVAL, r)
        else (next, r.setDescr i { d with offset := next.toNat })

/-! ## Duplicating and inheriting -/

def dup (oldfd : Int) : Int × Ref :=
  match r.lookup oldfd with
  | none => (-POSIX_EBADF, r)
  | some (_, i) =>
    match r.lowest with
    | none => (-POSIX_ENOSPC, r)
    | some f => (f.val, r.setEntry f (some i))

def dup2 (oldfd newfd : Int) : Int × Ref :=
  match r.lookup oldfd with
  | none => (-POSIX_EBADF, r)
  | some (_, i) =>
    match fdIx newfd with
    | none => (-POSIX_EBADF, r)
    | some f => if oldfd = newfd then (newfd, r) else (newfd, r.setEntry f (some i))

/-- The slot a spawn takes loses its table; a child then inherits the table of its
parent and runs. -/
def spawn : Option ProcIx × Ref :=
  match o.child with
  | none => (none, r)
  | some c =>
    if o.spawned then
      (some c, { r.setTable c ⟨(r.table r.current).entries, true⟩ with current := c })
    else (none, r.setTable c FdTable.zero)

/-- Descriptors stay open after an exit, until the process is reaped. -/
def exit : Ref := { r with current := o.next }

def reap (p : ProcIx) : Ref := if o.zombie then r.setTable p FdTable.zero else r

/-! ## Steps -/

/-- One call of the reference model: its answer and the next state. -/
def step : SysCall → Answer × Ref
  | .fd (.open_ _ flags) =>
    (.int ((r.start o.std).open_ o flags).1, ((r.start o.std).open_ o flags).2)
  | .fd (.close fd) => (.int ((r.start o.std).close fd).1, ((r.start o.std).close fd).2)
  | .fd (.read fd count) =>
    (.bytes ((r.start o.std).read o fd count).1.1 ((r.start o.std).read o fd count).1.2,
      ((r.start o.std).read o fd count).2)
  | .fd (.write fd buffer) =>
    (.int ((r.start o.std).write o fd buffer).1, ((r.start o.std).write o fd buffer).2)
  | .fd (.lseek fd offset whence) =>
    (.int ((r.start o.std).lseek o fd offset whence).1,
      ((r.start o.std).lseek o fd offset whence).2)
  | .fd (.dup oldfd) => (.int ((r.start o.std).dup oldfd).1, ((r.start o.std).dup oldfd).2)
  | .fd (.dup2 oldfd newfd) =>
    (.int ((r.start o.std).dup2 oldfd newfd).1, ((r.start o.std).dup2 oldfd newfd).2)
  | .fd .spawn => (.process (r.spawn o).1, (r.spawn o).2)
  | .fd .exit => (.void, r.exit o)
  | .fd (.reap p) => (.void, r.reap o p)
  | .unlink _ =>
    (pathAnswer o.path_rc,
      match o.removed with
      | none => r
      | some n => r.setFile n none)
  | .make_dir _ => (pathAnswer o.path_rc, r)
  | .rmdir _ => (pathAnswer o.path_rc, r)
where
  /-- The answer of a call on paths. -/
  pathAnswer : Except FsErr Unit → Answer
    | .ok () => .int 0
    | .error rc => .int (fd_to_errno rc)

end Ref

/-! ## Runs -/

/-- The answers an oracle may give: descriptions handed out are named by no table, a
created file did not exist and was asked for, an opened node is a device or a file that
exists, and a removed file existed and no descriptor refers to it. -/
structure Oracle.Ok (o : Oracle) (r : Ref) (c : SysCall) : Prop where
  std : ∀ a b d, o.std = some (a, b, d) → a ≠ b ∧ a ≠ d ∧ b ≠ d ∧
    ∀ i, i = a ∨ i = b ∨ i = d → ¬ (r.setTable r.current FdTable.zero).Named i
  fresh : ∀ i, o.fresh = some i → ¬ (r.start o.std).Named i
  created : ∀ n, o.created = some n → r.file n = none ∧ Vfs.isPseudo n = false ∧
    ∃ path flags, c = .fd (.open_ path flags) ∧ flags &&& FS_O_CREAT ≠ 0
  opened : ∀ path flags n, c = .fd (.open_ path flags) → o.opened = .ok n →
    Vfs.isPseudo n = true ∨ (openFiles r.file o.created o.opened flags n).isSome
  removed : ∀ n, o.removed = some n → (r.file n).isSome ∧
    ∀ i, r.Named i → (r.descr i).kind = .VFS → (r.descr i).node ≠ n

/-- A call with what can be seen of it: the answer and, for an open, the node that
opening the path returned. -/
structure Event where
  call : SysCall
  opened : Option (Except FsErr Nat)
  answer : Answer

/-- The runs of the reference model. An open is bound to the node it returned. -/
inductive Ref.Run (r0 : Ref) : List Event → Ref → Prop where
  | nil : Ref.Run r0 [] r0
  | step {es : List Event} {r : Ref} (o : Oracle) (c : SysCall)
      (opened : Option (Except FsErr Nat)) : Ref.Run r0 es r → o.Ok r c →
      (∀ x, opened = some x → o.opened = x) →
      Ref.Run r0 (es ++ [⟨c, opened, (r.step o c).1⟩]) (r.step o c).2

/-- The reference model at the start: the initial process has the standard descriptors,
and the files are given. -/
structure Ref.Initial (r : Ref) (file : Nat → Option (List UInt8)) : Prop where
  current : r.current = initialSlot
  table : ∃ a b c, a ≠ b ∧ a ≠ c ∧ b ≠ c ∧ r.table initialSlot = Ref.stdTable a b c ∧
    r.descr a = Ref.tty .TTY_IN ∧ r.descr b = Ref.tty .TTY_OUT ∧ r.descr c = Ref.tty .TTY_OUT
  other : ∀ p, p ≠ initialSlot → r.table p = FdTable.zero
  file : r.file = file

end System1.Posix
