/-
The filesystem layer, `src/kernel/core/fs/fs_core.c`, with the pseudo files of
`pseudo_core.c`.

`fs_core.c` stands between the descriptors and a root driver. It makes a path absolute,
follows a final symbolic link (a file whose bytes start with `S1SYMLINK:`), sends
`/dev` and `/proc` to the pseudo filesystem and everything else to the driver; a node
identifier with the top bit set belongs to the pseudo filesystem.

The driver is a table of functions on a state of any type, as `vfs_driver_t` is a table
of function pointers. What the pseudo files and the terminal say is a parameter
(`Devices`): it comes from the console, the clock and the module list. A root driver is
mounted, so the checks for a missing one are left out.
-/
import System1.Fd
import Mathlib.Data.Nat.Bitwise

set_option autoImplicit false

namespace System1.Vfs

open List

/-- `vfs_driver_t`. -/
structure VfsDriver (δ : Type) where
  get_cwd_path : δ → List UInt8
  make_dir : δ → CString → Except FsErr Unit × δ
  read_file : δ → CString → Nat → Except FsErr (List UInt8) × δ
  open_ : δ → CString → Nat → Except FsErr Nat × δ
  read : δ → Nat → Nat → Nat → Except FsErr (List UInt8) × δ
  write : δ → Nat → Nat → List UInt8 → Except FsErr Nat × δ
  size : δ → Nat → Except FsErr Nat × δ
  close : δ → Nat → Except FsErr Unit × δ
  stat : δ → CString → Except FsErr FsStat × δ
  unlink : δ → CString → Except FsErr Unit × δ
  rmdir : δ → CString → Except FsErr Unit × δ

/-- The pseudo files and the terminal, as functions on a state of their own. -/
structure Devices (τ : Type) where
  pseudo_fs_read : τ → Nat → Nat → Nat → Except FsErr (List UInt8) × τ
  pseudo_fs_write : τ → Nat → Nat → List UInt8 → Except FsErr Nat × τ
  pseudo_fs_size : τ → Nat → Except FsErr Nat × τ
  tty_readline : τ → Nat → (Int × List UInt8) × τ
  tty_write : τ → Int → List UInt8 → τ

/-- The root filesystem and the devices. -/
structure State (δ τ : Type) where
  root : δ
  dev : τ

/-! ## Paths -/

def SLASH : UInt8 := 0x2F

/-- `fs_copy_name` into a buffer of `cap` bytes. -/
def fs_copy_name (cap : Nat) (src : List UInt8) : List UInt8 := src.take (cap - 1)

/-- The length a path is cut to: back to the last slash behind the first byte. -/
def scanBack (temp : List UInt8) : Nat → Nat
  | 0 => 0
  | len + 1 => if len + 1 > 1 ∧ temp.getD len 0 ≠ SLASH then scanBack temp len else len + 1

/-- The `..` step of `fs_core_normalize_path`. -/
def parentOf (temp : List UInt8) : List UInt8 :=
  let len := scanBack temp temp.length
  temp.take (if len > 1 then len - 1 else len)

/-- Appending a component: a separator where one is needed, then the name. -/
def appendComp (temp comp : List UInt8) : Except FsErr (List UInt8) :=
  let temp :=
    if temp = [] then [SLASH]
    else if temp = [SLASH] then temp
    else temp ++ [SLASH]
  if temp.length ≥ FS_PATH_CAP then .error .INVALID
  else if comp ≠ [] ∧ temp.length + comp.length ≥ FS_PATH_CAP then .error .INVALID
  else .ok (temp ++ comp)

/-- The cursor moves past a component and the slashes behind it. -/
theorem rest_length_lt {cursor : List UInt8} (h : cursor ≠ []) :
    ((cursor.dropWhile (· ≠ SLASH)).dropWhile (· = SLASH)).length < cursor.length := by
  obtain ⟨c, tail, rfl⟩ := exists_cons_of_ne_nil h
  grind [dropWhile_suffix, Nat.lt_succ_of_le, dropWhile_cons_of_neg, dropWhile_cons_of_pos,
    Nat.le_trans]

/-- The loop of `fs_core_normalize_path`. -/
def normalizeLoop (temp cursor : List UInt8) : Except FsErr (List UInt8) :=
  if _h : cursor = [] then .ok temp
  else
    let comp := cursor.takeWhile (· ≠ SLASH)
    let rest := (cursor.dropWhile (· ≠ SLASH)).dropWhile (· = SLASH)
    if comp.length ≥ FS_NAME_CAP then .error .INVALID
    else if comp = [] ∨ comp = [0x2E] then normalizeLoop temp rest
    else if comp = [0x2E, 0x2E] then normalizeLoop (parentOf temp) rest
    else
      match appendComp temp comp with
      | .error rc => .error rc
      | .ok temp => normalizeLoop temp rest
termination_by cursor.length
decreasing_by all_goals exact rest_length_lt _h

def fs_core_normalize_path (cwd path : List UInt8) (out_cap : Nat) : Except FsErr (List UInt8) :=
  if path = [] ∨ out_cap < 2 then .error .INVALID
  else
    let start : List UInt8 × List UInt8 :=
      if path.head? = some SLASH then ([], path.dropWhile (· = SLASH))
      else (fs_copy_name FS_PATH_CAP (if cwd = [] then [SLASH] else cwd), path)
    match normalizeLoop start.1 start.2 with
    | .error rc => .error rc
    | .ok temp =>
      if temp = [] then .ok [SLASH]
      else if temp.length + 1 > out_cap then .error .INVALID
      else .ok (fs_copy_name out_cap temp)

def fs_parent_path (path : List UInt8) (cap : Nat) : Except FsErr (List UInt8) :=
  if cap < 2 ∨ path.head? ≠ some SLASH then .error .INVALID
  else if path.length ≤ 1 then .ok [SLASH]
  else
    let cut := scanBack path path.length
    if cut ≤ 1 then .ok [SLASH]
    else if cut - 1 + 1 > cap then .error .NO_SPACE
    else .ok (path.take (cut - 1))

/-! ## Symbolic links -/

/-- `S1SYMLINK:` -/
def FS_SYMLINK_PREFIX : List UInt8 :=
  [0x53, 0x31, 0x53, 0x59, 0x4D, 0x4C, 0x49, 0x4E, 0x4B, 0x3A]

def FS_SYMLINK_PREFIX_LEN : Nat := 10
def FS_SYMLINK_MAX_DEPTH : Nat := 8

/-- `sizeof(g_symlink_buffer)`. -/
def SYMLINK_BUFFER : Nat := FS_PATH_CAP + 16

section

variable {δ τ : Type} (D : VfsDriver δ) (P : Devices τ)

/-- The target of the link at a path; the path is no link when this fails. -/
def fs_raw_readlink (s : δ) (full_path : CString) (cap : Nat) : Except FsErr (List UInt8) × δ :=
  if cap = 0 then (.error .INVALID, s)
  else
  match D.stat s full_path with
  | (.error rc, s) => (.error rc, s)
  | (.ok st, s) =>
    if st.mode &&& FS_MODE_FILE = 0 ∨ st.size ≤ FS_SYMLINK_PREFIX_LEN ∨
        st.size ≥ SYMLINK_BUFFER then (.error .INVALID, s)
    else
      match D.read_file s full_path SYMLINK_BUFFER with
      | (.error rc, s) => (.error rc, s)
      | (.ok bytes, s) =>
        if bytes.length ≤ FS_SYMLINK_PREFIX_LEN then (.error .INVALID, s)
        else if bytes.take FS_SYMLINK_PREFIX_LEN ≠ FS_SYMLINK_PREFIX then (.error .INVALID, s)
        else if bytes.length - FS_SYMLINK_PREFIX_LEN + 1 > cap then (.error .NO_SPACE, s)
        else
          (.ok ((bytes.drop FS_SYMLINK_PREFIX_LEN).takeWhile
            fun c => c ≠ 0x0A ∧ c ≠ 0x0D ∧ c ≠ 0), s)

/-- The path a link at `current` leads to. -/
def fs_follow (current target : List UInt8) : Except FsErr (List UInt8) :=
  if target.head? = some SLASH then fs_core_normalize_path [SLASH] target FS_PATH_CAP
  else
    match fs_parent_path current FS_PATH_CAP with
    | .error rc => .error rc
    | .ok parent => fs_core_normalize_path parent target FS_PATH_CAP

/-- The loop of `fs_resolve_final_symlink`, which follows at most `depth` links. -/
def fs_resolve_loop (cap : Nat) : Nat → δ → List UInt8 → Except FsErr (List UInt8) × δ
  | 0, s, _ => (.error .INVALID, s)
  | depth + 1, s, current =>
    match fs_raw_readlink D s (.cut current) FS_PATH_CAP with
    | (.error _, s) => (.ok (fs_copy_name cap current), s)
    | (.ok target, s) =>
      if target = [] then (.error .INVALID, s)
      else
        match fs_follow current target with
        | .error rc => (.error rc, s)
        | .ok current => fs_resolve_loop cap depth s current

def fs_resolve_final_symlink (s : δ) (full_path : List UInt8) (cap : Nat) :
    Except FsErr (List UInt8) × δ :=
  fs_resolve_loop D cap FS_SYMLINK_MAX_DEPTH s (fs_copy_name FS_PATH_CAP full_path)

/-- A driver that only reads where it answers a query. -/
structure VfsDriver.Quiet (D : VfsDriver δ) : Prop where
  stat : ∀ s path, (D.stat s path).2 = s
  read_file : ∀ s path cap, (D.read_file s path cap).2 = s

variable {D}

/-- A readlink through a quiet driver leaves the state alone. -/
theorem VfsDriver.Quiet.readlink (h : D.Quiet) (s : δ) (path : CString) (cap : Nat) :
    (fs_raw_readlink D s path cap).2 = s := by
  unfold fs_raw_readlink
  split
  · rfl
  have hstat := h.stat s path
  generalize D.stat s path = r at hstat
  obtain ⟨st, s1⟩ := r
  subst hstat
  cases st with
  | error rc => rfl
  | ok st =>
    dsimp only
    split
    · rfl
    have hread := h.read_file s1 path SYMLINK_BUFFER
    grind

/-- One turn of the loop, which only reads. -/
theorem VfsDriver.Quiet.resolve_succ (h : D.Quiet) (cap depth : Nat) (s : δ)
    (current : List UInt8) :
    fs_resolve_loop D cap (depth + 1) s current =
      match (fs_raw_readlink D s (.cut current) FS_PATH_CAP).1 with
      | .error _ => (.ok (fs_copy_name cap current), s)
      | .ok target =>
        if target = [] then (.error .INVALID, s)
        else
          match fs_follow current target with
          | .error rc => (.error rc, s)
          | .ok next => fs_resolve_loop D cap depth s next := by
  have hlink := h.readlink s (.cut current) FS_PATH_CAP
  grind [fs_resolve_loop]

/-- Following links changes nothing. -/
theorem VfsDriver.Quiet.resolve (h : D.Quiet) (cap depth : Nat) (s : δ) (current : List UInt8) :
    (fs_resolve_loop D cap depth s current).2 = s := by
  induction depth generalizing current with
  | zero => rfl
  | succ depth ih =>
    rw [h.resolve_succ]
    grind

end

/-! ## The pseudo filesystem -/

def PSEUDO_FD_TAG : Nat := 0x80000000

/-- `PSEUDO_IS_FD`. -/
def isPseudo (node_id : Nat) : Bool := node_id &&& PSEUDO_FD_TAG ≠ 0

/-- `/dev` and `/proc`. -/
def devPath : List UInt8 := [0x2F, 0x64, 0x65, 0x76]
def procPath : List UInt8 := [0x2F, 0x70, 0x72, 0x6F, 0x63]

/-- `null`, `zero`, `tty`, `console`, `ttyS0`, `kmsg`. -/
def dev_names : List (List UInt8) :=
  [[0x6E, 0x75, 0x6C, 0x6C], [0x7A, 0x65, 0x72, 0x6F], [0x74, 0x74, 0x79],
    [0x63, 0x6F, 0x6E, 0x73, 0x6F, 0x6C, 0x65], [0x74, 0x74, 0x79, 0x53, 0x30],
    [0x6B, 0x6D, 0x73, 0x67]]

/-- `version`, `uptime`, `meminfo`, `modules`. -/
def proc_names : List (List UInt8) :=
  [[0x76, 0x65, 0x72, 0x73, 0x69, 0x6F, 0x6E], [0x75, 0x70, 0x74, 0x69, 0x6D, 0x65],
    [0x6D, 0x65, 0x6D, 0x69, 0x6E, 0x66, 0x6F], [0x6D, 0x6F, 0x64, 0x75, 0x6C, 0x65, 0x73]]

/-- The path is the mount point or lies below it. -/
def underMount (point path : List UInt8) : Bool :=
  path.take point.length = point ∧
    (path.length = point.length ∨ path.getD point.length 0 = SLASH)

def pseudo_fs_is_path (path : List UInt8) : Bool :=
  underMount devPath path || underMount procPath path

/-- What a path names below `/dev` and `/proc`. -/
inductive PseudoEntry where
  | missing
  | directory
  | file (id : Nat)
  deriving DecidableEq, Repr

/-- `lookup`: the files of `/dev` are numbered from 0, those of `/proc` from 6. -/
def pseudo_lookup (path : List UInt8) : PseudoEntry :=
  if underMount devPath path then
    if path = devPath then .directory
    else
      match dev_names.findIdx? (· = path.drop (devPath.length + 1)) with
      | none => .missing
      | some i => .file i
  else if underMount procPath path then
    if path = procPath then .directory
    else
      match proc_names.findIdx? (· = path.drop (procPath.length + 1)) with
      | none => .missing
      | some i => .file (i + 6)
  else .missing

def pseudo_fs_open (path : List UInt8) (flags : Nat) : Except FsErr Nat :=
  match pseudo_lookup path with
  | .directory => .error .IS_DIR
  | .missing => .error .NOT_FOUND
  | .file id =>
    if id ≥ 6 ∧ flags &&& (FS_O_WRONLY ||| FS_O_CREAT ||| FS_O_TRUNC) ≠ 0 then
      .error .READ_ONLY
    else .ok (PSEUDO_FD_TAG ||| id)

def pseudo_fs_close (node_id : Nat) : Except FsErr Unit :=
  if node_id % PSEUDO_FD_TAG < 10 then .ok () else .error .INVALID

/-! ## The calls -/

section

variable {δ τ : Type} (D : VfsDriver δ) (P : Devices τ)

/-- `fs_core_get_cwd_path`: the directory of the process, or the driver's. -/
def fs_core_get_cwd_path (s : State δ τ) (cwd : List UInt8) : List UInt8 :=
  if cwd ≠ [] then cwd else D.get_cwd_path s.root

/-- The absolute path of an argument. -/
def fs_full_path (s : State δ τ) (cwd : List UInt8) (path : CString) : Except FsErr (List UInt8) :=
  fs_core_normalize_path (fs_core_get_cwd_path D s cwd) path.bytes FS_PATH_CAP

/-- A link is followed unless the open may create. -/
def fs_open_root (s : δ) (full_path : List UInt8) (flags : Nat) : Except FsErr Nat × δ :=
  if flags &&& FS_O_CREAT ≠ 0 then D.open_ s (.cut full_path) flags
  else
    match fs_resolve_final_symlink D s full_path FS_PATH_CAP with
    | (.error rc, s) => (.error rc, s)
    | (.ok resolved, s) => D.open_ s (.cut resolved) flags

def fs_core_open (s : State δ τ) (cwd : List UInt8) (path : CString) (flags : Nat) :
    Except FsErr Nat × State δ τ :=
  match fs_full_path D s cwd path with
  | .error rc => (.error rc, s)
  | .ok full_path =>
    if pseudo_fs_is_path full_path then (pseudo_fs_open full_path flags, s)
    else
      ((fs_open_root D s.root full_path flags).1,
        { s with root := (fs_open_root D s.root full_path flags).2 })

def fs_core_read (s : State δ τ) (node_id offset cap : Nat) :
    Except FsErr (List UInt8) × State δ τ :=
  if isPseudo node_id then
    ((P.pseudo_fs_read s.dev node_id offset cap).1,
      { s with dev := (P.pseudo_fs_read s.dev node_id offset cap).2 })
  else
    ((D.read s.root node_id offset cap).1, { s with root := (D.read s.root node_id offset cap).2 })

def fs_core_write (s : State δ τ) (node_id offset : Nat) (buffer : List UInt8) :
    Except FsErr Nat × State δ τ :=
  if isPseudo node_id then
    ((P.pseudo_fs_write s.dev node_id offset buffer).1,
      { s with dev := (P.pseudo_fs_write s.dev node_id offset buffer).2 })
  else
    ((D.write s.root node_id offset buffer).1,
      { s with root := (D.write s.root node_id offset buffer).2 })

def fs_core_size (s : State δ τ) (node_id : Nat) : Except FsErr Nat × State δ τ :=
  if isPseudo node_id then
    ((P.pseudo_fs_size s.dev node_id).1, { s with dev := (P.pseudo_fs_size s.dev node_id).2 })
  else ((D.size s.root node_id).1, { s with root := (D.size s.root node_id).2 })

def fs_core_close (s : State δ τ) (node_id : Nat) : Except FsErr Unit × State δ τ :=
  if isPseudo node_id then (pseudo_fs_close node_id, s)
  else ((D.close s.root node_id).1, { s with root := (D.close s.root node_id).2 })

/-- `fs_core_unlink`, `fs_core_make_dir` and `fs_core_rmdir` refuse pseudo paths and
hand the absolute path to the driver. -/
def fs_on_root (call : δ → CString → Except FsErr Unit × δ) (s : State δ τ) (cwd : List UInt8)
    (path : CString) : Except FsErr Unit × State δ τ :=
  match fs_full_path D s cwd path with
  | .error rc => (.error rc, s)
  | .ok full_path =>
    if pseudo_fs_is_path full_path then (.error .READ_ONLY, s)
    else ((call s.root (.cut full_path)).1, { s with root := (call s.root (.cut full_path)).2 })

def fs_core_unlink (s : State δ τ) (cwd : List UInt8) (path : CString) :
    Except FsErr Unit × State δ τ :=
  fs_on_root D D.unlink s cwd path

def fs_core_make_dir (s : State δ τ) (cwd : List UInt8) (path : CString) :
    Except FsErr Unit × State δ τ :=
  fs_on_root D D.make_dir s cwd path

/-- The root directory itself is refused first. -/
def fs_core_rmdir (s : State δ τ) (cwd : List UInt8) (path : CString) :
    Except FsErr Unit × State δ τ :=
  match fs_full_path D s cwd path with
  | .error rc => (.error rc, s)
  | .ok full_path =>
    if full_path = [SLASH] then (.error .INVALID, s)
    else if pseudo_fs_is_path full_path then (.error .READ_ONLY, s)
    else
      ((D.rmdir s.root (.cut full_path)).1,
        { s with root := (D.rmdir s.root (.cut full_path)).2 })

/-- What the descriptor layer stands on. -/
def ops : Fd.FsOps (State δ τ) where
  fs_core_open := fs_core_open D
  fs_core_read := fs_core_read D P
  fs_core_write := fs_core_write D P
  fs_core_size := fs_core_size D P
  fs_core_close := fs_core_close D
  tty_readline := fun s cap =>
    ((P.tty_readline s.dev cap).1, { s with dev := (P.tty_readline s.dev cap).2 })
  tty_write := fun s fd buffer => { s with dev := P.tty_write s.dev fd buffer }

end

/-! ## Node identifiers -/

theorem isPseudo_of_lt {n : Nat} (h : n < 2 ^ 31) : isPseudo n = false := by
  unfold isPseudo
  rw [show PSEUDO_FD_TAG = 2 ^ 31 from rfl, Nat.and_two_pow, Nat.testBit_lt_two_pow h]
  rfl

/-- An open of a pseudo file hands out a tagged identifier that can be closed. -/
theorem pseudo_fs_open_ok {path : List UInt8} {flags n : Nat}
    (h : pseudo_fs_open path flags = .ok n) :
    isPseudo n = true ∧ pseudo_fs_close n = .ok () := by
  have hid : ∃ id < 10, n = PSEUDO_FD_TAG ||| id := by
    unfold pseudo_fs_open at h
    cases hl : pseudo_lookup path with
    | missing => rw [hl] at h; cases h
    | directory => rw [hl] at h; cases h
    | file id =>
      rw [hl] at h
      dsimp only at h
      split at h
      · cases h
      cases h
      refine ⟨id, ?_, rfl⟩
      unfold pseudo_lookup at hl
      split at hl
      · split at hl
        · cases hl
        split at hl
        · cases hl
        next i hi =>
        cases hl
        have := (List.findIdx?_eq_some_iff_getElem.mp hi).1
        simp only [dev_names, length_cons, length_nil] at this
        omega
      split at hl
      · split at hl
        · cases hl
        split at hl
        · cases hl
        next i hi =>
        cases hl
        have := (List.findIdx?_eq_some_iff_getElem.mp hi).1
        simp only [proc_names, length_cons, length_nil] at this
        omega
      · cases hl
  obtain ⟨id, hlt, rfl⟩ := hid
  have hall : ∀ id : Fin 10, isPseudo (PSEUDO_FD_TAG ||| id.val) = true ∧
      pseudo_fs_close (PSEUDO_FD_TAG ||| id.val) = .ok () := by decide
  exact hall ⟨id, hlt⟩

end System1.Vfs
