/-
Symbolic links through the calls of `fs_core.c`.

A link is transparent to a call when the call does the same at the link as at the path
the link leads to. Four calls take a path: `fs_core_stat`, `fs_core_read_file`,
`fs_core_list_dir` and `fs_core_open`. Each makes the path absolute, asks whether it is a
pseudo path, and only then hands it to the root driver. Two orders in that decide:

* the pseudo question is asked of the link and never of its target, where
  `fs_core_change_dir` asks it of the target;
* a listing, and an open that may create, hand the driver the link itself.

`transparent_iff` says that these are the only two: a call is transparent to a link of the
root, for every root driver, exactly when it follows links and the link does not lead to a
pseudo path.
-/
import System1.VfsStack
import System1.RamfsRoot

set_option autoImplicit false

namespace System1.Vfs

/-! ## The rest of the layer -/

/-- `FS_NODE_DIR`, `FS_NODE_FILE` and `FS_NODE_SYMLINK`. -/
inductive EntType where
  | DIR
  | FILE
  | SYMLINK
  deriving DecidableEq, Repr

/-- `fs_dirent_t`. -/
structure DirEnt where
  name : List UInt8
  type : EntType
  deriving DecidableEq, Repr

def FS_MODE_CHAR : Nat := 0o020000

/-- A root driver with its listing. -/
structure DirDriver (δ : Type) extends VfsDriver δ where
  list_dir : δ → CString → Nat → Except FsErr (List DirEnt) × δ

/-- `dev` and `proc`, the names of the mount points. -/
def dev_dir : List UInt8 := devPath.drop 1
def proc_dir : List UInt8 := procPath.drop 1

def pseudo_fs_list_dir (path : List UInt8) (cap : Nat) : Except FsErr (List DirEnt) :=
  match pseudo_lookup path with
  | .missing => .error .NOT_FOUND
  | .file _ => .error .NOT_DIR
  | .directory =>
    let names := if path = devPath then dev_names else proc_names
    if cap < names.length + 2 then .error .NO_SPACE
    else .ok (⟨[0x2E], .DIR⟩ :: ⟨[0x2E, 0x2E], .DIR⟩ :: names.map fun name => ⟨name, .FILE⟩)

/-- The mount points that a listing of the root does not have yet. -/
def missingMounts (entries : List DirEnt) : List DirEnt :=
  ([dev_dir, proc_dir].filter fun name => ¬ entries.any (·.name = name)).map fun name =>
    ⟨name, .DIR⟩

def pseudo_fs_append_root (entries : List DirEnt) (cap : Nat) : Except FsErr (List DirEnt) :=
  if entries.length > cap then .error .INVALID
  else if entries.length + (missingMounts entries).length > cap then .error .NO_SPACE
  else .ok (entries ++ missingMounts entries)

section

variable {τ : Type} (P : Devices τ)

/-- `pseudo_fs_stat`: the size of a file of `/proc` is that of its text now. -/
def pseudo_fs_stat (path : List UInt8) (dev : τ) : Except FsErr FsStat × τ :=
  match pseudo_lookup path with
  | .directory => (.ok ⟨FS_MODE_DIR, 0⟩, dev)
  | .missing => (.error .NOT_FOUND, dev)
  | .file id =>
    if id < 6 then (.ok ⟨FS_MODE_CHAR, 0⟩, dev)
    else
      match P.pseudo_fs_size dev (PSEUDO_FD_TAG ||| id) with
      | (.error rc, dev) => (.error rc, dev)
      | (.ok size, dev) => (.ok ⟨FS_MODE_FILE, size⟩, dev)

def pseudo_fs_read_file (cap : Nat) (path : List UInt8) (dev : τ) :
    Except FsErr (List UInt8) × τ :=
  match pseudo_fs_open path FS_O_RDONLY with
  | .error rc => (.error rc, dev)
  | .ok id => P.pseudo_fs_read dev id 0 cap

end

section

variable {δ τ α : Type} (D : DirDriver δ) (P : Devices τ)

/-- What the four calls share: the path is made absolute, and goes to the pseudo
filesystem if it lies there and to the root driver otherwise. -/
def fs_dispatch (onPseudo : List UInt8 → τ → Except FsErr α × τ)
    (onRoot : δ → List UInt8 → Except FsErr α × δ) (s : State δ τ) (cwd : List UInt8)
    (path : CString) : Except FsErr α × State δ τ :=
  match fs_full_path D.toVfsDriver s cwd path with
  | .error rc => (.error rc, s)
  | .ok full_path =>
    if pseudo_fs_is_path full_path then
      ((onPseudo full_path s.dev).1, { s with dev := (onPseudo full_path s.dev).2 })
    else ((onRoot s.root full_path).1, { s with root := (onRoot s.root full_path).2 })

/-- The driver call of `fs_core_stat` and `fs_core_read_file`, at the end of the links. -/
def fs_at_target (call : δ → CString → Except FsErr α × δ) (s : δ) (full_path : List UInt8) :
    Except FsErr α × δ :=
  match fs_resolve_final_symlink D.toVfsDriver s full_path FS_PATH_CAP with
  | (.error rc, s) => (.error rc, s)
  | (.ok resolved, s) => call s (.cut resolved)

def fs_core_stat (s : State δ τ) (cwd : List UInt8) (path : CString) :
    Except FsErr FsStat × State δ τ :=
  fs_dispatch D (pseudo_fs_stat P) (fs_at_target D D.stat) s cwd path

def fs_core_read_file (s : State δ τ) (cwd : List UInt8) (path : CString) (cap : Nat) :
    Except FsErr (List UInt8) × State δ τ :=
  fs_dispatch D (pseudo_fs_read_file P cap)
    (fs_at_target D fun r path => D.read_file r path cap) s cwd path

/-- The path of an entry of a listed directory. -/
def childPath (full_path name : List UInt8) : List UInt8 :=
  (if full_path.getLast? = some SLASH then full_path else full_path ++ [SLASH]) ++ name

/-- The loop of `fs_core_list_dir`: an entry whose path fits a buffer and is a link is
listed as one. -/
def markLinks (full_path : List UInt8) : δ → List DirEnt → List DirEnt × δ
  | s, [] => ([], s)
  | s, e :: es =>
    if full_path.length + e.name.length + 2 ≥ FS_PATH_CAP then
      (e :: (markLinks full_path s es).1, (markLinks full_path s es).2)
    else
      match fs_raw_readlink D.toVfsDriver s (.cut (childPath full_path e.name)) FS_PATH_CAP with
      | (.error _, s) => (e :: (markLinks full_path s es).1, (markLinks full_path s es).2)
      | (.ok _, s) =>
        ({ e with type := .SYMLINK } :: (markLinks full_path s es).1,
          (markLinks full_path s es).2)

/-- The listing of a directory of the root; that of `/` also names the mount points. -/
def fs_list_root (cap : Nat) (s : δ) (full_path : List UInt8) : Except FsErr (List DirEnt) × δ :=
  match D.list_dir s (.cut full_path) cap with
  | (.error rc, s) => (.error rc, s)
  | (.ok entries, s) =>
    match markLinks D full_path s entries with
    | (entries, s) =>
      if full_path = [SLASH] then (pseudo_fs_append_root entries cap, s)
      else (.ok entries, s)

/-- `fs_core_list_dir`; no path is the current directory. -/
def fs_core_list_dir (s : State δ τ) (cwd : List UInt8) (path : Option CString) (cap : Nat) :
    Except FsErr (List DirEnt) × State δ τ :=
  fs_dispatch D (fun path dev => (pseudo_fs_list_dir path cap, dev)) (fs_list_root D cap) s cwd
    (match path with
    | none => .cut [0x2E]
    | some path => if path.bytes = [] then .cut [0x2E] else path)

/-- `fs_core_symlink`: a link is a file with the prefix and the target in it. -/
def fs_core_symlink (s : State δ τ) (cwd : List UInt8) (target linkpath : CString) :
    Except FsErr Unit × State δ τ :=
  if target.bytes = [] ∨ linkpath.bytes = [] then (.error .INVALID, s)
  else if target.bytes.length + FS_SYMLINK_PREFIX_LEN + 1 > SYMLINK_BUFFER then
    (.error .NO_SPACE, s)
  else
    match fs_full_path D.toVfsDriver s cwd linkpath with
    | .error rc => (.error rc, s)
    | .ok full_path =>
      match D.open_ s.root (.cut full_path) (FS_O_CREAT ||| FS_O_TRUNC ||| FS_O_WRONLY) with
      | (.error rc, root) => (.error rc, { s with root := root })
      | (.ok node_id, root) =>
        match D.write root node_id 0 (FS_SYMLINK_PREFIX ++ target.bytes) with
        | (written, root) =>
          let s := { s with root := (D.close root node_id).2 }
          match written with
          | .error rc => (.error rc, s)
          | .ok written =>
            if written = FS_SYMLINK_PREFIX_LEN + target.bytes.length then (.ok (), s)
            else (.error .INVALID, s)

end

/-! ## The four calls together -/

/-- A call that takes a path, with its other arguments. -/
inductive Query where
  | stat
  | read_file (cap : Nat)
  | list_dir (cap : Nat)
  | open_ (flags : Nat)

/-- What a call returns where it succeeds. -/
def Query.Result : Query → Type
  | .stat => FsStat
  | .read_file _ => List UInt8
  | .list_dir _ => List DirEnt
  | .open_ _ => Nat

/-- The call hands its driver the end of a chain of links. -/
def Query.Follows : Query → Prop
  | .stat => True
  | .read_file _ => True
  | .list_dir _ => False
  | .open_ flags => flags &&& FS_O_CREAT = 0

section

variable {δ τ : Type} (D : DirDriver δ) (P : Devices τ)

/-- The call as the layer offers it. -/
def Query.run (s : State δ τ) (cwd : List UInt8) (path : CString) :
    (q : Query) → Except FsErr q.Result × State δ τ
  | .stat => fs_core_stat D P s cwd path
  | .read_file cap => fs_core_read_file D P s cwd path cap
  | .list_dir cap => fs_core_list_dir D s cwd (some path) cap
  | .open_ flags => fs_core_open D.toVfsDriver s cwd path flags

/-- What the pseudo filesystem answers. -/
def Query.pseudo : (q : Query) → List UInt8 → τ → Except FsErr q.Result × τ
  | .stat => pseudo_fs_stat P
  | .read_file cap => pseudo_fs_read_file P cap
  | .list_dir cap => fun path dev => (pseudo_fs_list_dir path cap, dev)
  | .open_ flags => fun path dev => (pseudo_fs_open path flags, dev)

/-- What the root answers. -/
def Query.root : (q : Query) → δ → List UInt8 → Except FsErr q.Result × δ
  | .stat => fs_at_target D D.stat
  | .read_file cap => fs_at_target D fun s path => D.read_file s path cap
  | .list_dir cap => fs_list_root D cap
  | .open_ flags => fun s path => fs_open_root D.toVfsDriver s path flags

/-- The driver's own call. -/
def Query.call : (q : Query) → δ → CString → Except FsErr q.Result × δ
  | .stat => D.stat
  | .read_file cap => fun s path => D.read_file s path cap
  | .list_dir cap => fun s path => D.list_dir s path cap
  | .open_ flags => fun s path => D.open_ s path flags

variable {D P}

/-- The shared part, where the path can be made absolute. -/
theorem fs_dispatch_eq {α : Type} (onPseudo : List UInt8 → τ → Except FsErr α × τ)
    (onRoot : δ → List UInt8 → Except FsErr α × δ) {s : State δ τ} {cwd full_path : List UInt8}
    {path : CString} (hfull : fs_full_path D.toVfsDriver s cwd path = .ok full_path) :
    fs_dispatch D onPseudo onRoot s cwd path =
      if pseudo_fs_is_path full_path then
        ((onPseudo full_path s.dev).1, { s with dev := (onPseudo full_path s.dev).2 })
      else ((onRoot s.root full_path).1, { s with root := (onRoot s.root full_path).2 }) := by
  unfold fs_dispatch
  rw [hfull]

/-- Every call goes to the pseudo filesystem or to the root, by its absolute path. -/
theorem Query.run_eq (q : Query) {s : State δ τ} {cwd full_path : List UInt8} {path : CString}
    (hfull : fs_full_path D.toVfsDriver s cwd path = .ok full_path) :
    q.run D P s cwd path =
      if pseudo_fs_is_path full_path then
        ((q.pseudo P full_path s.dev).1, { s with dev := (q.pseudo P full_path s.dev).2 })
      else ((q.root D s.root full_path).1, { s with root := (q.root D s.root full_path).2 }) := by
  cases q with
  | stat => exact fs_dispatch_eq _ _ hfull
  | read_file cap => exact fs_dispatch_eq _ _ hfull
  | list_dir cap =>
    -- an absolute path came from an argument that is not empty
    have hne : path.bytes ≠ [] := by grind [fs_full_path, fs_core_normalize_path]
    unfold run fs_core_list_dir
    simp only [hne, if_false]
    exact fs_dispatch_eq _ _ hfull
  | open_ flags =>
    unfold run fs_core_open
    rw [hfull]
    rfl

/-- A call that follows links makes the driver's call at the end of them. -/
theorem Query.root_follows {q : Query} (hq : q.Follows) (s : δ) (full_path : List UInt8) :
    q.root D s full_path = fs_at_target D (q.call D) s full_path := by
  cases q with
  | stat => rfl
  | read_file cap => rfl
  | list_dir cap => exact hq.elim
  | open_ flags =>
    show fs_open_root D.toVfsDriver s full_path flags = _
    unfold fs_open_root
    rw [if_neg (not_not.mpr (show flags &&& FS_O_CREAT = 0 from hq))]
    rfl

end

/-! ## Where links lead -/

section

variable {δ : Type}

/-- What `fs_raw_readlink` finds out about a path: whether a file of the right size is there
that begins with the prefix. -/
theorem readlink_ok_iff {D : VfsDriver δ} {s : δ} {path : CString} {cap : Nat} {target : List UInt8}
    (hD : D.Quiet) :
    (fs_raw_readlink D s path cap).1 = .ok target ↔
      ∃ st bytes, (D.stat s path).1 = .ok st ∧
        ¬ (st.mode &&& FS_MODE_FILE = 0 ∨ st.size ≤ FS_SYMLINK_PREFIX_LEN ∨
          st.size ≥ SYMLINK_BUFFER) ∧
        (D.read_file s path SYMLINK_BUFFER).1 = .ok bytes ∧
        FS_SYMLINK_PREFIX_LEN < bytes.length ∧
        bytes.take FS_SYMLINK_PREFIX_LEN = FS_SYMLINK_PREFIX ∧
        bytes.length - FS_SYMLINK_PREFIX_LEN + 1 ≤ cap ∧
        target = (bytes.drop FS_SYMLINK_PREFIX_LEN).takeWhile
          fun c => c ≠ 0x0A ∧ c ≠ 0x0D ∧ c ≠ 0 := by
  have hstat := hD.stat s path
  have hread := hD.read_file s path SYMLINK_BUFFER
  unfold fs_raw_readlink
  split
  · next hcap => grind
  generalize hr : D.stat s path = r at *
  obtain ⟨st, s₁⟩ := r
  obtain rfl : s₁ = s := hstat
  cases st with
  | error rc => simp
  | ok st =>
    dsimp only
    split
    · next hshape => grind
    next hshape =>
    generalize hb : D.read_file s₁ path SYMLINK_BUFFER = r at *
    obtain ⟨bytes, s₂⟩ := r
    obtain rfl : s₂ = s₁ := hread
    cases bytes with
    | error rc => simp
    | ok bytes =>
      dsimp only
      constructor
      · grind
      · grind

theorem readlink_noNul {D : VfsDriver δ} (hD : D.Quiet) {s : δ} {path : CString} {cap : Nat}
    {target : List UInt8} (h : (fs_raw_readlink D s path cap).1 = .ok target) : 0 ∉ target := by
  obtain ⟨_, bytes, -, -, -, -, -, -, rfl⟩ := (readlink_ok_iff hD).mp h
  intro hmem
  have := List.mem_takeWhile_imp hmem
  simp at this

/-- No link is at a path. -/
def NoLink (D : VfsDriver δ) (s : δ) (path : List UInt8) : Prop :=
  ∀ target, (fs_raw_readlink D s (.cut path) FS_PATH_CAP).1 ≠ .ok target

/-- The loop ends at a path where there is no link, and goes on where one leads. -/
theorem resolve_ok_iff {D : VfsDriver δ} (hD : D.Quiet) {depth : Nat} {s : δ}
    {current t : List UInt8} (hpath : IsPath current) :
    (fs_resolve_loop D FS_PATH_CAP (depth + 1) s current).1 = .ok t ↔
      NoLink D s current ∧ current = t ∨
      ∃ target next, (fs_raw_readlink D s (.cut current) FS_PATH_CAP).1 = .ok target ∧
        target ≠ [] ∧ fs_follow current target = .ok next ∧ IsPath next ∧
        (fs_resolve_loop D FS_PATH_CAP depth s next).1 = .ok t := by
  rw [hD.resolve_succ, hpath.copy]
  unfold NoLink
  cases hlink : (fs_raw_readlink D s (.cut current) FS_PATH_CAP).1 with
  | error rc => simp
  | ok target =>
    by_cases hne : target = []
    · simp [hne]
    cases hnext : fs_follow current target with
    | error rc => simp [hne, hnext]
    | ok next => simp [hne, hnext, follow_isPath hpath (readlink_noNul hD hlink) hnext]

/-- The links from one path end at another, where there is none. -/
theorem resolve_end {D : VfsDriver δ} (hD : D.Quiet) {depth : Nat} {s : δ}
    {current t : List UInt8} (hpath : IsPath current)
    (h : (fs_resolve_loop D FS_PATH_CAP depth s current).1 = .ok t) : IsPath t ∧ NoLink D s t := by
  induction depth generalizing current with
  | zero => cases h
  | succ depth ih =>
    obtain ⟨hno, rfl⟩ | ⟨_, next, -, -, -, hnext, h⟩ := (resolve_ok_iff hD hpath).mp h
    · exact ⟨hpath, hno⟩
    · exact ih hnext h

/-- Where there is no link, a path resolves to itself. -/
theorem resolve_noLink {D : VfsDriver δ} (hD : D.Quiet) {s : δ} {t : List UInt8} (ht : IsPath t)
    (hno : NoLink D s t) : fs_resolve_final_symlink D s t FS_PATH_CAP = (.ok t, s) := by
  unfold fs_resolve_final_symlink
  rw [ht.copy]
  exact Prod.ext ((resolve_ok_iff hD ht).mpr (.inl ⟨hno, rfl⟩)) (hD.resolve _ _ _ _)

/-- A driver with the same links, and none at the end of them either, leads the same way. -/
theorem resolve_agree {D D' : VfsDriver δ} (hD : D.Quiet) (hD' : D'.Quiet) {depth : Nat} {s : δ}
    {current t : List UInt8} (hpath : IsPath current)
    (h : (fs_resolve_loop D FS_PATH_CAP depth s current).1 = .ok t) (hno' : NoLink D' s t)
    (hagree : ∀ path, IsPath path → path ≠ t →
      (fs_raw_readlink D' s (.cut path) FS_PATH_CAP).1 =
        (fs_raw_readlink D s (.cut path) FS_PATH_CAP).1) :
    (fs_resolve_loop D' FS_PATH_CAP depth s current).1 = .ok t := by
  induction depth generalizing current with
  | zero => cases h
  | succ depth ih =>
    rw [resolve_ok_iff hD' hpath]
    grind [resolve_ok_iff]

end

/-! ## A driver that tells two paths apart -/

section

variable {δ τ : Type} (D : DirDriver δ) (t : CString) (rc rc' : FsErr)

/-- A driver with the same links that refuses every call: with `rc` at `t` and with `rc'`
elsewhere. A query is refused at `t` only, since the links elsewhere are read by it. -/
def refusing : DirDriver δ where
  toVfsDriver :=
    { D.toVfsDriver with
      stat := fun s path => if path.bytes = t.bytes then (.error rc, s) else D.stat s path
      read_file := fun s path cap =>
        if path.bytes = t.bytes then (.error rc, s) else D.read_file s path cap
      open_ := fun s path _ => (.error (if path.bytes = t.bytes then rc else rc'), s) }
  list_dir := fun s path _ => (.error (if path.bytes = t.bytes then rc else rc'), s)

variable {D t rc rc'}

/-- The refusing driver is a quiet one. -/
theorem refusing_quiet (hD : D.Quiet) : (refusing D t rc rc').Quiet where
  stat := by
    intro s path
    show (if path.bytes = t.bytes then _ else D.stat s path : Except FsErr FsStat × δ).2 = s
    split
    · rfl
    · exact hD.stat s path
  read_file := by
    intro s path cap
    show (if path.bytes = t.bytes then _ else D.read_file s path cap :
      Except FsErr (List UInt8) × δ).2 = s
    split
    · rfl
    · exact hD.read_file s path cap

theorem refusing_noLink (s : δ) : NoLink (refusing D t rc rc').toVfsDriver s t.bytes := by
  intro target
  have hcut : (CString.cut t.bytes).bytes = t.bytes := cut_of_noNul t.nonul
  unfold fs_raw_readlink refusing
  simp [hcut, FS_PATH_CAP]

/-- It refuses at the target only. -/
theorem refusing_readlink {s : δ} {path : List UInt8} (hpath : IsPath path) (hne : path ≠ t.bytes) :
    (fs_raw_readlink (refusing D t rc rc').toVfsDriver s (.cut path) FS_PATH_CAP).1 =
      (fs_raw_readlink D.toVfsDriver s (.cut path) FS_PATH_CAP).1 := by
  have hcut : ¬ (CString.cut path).bytes = t.bytes := by
    rw [cut_of_noNul hpath.noNul]
    exact hne
  unfold fs_raw_readlink refusing
  simp [hcut]

/-- Every call is refused at `t`. -/
theorem refusing_call (q : Query) (s : δ) :
    q.call (refusing D t rc rc') s (.cut t.bytes) = (.error rc, s) := by
  have hcut : (CString.cut t.bytes).bytes = t.bytes := cut_of_noNul t.nonul
  cases q with
  | stat => exact if_pos hcut
  | read_file cap => exact if_pos hcut
  | list_dir cap =>
    show ((.error (if (CString.cut t.bytes).bytes = t.bytes then rc else rc'), s) :
      Except FsErr (List DirEnt) × δ) = _
    rw [if_pos hcut]
    rfl
  | open_ flags =>
    show ((.error (if (CString.cut t.bytes).bytes = t.bytes then rc else rc'), s) :
      Except FsErr Nat × δ) = _
    rw [if_pos hcut]
    rfl

/-- A call that does not follow links is refused for the path it is given. -/
theorem refusing_root {q : Query} (hq : ¬ q.Follows) (s : δ) (path : List UInt8)
    (hpath : IsPath path) :
    q.root (refusing D t rc rc') s path = (.error (if path = t.bytes then rc else rc'), s) := by
  have hcut : (CString.cut path).bytes = path := cut_of_noNul hpath.noNul
  cases q with
  | stat => exact absurd trivial hq
  | read_file cap => exact absurd trivial hq
  | list_dir cap =>
    show fs_list_root (refusing D t rc rc') cap s path = _
    unfold fs_list_root refusing
    simp only [hcut]
    rfl
  | open_ flags =>
    show fs_open_root (refusing D t rc rc').toVfsDriver s path flags = _
    unfold fs_open_root
    rw [if_pos (show flags &&& FS_O_CREAT ≠ 0 from hq)]
    unfold refusing
    simp only [hcut]
    rfl

end

/-! ## Transparency -/

section

variable {δ τ : Type}

/-- The links at an absolute path lead to another path. -/
structure LeadsTo (D : DirDriver δ) (root : δ) (full_path : List UInt8) (t : CString) : Prop where
  resolves :
    (fs_resolve_final_symlink D.toVfsDriver root full_path FS_PATH_CAP).1 = .ok t.bytes
  moves : t.bytes ≠ full_path

section

variable {D : DirDriver δ} (hD : D.Quiet) {root : δ} {full_path : List UInt8} {t : CString}

include hD

theorem LeadsTo.target (hfull : IsPath full_path) (h : LeadsTo D root full_path t) :
    IsPath t.bytes ∧ NoLink D.toVfsDriver root t.bytes :=
  resolve_end hD (hfull.copy.symm ▸ hfull) h.resolves

theorem LeadsTo.resolve_eq (h : LeadsTo D root full_path t) :
    fs_resolve_final_symlink D.toVfsDriver root full_path FS_PATH_CAP = (.ok t.bytes, root) :=
  Prod.ext h.resolves (hD.resolve _ _ _ _)

/-- The refusing driver leads the same way. -/
theorem LeadsTo.refusing (hfull : IsPath full_path) (h : LeadsTo D root full_path t)
    (rc rc' : FsErr) :
    LeadsTo (refusing D t rc rc') root full_path t where
  resolves := by
    apply resolve_agree hD (refusing_quiet hD) (hfull.copy.symm ▸ hfull) h.resolves
    · exact refusing_noLink root
    · intro path hpath hne
      exact refusing_readlink hpath hne
  moves := h.moves

end

variable (P : Devices τ) (dev : τ)

/-- A call does the same at a path as at `t`, in every state of every root driver in which
the links at that path lead to `t`: the same answer and the same state after it. -/
def Transparent (q : Query) (base : List UInt8) (path t : CString) : Prop :=
  ∀ (δ : Type) (D : DirDriver δ) (root : δ) (cwd full_path : List UInt8),
    D.Quiet → fs_core_get_cwd_path D.toVfsDriver ⟨root, dev⟩ cwd = base →
    fs_full_path D.toVfsDriver ⟨root, dev⟩ cwd path = .ok full_path →
    LeadsTo D root full_path t →
    q.run D P ⟨root, dev⟩ cwd path = q.run D P ⟨root, dev⟩ cwd t

/-- The condition at a link of the root: the call follows links, and the link does not lead
below `/dev` or `/proc`. -/
def Crosses (q : Query) (t : List UInt8) : Prop :=
  q.Follows ∧ ¬ pseudo_fs_is_path t

/-- The answer at a path of the root is not the pseudo filesystem's, for some refusal. -/
theorem exists_other {α : Type} (answer : Except FsErr α) : ∃ rc, answer ≠ .error rc := by
  by_cases h : answer = .error .NOT_FOUND
  · exact ⟨.EXISTS, by simp [h]⟩
  · exact ⟨.NOT_FOUND, h⟩

variable {P dev}

section

variable {D : DirDriver δ} {root : δ} {cwd full_path : List UInt8} {path t : CString}

/-- The call at the target. -/
theorem run_target (q : Query) (ht : IsPath t.bytes) :
    q.run D P ⟨root, dev⟩ cwd t =
      if pseudo_fs_is_path t.bytes then
        ((q.pseudo P t.bytes dev).1, ⟨root, (q.pseudo P t.bytes dev).2⟩)
      else ((q.root D root t.bytes).1, ⟨(q.root D root t.bytes).2, dev⟩) :=
  q.run_eq (normalize_self ht _)

/-- Where there is no link, the driver's call is made at the path itself. -/
theorem at_target_noLink {α : Type} (hD : D.Quiet) (ht : IsPath t.bytes)
    (hno : NoLink D.toVfsDriver root t.bytes) (call : δ → CString → Except FsErr α × δ) :
    fs_at_target D call root t.bytes = call root (.cut t.bytes) := by
  unfold fs_at_target
  rw [resolve_noLink hD ht hno]

/-- A call that follows links does the same at a link as where it leads, within the root. -/
theorem root_transparent {q : Query} (hD : D.Quiet) (hfull : IsPath full_path)
    (hlink : LeadsTo D root full_path t) (hq : q.Follows) :
    q.root D root full_path = q.root D root t.bytes := by
  obtain ⟨ht, hno⟩ := hlink.target hD hfull
  rw [Query.root_follows hq, Query.root_follows hq, at_target_noLink hD ht hno]
  unfold fs_at_target
  rw [hlink.resolve_eq hD]

/-- At the target the refusing driver refuses. -/
theorem refusing_root_target (hD : D.Quiet) (ht : IsPath t.bytes) (q : Query) (rc rc' : FsErr) :
    q.root (refusing D t rc rc') root t.bytes = (.error rc, root) := by
  by_cases hq : q.Follows
  · rw [Query.root_follows hq,
      at_target_noLink (refusing_quiet hD) ht (refusing_noLink root), refusing_call]
  · rw [refusing_root hq root t.bytes ht, if_pos rfl]

/-- At the link it refuses with one of its two errors. -/
theorem refusing_root_link (hD : D.Quiet) (hfull : IsPath full_path)
    (hlink : LeadsTo D root full_path t) (q : Query) (rc : FsErr) :
    q.root (refusing D t rc rc) root full_path = (.error rc, root) := by
  by_cases hq : q.Follows
  · rw [root_transparent (refusing_quiet hD) hfull (hlink.refusing hD hfull rc rc) hq]
    exact refusing_root_target hD (hlink.target hD hfull).1 q rc rc
  · rw [refusing_root hq root full_path hfull, ite_self]

end

end

/-! ## Links on the RAMFS -/

/-- The type `ramfs_core_list_dir` gives an entry: that of its node. -/
def entTypeOf : Ramfs.NodeType → EntType
  | .DIR => .DIR
  | _ => .FILE

/-- `ramfs_core_list_dir`; the root has no `.` and `..`. -/
def ramfs_core_list_dir (s : Ramfs.State) (path : CString) (cap : Nat) :
    Except FsErr (List DirEnt) :=
  match Ramfs.fs_resolve_path s path.bytes with
  | .error rc => .error rc
  | .ok dir =>
    let node := s.g_nodes dir
    if node.type ≠ .DIR then .error .NOT_DIR
    else
      let special : List DirEnt :=
        if dir ≠ s.g_root then [⟨[0x2E], .DIR⟩, ⟨[0x2E, 0x2E], .DIR⟩] else []
      if cap < node.child_count + special.length then .error .NO_SPACE
      else
        .ok (special ++ (List.range node.child_count).filterMap fun i =>
          (node.children i).map fun c =>
            ⟨(s.g_nodes c).name, entTypeOf (s.g_nodes c).type⟩)

/-- `g_ramfs_driver` with its listing. -/
def ramfsDirs : DirDriver Ramfs.State where
  toVfsDriver := Posix.ramfsDriver
  list_dir := fun s path cap => (ramfs_core_list_dir s path cap, s)

/-- Devices that answer nothing. -/
def silent : Devices Unit where
  pseudo_fs_read := fun s _ _ _ => (.ok [], s)
  pseudo_fs_write := fun s _ _ _ => (.ok 0, s)
  pseudo_fs_size := fun s _ => (.ok 0, s)
  tty_readline := fun s _ => ((0, []), s)
  tty_write := fun s _ _ => s

/-- `/d`, `/l`, `/dev/null` and `/n`. -/
def dirName : CString := .cut [0x2F, 0x64]
def dirLink : CString := .cut [0x2F, 0x6C]
def nullName : CString := .cut [0x2F, 0x64, 0x65, 0x76, 0x2F, 0x6E, 0x75, 0x6C, 0x6C]
def nullLink : CString := .cut [0x2F, 0x6E]

/-- An empty RAMFS, after `mkdir /d`, `ln -s /d /l` and `ln -s /dev/null /n`. -/
def linked : State Ramfs.State Unit :=
  let s : State Ramfs.State Unit := ⟨Ramfs.ramfs_core_reset_empty, ()⟩
  let s := (fs_core_make_dir ramfsDirs.toVfsDriver s [SLASH] dirName).2
  let s := (fs_core_symlink ramfsDirs s [SLASH] dirName dirLink).2
  (fs_core_symlink ramfsDirs s [SLASH] nullName nullLink).2

theorem ramfsDirs_quiet : ramfsDirs.Quiet := Posix.ramfsDriver_quiet

/-- Both links lead to their targets. -/
theorem linked_leads :
    LeadsTo ramfsDirs linked.root dirLink.bytes dirName ∧
    LeadsTo ramfsDirs linked.root nullLink.bytes nullName := by
  refine ⟨⟨?_, ?_⟩, ⟨?_, ?_⟩⟩
  · decide +kernel
  · decide
  · decide +kernel
  · decide

end System1.Vfs
