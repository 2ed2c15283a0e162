/-
A link that has been made, and what is read of it.

`fs_core_symlink` stores the prefix and the target as they are. Two functions read them back:
`fs_core_readlink` into the buffer of its caller, and `fs_resolve_final_symlink` into a path
buffer of its own. Both take a line end for the end of the target, and the second takes a link
whose target does not fit its buffer for no link at all, though the writer has room for six
bytes more. So a target comes back as it went in exactly if it has no line end in it and fits a
path buffer.
-/
import System1.VfsChains
import System1.RamfsPaths

set_option autoImplicit false

namespace System1.Vfs

open System1.Lib List Posix Ramfs

/-! ## The call -/

section

variable {δ τ : Type} (D : DirDriver δ)

def fs_core_readlink (s : State δ τ) (cwd : List UInt8) (path : CString) (cap : Nat) :
    Except FsErr (List UInt8) × State δ τ :=
  match fs_full_path D.toVfsDriver s cwd path with
  | .error rc => (.error rc, s)
  | .ok full_path =>
    ((fs_raw_readlink D.toVfsDriver s.root (.cut full_path) cap).1,
      { s with root := (fs_raw_readlink D.toVfsDriver s.root (.cut full_path) cap).2 })

end

/-- The flags a link is opened with, and what is written to it. -/
def linkFlags : Nat := FS_O_CREAT ||| FS_O_TRUNC ||| FS_O_WRONLY

def linkBytes (target : CString) : List UInt8 := FS_SYMLINK_PREFIX ++ target.bytes

/-- The arguments of `fs_core_symlink` are in order, and the link is to be at `full_path`. -/
structure LinkArgs {δ τ : Type} (D : DirDriver δ) (s : State δ τ) (cwd : List UInt8)
    (target linkpath : CString) (full_path : List UInt8) : Prop where
  target_ne : target.bytes ≠ []
  short : target.bytes.length + FS_SYMLINK_PREFIX_LEN + 1 ≤ SYMLINK_BUFFER
  full : fs_full_path D.toVfsDriver s cwd linkpath = .ok full_path

section

variable {δ τ : Type} {D : DirDriver δ} {s : State δ τ} {cwd : List UInt8}
  {target linkpath : CString}

/-- `fs_core_symlink` refuses its arguments, or fails to open the file, or writes it. -/
theorem fs_core_symlink_cases :
    ((∀ full_path, ¬ LinkArgs D s cwd target linkpath full_path) ∧
      ∃ rc, fs_core_symlink D s cwd target linkpath = (.error rc, s)) ∨
    ∃ full_path, LinkArgs D s cwd target linkpath full_path ∧
      ((∃ rc, (D.open_ s.root (.cut full_path) linkFlags).1 = .error rc ∧
        fs_core_symlink D s cwd target linkpath =
          (.error rc, { s with root := (D.open_ s.root (.cut full_path) linkFlags).2 })) ∨
      ∃ id root written root', D.open_ s.root (.cut full_path) linkFlags = (.ok id, root) ∧
        D.write root id 0 (linkBytes target) = (written, root') ∧
        (fs_core_symlink D s cwd target linkpath).2 = { s with root := (D.close root' id).2 } ∧
        ((fs_core_symlink D s cwd target linkpath).1 = .ok () ↔
          written = .ok (linkBytes target).length)) := by
  unfold fs_core_symlink
  split
  · next hargs =>
    refine .inl ⟨fun full_path h => hargs.elim h.target_ne fun hnil => ?_, _, rfl⟩
    -- an empty path has no full path
    have hfull := h.full
    grind [fs_full_path, fs_core_normalize_path]
  next hargs =>
  split
  · next hlong => exact .inl ⟨fun full_path h => absurd h.short (Nat.not_le_of_gt hlong), _, rfl⟩
  next hlong =>
  rw [not_or] at hargs
  cases hfull : fs_full_path D.toVfsDriver s cwd linkpath with
  | error rc =>
    refine .inl ⟨fun full_path h => ?_, _, rfl⟩
    rw [h.full] at hfull
    cases hfull
  | ok full_path =>
    refine .inr ⟨full_path, ⟨hargs.1, Nat.le_of_not_gt hlong, hfull⟩, ?_⟩
    dsimp only
    cases hopen : D.open_ s.root (.cut full_path) linkFlags with
    | mk opened root =>
    unfold linkFlags at hopen
    rw [hopen]
    cases opened with
    | error rc => exact .inl ⟨rc, rfl, rfl⟩
    | ok id =>
      right
      cases hwrite : D.write root id 0 (linkBytes target) with
      | mk written root' =>
      refine ⟨id, root, written, root', rfl, hwrite, ?_⟩
      unfold linkBytes at hwrite
      simp only [hwrite]
      have hlength : (linkBytes target).length =
          FS_SYMLINK_PREFIX_LEN + target.bytes.length := length_append
      grind

end

/-! ## What is in the file -/

section

variable {s : Ramfs.State} (hinv : Ramfs.Inv s)

include hinv

/-- What the RAMFS shows at the path of a file. -/
theorem ramfs_fileAt {path bytes : List UInt8} {x : Ramfs.NodeIx} (hpath : 0 ∉ path)
    (hx : fs_resolve_path s path = .ok x) (hfile : s.file x = some bytes) :
    FileAt ramfsDriver s path bytes := by
  obtain ⟨hused, htype, rfl⟩ := file_eq_some.mp hfile
  have hcut : fs_resolve_path s (CString.cut path).bytes = .ok x := by
    rw [cut_of_noNul hpath, hx]
  refine ⟨⟨FS_MODE_FILE, by decide, ?_⟩, ?_⟩
  · show ramfs_core_stat s (.cut path) = _
    unfold ramfs_core_stat
    rw [hcut, length_bytesOf]
    simp [htype]
  · intro cap hcap
    rw [length_bytesOf] at hcap
    show ramfs_core_read_file s (.cut path) cap = _
    unfold ramfs_core_read_file
    rw [hcut]
    dsimp only
    rw [if_neg (not_not.mpr htype), if_neg (by omega)]
    obtain ⟨-, -, -, hdata⟩ | ⟨-, hzero, -, hdata⟩ := ramfs_node_data_spec hinv.data hused
    · rw [hdata]
      rfl
    rw [hdata]
    unfold bytesOf
    rw [hzero]
    rfl

/-- The file that an open has truncated. -/
theorem ramfs_core_open_emptied {path : CString} {flags : Nat} {x : Ramfs.NodeIx}
    (htrunc : flags &&& FS_O_TRUNC ≠ 0)
    (hok : (ramfs_core_open s (some path) flags).1 = .ok (fs_node_id x)) :
    (ramfs_core_open s (some path) flags).2.file x = some [] := by
  obtain ⟨f, -, ⟨rc, herr, -⟩ | ⟨y, hy, -, hfile⟩⟩ := ramfs_core_open_files hinv (some path) flags
  · rw [herr] at hok
    cases hok
  · obtain rfl : x = y := fs_node_id_inj (Except.ok.inj (hok.symm.trans hy))
    rw [hfile, if_pos htrunc, Function.update_self]

/-- The file after an open that empties it and a write of all its bytes. -/
theorem ramfs_rewritten {path : CString} {flags id : Nat} (htrunc : flags &&& FS_O_TRUNC ≠ 0)
    {data : List UInt8} (hne : data ≠ []) {written : Nat}
    (hopen : (ramfs_core_open s (some path) flags).1 = .ok id)
    (hwrite : (ramfs_core_write (ramfs_core_open s (some path) flags).2 id 0 (some data)
      data.length).1 = .ok written) :
    FileAt ramfsDriver (ramfs_core_write (ramfs_core_open s (some path) flags).2 id
      0 (some data) data.length).2 path.bytes data := by
  have hinv1 := ramfs_core_open_inv hinv (some path) flags
  obtain ⟨x, rfl, hx⟩ := ramfs_core_open_resolves hinv hopen
  have hempty := ramfs_core_open_emptied hinv htrunc hopen
  apply ramfs_fileAt (ramfs_core_write_inv hinv1 _ _ _ _) path.nonul
  · rw [ramfs_core_write_paths hinv1]
    exact hx
  · obtain ⟨-, heq⟩ | ⟨-, -, heq⟩ | ⟨-, -, hfile⟩ :=
      ramfs_core_write_files hinv1 hempty 0 hne
    · rw [heq] at hwrite
      cases hwrite
    · rw [heq] at hwrite
      cases hwrite
    · rw [hfile, Function.update_self]
      simp [writeAt]

end

/-- A link that has been made is a file with the prefix and the target in it. -/
theorem symlink_linkAt {τ : Type} {s : State Ramfs.State τ} (hinv : Ramfs.Inv s.root)
    {cwd : List UInt8} (hcwd : IsPath cwd) {target linkpath : CString}
    (hok : (fs_core_symlink ramfsDirs s cwd target linkpath).1 = .ok ()) :
    ∃ full_path, IsPath full_path ∧
      (∀ s' : State Ramfs.State τ,
        fs_full_path ramfsDriver s' cwd linkpath = .ok full_path) ∧
      1 ≤ target.bytes.length ∧ target.bytes.length ≤ 133 ∧
      LinkAt ramfsDriver (fs_core_symlink ramfsDirs s cwd target linkpath).2.root full_path
        target.bytes := by
  obtain ⟨-, rc, heq⟩ | ⟨full_path, hargs, ⟨rc, -, heq⟩ |
    ⟨id, root, written, root', hopen, hwrite, hstate, hresult⟩⟩ := @fs_core_symlink_cases
      Ramfs.State τ ramfsDirs s cwd target linkpath
  · rw [heq] at hok
    cases hok
  · rw [heq] at hok
    cases hok
  have hdir : ∀ s' : State Ramfs.State τ, fs_full_path ramfsDriver s' cwd linkpath =
      fs_core_normalize_path cwd linkpath.bytes FS_PATH_CAP := by
    intro s'
    unfold fs_full_path fs_core_get_cwd_path
    rw [if_pos hcwd.ne_nil]
  have hnorm := (hdir s).symm.trans hargs.full
  have hpath : IsPath full_path := normalize_isPath hcwd linkpath.nonul hnorm
  refine ⟨full_path, hpath, fun s' => (hdir s').trans hnorm,
    length_pos_iff.mpr hargs.target_ne, ?_, ?_⟩
  · have hshort := hargs.short
    unfold SYMLINK_BUFFER FS_SYMLINK_PREFIX_LEN FS_PATH_CAP at hshort
    omega
  · rw [hstate]
    obtain rfl : written = _ := hresult.mp hok
    have hroot : (ramfs_core_open s.root (some (.cut full_path)) linkFlags).2 = root :=
      congrArg Prod.snd hopen
    have hfile := @ramfs_rewritten s.root hinv (.cut full_path) linkFlags id (by decide)
      (linkBytes target) (by simp [linkBytes, FS_SYMLINK_PREFIX]) (linkBytes target).length
      (congrArg Prod.fst hopen) (by rw [hroot]; exact congrArg Prod.fst hwrite)
    rw [hroot, cut_of_noNul hpath.noNul] at hfile
    have hroot' : (ramfs_core_write root id 0 (some (linkBytes target))
        (linkBytes target).length).2 = root' := congrArg Prod.snd hwrite
    rw [hroot'] at hfile
    exact hfile

/-! ## What comes back -/

/-- A byte that ends the target of a link for its readers. -/
def EndsLine (c : UInt8) : Prop := c = 0x0A ∨ c = 0x0D

instance (c : UInt8) : Decidable (EndsLine c) := inferInstanceAs (Decidable (_ ∨ _))

/-- The target up to its first line end; there is no NUL in it. -/
theorem takeWhile_line (target : CString) :
    target.bytes.takeWhile (fun c => c ≠ 0x0A ∧ c ≠ 0x0D ∧ c ≠ 0) = target.bytes ↔
      ∀ c ∈ target.bytes, ¬ EndsLine c := by
  rw [takeWhile_eq_self_iff]
  apply forall_congr'
  intro c
  apply imp_congr_right
  intro hc
  have h0 : c ≠ 0 := fun h => target.nonul (h ▸ hc)
  unfold EndsLine
  rw [decide_eq_true_eq]
  tauto

section

variable {δ : Type} {D : VfsDriver δ} {s : δ}

/-- Where the first link can be read, resolving goes on from where it leads. -/
theorem resolve_first (hD : D.Quiet) {path target : List UInt8} (hpath : IsPath path)
    (hread : (fs_raw_readlink D s (.cut path) FS_PATH_CAP).1 = .ok target) (hne : target ≠ []) :
    (fs_resolve_final_symlink D s path FS_PATH_CAP).1 =
      (fs_core_normalize_path (dirOf path) target FS_PATH_CAP).bind fun next =>
        (fs_resolve_loop D FS_PATH_CAP (FS_SYMLINK_MAX_DEPTH - 1) s next).1 := by
  unfold fs_resolve_final_symlink FS_SYMLINK_MAX_DEPTH
  rw [hD.resolve_succ, hpath.copy, ← hpath.follow_eq, hread]
  dsimp only
  rw [if_neg hne]
  cases fs_follow path target with
  | error rc => rfl
  | ok next => rfl

end

/-- A link comes back as it was made: its target is read as it was given, and resolving its
path goes on from where the target leads and never ends at the link itself. -/
structure RoundTrip {τ : Type} (s : State Ramfs.State τ) (cwd : List UInt8)
    (target linkpath : CString) (full_path : List UInt8) : Prop where
  read : ∀ cap, target.bytes.length + 1 ≤ cap →
    (fs_core_readlink ramfsDirs s cwd linkpath cap).1 = .ok target.bytes
  followed : (fs_resolve_final_symlink ramfsDriver s.root full_path FS_PATH_CAP).1 =
    (fs_core_normalize_path (dirOf full_path) target.bytes FS_PATH_CAP).bind fun next =>
      (fs_resolve_loop ramfsDriver FS_PATH_CAP (FS_SYMLINK_MAX_DEPTH - 1) s.root next).1
  left : (fs_resolve_final_symlink ramfsDriver s.root full_path FS_PATH_CAP).1 ≠ .ok full_path

/-- A link that has been made comes back as it was made exactly if its target has no line end
in it and fits a path buffer. -/
theorem symlink_round_trip_iff {τ : Type} {s : State Ramfs.State τ} (hinv : Ramfs.Inv s.root)
    {cwd : List UInt8} (hcwd : IsPath cwd) {target linkpath : CString}
    (hok : (fs_core_symlink ramfsDirs s cwd target linkpath).1 = .ok ()) :
    ∃ full_path, fs_full_path ramfsDriver s cwd linkpath = .ok full_path ∧
      (RoundTrip (fs_core_symlink ramfsDirs s cwd target linkpath).2 cwd target linkpath full_path ↔
        (∀ c ∈ target.bytes, ¬ EndsLine c) ∧ target.bytes.length < FS_PATH_CAP) := by
  obtain ⟨full_path, hpath, hfull, hpos, hle, hlink⟩ := symlink_linkAt hinv hcwd hok
  refine ⟨full_path, hfull s, ?_⟩
  generalize (fs_core_symlink ramfsDirs s cwd target linkpath).2 = s' at hlink ⊢
  have hD := ramfsDriver_quiet
  have hread := hlink.readlink hD hpos hle
  have hcall : ∀ cap, (fs_core_readlink ramfsDirs s' cwd linkpath cap).1 =
      (fs_raw_readlink ramfsDriver s'.root (.cut full_path) cap).1 := by
    intro cap
    unfold fs_core_readlink
    rw [show fs_full_path ramfsDirs.toVfsDriver s' cwd linkpath = .ok full_path from hfull s']
    rfl
  constructor
  · intro h
    constructor
    · have hwhole := h.read 134 (by omega)
      grind [takeWhile_line]
    · by_contra hlong
      -- the path buffer is too small, and the link passes for an ordinary file
      apply h.left
      have hno : NoLink ramfsDriver s'.root full_path := by
        intro read hok'
        have := ((hread _ _).mp hok').1
        omega
      rw [resolve_noLink hD hpath hno]
  · rintro ⟨hline, hshort⟩
    have hwhole := (takeWhile_line target).mpr hline
    have hok' : ∀ cap, target.bytes.length + 1 ≤ cap →
        (fs_raw_readlink ramfsDriver s'.root (.cut full_path) cap).1 = .ok target.bytes :=
      fun cap hcap => (hread _ _).mpr ⟨hcap, hwhole.symm⟩
    refine ⟨fun cap hcap => (hcall cap).trans (hok' cap hcap),
      resolve_first hD hpath (hok' _ hshort) (length_pos_iff.mp hpos), ?_⟩
    intro hsame
    unfold fs_resolve_final_symlink at hsame
    rw [hpath.copy] at hsame
    exact (resolve_end hD hpath hsame).2 _ (hok' _ hshort)

/-- A RAMFS in which nothing has been made yet. -/
def bareRoot : State Ramfs.State Unit := ⟨ramfs_core_reset_empty, ()⟩

/-- The link `/l` to `/d`. -/
theorem dirLink_round_trip :
    (fs_core_symlink ramfsDirs bareRoot [SLASH] dirName dirLink).1 = .ok () ∧
    ∃ full_path, fs_full_path ramfsDriver bareRoot [SLASH] dirLink = .ok full_path ∧
      RoundTrip (fs_core_symlink ramfsDirs bareRoot [SLASH] dirName dirLink).2
        [SLASH] dirName dirLink
        full_path := by
  have hok : (fs_core_symlink ramfsDirs bareRoot [SLASH] dirName dirLink).1 = .ok () := by
    decide +kernel
  obtain ⟨full_path, hfull, hiff⟩ :=
    symlink_round_trip_iff (s := bareRoot) reset_inv isPath_root hok
  exact ⟨hok, full_path, hfull, hiff.mpr ⟨by decide +kernel, by decide⟩⟩

/-- A target of two lines, and one of 128 bytes. -/
def twoLines : CString := .cut [0x61, 0x0A, 0x62]
def longTarget : CString := .cut (List.replicate 128 0x61)

/-- The first comes back without its second line. The second makes a link that resolves to
itself. -/
theorem links_not_as_made :
    (fs_core_symlink ramfsDirs bareRoot [SLASH] twoLines dirLink).1 = .ok () ∧
    (fs_core_readlink ramfsDirs (fs_core_symlink ramfsDirs bareRoot [SLASH] twoLines dirLink).2
      [SLASH] dirLink FS_PATH_CAP).1 = .ok [0x61] ∧
    (fs_core_symlink ramfsDirs bareRoot [SLASH] longTarget dirLink).1 = .ok () ∧
    (fs_resolve_final_symlink ramfsDriver
      (fs_core_symlink ramfsDirs bareRoot [SLASH] longTarget dirLink).2.root dirLink.bytes
      FS_PATH_CAP).1 = .ok dirLink.bytes := by
  decide +kernel

end System1.Vfs
