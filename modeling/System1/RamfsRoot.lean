/-
The RAMFS as the root of the filesystem layer.

`ramfsDriver` is `g_ramfs_driver`. The files of the root are named by node identifier
(`filesOf`), as the descriptor layer names them, and each call of `fs_core.c` over this
root is described by what it does to them. Following symbolic links only reads, so it
changes nothing; a pseudo file is never a file of the root.
-/
import System1.RamfsFiles
import System1.PosixRef

set_option autoImplicit false

namespace System1.Posix

open System1.Lib System1.Ramfs Function Vfs

/-- `g_ramfs_driver`. -/
def ramfsDriver : Vfs.VfsDriver Ramfs.State where
  get_cwd_path := ramfs_core_get_cwd_path
  make_dir := fun s path => ramfs_core_make_dir s (some path)
  read_file := fun s path cap => (ramfs_core_read_file s path cap, s)
  open_ := fun s path flags => ramfs_core_open s (some path) flags
  read := fun s node_id offset cap => (ramfs_core_read s node_id offset cap, s)
  write := fun s node_id offset buffer =>
    ramfs_core_write s node_id offset (some buffer) buffer.length
  size := fun s node_id => (ramfs_core_size s node_id, s)
  close := fun s node_id => (ramfs_core_close s node_id, s)
  stat := fun s path => (ramfs_core_stat s path, s)
  unlink := fun s path => ramfs_core_unlink s (some path)
  rmdir := fun s path => ramfs_core_rmdir s (some path)

/-- `fs_core.c` over the RAMFS. -/
abbrev rootOps {τ : Type} (P : Vfs.Devices τ) : Fd.FsOps (Vfs.State Ramfs.State τ) :=
  ops ramfsDriver P

/-! ## Calls on paths -/

section

variable {τ : Type}

/-- A call on a path is refused, or it is the driver's on the absolute path. -/
def OnDriver (call : Ramfs.State → CString → Except FsErr Unit × Ramfs.State)
    (s : Vfs.State Ramfs.State τ) (x : Except FsErr Unit × Vfs.State Ramfs.State τ) : Prop :=
  (∃ rc, x = (.error rc, s)) ∨ ∃ p, x = ((call s.root p).1, { s with root := (call s.root p).2 })

/-- A call on the root reaches the driver with one path, or not at all. -/
theorem fs_on_root_cases (call : Ramfs.State → CString → Except FsErr Unit × Ramfs.State)
    (s : Vfs.State Ramfs.State τ) (cwd : List UInt8) (path : CString) :
    OnDriver call s (fs_on_root ramfsDriver call s cwd path) := by
  unfold fs_on_root
  cases fs_full_path ramfsDriver s cwd path with
  | error rc => exact .inl ⟨rc, rfl⟩
  | ok full_path =>
    dsimp only
    split
    · exact .inl ⟨_, rfl⟩
    · exact .inr ⟨_, rfl⟩

/-- So does `rmdir`. -/
theorem fs_core_rmdir_cases (s : Vfs.State Ramfs.State τ) (cwd : List UInt8) (path : CString) :
    OnDriver ramfsDriver.rmdir s (fs_core_rmdir ramfsDriver s cwd path) := by
  unfold fs_core_rmdir
  cases fs_full_path ramfsDriver s cwd path with
  | error rc => exact .inl ⟨rc, rfl⟩
  | ok full_path =>
    dsimp only
    split
    · exact .inl ⟨_, rfl⟩
    split
    · exact .inl ⟨_, rfl⟩
    · exact .inr ⟨_, rfl⟩

end

/-! ## Files by identifier -/

/-- A family over the nodes, by node identifier. -/
def byId (f : NodeIx → Option (List UInt8)) (n : Nat) : Option (List UInt8) :=
  if h : 0 < n ∧ n - 1 < FS_MAX_NODES then f ⟨n - 1, h.2⟩ else none

/-- The files of a RAMFS, by node identifier. -/
def filesOf (s : Ramfs.State) : Nat → Option (List UInt8) := byId s.file

theorem byId_id (f : NodeIx → Option (List UInt8)) (x : NodeIx) : byId f (fs_node_id x) = f x := by
  unfold byId fs_node_id
  rw [dif_pos ⟨Nat.succ_pos _, x.isLt⟩]
  rfl

theorem filesOf_id (s : Ramfs.State) (x : NodeIx) : filesOf s (fs_node_id x) = s.file x :=
  byId_id s.file x

/-- Files by number instead of node. -/
theorem byId_update (f : NodeIx → Option (List UInt8)) (x : NodeIx) (v : Option (List UInt8)) :
    byId (update f x v) = update (byId f) (fs_node_id x) v := by
  funext n
  by_cases hn : n = fs_node_id x
  · subst hn
    rw [update_self, byId_id, update_self]
  rw [update_of_ne hn]
  unfold byId
  split
  · next hb =>
    rw [update_of_ne]
    rintro rfl
    apply hn
    show n = n - 1 + 1
    omega
  · rfl

theorem fs_node_id_inj {x y : NodeIx} (h : fs_node_id x = fs_node_id y) : x = y :=
  Fin.ext (Nat.succ.inj h)

theorem fs_node_id_not_pseudo (x : NodeIx) : isPseudo (fs_node_id x) = false := by
  have hx : x.val < 64 := x.isLt
  exact isPseudo_of_lt (by unfold fs_node_id; omega)

/-- A file is behind the identifier of a node. -/
theorem filesOf_isSome {s : Ramfs.State} {n : Nat} (h : (filesOf s n).isSome) :
    ∃ x b, n = fs_node_id x ∧ s.file x = some b := by
  unfold filesOf byId at h
  split at h
  · next hn =>
    obtain ⟨b, hb⟩ := Option.isSome_iff_exists.mp h
    refine ⟨⟨n - 1, hn.2⟩, b, ?_, hb⟩
    show n = n - 1 + 1
    omega
  · cases h

theorem length_filesOf_le {s : Ramfs.State} (hinv : Inv s) {n : Nat} {b : List UInt8}
    (h : filesOf s n = some b) : b.length ≤ FILE_CAP := by
  obtain ⟨x, -, rfl, -⟩ := filesOf_isSome (by rw [h]; rfl)
  rw [filesOf_id] at h
  exact length_file_le hinv h

/-! ## Links -/

theorem ramfsDriver_quiet : ramfsDriver.Quiet where
  stat := fun _ _ => rfl
  read_file := fun _ _ _ => rfl

/-! ## Opening -/

section Calls

variable {τ : Type} {s : Vfs.State Ramfs.State τ}

/-- An open of the root is an open of the driver at some path, or fails before it. -/
theorem fs_open_root_cases (s : Ramfs.State) (full_path : List UInt8) (flags : Nat) :
    (∃ rc, fs_open_root ramfsDriver s full_path flags = (.error rc, s)) ∨
    ∃ path, fs_open_root ramfsDriver s full_path flags = ramfs_core_open s (some path) flags := by
  unfold fs_open_root
  split
  · exact .inr ⟨_, rfl⟩
  have hpure := ramfsDriver_quiet.resolve FS_PATH_CAP Vfs.FS_SYMLINK_MAX_DEPTH s
    (fs_copy_name FS_PATH_CAP full_path)
  unfold fs_resolve_final_symlink
  cases hl : fs_resolve_loop ramfsDriver FS_PATH_CAP Vfs.FS_SYMLINK_MAX_DEPTH s
      (fs_copy_name FS_PATH_CAP full_path) with
  | mk resolved s1 =>
  rw [hl] at hpure
  subst hpure
  cases resolved with
  | error rc => exact .inl ⟨rc, rfl⟩
  | ok resolved => exact .inr ⟨_, rfl⟩

/-- What opening a path does to the files, and what it returns. -/
structure OpenedFiles (s s' : Vfs.State Ramfs.State τ) (opened : Except FsErr Nat) (flags : Nat)
    (created : Option Nat) : Prop where
  inv : Inv s'.root
  dev : s'.dev = s.dev
  files : filesOf s'.root = openFiles (filesOf s.root) created opened flags
  created_new : ∀ n, created = some n → filesOf s.root n = none ∧ isPseudo n = false ∧
    flags &&& FS_O_CREAT ≠ 0
  node : ∀ n, opened = .ok n →
    (isPseudo n = true ∧ pseudo_fs_close n = .ok ()) ∨
    (isPseudo n = false ∧ (filesOf s'.root n).isSome)

/-- An open that touches no file. -/
theorem OpenedFiles.failed (hinv : Inv s.root) (rc : FsErr) (flags : Nat) :
    OpenedFiles s s (.error rc) flags none :=
  ⟨hinv, rfl, rfl, fun n hn => (by cases hn), fun n hn => (by cases hn)⟩

/-- What `open` does to the files: it may make one, and may empty it. -/
theorem ramfs_core_open_openedFiles (hinv : Inv s.root) (path : CString) (flags : Nat) :
    ∃ created, OpenedFiles s { s with root := (ramfs_core_open s.root (some path) flags).2 }
      (ramfs_core_open s.root (some path) flags).1 flags created := by
  obtain ⟨f, hf, hres⟩ := ramfs_core_open_files hinv (some path) flags
  have hinv' := ramfs_core_open_inv hinv (some path) flags
  -- the created file, by identifier
  obtain ⟨created, hfiles, hnew⟩ : ∃ created : Option Nat,
      byId f = openFiles (filesOf s.root) created (.error .INVALID) flags ∧
      (∀ n, created = some n → filesOf s.root n = none ∧ isPseudo n = false ∧
        flags &&& FS_O_CREAT ≠ 0) := by
    rcases hf with rfl | ⟨hcreat, c, hc, rfl⟩
    · exact ⟨none, rfl, fun n hn => by cases hn⟩
    refine ⟨some (fs_node_id c), byId_update _ _ _, fun n hn => ?_⟩
    grind [filesOf_id, fs_node_id_not_pseudo, file_eq_none.mpr]
  refine ⟨created, ?_⟩
  rcases hres with ⟨rc, hrc, hfile⟩ | ⟨x, hok, hx, hfile⟩
  · rw [hrc]
    refine ⟨hinv', rfl, ?_, hnew, fun n hn => by cases hn⟩
    unfold filesOf
    rw [hfile]
    exact hfiles
  rw [hok]
  have hfiles' : filesOf (ramfs_core_open s.root (some path) flags).2 =
      openFiles (filesOf s.root) created (.ok (fs_node_id x)) flags := by
    unfold openFiles at hfiles ⊢
    simp only [fs_node_id_not_pseudo, true_and, filesOf, hfile] at hfiles ⊢
    split
    · rw [byId_update, hfiles]
    · exact hfiles
  refine ⟨hinv', rfl, hfiles', hnew, fun n hn => .inr ?_⟩
  cases hn
  refine ⟨fs_node_id_not_pseudo x, ?_⟩
  rw [filesOf_id, hfile]
  split
  · rw [update_self]
    rfl
  · exact hx

/-- The same through the layer above. -/
theorem fs_core_open_openedFiles (hinv : Inv s.root) (cwd : List UInt8) (path : CString)
    (flags : Nat) :
    ∃ created, OpenedFiles s (fs_core_open ramfsDriver s cwd path flags).2
      (fs_core_open ramfsDriver s cwd path flags).1 flags created := by
  unfold fs_core_open
  cases fs_full_path ramfsDriver s cwd path with
  | error rc => exact ⟨none, .failed hinv rc flags⟩
  | ok full_path =>
    dsimp only
    split
    · -- a pseudo file: the root is not involved
      refine ⟨none, hinv, rfl, ?_, fun n hn => (by cases hn), fun n hn => .inl ?_⟩
      · cases ho : pseudo_fs_open full_path flags with
        | error rc => rfl
        | ok n =>
          unfold openFiles
          simp [(pseudo_fs_open_ok ho).1]
      · exact pseudo_fs_open_ok hn
    · rcases fs_open_root_cases s.root full_path flags with ⟨rc, h⟩ | ⟨path, h⟩
      · rw [h]
        exact ⟨none, .failed hinv rc flags⟩
      · rw [h]
        exact ramfs_core_open_openedFiles hinv path flags

/-! ## Calls on a node -/

variable {P : Vfs.Devices τ}

theorem fs_core_close_pure (s : Vfs.State Ramfs.State τ) (n : Nat) :
    ((rootOps P).fs_core_close s n).2 = s := by
  show (fs_core_close ramfsDriver s n).2 = s
  unfold fs_core_close
  split <;> rfl

/-- A file or a device that can be closed. -/
def Closable (s : Ramfs.State) (n : Nat) : Prop :=
  (isPseudo n = true ∧ pseudo_fs_close n = .ok ()) ∨
    (isPseudo n = false ∧ (filesOf s n).isSome)

/-- A closable descriptor is closed. -/
theorem fs_core_close_ok {n : Nat} (h : Closable s.root n) :
    ((rootOps P).fs_core_close s n).1 = .ok () := by
  show (fs_core_close ramfsDriver s n).1 = .ok ()
  unfold fs_core_close
  rcases h with ⟨hp, hok⟩ | ⟨hp, hfile⟩
  · rw [if_pos hp]
    exact hok
  rw [if_neg (by rw [hp]; decide)]
  obtain ⟨x, b, rfl, hb⟩ := filesOf_isSome hfile
  exact ramfs_core_close_files hb

/-- The size of a node: the length of the file, or what the device says. -/
theorem fs_core_size_eq {n : Nat} (h : Closable s.root n) :
    ∃ dev, ((rootOps P).fs_core_size s n).2 = { s with dev := dev } ∧
      ((isPseudo n = true ∧ ((rootOps P).fs_core_size s n).1 =
          (P.pseudo_fs_size s.dev n).1) ∨
       ∃ b, isPseudo n = false ∧ filesOf s.root n = some b ∧
          ((rootOps P).fs_core_size s n).1 = .ok b.length) := by
  show ∃ dev, (fs_core_size ramfsDriver P s n).2 = _ ∧
    ((_ ∧ (fs_core_size ramfsDriver P s n).1 = _) ∨
      ∃ b, _ ∧ _ ∧ (fs_core_size ramfsDriver P s n).1 = _)
  unfold fs_core_size
  rcases h with ⟨hp, -⟩ | ⟨hp, hfile⟩
  · rw [if_pos hp]
    exact ⟨_, rfl, .inl ⟨hp, rfl⟩⟩
  rw [if_neg (by rw [hp]; decide)]
  obtain ⟨x, b, rfl, hb⟩ := filesOf_isSome hfile
  refine ⟨s.dev, rfl, .inr ⟨b, hp, ?_, ramfs_core_size_files hb⟩⟩
  rw [filesOf_id]
  exact hb

/-- A read of a device or of a file. -/
theorem fs_core_read_eq {n : Nat} (hinv : Inv s.root) (h : Closable s.root n) (offset cap : Nat) :
    (isPseudo n = true ∧ ∃ dev, (rootOps P).fs_core_read s n offset cap =
      ((P.pseudo_fs_read s.dev n offset cap).1, { s with dev := dev })) ∨
    (isPseudo n = false ∧ ∃ b, filesOf s.root n = some b ∧ b.length ≤ FILE_CAP ∧
      (rootOps P).fs_core_read s n offset cap = (.ok (readAt b offset cap), s)) := by
  show (_ ∧ ∃ dev, fs_core_read ramfsDriver P s n offset cap = _) ∨
    (_ ∧ ∃ b, _ ∧ _ ∧ fs_core_read ramfsDriver P s n offset cap = _)
  unfold fs_core_read
  rcases h with ⟨hp, -⟩ | ⟨hp, hfile⟩
  · rw [if_pos hp]
    exact .inl ⟨hp, _, rfl⟩
  rw [if_neg (by rw [hp]; decide)]
  obtain ⟨x, b, rfl, hb⟩ := filesOf_isSome hfile
  refine .inr ⟨hp, b, ?_, length_file_le hinv hb, ?_⟩
  · rw [filesOf_id]
    exact hb
  · rw [← ramfs_core_read_files hinv hb offset cap]
    rfl

/-- A write goes to a device, or fails and changes nothing, or replaces the range. -/
theorem fs_core_write_cases {n : Nat} (hinv : Inv s.root) (h : Closable s.root n) (offset : Nat)
    {buffer : List UInt8} (hne : buffer ≠ []) :
    (isPseudo n = true ∧ ∃ dev, (rootOps P).fs_core_write s n offset buffer =
      ((P.pseudo_fs_write s.dev n offset buffer).1, { s with dev := dev })) ∨
    (isPseudo n = false ∧ ∃ b, filesOf s.root n = some b ∧
      ((FILE_CAP < offset + buffer.length ∧
          (rootOps P).fs_core_write s n offset buffer = (.error .NO_SPACE, s)) ∨
       (offset + buffer.length ≤ FILE_CAP ∧ b = [] ∧
          (rootOps P).fs_core_write s n offset buffer = (.error .NO_SPACE, s)) ∨
       (offset + buffer.length ≤ FILE_CAP ∧ ∃ root,
          (rootOps P).fs_core_write s n offset buffer =
            (.ok buffer.length, { s with root := root }) ∧ Inv root ∧
          filesOf root = update (filesOf s.root) n (some (writeAt 0 b offset buffer))))) := by
  show (_ ∧ ∃ dev, fs_core_write ramfsDriver P s n offset buffer = _) ∨
    (_ ∧ ∃ b, _ ∧ ((_ ∧ fs_core_write ramfsDriver P s n offset buffer = _) ∨
      (_ ∧ _ ∧ fs_core_write ramfsDriver P s n offset buffer = _) ∨
      (_ ∧ ∃ root, fs_core_write ramfsDriver P s n offset buffer = _ ∧ _)))
  unfold fs_core_write
  rcases h with ⟨hp, -⟩ | ⟨hp, hfile⟩
  · rw [if_pos hp]
    exact .inl ⟨hp, _, rfl⟩
  rw [if_neg (by rw [hp]; decide)]
  obtain ⟨x, b, rfl, hb⟩ := filesOf_isSome hfile
  refine .inr ⟨hp, b, by rw [filesOf_id]; exact hb, ?_⟩
  have hinv' := ramfs_core_write_inv hinv (fs_node_id x) offset (some buffer) buffer.length
  have hcases := ramfs_core_write_files hinv hb offset hne
  show (_ ∧ ((ramfs_core_write s.root (fs_node_id x) offset (some buffer) buffer.length).1,
    ({ s with root := (ramfs_core_write s.root (fs_node_id x) offset (some buffer)
      buffer.length).2 } : Vfs.State Ramfs.State τ)) = _) ∨ _
  rcases hcases with ⟨hbig, heq⟩ | ⟨hfit, hempty, heq⟩ | ⟨hfit, hok, hfiles⟩
  · rw [heq]
    exact .inl ⟨hbig, rfl⟩
  · refine .inr (.inl ⟨hfit, hempty, ?_⟩)
    show ((ramfs_core_write s.root (fs_node_id x) offset (some buffer) buffer.length).1,
      ({ s with root := (ramfs_core_write s.root (fs_node_id x) offset (some buffer)
        buffer.length).2 } : Vfs.State Ramfs.State τ)) = _
    rw [heq]
  · refine .inr (.inr ⟨hfit, _, Prod.ext hok rfl, hinv', ?_⟩)
    show byId _ = _
    rw [show (ramfsDriver.write s.root (fs_node_id x) offset buffer).2.file = _ from hfiles]
    exact byId_update _ _ _

end Calls

end System1.Posix
