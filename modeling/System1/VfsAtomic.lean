/-
What a failed call leaves of a RAMFS.

Six calls of the filesystem layer can change the tree or a file. Four of them fail before
they have changed anything: the driver looks first and takes a node or a slot last. The
other two are put together from steps that succeed or fail one by one. An open makes the
missing file and only then looks at the access mode, so truncating without write access is
refused with the file already there. A link is an open that makes the file and a write that
needs a data slot; when the four slots are taken the write fails, and nobody takes the empty
file away again.

`Mutation.Leaves` is these two cases, as a condition on the state before the call. Outside
of them a failed call is atomic (`failed_atomic_iff`), and in both of them it is not.
-/
import System1.VfsSymlinks

set_option autoImplicit false

namespace System1.Ramfs

/-! ## The same files -/

/-- The same tree (which nodes, their names, types, parents and children), and the same
bytes in every file. -/
structure SameFiles (s s' : State) : Prop where
  tree : TreeSame s s'
  files : s'.file = s.file

theorem SameFiles.refl (s : State) : SameFiles s s := ⟨(SameUsed.refl s).treeSame, rfl⟩

variable {s' : State}

theorem SameUsed.sameFiles {s : State} (h : SameUsed s s') : SameFiles s s' :=
  ⟨h.treeSame, h.file⟩

section

variable {α : Type} {r : Except FsErr α × State} {s : State}

theorem SameFiles.of_eq {rc : Except FsErr α} (h : r = (rc, s)) : SameFiles s r.2 := by
  rw [h]
  exact .refl s

/-- A call fails and keeps the files, it fails and does not, or it succeeds. -/
def Outcome (keeps leaves : Prop) (s : State) (r : Except FsErr α × State) : Prop :=
  (keeps ∧ ∃ rc, r.1 = .error rc ∧ SameFiles s r.2) ∨
  (leaves ∧ ∃ rc, r.1 = .error rc ∧ ¬ SameFiles s r.2) ∨
  (¬ leaves ∧ ∃ id, r.1 = .ok id)

end

variable {c : NodeIx}

/-- A tree with a node more is not the same. -/
theorem not_sameFiles {s : State} (hc : ¬ s.Used c) (hc' : s'.Used c) :
    ¬ SameFiles s s' :=
  fun h => hc ((h.tree.used c).mp hc')

/-! ## An open that fails -/

/-- The path names nothing, and a file can be made for it. -/
def Makes (s : State) (path : List UInt8) : Prop :=
  fs_resolve_path s path = .error .NOT_FOUND ∧ CanCreate s path

/-- The flags ask for a new file and for its truncation, but not for write access. -/
def BadMode (flags : Nat) : Prop :=
  flags &&& FS_O_CREAT ≠ 0 ∧ flags &&& FS_O_TRUNC ≠ 0 ∧ flags &&& FS_O_WRONLY = 0

instance (flags : Nat) : Decidable (BadMode flags) := inferInstanceAs (Decidable (_ ∧ _ ∧ _))

variable {s1 : State} {path : List UInt8}

section

variable {s : State} {x : NodeIx}

/-- A file is refused exactly if it is to be truncated without write access. -/
theorem ramfs_open_node_file (hfile : (s.g_nodes x).type = .FILE) (flags : Nat) :
    (flags &&& FS_O_TRUNC ≠ 0 ∧ flags &&& FS_O_WRONLY = 0 ∧
      ramfs_open_node s x flags = (.error .INVALID, s)) ∨
    (¬ (flags &&& FS_O_TRUNC ≠ 0 ∧ flags &&& FS_O_WRONLY = 0) ∧
      (ramfs_open_node s x flags).1 = .ok (fs_node_id x)) := by grind [ramfs_open_node]

theorem Made.not_sameFiles (h : Made s s1 path c) :
    ¬ SameFiles s s1 := by
  obtain ⟨d, name, hcr⟩ := h.created
  exact Ramfs.not_sameFiles hcr.fresh ((hcr.used_iff c).mpr (.inr rfl))

theorem Made.used (h : Made s s1 path c) :
    s1.Used c := by
  obtain ⟨d, name, hcr⟩ := h.created
  exact (hcr.used_iff c).mpr (.inr rfl)

theorem Made.file (h : Made s s1 path c) :
    (s1.g_nodes c).type = .FILE := by
  obtain ⟨d, name, hcr⟩ := h.created
  rw [hcr.node]

/-- An open fails and leaves the files as they were, or it fails with the file made, or it
succeeds. -/
theorem ramfs_core_open_outcome (hinv : Inv s) (path : CString) (flags : Nat) :
    Outcome (¬ (Makes s path.bytes ∧ flags &&& FS_O_CREAT ≠ 0)) (Makes s path.bytes ∧ BadMode flags)
      s (ramfs_core_open s (some path) flags) := by
  obtain ⟨x, hx, heq⟩ | ⟨hunable, rc, herr, hsame⟩ | ⟨hcreat, s1, c, hmade, heq⟩ :=
    ramfs_core_open_cases hinv path flags
  · -- the path names a node, so nothing is made
    have hno : ¬ Makes s path.bytes := by
      rintro ⟨hmissing, -⟩
      rw [hx] at hmissing
      cases hmissing
    obtain ⟨rc, hfail⟩ | ⟨-, hok, -⟩ :=
      ramfs_open_node_spec (fs_resolve_path_used hinv.tree hx) flags
    · rw [heq, hfail]
      exact .inl ⟨fun h => hno h.1, rc, rfl, SameFiles.refl s⟩
    · rw [heq]
      exact .inr (.inr ⟨fun h => hno h.1, _, hok⟩)
  · exact .inl ⟨fun h => hunable ⟨h.1.1, h.2, h.1.2⟩, rc, herr, hsame.sameFiles⟩
  · rw [heq]
    obtain ⟨htrunc, hmode, hfail⟩ | ⟨hfine, hok⟩ := ramfs_open_node_file hmade.file flags
    · rw [hfail]
      exact .inr (.inl ⟨⟨⟨hmade.missing, hmade.able⟩, hcreat, htrunc, hmode⟩, _, rfl,
        hmade.not_sameFiles⟩)
    · exact .inr (.inr ⟨fun h => hfine ⟨h.2.2.1, h.2.2.2⟩, _, hok⟩)

/-! ## A file that is made and then written -/

/-- Truncating gives the slot back; a file of no bytes loses nothing by it. -/
theorem FileChanged.starved_or (h : FileChanged s s' x RAMFS_NO_DATA_SLOT 0) (hinv : Inv s) :
    (¬ Starved s' x) ∨ SameFiles s s' := by
  by_cases hslot : (s.g_nodes x).data_slot < RAMFS_DATA_SLOT_CAP
  · left
    rintro ⟨-, hall⟩
    have hgone := h.miss _ hslot (fun heq => no_slot_not_lt (heq ▸ hslot))
    rw [if_pos rfl] at hgone
    have hused := hall _ hslot
    rw [hgone] at hused
    cases hused
  right
  have hzero : (s.g_nodes x).size = 0 := by
    by_contra hpos
    exact hslot (hinv.data.size_pos x h.used (by omega))
  refine ⟨h.treeSame, funext fun n => ?_⟩
  by_cases hn : n = x
  · subst hn
    have hnil : ∀ t : State, (t.g_nodes n).size = 0 → bytesOf t n = [] := fun t ht =>
      List.eq_nil_of_length_eq_zero ((length_bytesOf t n).trans ht)
    rw [h.file_self, file_eq_some.mpr ⟨h.used, h.file, rfl⟩, hnil s hzero,
      hnil s' (by rw [h.node])]
  · exact h.file_other hinv.data hn

/-- An open that truncates and a write behind it: the write is starved only of a file that
was made just now. -/
theorem rewrite_starved (hinv : Inv s) {path : CString} {flags : Nat}
    (htrunc : flags &&& FS_O_TRUNC ≠ 0) {x : NodeIx}
    (hok : (ramfs_core_open s (some path) flags).1 = .ok (fs_node_id x)) :
    (¬ (Makes s path.bytes ∧ SlotsFull s) ∧
      (¬ Starved (ramfs_core_open s (some path) flags).2 x ∨
        SameFiles s (ramfs_core_open s (some path) flags).2)) ∨
    ((Makes s path.bytes ∧ SlotsFull s) ∧
      Starved (ramfs_core_open s (some path) flags).2 x ∧
        ¬ SameFiles s (ramfs_core_open s (some path) flags).2) := by
  have hnode : ∀ (t : State) (y : NodeIx), t.Used y →
      (ramfs_open_node t y flags).1 = .ok (fs_node_id x) →
      y = x ∧ FileChanged t (ramfs_open_node t y flags).2 y RAMFS_NO_DATA_SLOT 0 := by
    intro t y hy hopen
    obtain ⟨rc, herr⟩ | ⟨-, hid, ⟨hno, -⟩ | ⟨-, hch⟩⟩ := ramfs_open_node_spec hy flags
    · rw [herr] at hopen
      cases hopen
    · exact absurd hno htrunc
    · exact ⟨Posix.fs_node_id_inj (Except.ok.inj (hid.symm.trans hopen)), hch⟩
  obtain ⟨y, hy, heq⟩ | ⟨-, rc, herr, -⟩ | ⟨-, s1, c, hmade, heq⟩ :=
    ramfs_core_open_cases hinv path flags
  · have hused := fs_resolve_path_used hinv.tree hy
    rw [heq] at hok
    obtain ⟨rfl, hch⟩ := hnode s y hused hok
    rw [heq]
    refine .inl ⟨?_, hch.starved_or hinv⟩
    rintro ⟨⟨hmissing, -⟩, -⟩
    rw [hy] at hmissing
    cases hmissing
  · rw [herr] at hok
    cases hok
  rw [heq] at hok
  obtain ⟨rfl, hch⟩ := hnode s1 c hmade.used hok
  rw [heq]
  obtain ⟨d, name, hcr⟩ := hmade.created
  -- the new file has no slot, so the slots are those from before
  have hslots : ∀ k < RAMFS_DATA_SLOT_CAP,
      ((ramfs_open_node s1 c flags).2.g_data_slots k).used = (s.g_data_slots k).used := by
    intro k hk
    have hnone : (s1.g_nodes c).data_slot = RAMFS_NO_DATA_SLOT := by rw [hcr.node]
    have hk' : k ≠ RAMFS_NO_DATA_SLOT := fun h => no_slot_not_lt (h ▸ hk)
    rw [hch.miss k hk hk', hnone, if_neg hk', hcr.slots]
  have hused : (ramfs_open_node s1 c flags).2.Used c := (hch.treeSame.used c).mpr hmade.used
  have hnew := not_sameFiles hcr.fresh hused
  by_cases hfull : SlotsFull s
  · refine .inr ⟨⟨⟨hmade.missing, hmade.able⟩, hfull⟩, ⟨by rw [hch.node], ?_⟩, hnew⟩
    exact fun k hk => (hslots k hk).trans (hfull k hk)
  · refine .inl ⟨fun h => hfull h.2, .inl fun hstarved => hfull fun k hk => ?_⟩
    exact (hslots k hk).symm.trans (hstarved.2 k hk)

end

end System1.Ramfs

namespace System1.Vfs

open Ramfs

/-! ## The calls -/

/-- A call that can change the tree or a file, with its arguments. -/
inductive Mutation where
  | make_dir (path : CString)
  | «open» (path : CString) (flags : Nat)
  | write (node_id offset : Nat) (buffer : List UInt8)
  | unlink (path : CString)
  | rmdir (path : CString)
  | symlink (target linkpath : CString)

section

variable {τ : Type} (P : Devices τ) (s : State Ramfs.State τ) (cwd : List UInt8)

/-- The call on a RAMFS: whether it fails, and what it leaves. -/
def Mutation.run : Mutation → Except FsErr Unit × State Ramfs.State τ
  | .make_dir path => fs_core_make_dir Posix.ramfsDriver s cwd path
  | .open path flags =>
    ((fs_core_open Posix.ramfsDriver s cwd path flags).1.map fun _ => (),
      (fs_core_open Posix.ramfsDriver s cwd path flags).2)
  | .write node_id offset buffer =>
    ((fs_core_write Posix.ramfsDriver P s node_id offset buffer).1.map fun _ => (),
      (fs_core_write Posix.ramfsDriver P s node_id offset buffer).2)
  | .unlink path => fs_core_unlink Posix.ramfsDriver s cwd path
  | .rmdir path => fs_core_rmdir Posix.ramfsDriver s cwd path
  | .symlink target linkpath => fs_core_symlink ramfsDirs s cwd target linkpath

/-- The call fails with a new file left behind: an open that may make the file but not
truncate it, or a link for which a node is left but no data slot. -/
def Mutation.Leaves : Mutation → Prop
  | .open path flags => ∃ full_path, fs_full_path Posix.ramfsDriver s cwd path = .ok full_path ∧
      pseudo_fs_is_path full_path = false ∧
      Makes s.root (CString.cut full_path).bytes ∧ BadMode flags
  | .symlink target linkpath => ∃ full_path, LinkArgs ramfsDirs s cwd target linkpath full_path ∧
      Makes s.root (CString.cut full_path).bytes ∧ SlotsFull s.root
  | _ => False

/-- A failed call has changed no file. -/
def Mutation.Atomic (call : Mutation) : Prop :=
  ∀ rc, (call.run P s cwd).1 = .error rc → SameFiles s.root (call.run P s cwd).2.root

end

section

variable {τ : Type} {P : Devices τ} {s : State Ramfs.State τ} {cwd : List UInt8}

/-- A call that goes to the driver keeps what the driver keeps. -/
theorem onDriver_atomic {call : Ramfs.State → CString → Except FsErr Unit × Ramfs.State}
    {x : Except FsErr Unit × State Ramfs.State τ} (h : Posix.OnDriver call s x)
    (hcall : ∀ path, SameFiles s.root (call s.root path).2 ∨ (call s.root path).1 = .ok ())
    (rc : FsErr) (herr : x.1 = .error rc) : SameFiles s.root x.2.root := by
  obtain ⟨_, rfl⟩ | ⟨path, rfl⟩ := h
  · exact .refl s.root
  · exact (hcall path).resolve_right fun hok => nomatch hok.symm.trans herr

theorem make_dir_atomic (hinv : Inv s.root) (path : CString) :
    (Mutation.make_dir path).Atomic P s cwd := by
  refine onDriver_atomic (Posix.fs_on_root_cases _ s cwd path) fun path => ?_
  obtain ⟨_, -, hsame⟩ | ⟨hok, -⟩ := ramfs_core_make_dir_spec hinv (some path)
  · exact .inl hsame.sameFiles
  · exact .inr hok

theorem unlink_atomic (hinv : Inv s.root) (path : CString) :
    (Mutation.unlink path).Atomic P s cwd := by
  refine onDriver_atomic (Posix.fs_on_root_cases _ s cwd path) fun path => ?_
  obtain ⟨_, heq⟩ | ⟨hok, -⟩ := ramfs_core_unlink_spec hinv (some path)
  · exact .inl (.of_eq heq)
  · exact .inr hok

theorem rmdir_atomic (hinv : Inv s.root) (path : CString) :
    (Mutation.rmdir path).Atomic P s cwd := by
  refine onDriver_atomic (Posix.fs_core_rmdir_cases s cwd path) fun path => ?_
  obtain ⟨_, heq⟩ | ⟨hok, -⟩ := ramfs_core_rmdir_spec hinv (some path)
  · exact .inl (.of_eq heq)
  · exact .inr hok

/-- A write that fails has stored nothing. -/
theorem write_atomic (hinv : Inv s.root) (node_id offset : Nat) (buffer : List UInt8) :
    (Mutation.write node_id offset buffer).Atomic P s cwd := by
  intro rc herr
  simp only [Mutation.run, fs_core_write] at herr ⊢
  by_cases hpseudo : isPseudo node_id = true
  · simp only [if_pos hpseudo]
    exact SameFiles.refl s.root
  simp only [if_neg hpseudo] at herr ⊢
  show SameFiles s.root (ramfs_core_write s.root node_id offset (some buffer) buffer.length).2
  obtain ⟨_, heq⟩ | ⟨-, -, heq⟩ | ⟨-, hok, -⟩ :=
    ramfs_core_write_spec hinv node_id offset (some buffer) buffer.length
  · exact .of_eq heq
  · exact .of_eq heq
  have hmap : (ramfs_core_write s.root node_id offset (some buffer) buffer.length).1.map
      (fun _ => ()) = .error rc := herr
  rw [hok] at hmap
  cases hmap

/-! ## The two calls with steps -/

/-- Without `FS_O_CREAT` the driver opens what the links lead to, and makes nothing. -/
theorem fs_open_root_outcome {root : Ramfs.State} (hinv : Inv root) (full_path : List UInt8)
    (flags : Nat) :
    Outcome (¬ (Makes root (CString.cut full_path).bytes ∧ BadMode flags))
      (Makes root (CString.cut full_path).bytes ∧ BadMode flags) root
      (fs_open_root Posix.ramfsDriver root full_path flags) := by
  unfold fs_open_root
  split
  · next hcreat =>
    obtain ⟨hno, h⟩ | h := ramfs_core_open_outcome hinv (.cut full_path) flags
    · exact .inl ⟨fun hm => hno ⟨hm.1, hcreat⟩, h⟩
    · exact .inr h
  next hcreat =>
  have hfine : ∀ path, ¬ (Makes root path ∧ BadMode flags) := fun path h => hcreat h.2.1
  have hquiet : (fs_resolve_final_symlink Posix.ramfsDriver root full_path FS_PATH_CAP).2 = root :=
    Posix.ramfsDriver_quiet.resolve _ _ _ _
  cases hres : fs_resolve_final_symlink Posix.ramfsDriver root full_path FS_PATH_CAP with
  | mk found root' =>
  obtain rfl : root' = root := by rw [hres] at hquiet; exact hquiet
  cases found with
  | error rc => exact .inl ⟨hfine _, rc, rfl, SameFiles.refl root'⟩
  | ok path =>
    obtain ⟨-, h⟩ | ⟨h, -⟩ | ⟨-, h⟩ := ramfs_core_open_outcome hinv (.cut path) flags
    · exact .inl ⟨hfine _, h⟩
    · exact absurd h (hfine _)
    · exact .inr (.inr ⟨hfine _, h⟩)

/-- An open is atomic unless it fails after the file has been made. -/
theorem open_atomic_iff (hinv : Inv s.root) (path : CString) (flags : Nat) :
    (Mutation.open path flags).Atomic P s cwd ↔ ¬ (Mutation.open path flags).Leaves s cwd := by
  unfold Mutation.Atomic
  simp only [Mutation.run, Mutation.Leaves, fs_core_open]
  cases hfull : fs_full_path Posix.ramfsDriver s cwd path with
  | error rc =>
    refine iff_of_true (fun _ _ => SameFiles.refl s.root) ?_
    rintro ⟨full_path, h, -⟩
    cases h
  | ok full_path =>
  dsimp only
  split
  · next hpseudo =>
    refine iff_of_true (fun _ _ => SameFiles.refl s.root) ?_
    grind
  next hpseudo =>
  obtain ⟨hno, rc, -, hsame⟩ | ⟨hyes, rc, herr, hnot⟩ | ⟨hno, id, hok⟩ :=
    fs_open_root_outcome hinv full_path flags
  · grind
  · refine iff_of_false (fun h => hnot (h rc ?_)) (not_not.mpr ?_)
    · rw [herr]
      rfl
    · exact ⟨full_path, rfl, Bool.of_not_eq_true hpseudo, hyes⟩
  refine iff_of_true (fun rc herr => ?_) ?_
  · rw [hok] at herr
    cases herr
  · rintro ⟨_, h, -, hleaves⟩
    cases h
    exact hno hleaves

/-- So is a link, unless no data slot is left for its target. -/
theorem symlink_atomic_iff (hinv : Inv s.root) (target linkpath : CString) :
    (Mutation.symlink target linkpath).Atomic P s cwd ↔
      ¬ (Mutation.symlink target linkpath).Leaves s cwd := by
  unfold Mutation.Atomic
  simp only [Mutation.run, Mutation.Leaves]
  obtain ⟨hargs, rc, heq⟩ | ⟨full_path, hargs, hcases⟩ :=
    @fs_core_symlink_cases Ramfs.State τ ramfsDirs s cwd target linkpath
  · rw [heq]
    refine iff_of_true (fun _ _ => SameFiles.refl s.root) ?_
    rintro ⟨full_path, h, -⟩
    exact hargs full_path h
  -- the arguments are in order, so the condition is about this one path
  have hleaves : (∃ full_path, LinkArgs ramfsDirs s cwd target linkpath full_path ∧
      Makes s.root (CString.cut full_path).bytes ∧ SlotsFull s.root) ↔
      Makes s.root (CString.cut full_path).bytes ∧ SlotsFull s.root := by
    constructor
    · rintro ⟨other, hother, h⟩
      obtain rfl : other = full_path := Except.ok.inj (hother.full.symm.trans hargs.full)
      exact h
    · exact fun h => ⟨full_path, hargs, h⟩
  rw [hleaves]
  obtain ⟨rc, herr, heq⟩ | ⟨id, root, written, root', hopen, hwrite, hstate, hresult⟩ := hcases
  · rw [heq]
    have hmode : ¬ BadMode linkFlags := by decide
    obtain ⟨hno, _, -, hsame⟩ | ⟨h, -⟩ | ⟨-, id, hok⟩ :=
      ramfs_core_open_outcome hinv (.cut full_path) linkFlags
    · exact iff_of_true (fun _ _ => hsame) fun h => hno ⟨h.1, by decide⟩
    · exact absurd h.2 hmode
    · cases hok.symm.trans herr
  have hok : (ramfs_core_open s.root (some (.cut full_path)) linkFlags).1 = .ok id :=
    congrArg Prod.fst hopen
  have hroot : (ramfs_core_open s.root (some (.cut full_path)) linkFlags).2 = root :=
    congrArg Prod.snd hopen
  have hinv1 := ramfs_core_open_inv hinv (some (.cut full_path)) linkFlags
  obtain ⟨x, rfl, hx⟩ := ramfs_core_open_resolves hinv hok
  have hempty := ramfs_core_open_emptied hinv (by decide) hok
  have hstarve := rewrite_starved hinv (by decide) hok
  rw [hroot] at hinv1 hx hempty hstarve
  obtain ⟨hused, hfile, -⟩ := file_eq_some.mp hempty
  have hne : linkBytes target ≠ [] := by simp [linkBytes, FS_SYMLINK_PREFIX]
  have hfit : 0 + (linkBytes target).length ≤ RAMFS_DATA_SLOT_SIZE := by
    have hshort := hargs.short
    unfold SYMLINK_BUFFER FS_SYMLINK_PREFIX_LEN FS_PATH_CAP at hshort
    simp only [linkBytes, List.length_append]
    have hlen : FS_SYMLINK_PREFIX.length = 10 := rfl
    unfold RAMFS_DATA_SLOT_SIZE
    omega
  have hw : ramfs_core_write root (fs_node_id x) 0 (some (linkBytes target))
      (linkBytes target).length = (written, root') := hwrite
  have hroot' : (fs_core_symlink ramfsDirs s cwd target linkpath).2.root = root' := by
    rw [hstate]
    rfl
  rw [hroot']
  obtain ⟨hstarved, heq⟩ | ⟨hfed, hdone⟩ :=
    ramfs_core_write_within hinv1 hused hfile hne hfit
  · -- the write fails and leaves what the open has left
    obtain ⟨rfl, rfl⟩ : .error .NO_SPACE = written ∧ root = root' :=
      Prod.mk.inj (heq.symm.trans hw)
    obtain ⟨hno, h⟩ | ⟨hyes, -, hnot⟩ := hstarve
    · grind
    refine iff_of_false (fun h => ?_) (not_not.mpr hyes)
    cases hres : (fs_core_symlink ramfsDirs s cwd target linkpath).1 with
    | error rc => exact hnot (h rc hres)
    | ok u => cases hresult.mp hres
  · grind

/-- A failed call is atomic exactly if it is neither of the two that leave a file behind. -/
theorem failed_atomic_iff (hinv : Inv s.root) (call : Mutation) :
    call.Atomic P s cwd ↔ ¬ call.Leaves s cwd := by
  cases call with
  | make_dir path => exact iff_of_true (make_dir_atomic hinv path) not_false
  | «open» path flags => exact open_atomic_iff hinv path flags
  | write node_id offset buffer =>
    exact iff_of_true (write_atomic hinv node_id offset buffer) not_false
  | unlink path => exact iff_of_true (unlink_atomic hinv path) not_false
  | rmdir path => exact iff_of_true (rmdir_atomic hinv path) not_false
  | symlink target linkpath => exact symlink_atomic_iff hinv target linkpath

end

/-- `/d/f`. -/
def fileName : CString := .cut [0x2F, 0x64, 0x2F, 0x66]

/-- A directory `/d` with the file `/d/f`, which holds two bytes. -/
def oneFile : State Ramfs.State Unit :=
  ⟨[Ramfs.Call.make_dir (some dirName), .open (some fileName) (FS_O_CREAT ||| FS_O_WRONLY),
    .write 3 0 (some [0x68, 0x69]) 2].foldl Ramfs.exec Ramfs.ramfs_core_reset_empty, ()⟩

def newReadOnly : Nat := FS_O_CREAT ||| FS_O_TRUNC ||| FS_O_RDONLY

/-- An open that may make the file but not truncate it fails without a trace where the file
is there. -/
theorem existing_open_atomic :
    ((Mutation.open fileName newReadOnly).run silent oneFile [SLASH]).1 = .error .INVALID ∧
    (Mutation.open fileName newReadOnly).Atomic silent oneFile [SLASH] := by
  have hfull : fs_full_path Posix.ramfsDriver oneFile [SLASH] fileName = .ok fileName.bytes := by
    decide +kernel
  have hthere : fs_resolve_path oneFile.root (CString.cut fileName.bytes).bytes ≠
      .error .NOT_FOUND := by decide +kernel
  refine ⟨by decide +kernel, (failed_atomic_iff (s := oneFile) (Ramfs.run_inv _) _).mpr ?_⟩
  rintro ⟨full_path, hfull', -, ⟨hmissing, -⟩, -⟩
  obtain rfl : fileName.bytes = full_path := Except.ok.inj (hfull.symm.trans hfull')
  exact hthere hmissing

/-- A RAMFS whose data slots are all taken, by the links `/1` to `/4`. -/
def crowded : State Ramfs.State Unit :=
  [0x31, 0x32, 0x33, 0x34].foldl
    (fun s digit => (fs_core_symlink ramfsDirs s [SLASH] dirName (.cut [0x2F, digit])).2) bareRoot

/-- Both calls fail, and both leave a node that was not there. -/
theorem file_left_behind :
    ((Mutation.open dirName newReadOnly).run silent bareRoot [SLASH]).1 = .error .INVALID ∧
    ¬ SameFiles bareRoot.root
      ((Mutation.open dirName newReadOnly).run silent bareRoot [SLASH]).2.root ∧
    ((Mutation.symlink dirName dirLink).run silent crowded [SLASH]).1 = .error .NO_SPACE ∧
    ¬ SameFiles crowded.root
      ((Mutation.symlink dirName dirLink).run silent crowded [SLASH]).2.root := by
  refine ⟨by decide +kernel, ?_, by decide +kernel, ?_⟩
  · exact not_sameFiles (c := ⟨1, by decide⟩) (by decide +kernel) (by decide +kernel)
  · exact not_sameFiles (c := ⟨5, by decide⟩) (by decide +kernel) (by decide +kernel)

end System1.Vfs
