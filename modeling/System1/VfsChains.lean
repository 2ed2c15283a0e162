/-
Links that lead to links.

`fs_resolve_final_symlink` reads the link at a path, makes its target absolute against the
directory the link is in, and starts over with the result, all in the same three buffers. What
it computes is said here without buffers and without a loop: a file that consists of the prefix
and a target is a link (`LinkAt`), a link leads one hop on (`Hops`), and resolving a path
succeeds with `q` exactly if fewer than `FS_SYMLINK_MAX_DEPTH` hops lead from it to a `q` that
is no link.

The file is what the root driver says it is, in two calls: `stat` gives its type and its size,
`read_file` its bytes. A driver is `Honest` in a state if the two speak of the same file; the
RAMFS is, in every state.
-/
import System1.VfsLinks

set_option autoImplicit false

namespace System1.Vfs

open List Posix Ramfs

/-! ## Files and links -/

section

variable {δ : Type}

/-- A path names a file that consists of `bytes`. -/
structure FileAt (D : VfsDriver δ) (s : δ) (path bytes : List UInt8) : Prop where
  stat : ∃ mode, mode &&& FS_MODE_FILE ≠ 0 ∧ (D.stat s (.cut path)).1 = .ok ⟨mode, bytes.length⟩
  read : ∀ cap, bytes.length ≤ cap → (D.read_file s (.cut path) cap).1 = .ok bytes

/-- What can be read at a path that `stat` calls a file is the file. -/
def VfsDriver.Honest (D : VfsDriver δ) (s : δ) : Prop :=
  ∀ path st cap bytes, (D.stat s (.cut path)).1 = .ok st → st.mode &&& FS_MODE_FILE ≠ 0 →
    (D.read_file s (.cut path) cap).1 = .ok bytes → FileAt D s path bytes

/-- A link: the prefix and a target. -/
def LinkAt (D : VfsDriver δ) (s : δ) (path target : List UInt8) : Prop :=
  FileAt D s path (FS_SYMLINK_PREFIX ++ target)

/-- The C0 control characters and DEL. -/
def IsControl (c : UInt8) : Prop := c < 0x20 ∨ c = 0x7F

/-- A target that a path buffer holds and that has no control characters in it. -/
structure PlainTarget (target : List UInt8) : Prop where
  pos : 1 ≤ target.length
  le : target.length ≤ 127
  printable : ∀ c ∈ target, ¬ IsControl c

/-- The directory a path is in. -/
def dirOf (path : List UInt8) : List UInt8 :=
  pathOf ((components path).filter (· ≠ [])).dropLast

/-- From `p` links lead to `q` in `n` hops. -/
inductive Hops (D : VfsDriver δ) (s : δ) : Nat → List UInt8 → List UInt8 → Prop
  | here (p : List UInt8) : Hops D s 0 p p
  | hop {n : Nat} {p target p' q : List UInt8} (hlink : LinkAt D s p target)
      (hnext : fs_core_normalize_path (dirOf p) target FS_PATH_CAP = .ok p')
      (hrest : Hops D s n p' q) : Hops D s (n + 1) p q

end

/-! ## One hop -/

/-- A spelled path splits into the components it was spelled from. -/
theorem filter_components_pathOf {cs : List (List UInt8)} (hcs : ∀ c ∈ cs, IsComp c) :
    (components (pathOf cs)).filter (· ≠ []) = cs := by
  have hself : cs.filter (· ≠ []) = cs := by
    rw [filter_eq_self]
    exact fun c hc => decide_eq_true (hcs c hc).nonempty
  by_cases hnil : cs = []
  · subst hnil
    decide
  · rw [pathOf_of_ne_nil hnil, components_joined fun c hc => (hcs c hc).noSlash,
      filter_cons_of_neg (by simp), hself]

theorem IsPath.parent_eq {path : List UInt8} (h : IsPath path) :
    fs_parent_path path FS_PATH_CAP = .ok (dirOf path) := by
  have hshort := h.short
  obtain ⟨cs, hcs, rfl⟩ := h.comps
  unfold dirOf
  rw [filter_components_pathOf hcs]
  exact parent_path_eq hcs hshort

/-- The code treats absolute targets apart, but the directory of the link does not matter to
them. -/
theorem IsPath.follow_eq {path : List UInt8} (h : IsPath path) (target : List UInt8) :
    fs_follow path target = fs_core_normalize_path (dirOf path) target FS_PATH_CAP := by
  unfold fs_follow
  split
  · next habs =>
    unfold fs_core_normalize_path
    simp [habs]
  · rw [h.parent_eq]

section

variable {δ : Type} {D : VfsDriver δ} {s : δ}

/-- What is read of a link with room for `cap` bytes. -/
theorem LinkAt.readlink (hD : D.Quiet) {path target : List UInt8} (h : LinkAt D s path target)
    (hpos : 1 ≤ target.length) (hle : target.length ≤ 133) (cap : Nat) (read : List UInt8) :
    (fs_raw_readlink D s (.cut path) cap).1 = .ok read ↔
      target.length + 1 ≤ cap ∧
        read = target.takeWhile fun c => c ≠ 0x0A ∧ c ≠ 0x0D ∧ c ≠ 0 := by
  obtain ⟨mode, hmode, hstat⟩ := h.stat
  have hlength : (FS_SYMLINK_PREFIX ++ target).length = 10 + target.length :=
    length_append
  have hdrop : (FS_SYMLINK_PREFIX ++ target).drop FS_SYMLINK_PREFIX_LEN = target :=
    drop_left' rfl
  have hread := h.read SYMLINK_BUFFER (by rw [hlength]; unfold SYMLINK_BUFFER FS_PATH_CAP; omega)
  rw [readlink_ok_iff hD]
  constructor
  · grind
  · rintro ⟨hroom, rfl⟩
    grind [FS_SYMLINK_PREFIX_LEN, SYMLINK_BUFFER, FS_PATH_CAP, take_left']

section

variable (hD : D.Quiet) (hhonest : D.Honest s)
  (hplain : ∀ path target, LinkAt D s path target → PlainTarget target)

include hD hhonest hplain

/-- Where every target is plain, a link is read exactly where there is one, and whole. -/
theorem readlink_iff_linkAt {path target : List UInt8} :
    (fs_raw_readlink D s (.cut path) FS_PATH_CAP).1 = .ok target ↔ LinkAt D s path target := by
  have hwhole : ∀ target, PlainTarget target →
      target.takeWhile (fun c => c ≠ 0x0A ∧ c ≠ 0x0D ∧ c ≠ 0) = target := by
    intro target h
    rw [takeWhile_eq_self_iff]
    intro c hc
    have hno := h.printable c hc
    rw [decide_eq_true_eq]
    refine ⟨?_, ?_, ?_⟩ <;> rintro rfl <;> exact hno (.inl (by decide))
  constructor
  · intro h
    obtain ⟨st, bytes, hstat, hshape, hread, -, htake, -, rfl⟩ := (readlink_ok_iff hD).mp h
    push Not at hshape
    have hfile := hhonest path st _ bytes hstat hshape.1 hread
    have hlink : LinkAt D s path (bytes.drop FS_SYMLINK_PREFIX_LEN) := by
      unfold LinkAt
      rwa [← htake, take_append_drop]
    rw [hwhole _ (hplain _ _ hlink)]
    exact hlink
  · intro hlink
    have htarget := hplain _ _ hlink
    have hle := htarget.le
    refine (hlink.readlink hD htarget.pos (by omega) _ _).mpr ⟨?_, (hwhole _ htarget).symm⟩
    unfold FS_PATH_CAP
    omega

/-- The loop goes `depth` hops at most, the last of which must have led out of the links. -/
theorem resolve_loop_iff {depth : Nat} {p : List UInt8} (hp : IsPath p) (q : List UInt8) :
    (fs_resolve_loop D FS_PATH_CAP depth s p).1 = .ok q ↔
      ∃ n < depth, Hops D s n p q ∧ ¬ ∃ target, LinkAt D s q target := by
  induction depth generalizing p with
  | zero =>
    constructor
    · intro h
      cases h
    · rintro ⟨n, hn, -⟩
      omega
  | succ depth ih =>
    have hiff : ∀ p target, (fs_raw_readlink D s (.cut p) FS_PATH_CAP).1 = .ok target ↔
        LinkAt D s p target := fun _ _ => readlink_iff_linkAt hD hhonest hplain
    rw [resolve_ok_iff hD hp]
    unfold NoLink
    simp only [ne_eq, hiff, hp.follow_eq]
    constructor
    · rintro (⟨hno, rfl⟩ | ⟨target, next, hlink, -, hnext, hpath, h⟩)
      · exact ⟨0, by omega, .here p, fun ⟨target, hlink⟩ => hno target hlink⟩
      · obtain ⟨n, hn, hhops, hend⟩ := (ih hpath).mp h
        exact ⟨n + 1, by omega, .hop hlink hnext hhops, hend⟩
    · rintro ⟨n, hn, hhops, hend⟩
      cases hhops with
      | here => exact .inl ⟨fun target hlink => hend ⟨target, hlink⟩, rfl⟩
      | @hop n _ target next _ hlink hnext hrest =>
        have htarget := hplain _ _ hlink
        have hpath : IsPath next := follow_isPath hp
          (fun h0 => htarget.printable 0 h0 (.inl (by decide))) (hp.follow_eq target ▸ hnext)
        exact .inr ⟨target, next, hlink, length_pos_iff.mp htarget.pos, hnext, hpath,
          (ih hpath).mpr ⟨n, by omega, hrest, hend⟩⟩

end

/-- Resolving a path follows its links: it succeeds with `q` exactly if at most
`FS_SYMLINK_MAX_DEPTH - 1` hops lead from the path to `q` and there is no link at `q`, and
fails otherwise. -/
theorem resolve_final_iff (D : VfsDriver δ) (hD : D.Quiet) (s : δ) (hhonest : D.Honest s)
    (hplain : ∀ path target, LinkAt D s path target → PlainTarget target) {p : List UInt8}
    (hp : IsPath p) :
    (∀ q, (fs_resolve_final_symlink D s p FS_PATH_CAP).1 = .ok q ↔
      ∃ n ≤ FS_SYMLINK_MAX_DEPTH - 1, Hops D s n p q ∧ ¬ ∃ target, LinkAt D s q target) ∧
    ((∃ rc, (fs_resolve_final_symlink D s p FS_PATH_CAP).1 = .error rc) ↔
      ¬ ∃ q, ∃ n ≤ FS_SYMLINK_MAX_DEPTH - 1, Hops D s n p q ∧ ¬ ∃ target, LinkAt D s q target) := by
  have hok : ∀ q, (fs_resolve_final_symlink D s p FS_PATH_CAP).1 = .ok q ↔
      ∃ n ≤ FS_SYMLINK_MAX_DEPTH - 1, Hops D s n p q ∧ ¬ ∃ target, LinkAt D s q target := by
    intro q
    unfold fs_resolve_final_symlink
    rw [hp.copy, resolve_loop_iff hD hhonest hplain hp]
    grind [FS_SYMLINK_MAX_DEPTH]
  refine ⟨hok, ?_⟩
  simp only [← hok]
  cases (fs_resolve_final_symlink D s p FS_PATH_CAP).1 with
  | error rc => simp
  | ok q => simp

end

/-! ## The RAMFS -/

/-- What the RAMFS reads at a path is a file of its own, whatever room there is for it. -/
theorem ramfs_read_file_ok {s : Ramfs.State} {path : CString} {cap : Nat} {bytes : List UInt8}
    (h : ramfs_core_read_file s path cap = .ok bytes) :
    ∃ x, fs_resolve_path s path.bytes = .ok x ∧ (s.g_nodes x).type = .FILE ∧
      bytes = bytesOf s x ∧
      ∀ cap', bytes.length ≤ cap' → ramfs_core_read_file s path cap' = .ok bytes := by
  unfold ramfs_core_read_file at h ⊢
  cases hx : fs_resolve_path s path.bytes with
  | error rc =>
    rw [hx] at h
    cases h
  | ok x =>
    rw [hx] at h
    dsimp only at h ⊢
    by_cases hfile : (s.g_nodes x).type ≠ .FILE
    · rw [if_pos hfile] at h
      cases h
    rw [if_neg hfile] at h
    by_cases hcap : cap < (s.g_nodes x).size
    · rw [if_pos hcap] at h
      cases h
    rw [if_neg hcap] at h
    have hbytes : bytes = bytesOf s x := by
      unfold bytesOf contents
      cases hdata : ramfs_node_data s x with
      | none => grind
      | some data => grind [ramfs_node_data, map_congr_left, mem_range.mp]
    grind

/-- RAMFS answers as the chain results ask of a driver. -/
theorem ramfs_honest (s : Ramfs.State) : ramfsDriver.Honest s := by
  intro path st cap bytes hstat hmode hread
  obtain ⟨x, hx, hfile, rfl, hcaps⟩ := ramfs_read_file_ok hread
  refine ⟨⟨st.mode, hmode, hstat.trans ?_⟩, hcaps⟩
  have hsize : ramfs_core_stat s (.cut path) =
      .ok ⟨if (s.g_nodes x).type = .DIR then FS_MODE_DIR else FS_MODE_FILE,
        if (s.g_nodes x).type = .FILE then (s.g_nodes x).size else 0⟩ := by
    unfold ramfs_core_stat
    rw [hx]
  have hst : st = _ := Except.ok.inj (hstat.symm.trans hsize)
  rw [hst, if_pos hfile, length_bytesOf]

instance (target : List UInt8) : Decidable (PlainTarget target) :=
  decidable_of_iff
    (1 ≤ target.length ∧ target.length ≤ 127 ∧ target.all (fun c => ¬ (c < 0x20 ∨ c = 0x7F)) = true)
    ⟨fun h => ⟨h.1, h.2.1, by simpa only [all_eq_true, decide_eq_true_eq, IsControl] using h.2.2⟩,
      fun h => ⟨h.pos, h.le,
        by simpa only [all_eq_true, decide_eq_true_eq, IsControl] using h.printable⟩⟩

/-- The name `d`, in whatever directory. -/
def relativeName : CString := .cut [0x64]

/-- An empty RAMFS, after `mkdir /d`, `ln -s d /l` and `ln -s /l /n`. -/
def chained : Ramfs.State :=
  let s : State Ramfs.State Unit := ⟨Ramfs.ramfs_core_reset_empty, ()⟩
  let s := (fs_core_make_dir ramfsDriver s [SLASH] dirName).2
  let s := (fs_core_symlink ramfsDirs s [SLASH] relativeName dirLink).2
  (fs_core_symlink ramfsDirs s [SLASH] dirLink nullLink).2.root

/-- Its files are links with plain targets. -/
theorem chained_plain (path target : List UInt8) (h : LinkAt ramfsDriver chained path target) :
    PlainTarget target := by
  have hfiles : ∀ x, (chained.g_nodes x).type = .FILE →
      PlainTarget ((bytesOf chained x).drop FS_SYMLINK_PREFIX_LEN) := by
    decide +kernel
  obtain ⟨x, -, hfile, hbytes, -⟩ := ramfs_read_file_ok (h.read _ (Nat.le_refl _))
  have htarget := hfiles x hfile
  rw [← hbytes] at htarget
  rwa [show (FS_SYMLINK_PREFIX ++ target).drop FS_SYMLINK_PREFIX_LEN = target from
    drop_left' rfl] at htarget

/-- The link `/n` leads to `/d` in two hops, the second of them relative, and there is no
link there. -/
theorem link_resolved_in_two_hops :
    Hops ramfsDriver chained 2 nullLink.bytes dirName.bytes ∧
    (fs_resolve_final_symlink ramfsDriver chained nullLink.bytes FS_PATH_CAP).1 =
      .ok dirName.bytes := by
  have hiff := @readlink_iff_linkAt _ _ _ ramfsDriver_quiet (ramfs_honest chained) chained_plain
  have hpath : IsPath nullLink.bytes := by
    refine ⟨⟨[[0x6E]], ?_, by decide⟩, by decide⟩
    intro c hc
    obtain rfl := mem_singleton.mp hc
    exact ⟨by decide, by decide, by decide, by decide, by decide, by decide⟩
  have hfirst : LinkAt ramfsDriver chained nullLink.bytes dirLink.bytes :=
    hiff.mp (by decide +kernel)
  have hsecond : LinkAt ramfsDriver chained dirLink.bytes relativeName.bytes :=
    hiff.mp (by decide +kernel)
  have hhops : Hops ramfsDriver chained 2 nullLink.bytes dirName.bytes :=
    .hop hfirst (by decide +kernel) (.hop hsecond (by decide +kernel) (.here _))
  have hend : ¬ ∃ target, LinkAt ramfsDriver chained dirName.bytes target := by
    rintro ⟨target, htarget⟩
    have hno : (fs_raw_readlink ramfsDriver chained (.cut dirName.bytes) FS_PATH_CAP).1 =
        .error .INVALID := by decide +kernel
    rw [hiff.mpr htarget] at hno
    cases hno
  refine ⟨hhops, ?_⟩
  exact ((resolve_final_iff ramfsDriver ramfsDriver_quiet chained (ramfs_honest chained)
    chained_plain hpath).1 _).mpr ⟨2, by decide, hhops, hend⟩

end System1.Vfs
