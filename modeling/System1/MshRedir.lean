/-
Redirections of MultiShell on the descriptor table, `src/userland/smu/shell/redir.c` over
`fd_core.c`.

The shell keeps a stream it redirects by `dup`, puts the file in its place by `dup2`, and
undoes this by `dup2` from the kept descriptor once the command is done. Against the kernel
the whole of it is a statement about one table: which descriptors name which descriptions.
`Layout` says that for a state in the middle of it, with the kept streams where `saved` says
they are and at most one more descriptor open, and each system call is one edit of the
layout.

`dup2` clears the descriptor it is about to fill before it knows whether the file behind it
can be closed, and gives up when it cannot. A file that has been removed cannot be closed.
So what is needed to undo a redirection is that the file is still there (`Closable`), and a
command that removes it takes the stream with it (`removed_target_stays_closed`).
-/
import System1.Msh
import System1.PosixRuns
import Mathlib.Logic.Relation

set_option autoImplicit false

namespace System1.Msh

open System1.Lib System1.Fd Function Vfs Posix

variable {σ : Type}

/-! ## The calls of the shell -/

/-- The end of the wrappers of `unistd.c`: an error is -1. -/
def posix_result (rc : Int) : Int := if rc < 0 then -1 else rc

/-- The shell's system calls, with the ones on descriptors answered by the kernel. -/
def onKernel (ops : FsOps σ) (rest : Sys (Kernel σ)) : Sys (Kernel σ) :=
  { rest with
    open_ := fun k path flags =>
      (posix_result (fd_core_open ops k (.cut path) flags).1,
        (fd_core_open ops k (.cut path) flags).2)
    dup := fun k fd => (posix_result (fd_core_dup ops k fd).1, (fd_core_dup ops k fd).2)
    dup2 := fun k fd newfd =>
      (posix_result (fd_core_dup2 ops k fd newfd).1, (fd_core_dup2 ops k fd newfd).2)
    close := fun k fd => (fd_core_close ops k fd).2 }

/-- A call of the descriptor layer into the filesystem that the shell's own calls make. -/
inductive FsStep (ops : FsOps σ) : σ → σ → Prop
  | open_ (s : σ) (cwd : List UInt8) (path : CString) (flags : Nat) :
      FsStep ops s (ops.fs_core_open s cwd path flags).2
  | size (s : σ) (node_id : Nat) : FsStep ops s (ops.fs_core_size s node_id).2
  | close (s : σ) (node_id : Nat) : FsStep ops s (ops.fs_core_close s node_id).2

def Later (ops : FsOps σ) : σ → σ → Prop := Relation.ReflTransGen (FsStep ops)

/-- The file can be closed, now and after whatever the shell opens and closes. -/
def CanClose (ops : FsOps σ) (s : σ) (node_id : Nat) : Prop :=
  ∀ s', Later ops s s' → (ops.fs_core_close s' node_id).1 = .ok ()

theorem CanClose.later {ops : FsOps σ} {s s' : σ} {n : Nat} (h : CanClose ops s n)
    (hs : Later ops s s') : CanClose ops s' n := fun _ hs' => h _ (hs.trans hs')

/-! ## The shell's table -/

/-- The process runs, has its table, and the counts are right. -/
structure Shell (p : ProcIx) (k : Kernel σ) : Prop where
  current : k.g_current_process = p
  ready : (k.table p).initialized = true
  refs : ∃ leak, Refs leak k

/-- Description `i` is in use and is still the open file it was in `k`. -/
structure SameFile (k k' : Kernel σ) (i : DescIx) : Prop where
  used : (k'.g_descriptions i).used = true
  kind : (k'.g_descriptions i).kind = (k.g_descriptions i).kind
  node_id : (k'.g_descriptions i).node_id = (k.g_descriptions i).node_id
  flags : (k'.g_descriptions i).flags = (k.g_descriptions i).flags

variable {k k' : Kernel σ} {i : DescIx}

theorem SameFile.trans {k'' : Kernel σ} (h : SameFile k k' i) (h' : SameFile k' k'' i) :
    SameFile k k'' i :=
  ⟨h'.used, h'.kind.trans h.kind, h'.node_id.trans h.node_id, h'.flags.trans h.flags⟩

theorem sameFile_of_refs (hu : (k'.g_descriptions i).used = true)
    (h : k'.g_descriptions i = { k.g_descriptions i with refs := (k'.g_descriptions i).refs }) :
    SameFile k k' i := by
  refine ⟨hu, ?_, ?_, ?_⟩ <;> rw [h]

/-- What a call of the shell does: its table becomes `T`, the open files `T` names are the
ones they were, and the filesystem has only seen calls of the shell. -/
structure Did (ops : FsOps σ) (p : ProcIx) (k k' : Kernel σ) (T : FdIx → Option DescIx) : Prop where
  shell : Shell p k'
  tabs : k'.tabs p = T
  same : ∀ f i, T f = some i → (k.g_descriptions i).used = true → SameFile k k' i
  fs : Later ops k.fs k'.fs

variable {f g : FdIx}

section Calls

variable {ops : FsOps σ} {p : ProcIx} {k : Kernel σ}

theorem Shell.init_eq (h : Shell p k) : fd_core_init ops k = k :=
  fd_core_init_of_initialized (by rw [h.current]; exact h.ready)

theorem Shell.init_refs {leak : DescIx → Nat} (h : Shell p k) (hrefs : Refs leak k) :
    Refs leak (fd_core_init ops k) := by
  rwa [h.init_eq]

theorem Shell.of_call {leak : DescIx → Nat} (h : Shell p k)
    (hc : CallOk leak (fd_core_init ops k) k') : Shell p k' := by
  rw [h.init_eq] at hc
  exact ⟨hc.frame.current.trans h.current, (hc.frame.initialized p).trans h.ready, leak, hc.refs⟩

/-- A named description is in use. -/
theorem Shell.named (h : Shell p k) (hf : k.tabs p f = some i) :
    (k.g_descriptions i).used = true := by
  obtain ⟨leak, hrefs⟩ := h.refs
  exact RefsInv.named hrefs hf

theorem fdIx_val_self (f : FdIx) : fdIx (f.val : Int) = some f := by
  unfold fdIx
  rw [dif_pos ⟨by omega, by omega⟩]
  rfl

theorem Shell.lookup (h : Shell p k) (hf : k.tabs p f = some i) :
    fd_lookup k p f.val = some (f, i) := by
  obtain ⟨leak, hrefs⟩ := h.refs
  rw [fd_lookup_eq hrefs, fdIx_val_self, Option.bind_some, hf]
  rfl

/-- A release calls the filesystem at most once. -/
theorem fd_close_description_fs (k : Kernel σ) (i : DescIx) :
    Later ops k.fs (fd_close_description ops k i).2.fs := by
  unfold fd_close_description
  split
  · exact .single (.close _ _)
  · exact .refl

/-- Releasing an entry may close a file. -/
theorem fd_release_entry_fs (k : Kernel σ) (p : ProcIx) (fd : FdIx) :
    Later ops k.fs (fd_release_entry ops k p fd).2.fs := by
  unfold fd_release_entry
  cases fd_description k p fd with
  | none => exact .refl
  | some i =>
    dsimp only
    generalize (if ((k.setEntry p fd none).g_descriptions i).refs > 0 then _ else _ :
      Description) = d
    split
    · exact .refl
    · exact fd_close_description_fs ((k.setEntry p fd none).setDesc i d) i

variable (ops) in
/-- A `close` of the shell takes one entry away. -/
theorem did_close (h : Shell p k) (hf : k.tabs p f = some i) :
    Did ops p k (fd_core_close ops k f.val).2 (update (k.tabs p) f none) := by
  obtain ⟨leak, hrefs⟩ := h.refs
  have hshell := h.of_call (fd_core_close_ok ops (h.init_refs hrefs) f.val)
  have heq : fd_core_close ops k f.val = fd_release_entry ops k p f := by
    unfold fd_core_close
    dsimp only
    rw [h.init_eq, h.current, h.lookup hf]
  obtain ⟨hrel, hinv, -⟩ := fd_release_entry_spec ops hrefs hf
  rw [heq] at hshell ⊢
  refine ⟨hshell, ?_, ?_, fd_release_entry_fs k p f⟩
  · rw [hrel.tabs, update_self]
  · intro g j hg _
    obtain ⟨l, hcl⟩ := hrel.closes
    have hj : (fd_release_entry ops k p f).2.tabs p g = some j := by
      rw [hrel.tabs, update_self]
      exact hg
    exact sameFile_of_refs (hinv.named hj) (hcl.keep j (hinv.named hj)).2

variable (ops) in
/-- A `dup` fails and changes nothing, or names the same file a second time. -/
theorem did_dup (h : Shell p k) (hf : k.tabs p f = some i) :
    ((fd_core_dup ops k f.val).1 < 0 ∧ (fd_core_dup ops k f.val).2 = k) ∨
    ∃ new : FdIx, k.tabs p new = none ∧ (fd_core_dup ops k f.val).1 = new.val ∧
      Did ops p k (fd_core_dup ops k f.val).2 (update (k.tabs p) new (some i)) := by
  obtain ⟨leak, hrefs⟩ := h.refs
  have hshell := h.of_call (fd_core_dup_ok ops (h.init_refs hrefs) f.val)
  unfold fd_core_dup at hshell ⊢
  dsimp only at hshell ⊢
  rw [h.init_eq, h.current, h.lookup hf] at hshell ⊢
  dsimp only at hshell ⊢
  split
  · exact .inl ⟨(by decide : -POSIX_ENOSPC < 0), rfl⟩
  next new hfree =>
    rw [hfree] at hshell
    have hentry : (k.table p).entries f = some i := hf
    have hsame := SameUpToRefs.addRef k p new (some i) i
    dsimp only at hshell ⊢
    rw [hentry] at hshell ⊢
    refine .inr ⟨new, fd_find_free_some hfree, rfl, hshell, ?_, ?_, ?_⟩
    · show (k.setEntry p new (some i)).tabs p = _
      rw [setEntry_tabs, update_self]
    · intro g j _ hu
      refine sameFile_of_refs ?_ (hsame.desc j)
      rw [hsame.desc j]
      exact hu
    · rw [hsame.fs]
      exact .refl

/-- The file behind the descriptor, if this is its last name, can be closed. -/
def LastCloses (ops : FsOps σ) (p : ProcIx) (k : Kernel σ) (g : FdIx) : Prop :=
  ∀ j, k.tabs p g = some j → (k.g_descriptions j).kind = .VFS → (k.g_descriptions j).refs = 1 →
    (ops.fs_core_close k.fs (k.g_descriptions j).node_id).1 = .ok ()

/-- A `dup2` makes the second descriptor name what the first does. -/
theorem did_dup2 (h : Shell p k) (hf : k.tabs p f = some i) (hne : f ≠ g)
    (hclose : LastCloses ops p k g) :
    (fd_core_dup2 ops k f.val g.val).1 = g.val ∧
      Did ops p k (fd_core_dup2 ops k f.val g.val).2 (update (k.tabs p) g (some i)) := by
  obtain ⟨leak, hrefs⟩ := h.refs
  have hshell := h.of_call (fd_core_dup2_ok ops (h.init_refs hrefs) f.val g.val)
  have hval : (f.val : Int) ≠ g.val := fun heq => hne (Fin.ext (by omega))
  -- the target is given up first, and without an error
  obtain ⟨rc, k2, hk2, hinv, hrel, hrc⟩ := release_target ops hrefs p g
  obtain rfl : rc = 0 := by
    obtain hzero | ⟨j, e, hg, hkind, hone, herr⟩ := hrc
    · exact hzero
    · rw [hclose j hg hkind hone] at herr
      cases herr
  have hfs : Later ops k.fs k2.fs := by
    split at hk2
    · grind [fd_release_entry, fd_release_entry_fs]
    · cases hk2
      exact .refl
  have htabs : k2.tabs p = update (k.tabs p) g none := by
    rw [hrel.tabs, update_self]
  obtain ⟨l, hcl⟩ := hrel.closes
  have hold2 : k2.tabs p f = some i := by
    rw [htabs, update_of_ne hne, hf]
  have hentry : (k2.table p).entries f = some i := hold2
  have hsame := SameUpToRefs.addRef k2 p g (some i) i
  have heq : fd_core_dup2 ops k f.val g.val =
      ((g.val : Int), (k2.setEntry p g (some i)).addRef i) := by
    unfold fd_core_dup2
    dsimp only
    rw [h.init_eq, h.current, h.lookup hf]
    grind [fdIx_val_self]
  rw [heq] at hshell ⊢
  have htabs2 : (k2.setEntry p g (some i)).tabs p = update (k.tabs p) g (some i) := by
    rw [setEntry_tabs, update_self, htabs, update_idem]
  refine ⟨rfl, hshell, htabs2, ?_, ?_⟩
  · intro m j hm _
    -- a description that is still named was not the one given up
    have hu := hshell.named ((congrFun htabs2 m).trans hm)
    have hu2 : (k2.g_descriptions j).used = true := by
      rw [hsame.desc j] at hu
      exact hu
    refine sameFile_of_refs hu ?_
    rw [hsame.desc j, (hcl.keep j hu2).2]
  · rw [hsame.fs]
    exact hfs

variable (ops) in
/-- An `open` fails, or gives a free descriptor a new description. -/
theorem did_open (h : Shell p k) (path : CString) (flags : Nat) :
    ((fd_core_open ops k path flags).1 < 0 ∧
      Did ops p k (fd_core_open ops k path flags).2 (k.tabs p)) ∨
    ∃ (fd : FdIx) (i : DescIx), k.tabs p fd = none ∧ (fd_core_open ops k path flags).1 = fd.val ∧
      Did ops p k (fd_core_open ops k path flags).2 (update (k.tabs p) fd (some i)) := by
  obtain ⟨leak, hrefs⟩ := h.refs
  have hshell := h.of_call (fd_core_open_ok ops (h.init_refs hrefs) path flags)
  have herrno : ∀ rc : FsErr, fd_to_errno rc < 0 := by
    intro rc
    cases rc <;> decide
  -- every failure leaves the table and the descriptions alone
  have hfail : ∀ (k' : Kernel σ), Shell p k' → k'.tabs p = k.tabs p →
      k'.g_descriptions = k.g_descriptions → Later ops k.fs k'.fs → Did ops p k k' (k.tabs p) := by
    intro k' hk' htabs hdesc hfs
    refine ⟨hk', htabs, ?_, hfs⟩
    intro f i _ hu
    refine sameFile_of_refs ?_ ?_ <;> rw [hdesc]
    exact hu
  unfold fd_core_open at hshell ⊢
  dsimp only at hshell ⊢
  rw [h.init_eq] at hshell ⊢
  have hp := h.current
  subst hp
  have hopen : FsStep ops k.fs _ := .open_ k.fs (k.g_processes k.g_current_process).cwd path flags
  cases hres : ops.fs_core_open k.fs (k.g_processes k.g_current_process).cwd path flags with
  | mk r fs =>
  rw [hres] at hshell hopen
  cases r with
  | error rc => exact .inl ⟨herrno rc, hfail _ hshell rfl rfl (.single hopen)⟩
  | ok node_id =>
  dsimp only at hshell ⊢
  have hsize : ∃ r fs', fd_start_offset ops ({ k with fs := fs } : Kernel σ) node_id flags 0 =
      (r, { k with fs := fs' }) ∧ Later ops k.fs fs' := by
    unfold fd_start_offset
    split
    · exact ⟨_, _, rfl, (Relation.ReflTransGen.single hopen).tail (.size _ _)⟩
    · exact ⟨_, fs, rfl, .single hopen⟩
  obtain ⟨r, fs', hr, hlater⟩ := hsize
  rw [hr] at hshell ⊢
  cases r with
  | error rc => exact .inl ⟨herrno rc, hfail _ hshell rfl rfl (hlater.tail (.close _ _))⟩
  | ok offset =>
  dsimp only at hshell ⊢
  have hfull : -POSIX_ENOSPC < 0 := by decide
  cases hfree : fd_find_free ({ k with fs := fs' } : Kernel σ) k.g_current_process with
  | none =>
    rw [hfree] at hshell
    exact .inl ⟨hfull, hfail _ hshell rfl rfl (hlater.tail (.close _ _))⟩
  | some fd =>
  rw [hfree] at hshell
  dsimp only at hshell ⊢
  cases halloc : fd_alloc_description ({ k with fs := fs' } : Kernel σ) .VFS node_id flags
      offset with
  | none =>
    rw [halloc] at hshell
    exact .inl ⟨hfull, hfail _ hshell rfl rfl (hlater.tail (.close _ _))⟩
  | some x =>
  obtain ⟨i, k2⟩ := x
  obtain ⟨hun, rfl⟩ := fd_alloc_description_some halloc
  rw [halloc] at hshell
  have hasg := assigned_setEntry ({ k with fs := fs' } : Kernel σ) k.g_current_process fd hun
    ⟨true, 1, .VFS, node_id, offset, flags⟩
  refine .inr ⟨fd, i, fd_find_free_some hfree, rfl, hshell, ?_, ?_, ?_⟩
  · rw [hasg.tabs, update_self]
    rfl
  · intro g j _ hu
    refine sameFile_of_refs ?_ ?_ <;> rw [hasg.other j (Kernel.ne_of_used hu hun)]
    exact hu
  · exact hlater

/-- Two names are two references. -/
theorem Shell.refs_ne_one (h : Shell p k) (hne : f ≠ g) (hf : k.tabs p f = some i)
    (hg : k.tabs p g = some i) : (k.g_descriptions i).refs ≠ 1 := by
  obtain ⟨leak, hrefs⟩ := h.refs
  intro hone
  -- without the first name, the second one still counts
  have hdrop := hrefs.counted.drop hf
  have hpos := hdrop.refs_pos (i := p) (a := g) (b := i) (by
    rw [update_self, update_of_ne hne.symm, hg])
  rw [update_self] at hpos
  have hcount : k.refs i = 1 := hone
  omega

end Calls

/-! ## The layout of a redirected table -/

/-- The descriptor of a stream. -/
def std (t : Fin 3) : FdIx := ⟨t.val, Nat.lt_of_lt_of_le t.isLt (Nat.le_of_ble_eq_true rfl)⟩

variable {t : Fin 3}

theorem std_inj {u : Fin 3} (h : std t = std u) : t = u := by
  have hval : (std t).val = (std u).val := by rw [h]
  exact Fin.ext hval

abbrev Entries := FdIx → Option DescIx

variable {T : Entries}

theorem ne_of_free (hf : T f = none) (hg : (T g).isSome) : f ≠ g := by
  rintro rfl
  rw [hf] at hg
  cases hg

theorem ne_std_of_free (hopen : ∀ t, (T (std t)).isSome) (hf : T f = none) (t : Fin 3) : f ≠ std t
    :=
  ne_of_free hf (hopen t)

/-- The table `T` in the middle of redirections that started from `T₀`: a stream whose
`saved` is -1 is untouched, another one is kept under a descriptor that was free, and
nothing else has changed. -/
structure Layout (T₀ : Entries) (saved : Saved) (T : Entries) : Prop where
  streams : ∀ t, (T (std t)).isSome
  kept : ∀ t, saved t = -1 → T (std t) = T₀ (std t)
  held : ∀ t, saved t ≠ -1 → ∃ f : FdIx, saved t = f.val ∧ T₀ f = none ∧
    T f = T₀ (std t) ∧ (T f).isSome
  apart : ∀ t u, saved t ≠ -1 → saved t = saved u → t = u
  rest : ∀ f, (∀ t, f ≠ std t) → (∀ t, saved t ≠ f.val) → T f = T₀ f

/-- Every open file of `T₀` has a name in `T`. -/
def Named (T₀ T : Entries) : Prop := ∀ f i, T₀ f = some i → ∃ g, T g = some i

theorem Named.update {T₀ : Entries} (h : Named T₀ T) (hf : T f = none) (v : Option DescIx) :
    Named T₀ (update T f v) := by
  intro g i hg
  obtain ⟨m, hm⟩ := h g i hg
  exact ⟨m, by rw [update_of_ne (ne_of_free hf (by rw [hm]; rfl)).symm, hm]⟩

/-- An edit names only what has a name. -/
theorem named_of_update {v : Option DescIx} (hv : ∀ i, v = some i → ∃ g, T g = some i) (f : FdIx) :
    Named (update T f v) T := by
  intro g i hg
  grind

namespace Layout

variable {T₀ T : Entries} {saved : Saved} {t : Fin 3}

theorem init (h : ∀ t, (T₀ (std t)).isSome) : Layout T₀ msh_redir_init T₀ where
  streams := h
  kept _ _ := rfl
  held _ hne := absurd rfl hne
  apart _ _ hne _ := absurd rfl hne
  rest _ _ _ := rfl

section

variable (h : Layout T₀ saved T) {f : FdIx} (hf : T f = none)

include h hf

theorem ne_std (t : Fin 3) : f ≠ std t :=
  ne_std_of_free h.streams hf t

theorem ne_saved (t : Fin 3) :
    saved t ≠ f.val := by
  intro heq
  obtain ⟨g, hg, -, -, hsome⟩ := h.held t (by omega)
  exact ne_of_free hf hsome (Fin.ext (by omega))

/-- A free descriptor was free before. -/
theorem free : T₀ f = none := by
  rw [← h.rest f (h.ne_std hf) (h.ne_saved hf), hf]

end

theorem nonneg (h : Layout T₀ saved T) (ht : saved t ≠ -1) : 0 ≤ saved t := by
  obtain ⟨f, hf, -⟩ := h.held t ht
  omega

/-- What the table names while redirected is named by the old one or saved. -/
theorem named (h : Layout T₀ saved T) : Named T₀ T := by
  intro f i hf
  by_cases hstd : ∃ t, f = std t
  · obtain ⟨t, rfl⟩ := hstd
    by_cases ht : saved t = -1
    · exact ⟨std t, by rw [h.kept t ht, hf]⟩
    · obtain ⟨g, -, -, hg, -⟩ := h.held t ht
      exact ⟨g, by rw [hg, hf]⟩
  -- a descriptor that keeps a stream was free
  have hsaved : ∀ t, saved t ≠ f.val := by
    intro t heq
    obtain ⟨g, hg, hnone, -, -⟩ := h.held t (by omega)
    exact ne_of_free hnone (by rw [hf]; rfl) (Fin.ext (by omega))
  push Not at hstd
  exact ⟨f, by rw [h.rest f hstd hsaved, hf]⟩

/-- With nothing kept, the table is the one before. -/
theorem eq_of_init (h : Layout T₀ msh_redir_init T) : T = T₀ := by
  funext f
  by_cases hstd : ∃ t, f = std t
  · obtain ⟨t, rfl⟩ := hstd
    exact h.kept t rfl
  push Not at hstd
  refine h.rest f hstd fun t heq => ?_
  have hneg : msh_redir_init t = -1 := rfl
  omega

theorem still_kept {u : Fin 3} (hu : update saved t (-1) u ≠ -1) :
    u ≠ t ∧ saved u ≠ -1 := by grind

/-- A stream is kept under a free descriptor. -/
theorem save (h : Layout T₀ saved T) (ht : saved t = -1) {new : FdIx} (hnew : T new = none) :
    Layout T₀ (update saved t new.val) (update T new (T (std t))) where
  streams u := by
    rw [update_of_ne (h.ne_std hnew u).symm]
    exact h.streams u
  kept u hu := by
    have hut : u ≠ t := by
      rintro rfl
      rw [update_self] at hu
      omega
    rw [update_of_ne hut] at hu
    rw [update_of_ne (h.ne_std hnew u).symm, h.kept u hu]
  held u hu := by
    by_cases hut : u = t
    · subst hut
      refine ⟨new, update_self .., h.free hnew, ?_, ?_⟩
      · rw [update_self, h.kept u ht]
      · rw [update_self]
        exact h.streams u
    rw [update_of_ne hut] at hu ⊢
    obtain ⟨f, hf, hnone, hT, hsome⟩ := h.held u hu
    grind
  apart u w hu heq := by
    by_cases hut : u = t
    · by_cases hwt : w = t
      · rw [hut, hwt]
      · rw [hut, update_self, update_of_ne hwt] at heq
        exact absurd heq.symm (h.ne_saved hnew w)
    rw [update_of_ne hut] at hu heq
    by_cases hwt : w = t
    · rw [hwt, update_self] at heq
      exact absurd heq (h.ne_saved hnew u)
    · rw [update_of_ne hwt] at heq
      exact h.apart u w hu heq
  rest f hf hsaved := by
    have hne : f ≠ new := by
      rintro rfl
      exact hsaved t (update_self ..)
    rw [update_of_ne hne]
    refine h.rest f hf fun u heq => ?_
    by_cases hut : u = t
    · subst hut
      omega
    · exact hsaved u (by rw [update_of_ne hut, heq])

/-- A kept stream is replaced. -/
theorem place (h : Layout T₀ saved T) (hopen : ∀ t, (T₀ (std t)).isSome) (ht : saved t ≠ -1)
    (i : DescIx) : Layout T₀ saved (update T (std t) (some i)) where
  streams u := by
    by_cases hut : std u = std t
    · rw [hut, update_self]
      rfl
    · rw [update_of_ne hut]
      exact h.streams u
  kept u hu := by
    have hut : std u ≠ std t := by
      intro heq
      exact ht (std_inj heq ▸ hu)
    rw [update_of_ne hut, h.kept u hu]
  held u hu := by
    obtain ⟨f, hf, hnone, hT, hsome⟩ := h.held u hu
    grind
  apart := h.apart
  rest f hf hsaved := by
    rw [update_of_ne (hf t), h.rest f hf hsaved]

/-- A kept stream is put back and its descriptor given up. -/
theorem restore (h : Layout T₀ saved T) (hopen : ∀ t, (T₀ (std t)).isSome) (hf : saved t = f.val) :
    Layout T₀ (update saved t (-1))
      (update (update T (std t) (T₀ (std t))) f none) := by
  obtain ⟨g, hg, hnone, -, -⟩ := h.held t (by omega)
  obtain rfl : g = f := Fin.ext (by omega)
  have hne : ∀ u, std u ≠ g := fun u => (ne_std_of_free hopen hnone u).symm
  refine ⟨?_, ?_, ?_, ?_, ?_⟩
  · intro u
    rw [update_of_ne (hne u)]
    by_cases hut : std u = std t
    · rw [hut, update_self]
      exact hopen t
    · rw [update_of_ne hut]
      exact h.streams u
  · intro u hu
    rw [update_of_ne (hne u)]
    by_cases hut : std u = std t
    · rw [hut, update_self]
    rw [update_of_ne hut]
    have huneq : u ≠ t := fun heq => hut (by rw [heq])
    rw [update_of_ne huneq] at hu
    exact h.kept u hu
  · intro u hu
    obtain ⟨hut, hu⟩ := still_kept hu
    rw [update_of_ne hut]
    obtain ⟨m, hm, hmnone, hT, hsome⟩ := h.held u hu
    -- two streams are kept under two descriptors
    have hmg : m ≠ g := by
      rintro rfl
      exact hut (h.apart u t hu (hm.trans hf.symm))
    have hmt := ne_std_of_free hopen hmnone t
    grind
  · intro u w hu heq
    obtain ⟨hut, hkept⟩ := still_kept hu
    obtain ⟨hwt, -⟩ := still_kept (fun hw => hu (heq.trans hw))
    rw [update_of_ne hut, update_of_ne hwt] at heq
    exact h.apart u w hkept heq
  · intro m hm hsaved
    by_cases hmg : m = g
    · rw [hmg, update_self, hnone]
    rw [update_of_ne hmg, update_of_ne (hm t)]
    refine h.rest m hm fun u heq => ?_
    by_cases hut : u = t
    · subst hut
      exact hmg (Fin.ext (by omega))
    · exact hsaved u (by rw [update_of_ne hut, heq])

end Layout

/-! ## Redirections -/

/-- The shell in the middle of redirections that started at `k₀`. -/
structure Redirected (p : ProcIx) (k₀ : Kernel σ) (saved : Saved) (k : Kernel σ) : Prop where
  shell : Shell p k
  layout : Layout (k₀.tabs p) saved (k.tabs p)
  same : ∀ f i, k₀.tabs p f = some i → SameFile k₀ k i

/-- The files in place of the kept streams can be closed. -/
def Closable (ops : FsOps σ) (p : ProcIx) (saved : Saved) (k : Kernel σ) : Prop :=
  ∀ t, saved t ≠ -1 → ∀ i, k.tabs p (std t) = some i → (k.g_descriptions i).kind = .VFS →
    CanClose ops k.fs (k.g_descriptions i).node_id

theorem Redirected.init {p : ProcIx} (h : Shell p k) (hopen : ∀ t, (k.tabs p (std t)).isSome) :
    Redirected p k msh_redir_init k :=
  ⟨h, .init hopen, fun _ _ hf => ⟨h.named hf, rfl, rfl, rfl⟩⟩

section Redirect

variable {ops : FsOps σ} {rest : Sys (Kernel σ)} {p : ProcIx} {k₀ k : Kernel σ} {saved : Saved}

theorem Did.refl (h : Shell p k) : Did ops p k k (k.tabs p) where
  shell := h
  tabs := rfl
  same _ _ _ hu := ⟨hu, rfl, rfl, rfl⟩
  fs := .refl

/-- Two calls, where the second one gives no name to a file without one. -/
theorem Did.trans {k₁ k₂ : Kernel σ} {T₁ T₂ : Entries} (h₁ : Did ops p k k₁ T₁)
    (h₂ : Did ops p k₁ k₂ T₂) (hn : Named T₂ T₁) : Did ops p k k₂ T₂ where
  shell := h₂.shell
  tabs := h₂.tabs
  same f i hf hu := by
    obtain ⟨g, hg⟩ := hn f i hf
    have hsame := h₁.same g i hg hu
    exact hsame.trans (h₂.same f i hf hsame.used)
  fs := h₁.fs.trans h₂.fs

/-- A step of the shell keeps it redirected, with the entries saved. -/
theorem Redirected.of_did {saved' : Saved} (h : Redirected p k₀ saved k) (hd : Did ops p k k' T)
    (hT : Layout (k₀.tabs p) saved' T) :
    Redirected p k₀ saved' k' where
  shell := hd.shell
  layout := by rw [hd.tabs]; exact hT
  same f i hf := by
    obtain ⟨g, hg⟩ := hT.named f i hf
    exact (h.same f i hf).trans (hd.same g i hg (h.same f i hf).used)

theorem posix_result_fd (f : FdIx) : posix_result f.val = f.val := by
  unfold posix_result
  rw [if_neg (by omega)]

theorem posix_result_neg {rc : Int} (h : rc < 0) : posix_result rc = -1 := if_pos h

/-- A file that stands in for a stream can still be closed after calls that leave it
there. -/
theorem Closable.of_did (h : Closable ops p saved k) (hs : Shell p k) (hd : Did ops p k k' T)
    (ht : saved t ≠ -1) (hT : T (std t) = k.tabs p (std t)) (hi : T (std t) = some i)
    (hkind : (k'.g_descriptions i).kind = .VFS) :
    CanClose ops k'.fs (k'.g_descriptions i).node_id := by
  have hi' : k.tabs p (std t) = some i := by rw [← hT, hi]
  have hsame := hd.same (std t) i hi (hs.named hi')
  rw [hsame.node_id]
  exact (h t ht i hi' (by rw [← hsame.kind, hkind])).later hd.fs

/-- The end of `msh_redir_apply`: the opened file goes in place of the kept stream, and
the descriptor it was opened under is given up. -/
theorem did_place {fd : FdIx} (hd : Did ops p k k' (update T fd (some i)))
    (hfd : T fd = none) (hne : fd ≠ std t) (hclose : LastCloses ops p k' (std t)) :
    Did ops p k (fd_core_close ops (fd_core_dup2 ops k' fd.val (std t).val).2 fd.val).2
      (update T (std t) (some i)) := by
  have hfile : k'.tabs p fd = some i := by
    rw [hd.tabs, update_self]
  obtain ⟨-, hd1⟩ := did_dup2 hd.shell hfile hne hclose
  have hfile1 : (fd_core_dup2 ops k' fd.val (std t).val).2.tabs p fd = some i := by
    rw [hd1.tabs, update_of_ne hne, hfile]
  have hd2 := did_close ops hd1.shell hfile1
  rw [hd.tabs] at hd1
  rw [hd1.tabs] at hd2
  have hall := (hd.trans hd1 (named_of_update (fun j hj => ⟨fd, by rw [update_self, hj]⟩) _)).trans
    hd2 (named_of_update (by simp) fd)
  -- the descriptor of the open comes and goes
  grind [update_idem, update_comm, update_eq_self_iff.mpr]

/-- `msh_redir_apply` once the operator is known, with the results of its calls named. -/
theorem msh_redir_apply_of_target {τ : Type} (S : Sys τ) (saved : Saved) {op : Text} (path : Text)
    (s : τ) {flags : Nat} (hop : redirTarget op = some (t, flags)) {fd : Int} {s₁ : τ}
    (hopens : S.open_ s path flags = (fd, s₁)) :
    (msh_redir_apply S saved op path s).2 =
      if fd < 0 then (saved, s₁)
      else if saved t = -1 ∧ (saveStream S saved t s₁).1 t < 0 then
        ((saveStream S saved t s₁).1, S.close (saveStream S saved t s₁).2 fd)
      else ((saveStream S saved t s₁).1,
        S.close (S.dup2 (saveStream S saved t s₁).2 fd t.val).2 fd) := by
  simp only [msh_redir_apply, hop, hopens]
  split_ifs <;> rfl

variable (ops rest) in
/-- One redirection, whatever fails in it, leaves a layout. -/
theorem msh_redir_apply_did (hopen : ∀ t, (k₀.tabs p (std t)).isSome)
    (h : Redirected p k₀ saved k) (hc : Closable ops p saved k) (op path : Text) :
    ∃ T, Did ops p k (msh_redir_apply (onKernel ops rest) saved op path k).2.2 T ∧
      Layout (k₀.tabs p) (msh_redir_apply (onKernel ops rest) saved op path k).2.1 T := by
  cases htarget : redirTarget op with
  | none =>
    unfold msh_redir_apply
    rw [htarget]
    exact ⟨_, .refl h.shell, h.layout⟩
  | some x =>
  obtain ⟨t, flags⟩ := x
  obtain ⟨hneg, hd⟩ | ⟨fd, i, hfd, hrc, hd⟩ := did_open ops h.shell (.cut path) flags
  · -- nothing was opened
    have hopens : (onKernel ops rest).open_ k path flags =
        (-1, (fd_core_open ops k (.cut path) flags).2) :=
      congrArg (·, _) (posix_result_neg hneg)
    rw [msh_redir_apply_of_target _ saved path k htarget hopens, if_pos (by omega)]
    exact ⟨_, hd, h.layout⟩
  have hopens : (onKernel ops rest).open_ k path flags =
      ((fd.val : Int), (fd_core_open ops k (.cut path) flags).2) :=
    congrArg (·, _) (by rw [hrc, posix_result_fd])
  rw [msh_redir_apply_of_target _ saved path k htarget hopens, if_neg (by omega)]
  generalize (fd_core_open ops k (.cut path) flags).2 = k₁ at hd
  have hstream : (update (k.tabs p) fd (some i)) (std t) = k.tabs p (std t) :=
    update_of_ne (h.layout.ne_std hfd t).symm ..
  obtain ⟨j, hj⟩ := Option.isSome_iff_exists.mp (h.layout.streams t)
  have hj1 : k₁.tabs p (std t) = some j := by
    rw [hd.tabs, hstream, hj]
  by_cases ht : saved t = -1
  · obtain ⟨hneg, hk⟩ | ⟨new, hnew, hrc, hd2⟩ := did_dup ops hd.shell hj1
    · -- no descriptor to keep the stream under: the file is closed again
      have hsave : saveStream (onKernel ops rest) saved t k₁ = (saved, k₁) := by
        have hdup : (onKernel ops rest).dup k₁ t.val = (-1, k₁) :=
          congrArg₂ Prod.mk (posix_result_neg hneg) hk
        unfold saveStream
        rw [if_pos ht, hdup, ← ht, update_eq_self]
      have hname : k₁.tabs p fd = some i := by
        rw [hd.tabs, update_self]
      have hd2 := did_close ops hd.shell hname
      rw [hd.tabs, update_idem, update_eq_self_iff.mpr hfd.symm] at hd2
      have hneg' : saved t < 0 := by omega
      rw [hsave, if_pos ⟨ht, hneg'⟩]
      exact ⟨_, hd.trans hd2 (Named.update (fun f i hf => ⟨f, hf⟩) hfd _), h.layout⟩
    -- the stream is kept, and what `dup2` takes away is only its second name
    have hsave : saveStream (onKernel ops rest) saved t k₁ =
        (update saved t new.val, (fd_core_dup ops k₁ (std t).val).2) := by
      have hdup : (onKernel ops rest).dup k₁ t.val =
          ((new.val : Int), (fd_core_dup ops k₁ (std t).val).2) :=
        congrArg (·, _) ((congrArg posix_result hrc).trans (posix_result_fd new))
      unfold saveStream
      rw [if_pos ht, hdup]
    have hnew' : new ≠ fd ∧ k.tabs p new = none := by
      rw [hd.tabs] at hnew
      grind
    obtain ⟨hne, hnone⟩ := hnew'
    have hstd : std t ≠ new := (h.layout.ne_std hnone t).symm
    have hpos : ¬ update saved t (new.val : Int) t < 0 := by
      rw [update_self]
      omega
    rw [hsave, if_neg fun hboth => hpos hboth.2]
    rw [hd.tabs, update_comm hne.symm] at hd2
    have hlay := h.layout.save ht hnone
    rw [hj] at hlay
    have hnamed : Named (update (update (k.tabs p) new (some j)) fd (some i))
        (update (k.tabs p) fd (some i)) := by
      rw [update_comm hne]
      exact named_of_update (fun m hm => ⟨std t, by rw [hstream, hj, hm]⟩) new
    have hkept : update saved t (new.val : Int) t ≠ -1 := by
      rw [update_self]
      omega
    refine ⟨_, did_place (hd.trans hd2 hnamed) ?_ (h.layout.ne_std hfd t) ?_,
      hlay.place hopen hkept i⟩
    · rw [update_of_ne hne.symm, hfd]
    · intro m hm _ hone
      have hm' : m = j := by
        rw [hd2.tabs, update_of_ne (h.layout.ne_std hfd t).symm,
          update_of_ne hstd, hj] at hm
        exact (Option.some.inj hm).symm
      refine absurd hone (hd2.shell.refs_ne_one hstd hm ?_)
      rw [hd2.tabs, update_of_ne hne, update_self, hm']
  · have hsave : saveStream (onKernel ops rest) saved t k₁ = (saved, k₁) := if_neg ht
    rw [hsave, if_neg (by tauto)]
    refine ⟨_, did_place hd hfd (h.layout.ne_std hfd t) ?_, h.layout.place hopen ht i⟩
    intro m hm hkind _
    exact hc.of_did h.shell hd ht hstream (by rw [← hd.tabs, hm]) hkind _ .refl

variable (rest) in
/-- Undoing one redirection. -/
theorem restoreStream_redirected (hopen : ∀ t, (k₀.tabs p (std t)).isSome)
    (h : Redirected p k₀ saved k) (hc : Closable ops p saved k) (t : Fin 3) :
    Redirected p k₀ (update saved t (-1)) (restoreStream (onKernel ops rest) saved k t) ∧
    Closable ops p (update saved t (-1)) (restoreStream (onKernel ops rest) saved k t) := by
  unfold restoreStream
  by_cases ht : saved t = -1
  · rw [if_neg (by omega), ← ht, update_eq_self]
    exact ⟨h, hc⟩
  rw [if_pos (h.layout.nonneg ht)]
  obtain ⟨f, hf, hnone, hheld, hsome⟩ := h.layout.held t ht
  obtain ⟨i, hi⟩ := Option.isSome_iff_exists.mp hsome
  have hft : f ≠ std t := ne_std_of_free hopen hnone t
  -- the stream comes back
  have hclose : LastCloses ops p k (std t) := fun j hj hkind _ => hc t ht j hj hkind k.fs .refl
  obtain ⟨-, hd1⟩ := did_dup2 h.shell hi hft hclose
  -- and the descriptor it was kept under is given up
  have hname : (fd_core_dup2 ops k f.val (std t).val).2.tabs p f = some i := by
    rw [hd1.tabs, update_of_ne hft, hi]
  have hd2 := did_close ops hd1.shell hname
  rw [hd1.tabs] at hd2
  have hd := hd1.trans hd2 (named_of_update (by simp) f)
  have heq : (onKernel ops rest).close ((onKernel ops rest).dup2 k (saved t) t.val).2 (saved t) =
      (fd_core_close ops (fd_core_dup2 ops k f.val (std t).val).2 f.val).2 := by
    rw [hf]
    rfl
  have hlay := h.layout.restore hopen hf
  rw [← hheld, hi] at hlay
  rw [heq]
  refine ⟨h.of_did hd hlay, ?_⟩
  intro u hu j hj hkind
  -- the other streams are where they were
  obtain ⟨hut, hu⟩ := Layout.still_kept hu
  have hstd : std u ≠ std t := fun heq => hut (std_inj heq)
  have hsame : update (update (k.tabs p) (std t) (some i)) f none (std u) =
      k.tabs p (std u) := by
    rw [update_of_ne (ne_std_of_free hopen hnone u).symm, update_of_ne hstd]
  rw [hd.tabs] at hj
  exact hc.of_did h.shell hd hu hsame hj hkind

variable (rest) in
/-- The loop of `msh_redir_restore`. `kept` is what is still to be undone; the streams
ahead are undone from `saved`, with which it agrees there. -/
theorem restore_fold (hopen : ∀ t, (k₀.tabs p (std t)).isSome) (ts : List (Fin 3)) :
    ∀ (kept : Saved) (k : Kernel σ), ts.Nodup → (∀ t ∈ ts, kept t = saved t) →
      Redirected p k₀ kept k → Closable ops p kept k →
      Redirected p k₀ (fun t => if t ∈ ts then -1 else kept t)
        (ts.foldl (restoreStream (onKernel ops rest) saved) k) := by
  induction ts with
  | nil =>
    intro kept k _ _ h _
    simpa using h
  | cons t ts ih =>
    intro kept k hnd hagree h hc
    obtain ⟨hnot, hnd⟩ := List.nodup_cons.mp hnd
    obtain ⟨h', hc'⟩ := restoreStream_redirected rest hopen h hc t
    have hstep : restoreStream (onKernel ops rest) kept k t =
        restoreStream (onKernel ops rest) saved k t := by
      unfold restoreStream
      rw [hagree t List.mem_cons_self]
    rw [hstep] at h' hc'
    have hrest : ∀ u ∈ ts, update kept t (-1) u = saved u := by
      intro u hu
      have hut : u ≠ t := fun heq => hnot (heq ▸ hu)
      rw [update_of_ne hut, hagree u (List.mem_cons_of_mem _ hu)]
    have hres := ih _ _ hnd hrest h' hc'
    have hsaved : (fun u => if u ∈ ts then -1 else update kept t (-1) u) =
        fun u => if u ∈ t :: ts then -1 else kept u := by
      funext u
      by_cases hut : u = t
      · simp [hut]
      · simp [hut]
    rwa [hsaved] at hres

/-- Once everything is undone the table is the one before, with the files it had. -/
theorem msh_redir_restore_eq (hopen : ∀ t, (k₀.tabs p (std t)).isSome)
    (h : Redirected p k₀ saved k) (hc : Closable ops p saved k) :
    (msh_redir_restore (onKernel ops rest) saved k).tabs p = k₀.tabs p ∧
    ∀ f i, k₀.tabs p f = some i →
      SameFile k₀ (msh_redir_restore (onKernel ops rest) saved k) i := by
  have hres := restore_fold rest hopen [0, 1, 2] saved k (by decide) (fun _ _ => rfl) h hc
  have hall : (fun t : Fin 3 => if t ∈ [0, 1, 2] then -1 else saved t) = msh_redir_init := by
    funext t
    have hmem : ∀ t : Fin 3, t ∈ [0, 1, 2] := by decide
    rw [if_pos (hmem t)]
    rfl
  rw [hall] at hres
  exact ⟨hres.layout.eq_of_init, hres.same⟩

/-- The states that sequences of redirections lead to, each made while the files put in
place before can be closed. -/
inductive Applied (ops : FsOps σ) (rest : Sys (Kernel σ)) (p : ProcIx) (k₀ : Kernel σ) :
    Saved → Kernel σ → Prop
  | init : Applied ops rest p k₀ msh_redir_init k₀
  | apply {saved : Saved} {k : Kernel σ} (op path : Text) : Applied ops rest p k₀ saved k →
      Closable ops p saved k →
      Applied ops rest p k₀ (msh_redir_apply (onKernel ops rest) saved op path k).2.1
        (msh_redir_apply (onKernel ops rest) saved op path k).2.2

/-- Applying the redirections of a command leaves the shell redirected. -/
theorem Applied.redirected (hshell : Shell p k₀) (hopen : ∀ t, (k₀.tabs p (std t)).isSome)
    (h : Applied ops rest p k₀ saved k) : Redirected p k₀ saved k := by
  induction h with
  | init => exact .init hshell hopen
  | apply op path _ hc ih =>
    obtain ⟨T, hd, hT⟩ := msh_redir_apply_did ops rest hopen ih hc op path
    exact ih.of_did hd hT

/-- A command has run: the shell is current again with the table it had, and its open files
are the ones they were. The offsets and the filesystem are anything. -/
structure Command (p : ProcIx) (k k' : Kernel σ) : Prop where
  shell : Shell p k'
  tabs : k'.tabs p = k.tabs p
  same : ∀ f i, k.tabs p f = some i → SameFile k k' i

/-- The command that runs in between does not touch the shell's table. -/
theorem Redirected.command (h : Redirected p k₀ saved k) (hc : Command p k k') :
    Redirected p k₀ saved k' where
  shell := hc.shell
  layout := by rw [hc.tabs]; exact h.layout
  same f i hf := by
    obtain ⟨g, hg⟩ := h.layout.named f i hf
    exact (h.same f i hf).trans (hc.same g i hg)

/-- Redirections are undone as long as the files redirected to can be closed. -/
theorem redirection_undone {k' : Kernel σ} (hshell : Shell p k₀)
    (hopen : ∀ t, (k₀.tabs p (std t)).isSome) (hrun : Applied ops rest p k₀ saved k)
    (hcmd : Command p k k') (hclose : Closable ops p saved k') :
    (msh_redir_restore (onKernel ops rest) saved k').tabs p = k₀.tabs p ∧
    ∀ f i, k₀.tabs p f = some i →
      SameFile k₀ (msh_redir_restore (onKernel ops rest) saved k') i :=
  msh_redir_restore_eq hopen ((hrun.redirected hshell hopen).command hcmd) hclose

end Redirect

/-! ## Over a RAMFS root -/

section Ramfs

open System1.Ramfs System1.Posix

variable {τ : Type} {P : Vfs.Devices τ}

/-- No call of the shell removes a file. -/
theorem FsStep.keeps {s s' : Vfs.State Ramfs.State τ} (h : FsStep (rootOps P) s s')
    (hinv : Inv s.root) :
    Inv s'.root ∧ ∀ n, (filesOf s.root n).isSome → (filesOf s'.root n).isSome := by
  cases h with
  | open_ cwd path flags =>
    obtain ⟨created, hopened⟩ := fs_core_open_openedFiles hinv cwd path flags
    refine ⟨hopened.inv, fun n hn => ?_⟩
    have hfiles := hopened.files
    show (filesOf (fs_core_open ramfsDriver s cwd path flags).2.root n).isSome
    rw [hfiles]
    exact openFiles_isSome hn _ _ _
  | size n =>
    have hroot : ((rootOps P).fs_core_size s n).2.root = s.root := by
      show (fs_core_size ramfsDriver P s n).2.root = s.root
      unfold fs_core_size
      split <;> rfl
    rw [hroot]
    exact ⟨hinv, fun _ hm => hm⟩
  | close n =>
    rw [fs_core_close_pure]
    exact ⟨hinv, fun _ hm => hm⟩

/-- A file that exists stays and can be closed. -/
theorem Later.closable {s s' : Vfs.State Ramfs.State τ} (hs : Later (rootOps P) s s')
    (hinv : Inv s.root) :
    Inv s'.root ∧ ∀ n, Posix.Closable s.root n → Posix.Closable s'.root n := by
  induction hs with
  | refl => exact ⟨hinv, fun _ h => h⟩
  | tail _ hstep ih =>
    obtain ⟨hinv', hc⟩ := ih
    obtain ⟨hnext, hfiles⟩ := hstep.keeps hinv'
    refine ⟨hnext, fun n h => ?_⟩
    obtain hp | ⟨hp, hf⟩ := hc n h
    · exact .inl hp
    · exact .inr ⟨hp, hfiles n hf⟩

theorem ramfs_canClose {s : Vfs.State Ramfs.State τ} (hinv : Inv s.root) {n : Nat}
    (h : Posix.Closable s.root n) : CanClose (rootOps P) s n :=
  fun _ hs => fs_core_close_ok ((hs.closable hinv).2 n h)

/-- The kernel after boot over an empty RAMFS, without devices. -/
def freshKernel : Kernel (Vfs.State Ramfs.State Unit) :=
  boot (ops ramfsDriver noDevices) ⟨ramfs_core_reset_empty, ()⟩

/-- Calls that a redirection does not make. -/
def noCalls : Sys (Kernel (Vfs.State Ramfs.State Unit)) where
  open_ := fun k _ _ => (-1, k)
  dup := fun k _ => (-1, k)
  dup2 := fun k _ _ => (-1, k)
  close := fun k _ => k
  getdents := fun k _ _ => ([], k)
  chdir := fun k _ => (-1, k)
  execve := fun k _ _ => (-1, k)
  u_err := fun k _ => k

/-- `> /f`. -/
def intoFile : Int × Saved × Kernel (Vfs.State Ramfs.State Unit) :=
  msh_redir_apply (onKernel (ops ramfsDriver noDevices) noCalls) msh_redir_init [GT]
    [0x2F, 0x66] freshKernel

/-- A command that unlinks `/f`. -/
def removing (k : Kernel (Vfs.State Ramfs.State Unit)) : Kernel (Vfs.State Ramfs.State Unit) :=
  { k with fs := (fs_core_unlink ramfsDriver k.fs [0x2F] (.cut [0x2F, 0x66])).2 }

theorem freshKernel_shell : Shell initialSlot freshKernel where
  current := (boot_booted _ _).current
  ready := (boot_booted _ _).ready
  refs := ⟨_, (boot_booted _ _).refs⟩

theorem freshKernel_open : ∀ t, (freshKernel.tabs initialSlot (std t)).isSome := by
  decide +kernel

theorem intoFile_applied : Applied (ops ramfsDriver noDevices) noCalls initialSlot freshKernel
    intoFile.2.1 intoFile.2.2 :=
  .apply [GT] [0x2F, 0x66] .init fun _ ht => absurd rfl ht

/-- A command that only changes files. -/
theorem command_fs {p : ProcIx} (h : Shell p k) (fs : σ) :
    Command p k { k with fs := fs } where
  shell := ⟨h.current, h.ready, h.refs.imp fun _ hrefs => ⟨hrefs.counted, hrefs.used⟩⟩
  tabs := rfl
  same _ _ hf := ⟨h.named hf, rfl, rfl, rfl⟩

/-- With `> /f` around a command that removes `/f`, the shell is left without its standard
output. -/
theorem removed_target_stays_closed :
    Shell initialSlot freshKernel ∧ (∀ t, (freshKernel.tabs initialSlot (std t)).isSome) ∧
    intoFile.1 = 0 ∧ Command initialSlot intoFile.2.2 (removing intoFile.2.2) ∧
    (msh_redir_restore (onKernel (ops ramfsDriver noDevices) noCalls) intoFile.2.1
      (removing intoFile.2.2)).tabs initialSlot (std 1) = none := by
  have hrun : intoFile.1 = 0 ∧
      (msh_redir_restore (onKernel (ops ramfsDriver noDevices) noCalls) intoFile.2.1
        (removing intoFile.2.2)).tabs initialSlot (std 1) = none := by
    decide +kernel
  have hred := intoFile_applied.redirected freshKernel_shell freshKernel_open
  exact ⟨freshKernel_shell, freshKernel_open, hrun.1, command_fs hred.shell _, hrun.2⟩

/-- The same redirection around a command that leaves the file alone. -/
theorem redirection_undone_file :
    (msh_redir_restore (onKernel (ops ramfsDriver noDevices) noCalls) intoFile.2.1
      intoFile.2.2).tabs initialSlot = freshKernel.tabs initialSlot := by
  have hred := intoFile_applied.redirected freshKernel_shell freshKernel_open
  -- the root is still a RAMFS
  obtain ⟨T, hd, -⟩ := msh_redir_apply_did (ops ramfsDriver noDevices) noCalls
    freshKernel_open (.init freshKernel_shell freshKernel_open) (fun _ ht => absurd rfl ht) [GT]
    [0x2F, 0x66]
  have hfs : freshKernel.fs = ⟨ramfs_core_reset_empty, ()⟩ := boot_fs _ fs_core_close_pure _
  have hinv : Inv intoFile.2.2.fs.root :=
    (hd.fs.closable (by rw [hfs]; exact reset_inv)).1
  -- and what stands in for the output is a file of it
  have hfile : ∀ t i, intoFile.2.1 t ≠ -1 → intoFile.2.2.tabs initialSlot (std t) = some i →
      isPseudo (intoFile.2.2.g_descriptions i).node_id = false ∧
      (filesOf intoFile.2.2.fs.root (intoFile.2.2.g_descriptions i).node_id).isSome := by
    decide +kernel
  have hclose : Closable (ops ramfsDriver noDevices) initialSlot intoFile.2.1 intoFile.2.2 :=
    fun t ht i hi _ => ramfs_canClose hinv (.inr (hfile t i ht hi))
  exact (redirection_undone freshKernel_shell freshKernel_open intoFile_applied
    (command_fs hred.shell _) hclose).1

end Ramfs

end System1.Msh
