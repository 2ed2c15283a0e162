/-
What a failed descriptor call leaves behind.

`fd_core_dup2` releases its target before it shares the source, and a release is not taken
back: `fd_release_entry` clears the entry and drops the count before it closes the node, and
when the close fails the caller is told so, with the descriptor gone. So a failed `dup2` is
atomic exactly if the failure did not come from the filesystem refusing to close the target.

Every call first makes the table of a process that has none. That, too, is seen from outside:
it takes three descriptions. The statements here compare the states before and after the whole
call, so they say when that happens.
-/
import System1.VfsSymlinks

set_option autoImplicit false

namespace System1.Fd

open System1.Lib Function Vfs Posix

section

variable {σ : Type} {ops : FsOps σ}

/-! ## Making a table -/

/-- There are descriptions for the three standard descriptors. -/
def ThreeFree (k : Kernel σ) : Prop :=
  ∃ a b c : DescIx, a ≠ b ∧ a ≠ c ∧ b ≠ c ∧ (k.g_descriptions a).used = false ∧
    (k.g_descriptions b).used = false ∧ (k.g_descriptions c).used = false

theorem ThreeFree.card {k : Kernel σ} (h : ThreeFree k) : 3 ≤ k.free.card := by
  obtain ⟨a, b, c, hab, hac, hbc, ha, hb, hc⟩ := h
  have hmem : ∀ i, (k.g_descriptions i).used = false → i ∈ k.free := fun i hi =>
    Finset.mem_filter.mpr ⟨Finset.mem_univ i, hi⟩
  exact Finset.two_lt_card.mpr ⟨a, hmem a ha, b, hmem b hb, c, hmem c hc, hab, hac, hbc⟩

/-- What a first call does to a process without a table: it either takes three descriptions or
leaves every count as it was, with no entry in the table. -/
theorem table_init_cases (ops : FsOps σ) {leak : DescIx → Nat} {k : Kernel σ} (h : Refs leak k)
    {p : ProcIx} (hp : (k.table p).initialized = false) :
    (ThreeFree k ∧ ∃ i, (k.g_descriptions i).refs = 0 ∧
      ((fd_core_table_init ops k p).g_descriptions i).refs = 1 ∧
      ∀ f j, (fd_core_table_init ops k p).tabs p f = some j →
        ((fd_core_table_init ops k p).g_descriptions j).kind ≠ .VFS) ∨
    (¬ ThreeFree k ∧ (∀ f, (fd_core_table_init ops k p).tabs p f = none) ∧
      ∀ i, ((fd_core_table_init ops k p).g_descriptions i).refs = (k.g_descriptions i).refs) := by
  obtain ⟨hstarted, hinv⟩ := fd_core_table_init_spec ops h (p := p) (.inr hp)
  obtain hzero | ⟨-, a, b, c, ha, hb, hc, hab, hac, hbc, ha', hb', hc', htabs⟩ := hstarted.shape
  · right
    have hnone : ∀ f, (fd_core_table_init ops k p).tabs p f = none := fun f => by
      unfold Kernel.tabs
      rw [hzero]
      rfl
    refine ⟨fun hfree => ?_, hnone, fun i => ?_⟩
    · have hinit := fd_core_table_init_initialized ops hfree.card p
      rw [hzero] at hinit
      cases hinit
    · -- the forgotten table counts as a leak on one side and as names on the other
      have htabs : (fd_core_table_init ops k p).tabs =
          Function.update k.tabs p fun _ => none := by
        funext q
        by_cases hq : q = p
        · subst hq
          rw [update_self]
          exact funext hnone
        rw [update_of_ne hq]
        unfold Kernel.tabs Kernel.table
        rw [hstarted.other q hq]
      have hafter := hinv.counted.eq i
      have hbefore := h.counted.eq i
      have htotal := total_update k.tabs p (fun _ => none) i
      rw [holders_none] at htotal
      grind [Kernel.refs]
  · left
    have hfree : ∀ i, (k.g_descriptions i).used = false → (k.g_descriptions i).refs = 0 := by
      intro i hi
      by_contra hne
      have hused := (h.used i).mpr (Nat.pos_of_ne_zero hne)
      rw [hi] at hused
      cases hused
    refine ⟨⟨a, b, c, hab, hac, hbc, ha, hb, hc⟩, a, hfree a ha, by rw [ha'], fun f j hj => ?_⟩
    rw [htabs] at hj
    dsimp only at hj
    split at hj
    · cases hj
      rw [ha']
      decide
    grind

/-! ## `dup2` -/

/-- The entries of both descriptors and all counts are what they were. -/
structure Undisturbed (k k' : Kernel σ) (oldfd newfd : Int) : Prop where
  old : ∀ f, fdIx oldfd = some f → k'.tabs k.g_current_process f = k.tabs k.g_current_process f
  new : ∀ f, fdIx newfd = some f → k'.tabs k.g_current_process f = k.tabs k.g_current_process f
  refs : ∀ i, (k'.g_descriptions i).refs = (k.g_descriptions i).refs

theorem Undisturbed.refl (k : Kernel σ) (oldfd newfd : Int) : Undisturbed k k oldfd newfd :=
  ⟨fun _ _ => rfl, fun _ _ => rfl, fun _ => rfl⟩

/-- The filesystem refuses to close the node of the descriptor, which is the last to refer to
it. -/
def Stuck (ops : FsOps σ) (k : Kernel σ) (fd : Int) : Prop :=
  ∃ f i, fd_lookup k k.g_current_process fd = some (f, i) ∧ (k.g_descriptions i).refs ≤ 1 ∧
    (k.g_descriptions i).kind = .VFS ∧
    ∃ rc, (ops.fs_core_close k.fs (k.g_descriptions i).node_id).1 = .error rc

/-- A release fails on an entry that names no description, and then does nothing, or if the
close does, and then the entry is gone. -/
theorem fd_release_entry_neg {k : Kernel σ} {fd : Int} {f : FdIx} (hf : fdIx fd = some f)
    (hneg : (fd_release_entry ops k k.g_current_process f).1 < 0) :
    (fd_release_entry ops k k.g_current_process f).2 = k ∧
        fd_lookup k k.g_current_process fd = none ∨
      (fd_release_entry ops k k.g_current_process f).2.tabs k.g_current_process f = none ∧
        Stuck ops k fd := by
  unfold fd_release_entry at hneg ⊢
  cases hd : fd_description k k.g_current_process f with
  | none => simp_all [fd_lookup]
  | some i =>
    right
    rw [hd] at hneg
    dsimp only at hneg ⊢
    have hlookup : fd_lookup k k.g_current_process fd = some (f, i) := by
      unfold fd_lookup
      rw [hf]
      dsimp only
      rw [hd]
    have hdesc : (k.setEntry k.g_current_process f none).g_descriptions = k.g_descriptions := rfl
    rw [hdesc] at hneg ⊢
    generalize hd' : (if (k.g_descriptions i).refs > 0 then
        { k.g_descriptions i with refs := (k.g_descriptions i).refs - 1 }
      else k.g_descriptions i) = d at hneg ⊢
    obtain ⟨hcount, hkind', hnode⟩ : d.refs = (k.g_descriptions i).refs - 1 ∧
        d.kind = (k.g_descriptions i).kind ∧ d.node_id = (k.g_descriptions i).node_id := by grind
    by_cases hlast : d.refs = 0
    swap
    · rw [if_pos hlast] at hneg
      exact absurd hneg (Int.lt_irrefl 0)
    rw [if_neg (not_not.mpr hlast)] at hneg ⊢
    unfold fd_close_description at hneg ⊢
    rw [setDesc_self] at hneg ⊢
    by_cases hkind : d.kind = .VFS
    swap
    · rw [if_neg hkind] at hneg
      exact absurd hneg (Int.lt_irrefl 0)
    rw [if_pos hkind] at hneg ⊢
    have hfs : ((k.setEntry k.g_current_process f none).setDesc i d).fs = k.fs := rfl
    rw [hfs, hnode] at hneg ⊢
    cases hclose : ops.fs_core_close k.fs (k.g_descriptions i).node_id with
    | mk rc fs =>
    rw [hclose] at hneg
    cases rc with
    | ok u => exact absurd hneg (Int.lt_irrefl 0)
    | error rc =>
      refine ⟨?_, f, i, hlookup, by omega, hkind' ▸ hkind, rc, by rw [hclose]⟩
      show (k.setEntry k.g_current_process f none).tabs k.g_current_process f = none
      rw [setEntry_tabs, update_self, update_self]

/-- When a `dup2` that fails has left the table alone. -/
def Spares (ops : FsOps σ) (k : Kernel σ) (oldfd newfd : Int) : Prop :=
  if (k.table k.g_current_process).initialized = true then
    ¬ ((fd_lookup k k.g_current_process oldfd).isSome ∧ oldfd ≠ newfd ∧ Stuck ops k newfd)
  else
    ¬ ThreeFree k ∧ ∀ fd ∈ [oldfd, newfd], ∀ f, fdIx fd = some f →
      k.tabs k.g_current_process f = none

theorem fdIx_nonneg {fd : Int} {f : FdIx} (h : fdIx fd = some f) : 0 ≤ fd := by
  rw [fdIx_val h]
  exact Int.natCast_nonneg _

/-- How a `dup2` fails once the table is there: nothing has been done yet, or the target could
not be closed and is gone. -/
theorem fd_core_dup2_neg {k k1 : Kernel σ} (hk1 : fd_core_init ops k = k1) {oldfd newfd : Int}
    (hneg : (fd_core_dup2 ops k oldfd newfd).1 < 0) :
    (fd_core_dup2 ops k oldfd newfd).2 = k1 ∧
        ¬ ((fd_lookup k1 k1.g_current_process oldfd).isSome ∧ oldfd ≠ newfd ∧ Stuck ops k1 newfd) ∨
      (fd_lookup k1 k1.g_current_process oldfd).isSome ∧ oldfd ≠ newfd ∧ Stuck ops k1 newfd ∧
        ∀ f, fdIx newfd = some f →
          (fd_core_dup2 ops k oldfd newfd).2.tabs k1.g_current_process f = none := by
  unfold fd_core_dup2 at hneg ⊢
  rw [hk1] at hneg ⊢
  dsimp only at hneg ⊢
  cases hold : fd_lookup k1 k1.g_current_process oldfd with
  | none => exact .inl ⟨rfl, fun h => Bool.false_ne_true h.1⟩
  | some x =>
  obtain ⟨old, i⟩ := x
  rw [hold] at hneg
  dsimp only at hneg ⊢
  cases hnew : fdIx newfd with
  | none => grind
  | some new =>
  rw [hnew] at hneg
  dsimp only at hneg ⊢
  by_cases heq : oldfd = newfd
  · -- the call succeeds
    grind
  rw [if_neg heq] at hneg ⊢
  generalize hrel : (if ((k1.table k1.g_current_process).entries new).isSome = true then
    fd_release_entry ops k1 k1.g_current_process new else (0, k1)) = released at hneg ⊢
  by_cases hrc : released.1 < 0
  swap
  · rw [if_neg hrc] at hneg
    exact absurd hneg (Int.not_lt.mpr (fdIx_nonneg hnew))
  rw [if_pos hrc]
  split at hrel
  · subst hrel
    obtain ⟨hsame, hnone⟩ | ⟨hgone, hstuck⟩ := fd_release_entry_neg hnew hrc
    · refine .inl ⟨hsame, ?_⟩
      rintro ⟨-, -, f, j, hlookup, -⟩
      cases hnone.symm.trans hlookup
    grind
  · subst hrel
    exact absurd hrc (Int.lt_irrefl 0)

/-- A `dup2` that fails leaves both entries and all counts alone exactly if its target was not
the last descriptor of a node that the filesystem refuses to close. For a process without a
table it does so exactly if no table could be made for it either. -/
theorem dup2_atomic_iff (ops : FsOps σ) (k : Kernel σ) (oldfd newfd : Int)
    (hk : (k.table k.g_current_process).initialized = true ∨ ∃ leak, Refs leak k)
    (hneg : (fd_core_dup2 ops k oldfd newfd).1 < 0) :
    Undisturbed k (fd_core_dup2 ops k oldfd newfd).2 oldfd newfd ↔ Spares ops k oldfd newfd := by
  unfold Spares
  by_cases hinit : (k.table k.g_current_process).initialized = true
  · rw [if_pos hinit]
    have hk1 : fd_core_init ops k = k := by
      unfold fd_core_init
      rw [if_neg (by rw [hinit]; decide)]
    obtain ⟨hsame, hno⟩ | ⟨hold, hne, hstuck, hgone⟩ := fd_core_dup2_neg hk1 hneg
    · rw [hsame]
      exact iff_of_true (.refl _ _ _) hno
    refine iff_of_false (fun h => ?_) (not_not.mpr ⟨hold, hne, hstuck⟩)
    obtain ⟨f, i, hlookup, -⟩ := hstuck
    obtain ⟨hf, hentry⟩ := fd_lookup_some hlookup
    have := (hgone f hf).symm.trans (h.new f hf)
    rw [hentry] at this
    cases this
  rw [if_neg hinit]
  have hoff : (k.table k.g_current_process).initialized = false :=
    Bool.eq_false_of_not_eq_true hinit
  obtain ⟨leak, hrefs⟩ := hk.resolve_left hinit
  have hk1 : fd_core_init ops k = fd_core_table_init ops k k.g_current_process := by
    unfold fd_core_init
    rw [if_pos hoff]
  have hcur : (fd_core_table_init ops k k.g_current_process).g_current_process =
      k.g_current_process := (fd_core_table_init_spec ops hrefs (.inr hoff)).1.current
  have hcases := table_init_cases ops hrefs hoff
  obtain ⟨hsame, -⟩ | ⟨-, -, ⟨f, i, hlookup, -, hkind, -⟩, -⟩ := fd_core_dup2_neg hk1 hneg
  · rw [hsame]
    obtain ⟨hthree, i, h0, h1, -⟩ | ⟨hnot, hnone, hsame⟩ := hcases
    · refine iff_of_false (fun h => ?_) fun h => h.1 hthree
      have := h.refs i
      omega
    constructor
    · refine fun h => ⟨hnot, fun fd hfd f hf => ?_⟩
      obtain rfl | rfl : fd = oldfd ∨ fd = newfd := by simpa using hfd
      · rw [← h.old f hf, hnone]
      · rw [← h.new f hf, hnone]
    · rintro ⟨-, hentries⟩
      exact ⟨fun f hf => by rw [hnone, hentries oldfd (by simp) f hf],
        fun f hf => by rw [hnone, hentries newfd (by simp) f hf], hsame⟩
  · -- a new table has no descriptor of a file
    rw [hcur] at hlookup
    have hentry := (fd_lookup_some hlookup).2
    grind

end

/-! ### Over a RAMFS -/

/-- A process over an empty RAMFS opens `/d`, and the file is removed. -/
def orphaned : Kernel (Vfs.State Ramfs.State Unit) :=
  let ops := ops ramfsDriver silent
  let k := (fd_core_open ops (boot ops bareRoot) dirName (FS_O_CREAT ||| FS_O_WRONLY)).2
  { k with fs := (fs_core_unlink ramfsDriver k.fs [Vfs.SLASH] dirName).2 }

/-- Its descriptor is 3. A `dup2` from a descriptor that is not open fails and changes
nothing. -/
theorem dup2_bad_source :
    (fd_core_dup2 (ops ramfsDriver silent) orphaned 9 3).1 = -POSIX_EBADF ∧
      Undisturbed orphaned
        (fd_core_dup2 (ops ramfsDriver silent) orphaned 9 3).2 9 3 := by
  have hinit : (orphaned.table orphaned.g_current_process).initialized = true := by
    decide +kernel
  have hrc : (fd_core_dup2 (ops ramfsDriver silent) orphaned 9 3).1 =
      -POSIX_EBADF := by decide +kernel
  refine ⟨hrc, (dup2_atomic_iff _ _ 9 3 (.inl hinit) (by rw [hrc]; decide)).mpr ?_⟩
  have hclosed : (fd_lookup orphaned orphaned.g_current_process 9).isSome = false := by
    decide +kernel
  grind [Spares]

/-- A `dup2` of the terminal onto it fails, since the removed file cannot be closed, and the
descriptor is closed nevertheless. -/
theorem dup2_loses_target :
    (fd_core_dup2 (ops ramfsDriver silent) orphaned 1 3).1 = -POSIX_EINVAL ∧
      ¬ Undisturbed orphaned
        (fd_core_dup2 (ops ramfsDriver silent) orphaned 1 3).2 1 3 := by
  refine ⟨by decide +kernel, fun h => ?_⟩
  have hentry := h.new ⟨3, by decide⟩ rfl
  revert hentry
  decide +kernel

end System1.Fd
