/-
The descriptor layer over a RAMFS root refines the reference model.

`Rel` ties a kernel state to a state of the reference model: the same tables and the
same current process, the same offset, node and flags for every description that a
table names, and the same bytes for every file. Counts, slots and descriptions that
nobody names are not related to anything. Each call of the kernel is matched by one step
of the model with the same answer, the oracle answering what the kernel's own layers
below answered; so every run of the kernel is a run of the model.

The counts are needed in one place only: a description that a table names is never
handed out again, because it is in use.
-/
import System1.RamfsRoot

set_option autoImplicit false

namespace System1.Posix

open System1.Lib System1.Fd System1.Ramfs Function

variable {τ : Type}

/-- The kernel over a RAMFS root. -/
abbrev Sys (τ : Type) : Type := Kernel (Vfs.State Ramfs.State τ)

/-- Some table names the description. -/
def Names (k : Sys τ) (i : DescIx) : Prop := ∃ p f, k.tabs p f = some i

/-- What the reference model keeps of a description. -/
def view (d : Description) : OpenFile := ⟨d.kind, d.node_id, d.offset, d.flags⟩

structure Rel (k : Sys τ) (r : Ref) : Prop where
  table : r.table = k.table
  current : r.current = k.g_current_process
  descr : ∀ i, Names k i → r.descr i = view (k.g_descriptions i)
  file : r.file = filesOf k.fs.root

/-- The states the simulation goes through: counted, over a well-formed RAMFS, and with
every VFS description that is named bound to a file that exists, or a device. -/
structure Good (k : Sys τ) : Prop where
  refs : ∃ leak, Refs leak k
  inv : Inv k.fs.root
  node : ∀ i, Names k i → (k.g_descriptions i).kind = .VFS →
    Closable k.fs.root (k.g_descriptions i).node_id
  offset : ∀ i, Names k i → Vfs.isPseudo (k.g_descriptions i).node_id = false →
    (k.g_descriptions i).offset < 2 ^ 32

/-! ## Keeping the relation -/

section Keep

variable {k : Sys τ} {r : Ref}

/-- Both sides find the same description behind a descriptor. -/
theorem Rel.lookup (h : Rel k r) (g : Good k) (fd : Int) :
    r.lookup fd = fd_lookup k k.g_current_process fd := by
  obtain ⟨leak, hrefs⟩ := g.refs
  rw [fd_lookup_eq hrefs]
  unfold Ref.lookup
  rw [h.table, h.current]
  rfl

theorem Rel.lowest (h : Rel k r) : r.lowest = fd_find_free k k.g_current_process := by
  unfold Ref.lowest fd_find_free
  rw [h.table, h.current]

/-- The state below changes, but no file. -/
theorem Rel.below (h : Rel k r) {fs : Vfs.State Ramfs.State τ}
    (hfile : filesOf fs.root = filesOf k.fs.root) : Rel { k with fs := fs } r :=
  ⟨h.table, h.current, h.descr, h.file.trans hfile.symm⟩

/-- A node that can be closed still can when no file has gone. -/
theorem Closable.mono {s s' : Ramfs.State} {n : Nat} (h : Closable s n)
    (hfile : ∀ m, (filesOf s m).isSome → (filesOf s' m).isSome) : Closable s' n := by
  rcases h with h | ⟨hp, hf⟩
  · exact .inl h
  · exact .inr ⟨hp, hfile n hf⟩

/-- The invariant does not depend on the filesystem below, but for the files held open. -/
theorem Good.below (g : Good k) {fs : Vfs.State Ramfs.State τ} (hinv : Inv fs.root)
    (hfile : ∀ m, (filesOf k.fs.root m).isSome → (filesOf fs.root m).isSome) :
    Good { k with fs := fs } := by
  obtain ⟨leak, hrefs⟩ := g.refs
  exact ⟨⟨leak, (CallOk.below hrefs fs).refs⟩, hinv,
    fun i hi hv => (g.node i hi hv).mono hfile, g.offset⟩

/-- One description moves its offset, and the files may change with it. -/
theorem Rel.moved (h : Rel k r) (i : DescIx) (d : Description) (fs : Vfs.State Ramfs.State τ)
    {file : Nat → Option (List UInt8)} (hfile : file = filesOf fs.root) :
    Rel { k.setDesc i d with fs := fs } (({ r with file := file } : Ref).setDescr i (view d)) := by
  refine ⟨h.table, h.current, fun j hj => ?_, hfile⟩
  show update r.descr i (view d) j = view ((k.setDesc i d).g_descriptions j)
  by_cases hji : j = i
  · rw [hji, update_self, setDesc_self]
  · rw [update_of_ne hji, setDesc_ne _ _ _ hji]
    exact h.descr j hj

/-- A description may change its offset, and the files their contents. -/
theorem Good.moved (g : Good k) (i : DescIx) {d : Description} (fs : Vfs.State Ramfs.State τ)
    (hr : d.refs = (k.g_descriptions i).refs) (hu : d.used = (k.g_descriptions i).used)
    (hkind : d.kind = (k.g_descriptions i).kind) (hnode : d.node_id = (k.g_descriptions i).node_id)
    (hoff : Vfs.isPseudo d.node_id = false → d.offset < 2 ^ 32) (hinv : Inv fs.root)
    (hfile : ∀ m, (filesOf k.fs.root m).isSome → (filesOf fs.root m).isSome) :
    Good { k.setDesc i d with fs := fs } := by
  obtain ⟨leak, hrefs⟩ := g.refs
  refine ⟨⟨leak, (CallOk.moved hrefs fs i hr hu).refs⟩, hinv, fun j hj hv => ?_,
    fun j hj hp => ?_⟩
  · show Closable fs.root ((k.setDesc i d).g_descriptions j).node_id
    change ((k.setDesc i d).g_descriptions j).kind = .VFS at hv
    by_cases hji : j = i
    · rw [hji, setDesc_self] at hv ⊢
      rw [hnode]
      exact (g.node i (hji ▸ hj) (hkind ▸ hv)).mono hfile
    · rw [setDesc_ne _ _ _ hji] at hv ⊢
      exact (g.node j hj hv).mono hfile
  · show ((k.setDesc i d).g_descriptions j).offset < 2 ^ 32
    change Vfs.isPseudo ((k.setDesc i d).g_descriptions j).node_id = false at hp
    by_cases hji : j = i
    · rw [hji, setDesc_self] at hp ⊢
      exact hoff hp
    · rw [setDesc_ne _ _ _ hji] at hp ⊢
      exact g.offset j hj hp

/-- The tables change, but every description that is named was named before, and keeps
everything but its count. -/
theorem tables_sim (g : Good k) (h : Rel k r) {k' : Sys τ} {r' : Ref}
    (hrefs : ∃ leak, Refs leak k') (hfs : k'.fs = k.fs)
    (hview : ∀ j, Names k' j → Names k j ∧ view (k'.g_descriptions j) = view (k.g_descriptions j))
    (htable : r'.table = k'.table) (hcurrent : r'.current = k'.g_current_process)
    (hdescr : r'.descr = r.descr) (hfile : r'.file = r.file) : Good k' ∧ Rel k' r' := by
  refine ⟨⟨hrefs, hfs ▸ g.inv, fun j hj hv => ?_, fun j hj hp => ?_⟩,
    htable, hcurrent, fun j hj => ?_, ?_⟩
  · obtain ⟨hn, hv'⟩ := hview j hj
    rw [hfs, show (k'.g_descriptions j).node_id = _ from congrArg OpenFile.node hv']
    exact g.node j hn ((congrArg OpenFile.kind hv').symm.trans hv)
  · obtain ⟨hn, hv'⟩ := hview j hj
    rw [show (k'.g_descriptions j).offset = _ from congrArg OpenFile.offset hv']
    exact g.offset j hn ((congrArg (Vfs.isPseudo ∘ OpenFile.node) hv').symm.trans hp)
  · obtain ⟨hn, hv'⟩ := hview j hj
    rw [hv', hdescr]
    exact h.descr j hn
  · rw [hfs, hfile]
    exact h.file

theorem names_of_lookup {fd : Int} {f : FdIx} {i : DescIx}
    (h : fd_lookup k k.g_current_process fd = some (f, i)) : Names k i :=
  ⟨_, _, (fd_lookup_some h).2⟩

end Keep

/-! ## The first call of a process -/

/-- The standard descriptions are distinct and not named by any other table. -/
def StdOk (r : Ref) (std : Option (DescIx × DescIx × DescIx)) : Prop :=
  ∀ a b d, std = some (a, b, d) → a ≠ b ∧ a ≠ d ∧ b ≠ d ∧
    ∀ i, i = a ∨ i = b ∨ i = d → ¬ (r.setTable r.current FdTable.zero).Named i

section

variable {P : Vfs.Devices τ} {k k1 : Sys τ}

/-- A description that another process names survives the start of a table as it is. -/
theorem started_kept {leak leak' : DescIx → Nat} (hrefs : Refs leak k) (hrefs' : Refs leak' k1)
    (hst : Started (rootOps P) k k1 k.g_current_process) {q : ProcIx} {f : FdIx}
    {i : DescIx} (hq : q ≠ k.g_current_process) (he : k1.tabs q f = some i) :
    Names k i ∧ (k.g_descriptions i).used = true ∧
      view (k1.g_descriptions i) = view (k.g_descriptions i) := by
  have he' : k.tabs q f = some i := by
    rw [← he]
    unfold Kernel.tabs Kernel.table
    rw [hst.other q hq]
  have hu := RefsInv.named hrefs he'
  refine ⟨⟨q, f, he'⟩, hu, ?_⟩
  rw [hst.desc i hu (RefsInv.named hrefs' he)]
  rfl

/-- After the start of a table every named description is a standard one or was named
before. -/
theorem started_good {leak' : DescIx → Nat} (g : Good k) (hrefs' : Refs leak' k1)
    (hst : Started (rootOps P) k k1 k.g_current_process) {S : DescIx → Prop}
    (hS : ∀ i, S i → (k1.g_descriptions i).kind ≠ .VFS ∧
      (k1.g_descriptions i).offset < 2 ^ 32)
    (hself : ∀ f i, k1.tabs k.g_current_process f = some i → S i) :
    Good k1 ∧ ∀ i, Names k1 i → S i ∨ (Names k i ∧ (k.g_descriptions i).used = true ∧
      view (k1.g_descriptions i) = view (k.g_descriptions i)) := by
  obtain ⟨leak, hrefs⟩ := g.refs
  have hfs := hst.fs fs_core_close_pure
  have hnamed : ∀ i, Names k1 i → S i ∨ (Names k i ∧ (k.g_descriptions i).used = true ∧
      view (k1.g_descriptions i) = view (k.g_descriptions i)) := by
    rintro i ⟨q, f, he⟩
    by_cases hq : q = k.g_current_process
    · exact .inl (hself f i (hq ▸ he))
    · exact .inr (started_kept hrefs hrefs' hst hq he)
  refine ⟨⟨⟨_, hrefs'⟩, hfs ▸ g.inv, fun i hi hv => ?_, fun i hi hp => ?_⟩, hnamed⟩
  · rcases hnamed i hi with hs | ⟨hn, -, hview⟩
    · exact absurd hv (hS i hs).1
    · rw [hfs, show (k1.g_descriptions i).node_id = _ from congrArg OpenFile.node hview]
      exact g.node i hn ((congrArg OpenFile.kind hview).symm.trans hv)
  · rcases hnamed i hi with hs | ⟨hn, -, hview⟩
    · exact (hS i hs).2
    · rw [show (k1.g_descriptions i).offset = _ from congrArg OpenFile.offset hview]
      exact g.offset i hn ((congrArg (Vfs.isPseudo ∘ OpenFile.node) hview).symm.trans hp)

/-- The table of the current process is replaced, in both models. -/
theorem started_table {r : Ref} (h : Rel k r)
    (hst : Started (rootOps P) k k1 k.g_current_process) :
    (r.setTable r.current (k1.table k.g_current_process)).table = k1.table := by
  funext q
  show update r.table r.current (k1.table k.g_current_process) q = k1.table q
  rw [h.current]
  by_cases hq : q = k.g_current_process
  · rw [hq, update_self]
  rw [update_of_ne hq, h.table]
  unfold Kernel.table
  rw [hst.other q hq]

end

/-- A process that makes its first call gets its table on both sides. Either there are three
descriptions for the standard descriptors or it has none. -/
theorem start_sim (P : Vfs.Devices τ) {k : Sys τ} {r : Ref} (g : Good k) (h : Rel k r) :
    ∃ std, StdOk r std ∧ Good (fd_core_init (rootOps P) k) ∧
      Rel (fd_core_init (rootOps P) k) (r.start std) := by
  obtain ⟨leak, hrefs⟩ := g.refs
  rcases fd_core_init_spec (rootOps P) hrefs with ⟨hinit, heq⟩ | ⟨hinit, hst, hrefs'⟩
  · refine ⟨none, fun a b d hs => (by cases hs), by rw [heq]; exact g, ?_⟩
    unfold Ref.start
    rw [heq, if_pos (by rw [h.table, h.current]; exact hinit)]
    exact h
  have hfs := hst.fs fs_core_close_pure
  have htable := started_table h hst
  generalize fd_core_init (rootOps P) k = k1 at hst hrefs' hfs htable
  have hnew : ¬ (r.table r.current).initialized = true := by
    rw [h.table, h.current, hinit]
    decide
  have hcur : r.current = k1.g_current_process := h.current.trans hst.current.symm
  have hfile : r.file = filesOf k1.fs.root := by
    rw [hfs]
    exact h.file
  rcases hst.shape with hzero | ⟨hon, a, b, c, hfa, hfb, hfc, hab, hac, hbc, hda, hdb, hdc, htabs⟩
  · -- no descriptions: the table stays empty
    obtain ⟨g1, hnamed⟩ := started_good g hrefs' hst (S := fun _ => False) (fun i hi => hi.elim)
      (fun f i he => by
        unfold Kernel.tabs at he
        rw [hzero] at he
        cases he)
    refine ⟨none, fun a b d hs => (by cases hs), g1, ?_⟩
    unfold Ref.start
    rw [if_neg hnew]
    refine ⟨by rw [← htable, hzero], hcur, fun i hi => ?_, hfile⟩
    obtain ⟨hn, -, hview⟩ := (hnamed i hi).resolve_left id
    exact (h.descr i hn).trans hview.symm
  have hstd : k1.table k.g_current_process = Ref.stdTable a b c := by
    show FdTable.mk (k1.tabs k.g_current_process) (k1.table k.g_current_process).initialized = _
    rw [htabs, hon]
    rfl
  obtain ⟨g1, hnamed⟩ := started_good g hrefs' hst (S := fun i => i = a ∨ i = b ∨ i = c)
    (by
      rintro i (rfl | rfl | rfl)
      · rw [hda]
        exact ⟨by decide, by decide⟩
      · rw [hdb]
        exact ⟨by decide, by decide⟩
      · rw [hdc]
        exact ⟨by decide, by decide⟩)
    (by
      intro f i he
      rw [htabs] at he
      dsimp only at he
      split at he
      · exact .inl (Option.some.inj he).symm
      split at he
      · exact .inr (.inl (Option.some.inj he).symm)
      split at he
      · exact .inr (.inr (Option.some.inj he).symm)
      · cases he)
  have hunused : ∀ i, i = a ∨ i = b ∨ i = c → (k.g_descriptions i).used = false := by grind
  refine ⟨some (a, b, c), ?_, g1, ?_⟩
  · -- the new descriptions were not in use, so nobody named them
    intro a' b' d' hs
    cases hs
    refine ⟨hab, hac, hbc, ?_⟩
    rintro i hi ⟨q, f, he⟩
    by_cases hq : q = r.current
    · rw [hq] at he
      simp only [Ref.setTable, update_self] at he
      cases he
    simp only [Ref.setTable, update_of_ne hq, h.table] at he
    have hu := RefsInv.named hrefs (show k.tabs q f = some i from he)
    rw [hunused i hi] at hu
    cases hu
  · unfold Ref.start
    rw [if_neg hnew]
    refine ⟨by rw [← htable, hstd]; rfl, hcur, fun i hi => ?_, hfile⟩
    show update (update (update r.descr a _) b _) c _ i = _
    by_cases hic : i = c
    · rw [hic, update_self, hdc]
      rfl
    rw [update_of_ne hic]
    by_cases hib : i = b
    · rw [hib, update_self, hdb]
      rfl
    rw [update_of_ne hib]
    by_cases hia : i = a
    · rw [hia, update_self, hda]
      rfl
    rw [update_of_ne hia]
    obtain ⟨hn, -, hview⟩ := (hnamed i hi).resolve_left (by simp [hia, hib, hic])
    exact (h.descr i hn).trans hview.symm

end System1.Posix
