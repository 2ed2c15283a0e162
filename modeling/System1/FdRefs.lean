/-
Reference counts of the open file descriptions.

The descriptor layer instantiates the reference-counting system of `Lib.RefCount`:
the tables are the descriptor tables of the sixteen process slots, the objects are the
descriptions. `Refs` is its invariant together with the meaning of the `used` flag.

Two calls forget a table without dropping its entries: a spawn clears the slot it is
about to use, and the first descriptor call of a process resets a table that is not
initialised. Those are the loose tables. The invariant therefore holds in every
reachable state, up to a leak that can only grow at these two calls; it is exact as
long as the tables they forget are empty.
-/
import System1.Fd
import System1.Lib.RefCount
import System1.Lib.Search

set_option autoImplicit false

namespace System1.Fd

open System1.Lib Function List

variable {σ : Type} {ops : FsOps σ}

/-! ## Tables and counts of a kernel state -/

/-- The descriptor tables as a family. -/
def Kernel.tabs (k : Kernel σ) : ProcIx → FdIx → Option DescIx := fun p => (k.table p).entries

/-- The reference counts. -/
def Kernel.refs (k : Kernel σ) : DescIx → Nat := fun i => (k.g_descriptions i).refs

/-- The table may be forgotten: its slot is unused or it is not initialised. -/
def Kernel.Loose (k : Kernel σ) (p : ProcIx) : Prop :=
  (k.g_processes p).state = .UNUSED ∨ (k.table p).initialized = false

section Updates

variable (k : Kernel σ) (p : ProcIx) (i : DescIx)

@[simp] theorem setTable_table_self (t : FdTable) : (k.setTable p t).table p = t := by
  simp [Kernel.setTable, Kernel.setProc, Kernel.table]

theorem tabs_setProc (x : Process) :
    (k.setProc p x).tabs = update k.tabs p x.fd_table.entries :=
  comp_update (fun x : Process => x.fd_table.entries) k.g_processes p x

theorem setTable_tabs (t : FdTable) : (k.setTable p t).tabs = update k.tabs p t.entries :=
  tabs_setProc k p _

/-- Raising the flag of a table moves no entry. -/
theorem raised_tabs :
    (k.setTable p { k.table p with initialized := true }).tabs = k.tabs :=
  (setTable_tabs k p _).trans (update_eq_self p k.tabs)

theorem setEntry_tabs (fd : FdIx) (e : Option DescIx) :
    (k.setEntry p fd e).tabs = update k.tabs p (update (k.tabs p) fd e) := by
  unfold Kernel.setEntry
  rw [setTable_tabs]
  rfl

theorem setDesc_refs (d : Description) :
    (k.setDesc i d).refs = update k.refs i d.refs :=
  comp_update Description.refs k.g_descriptions i d

@[simp] theorem setDesc_self (d : Description) : (k.setDesc i d).g_descriptions i = d :=
  update_self ..

theorem setDesc_ne (d : Description) {j : DescIx} (h : j ≠ i) :
    (k.setDesc i d).g_descriptions j = k.g_descriptions j :=
  update_of_ne h ..

theorem setDesc_fs (d : Description) : (k.setDesc i d).fs = k.fs := rfl

/-- The second of two stores to one description wins, whatever happens below between them. -/
theorem setDesc_setDesc (d d' : Description) (fs fs' : σ) :
    ({ ({ k with fs := fs }).setDesc i d with fs := fs' } : Kernel σ).setDesc i d' =
      { k.setDesc i d' with fs := fs' } := by
  unfold Kernel.setDesc
  simp

end Updates

/-- Everything but the descriptor tables, the descriptions and what lies below is the
same, and the tables keep their `initialized` flags. -/
structure Frame (k k' : Kernel σ) : Prop where
  pid : ∀ q, (k'.g_processes q).pid = (k.g_processes q).pid
  ppid : ∀ q, (k'.g_processes q).ppid = (k.g_processes q).ppid
  state : ∀ q, (k'.g_processes q).state = (k.g_processes q).state
  cwd : ∀ q, (k'.g_processes q).cwd = (k.g_processes q).cwd
  initialized : ∀ q, (k'.table q).initialized = (k.table q).initialized
  current : k'.g_current_process = k.g_current_process
  next_pid : k'.g_next_pid = k.g_next_pid

variable {k' k'' : Kernel σ}

variable {k : Kernel σ}

namespace Frame

theorem refl (k : Kernel σ) : Frame k k :=
  ⟨fun _ => rfl, fun _ => rfl, fun _ => rfl, fun _ => rfl, fun _ => rfl, rfl, rfl⟩

/-- What two steps close is what the first closes and then what the second does. -/
theorem trans (h : Frame k k') (h' : Frame k' k'') : Frame k k'' :=
  ⟨fun q => (h'.pid q).trans (h.pid q), fun q => (h'.ppid q).trans (h.ppid q),
    fun q => (h'.state q).trans (h.state q), fun q => (h'.cwd q).trans (h.cwd q),
    fun q => (h'.initialized q).trans (h.initialized q), h'.current.trans h.current,
    h'.next_pid.trans h.next_pid⟩

theorem loose (h : Frame k k') (p : ProcIx) : k'.Loose p ↔ k.Loose p := by
  unfold Kernel.Loose
  rw [h.state p, h.initialized p]

/-- A new table entry changes nothing but itself. -/
theorem setEntry (k : Kernel σ) (p : ProcIx) (fd : FdIx) (e : Option DescIx) :
    Frame k (k.setEntry p fd e) := by
  have hproc : ∀ q, q = p ∨ (k.setEntry p fd e).g_processes q = k.g_processes q := by
    intro q
    by_cases h : q = p
    · exact .inl h
    · exact .inr (update_of_ne h ..)
  have hself : (k.setEntry p fd e).g_processes p = { k.g_processes p with
      fd_table := { k.table p with entries := update (k.table p).entries fd e } } :=
    update_self ..
  refine ⟨?_, ?_, ?_, ?_, ?_, rfl, rfl⟩ <;>
  · grind [Kernel.table]

/-- A process whose entries are unchanged is unchanged. -/
theorem proc_eq (h : Frame k k') {q : ProcIx} (ht : k'.tabs q = k.tabs q) :
    k'.g_processes q = k.g_processes q := by
  have htable : k'.table q = k.table q := by
    show FdTable.mk (k'.tabs q) (k'.table q).initialized =
      FdTable.mk (k.tabs q) (k.table q).initialized
    rw [ht, h.initialized q]
  show Process.mk _ _ _ _ (k'.table q) = Process.mk _ _ _ _ (k.table q)
  rw [h.pid q, h.ppid q, h.state q, h.cwd q, htable]

theorem setDesc (k : Kernel σ) (i : DescIx) (d : Description) : Frame k (k.setDesc i d) :=
  ⟨fun _ => rfl, fun _ => rfl, fun _ => rfl, fun _ => rfl, fun _ => rfl, rfl, rfl⟩

end Frame

/-- The invariant, against a set of loose tables: the counts are right up to the leak,
and a description is in use exactly when it is counted. -/
structure RefsInv (loose : ProcIx → Prop) (leak : DescIx → Nat) (k : Kernel σ) : Prop where
  counted : Counted loose leak k.tabs k.refs
  used : ∀ i, (k.g_descriptions i).used = true ↔ 0 < (k.g_descriptions i).refs

/-- The invariant of the descriptor layer. -/
def Refs (leak : DescIx → Nat) (k : Kernel σ) : Prop := RefsInv k.Loose leak k

variable {fd : FdIx} {d : Description}

variable {p : ProcIx} {i : DescIx}

namespace RefsInv

variable {loose : ProcIx → Prop} {leak : DescIx → Nat} {k : Kernel σ}

theorem mono (h : RefsInv loose leak k) {loose' : ProcIx → Prop}
    (hl : ∀ p, loose' p → loose p ∨ ∀ fd, k.tabs p fd = none) : RefsInv loose' leak k :=
  ⟨h.counted.mono hl, h.used⟩

theorem refs_of_frame (h : RefsInv k.Loose leak k') (hf : Frame k k') :
    Refs leak k' :=
  h.mono fun p hp => .inl ((hf.loose p).mp hp)

/-- A named description is in use. -/
theorem named (h : RefsInv loose leak k) (he : k.tabs p fd = some i) :
    (k.g_descriptions i).used = true :=
  (h.used i).mpr (h.counted.refs_pos he)

/-- A used description is behind every entry, so the check of the code passes. -/
theorem description_eq (h : RefsInv loose leak k) (p : ProcIx) (fd : FdIx) :
    fd_description k p fd = k.tabs p fd := by
  unfold fd_description
  cases he : (k.table p).entries fd with
  | none => exact he.symm
  | some i =>
    have hu : (k.g_descriptions i).used = true := h.named he
    dsimp only
    rw [if_neg (by simp [hu])]
    exact he.symm

theorem refs_lt (h : RefsInv loose leak k) (i : DescIx) :
    (k.g_descriptions i).refs < 2 ^ 16 - 1 := by
  have hle := h.counted.refs_le i
  simp only [Fintype.card_fin, PROCESS_MAX, POSIX_FD_CAP, Kernel.refs] at hle
  omega

/-- Storing a description with a positive count and `used` set, or a zeroed one. -/
theorem setDesc_used (h : ∀ i, (k.g_descriptions i).used = true ↔ 0 < (k.g_descriptions i).refs)
    (i : DescIx) (hd : d.used = true ↔ 0 < d.refs) (j : DescIx) :
    ((k.setDesc i d).g_descriptions j).used = true ↔
      0 < ((k.setDesc i d).g_descriptions j).refs := by grind [setDesc_self, setDesc_ne]

section

variable (h : RefsInv loose leak k) {p : ProcIx}

include h

/-- A fresh description is named by a free entry. -/
theorem fresh (hfree : (k.g_descriptions i).used = false) (hfd : k.tabs p fd = none)
    (hd : d.used = true) (hr : d.refs = 1) :
    RefsInv loose leak ((k.setDesc i d).setEntry p fd (some i)) := by
  have hzero : k.refs i = 0 := by
    by_contra hne
    have hu := (h.used i).mpr (Nat.pos_of_ne_zero hne)
    rw [hfree] at hu
    cases hu
  refine ⟨?_, fun j => setDesc_used h.used i (by simp [hd, hr]) j⟩
  rw [setEntry_tabs]
  have hrefs : ((k.setDesc i d).setEntry p fd (some i)).refs = update k.refs i 1 := by
    rw [← hr, ← setDesc_refs]
    rfl
  rw [hrefs]
  exact h.counted.fresh hzero hfd

/-- A free entry comes to name a description that is already in use. -/
theorem share (hfd : k.tabs p fd = none) (hu : (k.g_descriptions i).used = true)
    (hl : loose p → Holds k.tabs p i) :
    RefsInv loose leak ((k.setEntry p fd (some i)).addRef i) := by
  have hlt := h.refs_lt i
  have hmod : ((k.g_descriptions i).refs + 1) % 2 ^ 16 = (k.g_descriptions i).refs + 1 :=
    Nat.mod_eq_of_lt (by omega)
  refine ⟨?_, fun j => setDesc_used h.used i ?_ j⟩
  · have hrefs : ((k.setEntry p fd (some i)).addRef i).refs =
        update k.refs i (k.refs i + 1) := by
      rw [Kernel.addRef, setDesc_refs]
      show update k.refs i (((k.g_descriptions i).refs + 1) % 2 ^ 16) = _
      rw [hmod]
      rfl
    rw [hrefs]
    show Counted loose leak (k.setEntry p fd (some i)).tabs _
    rw [setEntry_tabs]
    exact h.counted.share hfd hl
  · show (k.g_descriptions i).used = true ↔ 0 < ((k.g_descriptions i).refs + 1) % 2 ^ 16
    rw [hmod, hu]
    simp

/-- An entry is dropped; the description goes with its last name. -/
theorem drop (hfd : k.tabs p fd = some i)
    (hd : (d = Description.zero ∧ (k.g_descriptions i).refs = 1) ∨
      (1 < (k.g_descriptions i).refs ∧
        d = { k.g_descriptions i with refs := (k.g_descriptions i).refs - 1 })) :
    RefsInv loose leak ((k.setEntry p fd none).setDesc i d) := by
  have hu := h.named hfd
  have hrefs : d.refs = k.refs i - 1 := by
    unfold Kernel.refs
    rcases hd with ⟨rfl, h1⟩ | ⟨-, rfl⟩
    · rw [h1]
      rfl
    · rfl
  refine ⟨?_, fun j => setDesc_used h.used i ?_ j⟩
  · rw [setDesc_refs, hrefs]
    show Counted loose leak (k.setEntry p fd none).tabs (update k.refs i _)
    rw [setEntry_tabs]
    exact h.counted.drop hfd
  · rcases hd with ⟨rfl, -⟩ | ⟨hlt, rfl⟩
    · simp [Description.zero]
    · simp only [hu, true_iff]
      omega

/-- A loose table is forgotten. -/
theorem forget (hp : loose p) (htabs : k'.tabs = update k.tabs p fun _ => none)
    (hdesc : k'.g_descriptions = k.g_descriptions) :
    RefsInv loose (fun i => leak i + holders (k.tabs p) i) k' := by
  refine ⟨?_, fun i => by rw [hdesc]; exact h.used i⟩
  have hrefs : k'.refs = k.refs := by
    unfold Kernel.refs
    rw [hdesc]
  rw [htabs, hrefs]
  exact h.counted.forget hp

end

/-- Nothing leaks when the forgotten table is empty. -/
theorem holders_empty (hp : ∀ fd, k.tabs p fd = none) :
    (fun i => leak i + holders (k.tabs p) i) = leak := by
  funext i
  rw [show k.tabs p = fun _ => none from funext hp, holders_none, Nat.add_zero]

end RefsInv

/-! ## Releasing entries -/

/-- From `k` to `k'` descriptions are only dropped, and `l` lists the calls of
`fs_core_close` made for them: one for each VFS description that went out of use, with
its node, and no other. -/
structure Closes (k k' : Kernel σ) (l : List (DescIx × Nat)) : Prop where
  closed : k'.closed = k.closed ++ l
  keep : ∀ i, (k'.g_descriptions i).used = true → (k.g_descriptions i).used = true ∧
    k'.g_descriptions i = { k.g_descriptions i with refs := (k'.g_descriptions i).refs }
  count : ∀ i, (l.map Prod.fst).count i =
    if (k.g_descriptions i).used = true ∧ (k.g_descriptions i).kind = .VFS ∧
      (k'.g_descriptions i).used = false then 1 else 0
  node : ∀ x ∈ l, x.2 = (k.g_descriptions x.1).node_id

namespace Closes

/-- A count goes down and the description stays in use. -/
theorem lower {r : Nat} (hself : k'.g_descriptions i = { k.g_descriptions i with refs := r })
    (hother : ∀ j, j ≠ i → k'.g_descriptions j = k.g_descriptions j)
    (hclosed : k'.closed = k.closed) : Closes k k' [] where
  closed := hclosed.trans (append_nil _).symm
  keep j hj := by
    by_cases hji : j = i
    · subst hji
      rw [hself] at hj ⊢
      exact ⟨hj, rfl⟩
    · rw [hother j hji] at hj ⊢
      exact ⟨hj, rfl⟩
  count j := by grind
  node x hx := by cases hx

theorem refl (k : Kernel σ) : Closes k k [] :=
  .lower (i := ⟨0, by decide⟩) rfl (fun _ _ => rfl) rfl

/-- Emptying a table may be done in two steps. -/
theorem trans {l l' : List (DescIx × Nat)} (h : Closes k k' l) (h' : Closes k' k'' l') :
    Closes k k'' (l ++ l') where
  closed := by rw [h'.closed, h.closed, append_assoc]
  keep i hu := by
    obtain ⟨hu', heq'⟩ := h'.keep i hu
    obtain ⟨hu, heq⟩ := h.keep i hu'
    refine ⟨hu, ?_⟩
    rw [heq', heq]
  count i := by
    rw [map_append, count_append, h.count i, h'.count i]
    by_cases hu' : (k'.g_descriptions i).used = true
    · -- still in use after the first part: only the second can close it
      obtain ⟨hu, heq⟩ := h.keep i hu'
      grind
    have hu'' : (k''.g_descriptions i).used = false := by
      by_contra hne
      exact hu' (h'.keep i (Bool.of_not_eq_false hne)).1
    grind
  node x hx := by
    rcases mem_append.mp hx with hx | hx
    · exact h.node x hx
    -- a description closed later has kept its node so far
    have hcount := h'.count x.1
    have hpos : 0 < (l'.map Prod.fst).count x.1 :=
      count_pos_iff.mpr (mem_map.mpr ⟨x, hx, rfl⟩)
    have hu' : (k'.g_descriptions x.1).used = true := by grind
    rw [h'.node x hx, (h.keep x.1 hu').2]

/-- One description goes out of use. -/
theorem last (hu : (k.g_descriptions i).used = true)
    (hself : k'.g_descriptions i = Description.zero)
    (hother : ∀ j, j ≠ i → k'.g_descriptions j = k.g_descriptions j)
    (hclosed : k'.closed = k.closed ++
      if (k.g_descriptions i).kind = .VFS then [(i, (k.g_descriptions i).node_id)] else []) :
    Closes k k'
      (if (k.g_descriptions i).kind = .VFS then [(i, (k.g_descriptions i).node_id)] else []) where
  closed := hclosed
  keep j hj := by
    have hji : j ≠ i := by
      rintro rfl
      rw [hself] at hj
      cases hj
    rw [hother j hji] at hj ⊢
    exact ⟨hj, rfl⟩
  count j := by
    by_cases hji : j = i
    · grind [Description.zero]
    grind
  node x hx := by
    split at hx
    · cases mem_singleton.mp hx
      rfl
    · cases hx

end Closes

/-- The last reference goes: the description is cleared, and a VFS one is closed
first. -/
theorem fd_close_description_spec (ops : FsOps σ) (k : Kernel σ)
    (hu : (k.g_descriptions i).used = true) :
    (∃ fs closed, (fd_close_description ops k i).2 =
      { k.setDesc i Description.zero with fs := fs, closed := closed } ∧
      ((∀ s n, (ops.fs_core_close s n).2 = s) → fs = k.fs)) ∧
    (∃ l, Closes k (fd_close_description ops k i).2 l) ∧
    ((fd_close_description ops k i).1 = 0 ∨
      ∃ rc, (ops.fs_core_close k.fs (k.g_descriptions i).node_id).1 = .error rc ∧
        (fd_close_description ops k i).1 = fd_to_errno rc ∧ (k.g_descriptions i).kind = .VFS) := by
  unfold fd_close_description
  split
  · next hkind =>
    cases hclose : ops.fs_core_close k.fs (k.g_descriptions i).node_id with
    | mk rc fs =>
    refine ⟨⟨fs, _, rfl, fun hpure => ?_⟩, ⟨_, Closes.last hu (setDesc_self _ _ _)
      (fun j hj => setDesc_ne _ _ _ hj) (by rw [if_pos hkind])⟩, ?_⟩
    · exact (congrArg Prod.snd hclose).symm.trans (hpure _ _)
    · grind
  · next hkind =>
    refine ⟨⟨k.fs, k.closed, rfl, fun _ => rfl⟩, ⟨_, Closes.last hu (setDesc_self _ _ _)
      (fun j hj => setDesc_ne _ _ _ hj) ?_⟩, .inl rfl⟩
    rw [if_neg hkind, append_nil]
    rfl

/-- What a release leaves behind. -/
structure Released (ops : FsOps σ) (k k' : Kernel σ) (p : ProcIx) (fd : FdIx) : Prop where
  tabs : k'.tabs = update k.tabs p (update (k.tabs p) fd none)
  frame : Frame k k'
  closes : ∃ l, Closes k k' l
  fs : (∀ s n, (ops.fs_core_close s n).2 = s) → k'.fs = k.fs

variable {loose : ProcIx → Prop} {leak : DescIx → Nat}

/-- Releasing an entry: the count goes down, and with the last name the file is closed. The
result is the error of the filesystem, if there was one. -/
theorem fd_release_entry_spec (ops : FsOps σ) (h : RefsInv loose leak k)
    (he : k.tabs p fd = some i) :
    Released ops k (fd_release_entry ops k p fd).2 p fd ∧
    RefsInv loose leak (fd_release_entry ops k p fd).2 ∧
    ((fd_release_entry ops k p fd).1 = 0 ∨
      ∃ rc, (ops.fs_core_close k.fs (k.g_descriptions i).node_id).1 = .error rc ∧
        (fd_release_entry ops k p fd).1 = fd_to_errno rc ∧
        (k.g_descriptions i).kind = .VFS ∧ (k.g_descriptions i).refs = 1) := by
  have hu := h.named he
  have hpos : 0 < (k.g_descriptions i).refs := (h.used i).mp hu
  have hdesc : (k.setEntry p fd none).g_descriptions i = k.g_descriptions i := rfl
  unfold fd_release_entry
  rw [h.description_eq, he]
  simp only [hdesc, if_pos hpos]
  -- the state once the entry is cleared and the count is down
  generalize hk1 : (k.setEntry p fd none).setDesc i
    { k.g_descriptions i with refs := (k.g_descriptions i).refs - 1 } = k1
  have htabs : k1.tabs = update k.tabs p (update (k.tabs p) fd none) := by
    rw [← hk1]
    exact setEntry_tabs k p fd none
  have hframe : Frame k k1 := by
    rw [← hk1]
    exact (Frame.setEntry k p fd none).trans (.setDesc _ _ _)
  have hself : k1.g_descriptions i =
      { k.g_descriptions i with refs := (k.g_descriptions i).refs - 1 } := by
    rw [← hk1]
    exact setDesc_self _ _ _
  have hlower : Closes k k1 [] :=
    .lower hself (fun j hj => by rw [← hk1]; exact setDesc_ne _ _ _ hj) (by rw [← hk1]; rfl)
  have hfs : k1.fs = k.fs := by rw [← hk1]; rfl
  split
  · refine ⟨⟨htabs, hframe, ⟨[], hlower⟩, fun _ => hfs⟩, ?_, .inl rfl⟩
    rw [← hk1]
    exact h.drop he (.inr ⟨by omega, rfl⟩)
  obtain ⟨⟨fs, closed, hk2, hpure⟩, ⟨l, hl⟩, hrc⟩ :=
    fd_close_description_spec ops k1 (i := i) (by rw [hself]; exact hu)
  have hgone := h.drop he (.inl ⟨rfl, (by omega : (k.g_descriptions i).refs = 1)⟩)
  have hidem : k1.setDesc i Description.zero =
      (k.setEntry p fd none).setDesc i Description.zero := by
    rw [← hk1]
    simp [Kernel.setDesc]
  refine ⟨⟨?_, ?_, ⟨_, hlower.trans hl⟩, fun hp => ?_⟩, ?_, ?_⟩
  · rw [hk2]
    exact htabs
  · obtain ⟨h1, h2, h3, h4, h5, h6, h7⟩ := hframe
    rw [hk2]
    exact ⟨h1, h2, h3, h4, h5, h6, h7⟩
  · rw [hk2]
    exact (hpure hp).trans hfs
  · rw [hk2, hidem]
    exact ⟨hgone.counted, hgone.used⟩
  · grind

/-! ## Destroying a table -/

/-- A table is emptied entry by entry. -/
structure Emptied (ops : FsOps σ) (k k' : Kernel σ) (p : ProcIx) : Prop where
  other : ∀ q, q ≠ p → k'.tabs q = k.tabs q
  self : ∀ fd, k'.tabs p fd = none ∨ k'.tabs p fd = k.tabs p fd
  frame : Frame k k'
  closes : ∃ l, Closes k k' l
  fs : (∀ s n, (ops.fs_core_close s n).2 = s) → k'.fs = k.fs

namespace Emptied

theorem refl (ops : FsOps σ) (k : Kernel σ) (p : ProcIx) : Emptied ops k k p :=
  ⟨fun _ _ => rfl, fun _ => .inr rfl, .refl k, ⟨[], .refl k⟩, fun _ => rfl⟩

/-- Emptying in two parts is emptying. -/
theorem trans (h : Emptied ops k k' p) (h' : Emptied ops k' k'' p) :
    Emptied ops k k'' p := by
  obtain ⟨l, hl⟩ := h.closes
  obtain ⟨l', hl'⟩ := h'.closes
  refine ⟨fun q hq => (h'.other q hq).trans (h.other q hq), fun fd => ?_, h.frame.trans h'.frame,
    ⟨_, hl.trans hl'⟩, fun hpure => (h'.fs hpure).trans (h.fs hpure)⟩
  rcases h'.self fd with hn | heq
  · exact .inl hn
  · rw [heq]
    exact h.self fd

theorem of_released (h : Released ops k k' p fd) :
    Emptied ops k k' p := by
  refine ⟨fun q hq => ?_, fun x => ?_, h.frame, h.closes, h.fs⟩
  · rw [h.tabs, update_of_ne hq]
  · rw [h.tabs, update_self]
    grind

end Emptied

/-- The loop releases every used entry it passes, and those already empty stay so. -/
theorem fd_core_table_destroy_loop_spec (ops : FsOps σ) (p : ProcIx) (fds : List FdIx) :
    ∀ (k : Kernel σ), RefsInv loose leak k →
    let k' := fd_core_table_destroy_loop ops p fds k
    Emptied ops k k' p ∧ RefsInv loose leak k' ∧ ∀ fd ∈ fds, k'.tabs p fd = none := by
  induction fds with
  | nil =>
    intro k h
    exact ⟨.refl ops k p, h, fun fd hfd => by cases hfd⟩
  | cons fd fds ih =>
    intro k h
    rw [fd_core_table_destroy_loop]
    cases he : (k.table p).entries fd with
    | none =>
      rw [if_neg (by simp)]
      obtain ⟨hem, hinv, hnone⟩ := ih k h
      refine ⟨hem, hinv, fun x hx => ?_⟩
      rcases mem_cons.mp hx with rfl | hx
      · rcases hem.self x with hn | heq
        · exact hn
        · rw [heq]
          exact he
      · exact hnone x hx
    | some i =>
      rw [if_pos (by simp)]
      obtain ⟨hrel, hinv1, -⟩ := fd_release_entry_spec ops h he
      obtain ⟨hem, hinv, hnone⟩ := ih _ hinv1
      refine ⟨(Emptied.of_released hrel).trans hem, hinv, fun x hx => ?_⟩
      rcases mem_cons.mp hx with rfl | hx
      · rcases hem.self x with hn | heq
        · exact hn
        · rw [heq, hrel.tabs, update_self, update_self]
      · exact hnone x hx

/-- A destroyed table. -/
structure Destroyed (ops : FsOps σ) (k k' : Kernel σ) (p : ProcIx) : Prop where
  other : ∀ q, q ≠ p → k'.g_processes q = k.g_processes q
  self : k'.g_processes p = { k.g_processes p with fd_table := FdTable.zero }
  current : k'.g_current_process = k.g_current_process
  next_pid : k'.g_next_pid = k.g_next_pid
  closes : ∃ l, Closes k k' l
  fs : (∀ s n, (ops.fs_core_close s n).2 = s) → k'.fs = k.fs

/-- The table's slot becomes loose, with an empty table. -/
theorem fd_core_table_destroy_spec (ops : FsOps σ) (h : RefsInv loose leak k) (p : ProcIx) :
    Destroyed ops k (fd_core_table_destroy ops k p) p ∧
    RefsInv (fun q => loose q ∨ q = p) leak (fd_core_table_destroy ops k p) := by
  obtain ⟨hem, hinv, hnone⟩ :=
    fd_core_table_destroy_loop_spec ops p (finRange POSIX_FD_CAP) k h
  unfold fd_core_table_destroy fd_core_table_reset
  generalize fd_core_table_destroy_loop ops p (finRange POSIX_FD_CAP) k = k1 at hem hinv hnone
  have hempty : ∀ fd, k1.tabs p fd = none := fun fd => hnone fd (mem_finRange fd)
  obtain ⟨l, hl⟩ := hem.closes
  constructor
  · refine ⟨fun q hq => ?_, ?_, hem.frame.current, hem.frame.next_pid,
      ⟨l, hl.closed, hl.keep, hl.count, hl.node⟩, hem.fs⟩
    · exact (update_of_ne hq ..).trans (hem.frame.proc_eq (hem.other q hq))
    · refine (update_self ..).trans ?_
      rw [hem.frame.pid p, hem.frame.ppid p, hem.frame.state p, hem.frame.cwd p]
  · have hloose : RefsInv (fun q => loose q ∨ q = p) leak k1 := by
      refine hinv.mono fun q hq => ?_
      grind
    have hforget := hloose.forget (.inr rfl) (setTable_tabs k1 p FdTable.zero) rfl
    rwa [RefsInv.holders_empty hempty] at hforget

/-! ## Allocating descriptions -/

/-- The description an allocation hands out was free and starts with one reference. -/
theorem fd_alloc_description_some {kind : FdKind} {node_id flags offset : Nat}
    (h : fd_alloc_description k kind node_id flags offset = some (i, k')) :
    (k.g_descriptions i).used = false ∧
      k' = k.setDesc i ⟨true, 1, kind, node_id, offset, flags⟩ := by grind [fd_alloc_description]

theorem Kernel.ne_of_used {j : DescIx} (hi : (k.g_descriptions i).used = true)
    (hj : (k.g_descriptions j).used = false) : i ≠ j := by
  rintro rfl
  exact absurd (hi.symm.trans hj) (by decide)

/-- A fresh description of the given kind has been put at a free entry. -/
structure Assigned (k k' : Kernel σ) (p : ProcIx) (fd : FdIx) (i : DescIx) (d : Description) :
    Prop where
  free : (k.g_descriptions i).used = false
  tabs : k'.tabs = update k.tabs p (update (k.tabs p) fd (some i))
  desc : k'.g_descriptions i = d
  other : ∀ j, j ≠ i → k'.g_descriptions j = k.g_descriptions j
  frame : Frame k k'
  fs : k'.fs = k.fs
  closed : k'.closed = k.closed

/-- A free description is filled in and named by an entry. -/
theorem assigned_setEntry (k : Kernel σ) (p : ProcIx) (fd : FdIx)
    (hfree : (k.g_descriptions i).used = false) (d : Description) :
    Assigned k ((k.setDesc i d).setEntry p fd (some i)) p fd i d where
  free := hfree
  tabs := setEntry_tabs _ p fd (some i)
  desc := setDesc_self k i d
  other _ hj := setDesc_ne k i d hj
  frame := (Frame.setDesc k i d).trans (.setEntry _ p fd _)
  fs := rfl
  closed := rfl

/-- An assignment takes a free description with a count of one. -/
theorem fd_assign_new_description_spec (h : RefsInv loose leak k) {kind : FdKind}
    {node_id flags offset : Nat}
    (hk : fd_assign_new_description k p fd kind node_id flags offset = some k')
    (hfd : k.tabs p fd = none) :
    ∃ i, Assigned k k' p fd i ⟨true, 1, kind, node_id, offset, flags⟩ ∧ RefsInv loose leak k' := by
  unfold fd_assign_new_description at hk
  cases ha : fd_alloc_description k kind node_id flags offset with
  | none => rw [ha] at hk; cases hk
  | some x =>
    obtain ⟨i, k1⟩ := x
    obtain ⟨hfree, rfl⟩ := fd_alloc_description_some ha
    rw [ha] at hk
    cases hk
    exact ⟨i, assigned_setEntry k p fd hfree _, h.fresh hfree hfd rfl rfl⟩

/-- Of the processes only the table of `p` changes. -/
structure TableOnly (k k' : Kernel σ) (p : ProcIx) : Prop where
  other : ∀ q, q ≠ p → k'.g_processes q = k.g_processes q
  self : k'.g_processes p = { k.g_processes p with fd_table := k'.table p }
  current : k'.g_current_process = k.g_current_process
  next_pid : k'.g_next_pid = k.g_next_pid

/-- The first descriptor call of a process: a table that is not initialised is forgotten
and gets the standard descriptors, or stays empty when there are no descriptions. -/
structure Started (ops : FsOps σ) (k k' : Kernel σ) (p : ProcIx) : Prop
    extends TableOnly k k' p where
  fs : (∀ s n, (ops.fs_core_close s n).2 = s) → k'.fs = k.fs
  desc : ∀ i, (k.g_descriptions i).used = true → (k'.g_descriptions i).used = true →
    k'.g_descriptions i = { k.g_descriptions i with refs := (k'.g_descriptions i).refs }
  shape : k'.table p = FdTable.zero ∨
    ((k'.table p).initialized = true ∧ ∃ a b c : DescIx,
      (k.g_descriptions a).used = false ∧ (k.g_descriptions b).used = false ∧
      (k.g_descriptions c).used = false ∧ a ≠ b ∧ a ≠ c ∧ b ≠ c ∧
      k'.g_descriptions a = ⟨true, 1, .TTY_IN, 0, 0, 0⟩ ∧
      k'.g_descriptions b = ⟨true, 1, .TTY_OUT, 0, 0, 0⟩ ∧
      k'.g_descriptions c = ⟨true, 1, .TTY_OUT, 0, 0, 0⟩ ∧
      k'.tabs p = fun fd => if fd.val = 0 then some a else if fd.val = 1 then some b
        else if fd.val = 2 then some c else none)

/-- The part of `Started` that holds of every state on the way: the table of `p` is being
filled with descriptions that were free at the start. -/
structure Starting (k k' : Kernel σ) (p : ProcIx) : Prop extends TableOnly k k' p where
  fs : k'.fs = k.fs
  desc : ∀ i, (k.g_descriptions i).used = true → k'.g_descriptions i = k.g_descriptions i

/-- A reset table is that of a process about to start. -/
theorem Starting.reset (k : Kernel σ) (p : ProcIx) : Starting k (fd_core_table_reset k p) p where
  other q hq := update_of_ne hq ..
  self := by
    unfold fd_core_table_reset
    rw [setTable_table_self]
    exact update_self ..
  current := rfl
  next_pid := rfl
  fs := rfl
  desc _ _ := rfl

/-- In a table that is being made, an assignment takes what was free before. -/
theorem Starting.assign {k1 k2 : Kernel σ} (h : Starting k k1 p) (ha : Assigned k1 k2 p fd i d) :
    Starting k k2 p ∧ (k.g_descriptions i).used = false := by
  have hfree : (k.g_descriptions i).used = false := by
    by_contra hne
    have hu := Bool.of_not_eq_false hne
    have hf := ha.free
    rw [h.desc i hu, hu] at hf
    cases hf
  refine ⟨⟨⟨fun q hq => ?_, ?_, ha.frame.current.trans h.current,
    ha.frame.next_pid.trans h.next_pid⟩, ha.fs.trans h.fs, fun j hj => ?_⟩, hfree⟩
  · rw [← h.other q hq]
    exact ha.frame.proc_eq (by rw [ha.tabs, update_of_ne hq])
  · show Process.mk _ _ _ _ (k2.table p) = Process.mk _ _ _ _ (k2.table p)
    rw [ha.frame.pid p, ha.frame.ppid p, ha.frame.state p, ha.frame.cwd p, h.self]
  · rw [ha.other j (Kernel.ne_of_used hj hfree), h.desc j hj]

/-- Giving up half way. -/
theorem Starting.destroy {k1 : Kernel σ} (h : Starting k k1 p) (hinv : RefsInv loose leak k1) :
    Started ops k (fd_core_table_destroy ops k1 p) p ∧
      RefsInv loose leak (fd_core_table_destroy ops k1 p) := by
  obtain ⟨hd, hinv'⟩ := fd_core_table_destroy_spec ops hinv p
  obtain ⟨l, hl⟩ := hd.closes
  have hself : (fd_core_table_destroy ops k1 p).table p = FdTable.zero := by
    unfold Kernel.table
    rw [hd.self]
  refine ⟨⟨⟨fun q hq => ?_, ?_, hd.current.trans h.current, hd.next_pid.trans h.next_pid⟩,
    fun hpure => (hd.fs hpure).trans h.fs, fun i hu hu' => ?_, .inl hself⟩, ?_⟩
  · exact (hd.other q hq).trans (h.other q hq)
  · rw [hself, hd.self, h.self]
  · rw [(hl.keep i hu').2, h.desc i hu]
  · refine hinv'.mono fun q hq => ?_
    exact .inl (.inl hq)

/-- A new table has its standard descriptors or none. What the old entries of the table
named is leaked. -/
theorem fd_core_table_init_spec (ops : FsOps σ) (h : RefsInv loose leak k) (hp : loose p) :
    Started ops k (fd_core_table_init ops k p) p ∧
      RefsInv loose (fun i => leak i + holders (k.tabs p) i) (fd_core_table_init ops k p) := by
  have h0 : RefsInv loose (fun i => leak i + holders (k.tabs p) i) (fd_core_table_reset k p) :=
    h.forget hp (setTable_tabs k p FdTable.zero) rfl
  have hs0 := Starting.reset k p
  have ht0 : (fd_core_table_reset k p).tabs p = fun _ => none := by
    unfold fd_core_table_reset
    rw [setTable_tabs, update_self]
    rfl
  unfold fd_core_table_init
  dsimp only
  generalize fd_core_table_reset k p = k0 at h0 hs0 ht0
  cases ha : fd_assign_new_description k0 p ⟨0, by decide⟩ .TTY_IN 0 0 0 with
  | none => exact hs0.destroy h0
  | some k1 =>
  obtain ⟨a, has1, h1⟩ := fd_assign_new_description_spec h0 ha (by rw [ht0])
  obtain ⟨hs1, hfa⟩ := hs0.assign has1
  have ht1 : ∀ fd : FdIx, k1.tabs p fd = if fd.val = 0 then some a else none := by
    simp [update_apply, Fin.ext_iff, has1.tabs, ht0]
  dsimp only
  cases hb : fd_assign_new_description k1 p ⟨1, by decide⟩ .TTY_OUT 0 0 0 with
  | none => exact hs1.destroy h1
  | some k2 =>
  obtain ⟨b, has2, h2⟩ := fd_assign_new_description_spec h1 hb (by rw [ht1]; rfl)
  obtain ⟨hs2, hfb⟩ := hs1.assign has2
  have hab : a ≠ b := Kernel.ne_of_used (by rw [has1.desc]) has2.free
  have ht2 : ∀ fd : FdIx, k2.tabs p fd =
      if fd.val = 0 then some a else if fd.val = 1 then some b else none := by
    intro fd
    rw [has2.tabs, update_self, update_apply, ht1]
    simp only [Fin.ext_iff]
    split <;> split <;> first | rfl | omega
  dsimp only
  cases hc : fd_assign_new_description k2 p ⟨2, by decide⟩ .TTY_OUT 0 0 0 with
  | none => exact hs2.destroy h2
  | some k3 =>
  obtain ⟨c, has3, h3⟩ := fd_assign_new_description_spec h2 hc (by rw [ht2]; rfl)
  obtain ⟨hs3, hfc⟩ := hs2.assign has3
  have hbc : b ≠ c := Kernel.ne_of_used (by rw [has2.desc]) has3.free
  have hac : a ≠ c := Kernel.ne_of_used (by rw [has2.other a hab, has1.desc]) has3.free
  have ht3 : k3.tabs p = fun fd => if fd.val = 0 then some a else if fd.val = 1 then some b
      else if fd.val = 2 then some c else none := by
    funext fd
    rw [has3.tabs, update_self, update_apply, ht2]
    grind
  have htabs := raised_tabs k3 p
  refine ⟨⟨⟨fun q hq => ?_, ?_, hs3.current, hs3.next_pid⟩, fun _ => hs3.fs, fun i hu _ => ?_,
    .inr ⟨?_, a, b, c, hfa, hfb, hfc, hab, hac, hbc, ?_, ?_, ?_, ?_⟩⟩, ?_⟩
  · exact (update_of_ne hq ..).trans (hs3.other q hq)
  · rw [setTable_table_self]
    refine (update_self ..).trans ?_
    rw [hs3.self]
  · show k3.g_descriptions i = { k.g_descriptions i with refs := (k3.g_descriptions i).refs }
    rw [hs3.desc i hu]
  · rw [setTable_table_self]
  · show k3.g_descriptions a = _
    rw [has3.other a hac, has2.other a hab, has1.desc]
  · show k3.g_descriptions b = _
    rw [has3.other b hbc, has2.desc]
  · exact has3.desc
  · rw [htabs, ht3]
  · refine ⟨?_, h3.used⟩
    rw [htabs]
    exact h3.counted

/-! ## Cloning a table -/

/-- The descriptions are the same up to their counts, and nothing was closed. -/
structure SameUpToRefs (k k' : Kernel σ) : Prop where
  desc : ∀ i, k'.g_descriptions i =
    { k.g_descriptions i with refs := (k'.g_descriptions i).refs }
  fs : k'.fs = k.fs
  closed : k'.closed = k.closed

theorem SameUpToRefs.refl (k : Kernel σ) : SameUpToRefs k k := ⟨fun _ => rfl, rfl, rfl⟩

theorem SameUpToRefs.trans (h : SameUpToRefs k k') (h' : SameUpToRefs k' k'') :
    SameUpToRefs k k'' :=
  ⟨fun i => by rw [h'.desc i, h.desc i], h'.fs.trans h.fs, h'.closed.trans h.closed⟩

/-- One more name changes the counts only. -/
theorem SameUpToRefs.addRef (k : Kernel σ) (p : ProcIx) (fd : FdIx) (e : Option DescIx)
    (i : DescIx) : SameUpToRefs k ((k.setEntry p fd e).addRef i) := by
  refine ⟨fun j => ?_, rfl, rfl⟩
  by_cases hj : j = i
  · subst hj
    rw [Kernel.addRef, setDesc_self]
    rfl
  · rw [Kernel.addRef, setDesc_ne _ _ _ hj]
    rfl

theorem Frame.addRef (k : Kernel σ) (p : ProcIx) (fd : FdIx) (e : Option DescIx) (i : DescIx) :
    Frame k ((k.setEntry p fd e).addRef i) :=
  (Frame.setEntry k p fd e).trans (.setDesc _ _ _)

/-- The loop copies the entries it passes. The destination is not loose while it runs,
since its entries are names like any other. -/
theorem fd_core_table_clone_loop_spec {dst src : ProcIx} (hne : dst ≠ src) (hdst : ¬ loose dst)
    (fds : List FdIx) :
    ∀ (k : Kernel σ), RefsInv loose leak k → fds.Nodup → (∀ fd ∈ fds, k.tabs dst fd = none) →
    ∃ k', fd_core_table_clone_loop dst src fds k = (true, k') ∧ RefsInv loose leak k' ∧
      Frame k k' ∧ SameUpToRefs k k' ∧ (∀ q, q ≠ dst → k'.tabs q = k.tabs q) ∧
      (∀ fd, k'.tabs dst fd = if fd ∈ fds then k.tabs src fd else k.tabs dst fd) := by
  induction fds with
  | nil =>
    intro k h _ _
    exact ⟨k, rfl, h, .refl k, .refl k, fun _ _ => rfl, fun fd => (if_neg (by simp)).symm⟩
  | cons fd fds ih =>
    intro k h hnd hnone
    obtain ⟨hfd, hnd'⟩ := nodup_cons.mp hnd
    rw [fd_core_table_clone_loop]
    cases he : (k.table src).entries fd with
    | none =>
      obtain ⟨k', hk', hinv, hframe, hsame, hother, hself⟩ :=
        ih k h hnd' fun x hx => hnone x (mem_cons_of_mem _ hx)
      refine ⟨k', hk', hinv, hframe, hsame, hother, fun x => ?_⟩
      rw [hself x]
      by_cases hx : x = fd
      · subst hx
        rw [if_neg hfd, if_pos mem_cons_self, hnone x mem_cons_self]
        exact he.symm
      · simp [hx]
    | some i =>
      have hu := h.named (k := k) he
      dsimp only
      rw [if_neg (by simp [hu])]
      have h1 := h.share (hnone fd mem_cons_self) hu fun hl => absurd hl hdst
      have htabs : ((k.setEntry dst fd (some i)).addRef i).tabs =
          update k.tabs dst (update (k.tabs dst) fd (some i)) :=
        setEntry_tabs k dst fd (some i)
      obtain ⟨k', hk', hinv, hframe, hsame, hother, hself⟩ := ih _ h1 hnd' fun x hx => by
        have hxf : x ≠ fd := fun heq => hfd (heq ▸ hx)
        rw [htabs, update_self, update_of_ne hxf]
        exact hnone x (mem_cons_of_mem _ hx)
      refine ⟨k', hk', hinv, (Frame.addRef k dst fd _ i).trans hframe,
        (SameUpToRefs.addRef k dst fd _ i).trans hsame, fun q hq => ?_, fun x => ?_⟩
      · rw [hother q hq, htabs, update_of_ne hq]
      · rw [hself x, htabs, update_self, update_of_ne hne.symm]
        by_cases hx : x = fd
        · subst hx
          rw [if_neg hfd, if_pos mem_cons_self, update_self]
          exact he.symm
        · rw [update_of_ne hx]
          simp [hx]

/-- The table of `dst` has become a copy of that of `src`. -/
structure Cloned (k k' : Kernel σ) (dst src : ProcIx) : Prop where
  self : k'.g_processes dst = { k.g_processes dst with fd_table := ⟨k.tabs src, true⟩ }
  other : ∀ q, q ≠ dst → k'.g_processes q = k.g_processes q
  current : k'.g_current_process = k.g_current_process
  next_pid : k'.g_next_pid = k.g_next_pid
  same : SameUpToRefs k k'

/-- A clone names what the source names, and every count follows. -/
theorem fd_core_table_clone_spec (ops : FsOps σ) {dst src : ProcIx} (hne : dst ≠ src)
    (hdst : ¬ loose dst) (hinit : (k.table src).initialized = true)
    (h : RefsInv loose leak (fd_core_table_reset k dst)) :
    ∃ k', fd_core_table_clone ops k dst src = (0, k') ∧ RefsInv loose leak k' ∧
      Cloned k k' dst src := by
  have htabs0 : (fd_core_table_reset k dst).tabs = update k.tabs dst fun _ => none :=
    setTable_tabs k dst FdTable.zero
  obtain ⟨k2, hloop, hinv, hframe, hsame, hother, htabs⟩ := fd_core_table_clone_loop_spec hne hdst
    (finRange POSIX_FD_CAP) _ h (nodup_finRange _)
    (fun fd _ => by rw [htabs0, update_self])
  have htabs2 : k2.tabs dst = k.tabs src := by
    funext fd
    rw [htabs fd, if_pos (mem_finRange fd), htabs0, update_of_ne hne.symm]
  refine ⟨k2.setTable dst { k2.table dst with initialized := true }, ?_, ⟨?_, hinv.used⟩, ?_⟩
  · grind [fd_core_table_clone]
  · rw [raised_tabs]
    exact hinv.counted
  · refine ⟨?_, fun q hq => ?_, hframe.current, hframe.next_pid, hsame.desc, hsame.fs,
      hsame.closed⟩
    · refine (update_self ..).trans ?_
      have hself0 : (fd_core_table_reset k dst).g_processes dst =
          { k.g_processes dst with fd_table := FdTable.zero } := update_self ..
      show Process.mk _ _ _ _ (FdTable.mk (k2.tabs dst) true) = Process.mk _ _ _ _ _
      rw [hframe.pid dst, hframe.ppid dst, hframe.state dst, hframe.cwd dst, hself0, htabs2]
    · refine (update_of_ne hq ..).trans ((hframe.proc_eq (hother q hq)).trans ?_)
      exact update_of_ne hq ..

/-- A slot that has been filled for a child: the table is empty, and the parent, when it
is another slot, has been copied from. -/
theorem process_fill_spec (k : Kernel σ) (c p : ProcIx) :
    (process_fill k c p).g_next_pid = u32 (k.g_next_pid + 1) ∧
    (process_fill k c p).g_processes = update k.g_processes c
      ((process_fill k c p).g_processes c) ∧
    (process_fill k c p).g_processes c =
      { pid := k.g_next_pid
        ppid := if p = c then k.g_next_pid else (k.g_processes p).pid
        state := .RUNNING
        cwd := if p = c then [] else process_copy_string (k.g_processes p).cwd
        fd_table := FdTable.zero } := by
  unfold process_fill process_clear Kernel.setProc
  refine ⟨rfl, ?_, ?_⟩
  · simp
  · simp only [update_self, update_idem]
    by_cases hp : p = c
    · subst hp
      simp only [if_true, update_self]
      rfl
    · simp only [if_neg hp, update_of_ne hp]
      rfl

/-- The child slot `c` has been filled from the current process. -/
structure Spawned (k k' : Kernel σ) (c : ProcIx) : Prop where
  child : k'.g_processes c =
    { pid := k.g_next_pid
      ppid := (k.g_processes k.g_current_process).pid
      state := .RUNNING
      cwd := process_copy_string (k.g_processes k.g_current_process).cwd
      fd_table := ⟨k.tabs k.g_current_process, true⟩ }
  other : ∀ q, q ≠ c → k'.g_processes q = k.g_processes q
  current : k'.g_current_process = c
  next_pid : k'.g_next_pid = u32 (k.g_next_pid + 1)
  same : SameUpToRefs k k'

/-- Clearing an unused slot forgets its table. -/
theorem process_clear_refs (h : Refs leak k) {c : ProcIx} (hc : (k.g_processes c).state = .UNUSED)
    (next : Nat) :
    Refs (fun i => leak i + holders (k.tabs c) i)
      { process_clear k c with g_next_pid := next } := by
  have hproc : ∀ q, q ≠ c → (process_clear k c).g_processes q = k.g_processes q :=
    fun q hq => update_of_ne hq ..
  have htabs : ({ process_clear k c with g_next_pid := next } : Kernel σ).tabs =
      update k.tabs c fun _ => none := tabs_setProc k c Process.zero
  have hforget : RefsInv k.Loose (fun i => leak i + holders (k.tabs c) i)
      ({ process_clear k c with g_next_pid := next } : Kernel σ) :=
    RefsInv.forget h (.inl hc) htabs rfl
  refine hforget.mono fun q hq => .inl ?_
  grind [Kernel.Loose, Kernel.table]

/-- A spawn finds no slot, or fails and clears the slot it took, or fills it. A slot it
takes is unused, and what its table named is forgotten. -/
theorem process_core_spawn_exec_spec (ops : FsOps σ) (h : Refs leak k) :
    (process_core_spawn_exec ops k = (none, k) ∧ ∀ p, (k.g_processes p).state ≠ .UNUSED) ∨
    ∃ c, (k.g_processes c).state = .UNUSED ∧
      (∀ p, (k.g_processes p).state = .UNUSED → c ≤ p) ∧
      Refs (fun i => leak i + holders (k.tabs c) i) (process_core_spawn_exec ops k).2 ∧
      ((process_core_spawn_exec ops k =
          (none, { process_clear k c with g_next_pid := u32 (k.g_next_pid + 1) }) ∧
          (c = k.g_current_process ∨ (k.table k.g_current_process).initialized = false)) ∨
       ((process_core_spawn_exec ops k).1 = some c ∧
          Spawned k (process_core_spawn_exec ops k).2 c ∧ c ≠ k.g_current_process ∧
          (k.table k.g_current_process).initialized = true)) := by
  unfold process_core_spawn_exec
  split
  · next hfind => exact .inl ⟨rfl, fun p => of_decide_eq_false (find?_finRange_eq_none hfind p)⟩
  next c hfind =>
  obtain ⟨hun, hleast⟩ := find?_finRange_eq_some hfind
  have hun' : (k.g_processes c).state = .UNUSED := of_decide_eq_true hun
  refine .inr ⟨c, hun', fun p hp => hleast p (decide_eq_true hp), ?_⟩
  obtain ⟨hnext, hprocs, hself⟩ := process_fill_spec k c k.g_current_process
  have hfilled : (fd_core_table_reset (process_fill k c k.g_current_process) c).tabs =
      update k.tabs c fun _ => none := by
    have htabs : (process_fill k c k.g_current_process).tabs = _ :=
      (congrArg (fun f q => (f q).fd_table.entries) hprocs).trans (tabs_setProc k c _)
    unfold fd_core_table_reset
    rw [setTable_tabs, htabs, update_idem]
    rfl
  have hfrom : k.g_current_process ≠ c → (process_fill k c k.g_current_process).table
      k.g_current_process = k.table k.g_current_process := by
    intro hne
    unfold Kernel.table
    rw [hprocs, update_of_ne hne]
  by_cases hinit : ((process_fill k c k.g_current_process).table
      k.g_current_process).initialized = false
  · have hk2 : fd_core_table_clone ops (process_fill k c k.g_current_process) c
        k.g_current_process = (-POSIX_EINVAL, process_fill k c k.g_current_process) := by
      unfold fd_core_table_clone
      rw [if_pos hinit]
    rw [hk2]
    dsimp only
    rw [if_pos (by decide)]
    have hclear : process_clear (process_fill k c k.g_current_process) c =
        { process_clear k c with g_next_pid := u32 (k.g_next_pid + 1) } := by
      unfold process_clear Kernel.setProc
      rw [hprocs, update_idem, hnext]
      rfl
    rw [hclear]
    refine ⟨process_clear_refs h hun' _, .inl ⟨rfl, ?_⟩⟩
    grind
  have hne : k.g_current_process ≠ c := by
    intro heq
    apply hinit
    have htab : (process_fill k c k.g_current_process).table c = FdTable.zero := by
      unfold Kernel.table
      rw [hself]
    rw [heq] at htab ⊢
    rw [htab]
    rfl
  have hinit' : (k.table k.g_current_process).initialized = true := by
    rw [hfrom hne] at hinit
    exact Bool.of_not_eq_false hinit
  -- forget the slot's table, then stop treating the slot as loose
  have hforget : RefsInv k.Loose (fun i => leak i + holders (k.tabs c) i)
      (fd_core_table_reset (process_fill k c k.g_current_process) c) :=
    RefsInv.forget h (.inl hun') hfilled rfl
  have hfill : RefsInv (fun q => k.Loose q ∧ q ≠ c) (fun i => leak i + holders (k.tabs c) i)
      (fd_core_table_reset (process_fill k c k.g_current_process) c) :=
    hforget.mono fun q hq => .inl hq.1
  obtain ⟨k2, hk2, hinv, hcl⟩ := fd_core_table_clone_spec ops hne.symm (fun hl => hl.2 rfl)
    (by rw [hfrom hne]; exact hinit') hfill
  have hchild : k2.g_processes c =
      ⟨k.g_next_pid, (k.g_processes k.g_current_process).pid, .RUNNING,
        process_copy_string (k.g_processes k.g_current_process).cwd,
        ⟨k.tabs k.g_current_process, true⟩⟩ := by
    rw [hcl.self, hself, if_neg hne, if_neg hne]
    unfold Kernel.tabs
    rw [hfrom hne]
  have hold : ∀ q, q ≠ c → k2.g_processes q = k.g_processes q := by
    intro q hq
    rw [hcl.other q hq, hprocs, update_of_ne hq]
  rw [hk2]
  dsimp only
  rw [if_neg (by decide)]
  refine ⟨⟨?_, hinv.used⟩, .inr ⟨rfl, ⟨hchild, hold, rfl, hcl.next_pid.trans hnext,
    hcl.same.desc, hcl.same.fs, hcl.same.closed⟩, hne.symm, hinit'⟩⟩
  refine hinv.counted.mono fun q hq => .inl ?_
  grind [Kernel.Loose, Kernel.table]

/-! ## Exit and reap -/

/-- Only the states of processes and the current one change, and no slot becomes unused. -/
structure StatesOnly (k k' : Kernel σ) : Prop where
  tabs : k'.tabs = k.tabs
  desc : k'.g_descriptions = k.g_descriptions
  closed : k'.closed = k.closed
  fs : k'.fs = k.fs
  initialized : ∀ q, (k'.table q).initialized = (k.table q).initialized
  unused : ∀ q, (k'.g_processes q).state = .UNUSED → (k.g_processes q).state = .UNUSED

/-- A new state of a process does not concern the descriptors. -/
theorem StatesOnly.setState (k : Kernel σ) (q current : ProcIx) (state : ProcState)
    (hstate : state ≠ .UNUSED) :
    StatesOnly k { k.setProc q { k.g_processes q with state := state } with
      g_current_process := current } := by
  have htable : ∀ x, (k.setProc q { k.g_processes q with state := state }).table x = k.table x := by
    intro x
    unfold Kernel.table Kernel.setProc
    by_cases hx : x = q
    · simp [hx]
    · simp [update_of_ne hx]
  refine ⟨funext fun x => congrArg FdTable.entries (htable x), rfl, rfl, rfl,
    fun x => congrArg FdTable.initialized (htable x), fun x hx => ?_⟩
  by_cases hxq : x = q
  · simp [hxq, Kernel.setProc, hstate] at hx
  · simpa [Kernel.setProc, update_of_ne hxq] using hx

/-- The current process becomes a zombie and, when its parent is found, the parent is
running and current. -/
theorem process_core_exit_current_spec (k : Kernel σ) :
    StatesOnly k (process_core_exit_current k) := by
  have h := StatesOnly.setState k k.g_current_process k.g_current_process .ZOMBIE (by decide)
  unfold process_core_exit_current
  dsimp only
  split
  · exact h
  next q _ =>
  have h' := StatesOnly.setState (k.setProc k.g_current_process
    { k.g_processes k.g_current_process with state := .ZOMBIE }) q q .RUNNING (by decide)
  exact ⟨h'.tabs.trans h.tabs, rfl, rfl, rfl,
    fun x => (h'.initialized x).trans (h.initialized x), fun x hx => h.unused x (h'.unused x hx)⟩

/-- An exit leaves the counts to the one who reaps. -/
theorem process_core_exit_current_refs (h : Refs leak k) :
    Refs leak (process_core_exit_current k) := by
  obtain ⟨htabs, hdesc, -, -, hinit, hstate⟩ := process_core_exit_current_spec k
  refine ⟨?_, fun i => by rw [hdesc]; exact h.used i⟩
  have hrefs : (process_core_exit_current k).refs = k.refs := by
    unfold Kernel.refs
    rw [hdesc]
  rw [htabs, hrefs]
  refine h.counted.mono fun q hq => .inl ?_
  rcases hq with hq | hq
  · exact .inl (hstate q hq)
  · exact .inr ((hinit q).symm.trans hq)

/-- A reaped slot is cleared after its table has been destroyed. -/
structure Reaped (ops : FsOps σ) (k k' : Kernel σ) (p : ProcIx) : Prop where
  self : k'.g_processes p = Process.zero
  other : ∀ q, q ≠ p → k'.g_processes q = k.g_processes q
  current : k'.g_current_process = k.g_current_process
  next_pid : k'.g_next_pid = k.g_next_pid
  closes : ∃ l, Closes k k' l
  fs : (∀ s n, (ops.fs_core_close s n).2 = s) → k'.fs = k.fs

/-- A zombie is reaped with all it names; other slots are left alone. -/
theorem process_core_reap_spec (ops : FsOps σ) (h : Refs leak k) (p : ProcIx) :
    Refs leak (process_core_reap ops k p) ∧
    (((k.g_processes p).state ≠ .ZOMBIE ∧ process_core_reap ops k p = k) ∨
     ((k.g_processes p).state = .ZOMBIE ∧ Reaped ops k (process_core_reap ops k p) p)) := by
  unfold process_core_reap
  split
  · next hz => exact ⟨h, .inl ⟨hz, rfl⟩⟩
  next hz =>
  obtain ⟨hd, hinv⟩ := fd_core_table_destroy_spec ops h p
  obtain ⟨l, hl⟩ := hd.closes
  generalize fd_core_table_destroy ops k p = k1 at hd hinv hl
  have hself : (process_clear k1 p).g_processes p = Process.zero := update_self ..
  have hother : ∀ q, q ≠ p → (process_clear k1 p).g_processes q = k.g_processes q :=
    fun q hq => (update_of_ne hq ..).trans (hd.other q hq)
  -- the table is already empty, so clearing the slot moves no entry
  have htabs : (process_clear k1 p).tabs = k1.tabs := by
    funext q
    unfold Kernel.tabs Kernel.table
    by_cases hq : q = p
    · subst hq
      rw [hself, hd.self]
      rfl
    · rw [hother q hq, hd.other q hq]
  refine ⟨⟨?_, hinv.used⟩, .inr ⟨Decidable.not_not.mp hz, hself, hother, hd.current, hd.next_pid,
    ⟨l, hl.closed, hl.keep, hl.count, hl.node⟩, hd.fs⟩⟩
  rw [htabs]
  refine hinv.counted.mono fun q hq => .inl ?_
  grind [Kernel.Loose, Kernel.table]

/-! ## The first descriptor call of a process -/

theorem fd_core_init_of_initialized (h : (k.table k.g_current_process).initialized = true) :
    fd_core_init ops k = k := by
  unfold fd_core_init
  rw [if_neg (by rw [h]; decide)]

/-- The first descriptor call of a process makes its table. -/
theorem fd_core_init_spec (ops : FsOps σ) (h : Refs leak k) :
    ((k.table k.g_current_process).initialized = true ∧ fd_core_init ops k = k) ∨
    ((k.table k.g_current_process).initialized = false ∧
      Started ops k (fd_core_init ops k) k.g_current_process ∧
      Refs (fun i => leak i + holders (k.tabs k.g_current_process) i) (fd_core_init ops k)) := by
  by_cases hinit : (k.table k.g_current_process).initialized = false
  · refine .inr ⟨hinit, ?_⟩
    unfold fd_core_init
    rw [if_pos hinit]
    obtain ⟨hst, hinv⟩ := fd_core_table_init_spec ops h (.inr hinit : k.Loose k.g_current_process)
    refine ⟨hst, hinv.mono fun q hq => .inl ?_⟩
    by_cases hqp : q = k.g_current_process
    · exact hqp ▸ .inr hinit
    · simpa only [Kernel.Loose, Kernel.table, hst.other q hqp] using hq
  · have hinit' := Bool.of_not_eq_false hinit
    exact .inl ⟨hinit', fd_core_init_of_initialized hinit'⟩

end System1.Fd
