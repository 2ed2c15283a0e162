/-
The descriptor calls keep the reference counts.

Every call of `fd_core.c` first makes sure the current process has a table and then
works on that table alone. `CallOk` says what such a call may do from there: the counts
stay right, nothing of the process table changes but the entries of the current
process, and `fs_core_close` is called for exactly the VFS descriptions that go out of
use. One lemma for each call establishes it, for every behaviour of the filesystem
below.
-/
import System1.FdRefs

set_option autoImplicit false

namespace System1.Fd

open System1.Lib Function

variable {σ : Type} {ops : FsOps σ}

/-! ## What a call may do -/

/-- `l` lists the calls of `fs_core_close` made for descriptions between `k` and `k'`:
one for each VFS description that was in use and is no more, with its node. -/
structure ClosedExactly (k k' : Kernel σ) (l : List (DescIx × Nat)) : Prop where
  closed : k'.closed = k.closed ++ l
  count : ∀ i, (l.map Prod.fst).count i =
    if (k.g_descriptions i).used = true ∧ (k.g_descriptions i).kind = .VFS ∧
      (k'.g_descriptions i).used = false then 1 else 0
  node : ∀ x ∈ l, x.2 = (k.g_descriptions x.1).node_id

variable {k k' : Kernel σ}

/-- Nothing goes out of use and nothing is closed. -/
theorem ClosedExactly.nothing (hclosed : k'.closed = k.closed)
    (hused : ∀ i, (k.g_descriptions i).used = true → (k'.g_descriptions i).used = true) :
    ClosedExactly k k' [] where
  closed := hclosed.trans (List.append_nil _).symm
  count i := by grind
  node x hx := by cases hx

/-- Releases, followed by steps that neither close nor free. -/
theorem Closes.exactly {k1 : Kernel σ} {l : List (DescIx × Nat)} (h : Closes k k1 l)
    (hclosed : k'.closed = k1.closed)
    (hused : ∀ i, (k'.g_descriptions i).used = (k1.g_descriptions i).used) :
    ClosedExactly k k' l :=
  ⟨hclosed.trans h.closed, fun i => by rw [h.count i, hused i], h.node⟩

/-- A descriptor call, once the current process has its table. -/
structure CallOk (leak : DescIx → Nat) (k k' : Kernel σ) : Prop where
  refs : Refs leak k'
  frame : Frame k k'
  other : ∀ q, q ≠ k.g_current_process → k'.tabs q = k.tabs q
  closes : ∃ l, ClosedExactly k k' l

section

variable {leak : DescIx → Nat}

/-- A call that leaves the tables and the counts alone. -/
theorem CallOk.of_same (h : Refs leak k) (hproc : k'.g_processes = k.g_processes)
    (hcur : k'.g_current_process = k.g_current_process) (hnext : k'.g_next_pid = k.g_next_pid)
    (hclosed : k'.closed = k.closed)
    (hdesc : ∀ i, (k'.g_descriptions i).refs = (k.g_descriptions i).refs ∧
      (k'.g_descriptions i).used = (k.g_descriptions i).used) : CallOk leak k k' := by
  have htabs : k'.tabs = k.tabs := by
    unfold Kernel.tabs Kernel.table
    rw [hproc]
  have hframe : Frame k k' := by
    refine ⟨?_, ?_, ?_, ?_, ?_, hcur, hnext⟩ <;>
    · intro q
      simp [Kernel.table, hproc]
  refine ⟨RefsInv.refs_of_frame ⟨?_, fun i => ?_⟩ hframe, hframe, fun q _ => by rw [htabs],
    [], .nothing hclosed fun i hu => by rw [(hdesc i).2, hu]⟩
  · rw [htabs, show k'.refs = k.refs from funext fun i => (hdesc i).1]
    exact h.counted
  · rw [(hdesc i).1, (hdesc i).2]
    exact h.used i

theorem CallOk.refl (h : Refs leak k) : CallOk leak k k :=
  .of_same h rfl rfl rfl rfl fun _ => ⟨rfl, rfl⟩

/-- Only the state below changes. -/
theorem CallOk.below (h : Refs leak k) (fs : σ) :
    CallOk leak k { k with fs := fs } :=
  .of_same h rfl rfl rfl rfl fun _ => ⟨rfl, rfl⟩

/-- The state below changes and one description moves its offset. -/
theorem CallOk.moved (h : Refs leak k) (fs : σ) (i : DescIx) {d : Description}
    (hr : d.refs = (k.g_descriptions i).refs) (hu : d.used = (k.g_descriptions i).used) :
    CallOk leak k { k.setDesc i d with fs := fs } := by
  refine .of_same h rfl rfl rfl rfl fun j => ?_
  grind [setDesc_self, setDesc_ne]

end

/-! ## Lookups -/

variable {f : FdIx}

theorem fdIx_val {fd : Int} (h : fdIx fd = some f) : fd = f.val := by grind [fdIx]

/-- A descriptor that is found names a description. -/
theorem fd_lookup_some {p : ProcIx} {fd : Int} {i : DescIx} (h : fd_lookup k p fd = some (f, i)) :
    fdIx fd = some f ∧ k.tabs p f = some i := by
  unfold fd_lookup at h
  cases hf : fdIx fd with
  | none => rw [hf] at h; cases h
  | some g =>
    rw [hf] at h
    dsimp only at h
    unfold fd_description at h
    cases he : (k.table p).entries g with
    | none => rw [he] at h; cases h
    | some j =>
      rw [he] at h
      dsimp only at h
      split at h
      · cases h
      next x hx =>
      split at hx
      · cases hx
      cases hx
      cases h
      exact ⟨rfl, he⟩

/-- In a counted state a lookup is just the entry. -/
theorem fd_lookup_eq {loose : ProcIx → Prop} {leak : DescIx → Nat} (h : RefsInv loose leak k)
    (p : ProcIx) (fd : Int) :
    fd_lookup k p fd = (fdIx fd).bind fun f => (k.tabs p f).map fun i => (f, i) := by
  unfold fd_lookup
  cases fdIx fd with
  | none => rfl
  | some f =>
    dsimp only
    rw [h.description_eq, Option.bind_some]
    cases k.tabs p f <;> rfl

theorem fd_find_free_some {p : ProcIx} (h : fd_find_free k p = some f) :
    k.tabs p f = none := by
  exact of_decide_eq_true (find?_finRange_eq_some h).1

/-! ## The calls -/

section Calls

variable (ops) {leak : DescIx → Nat} {k : Kernel σ}

section

variable (h : Refs leak (fd_core_init ops k))

include h

/-- `close` keeps the counts, -/
theorem fd_core_close_ok (fd : Int) :
    CallOk leak (fd_core_init ops k) (fd_core_close ops k fd).2 := by
  unfold fd_core_close
  dsimp only
  generalize fd_core_init ops k = k1 at h ⊢
  split
  · exact .refl h
  next x hl =>
    obtain ⟨f, i⟩ := x
    obtain ⟨hrel, hinv, -⟩ := fd_release_entry_spec ops h (fd_lookup_some hl).2
    obtain ⟨l, hl'⟩ := hrel.closes
    refine ⟨hinv.refs_of_frame hrel.frame, hrel.frame, fun q hq => ?_,
      l, hl'.exactly rfl fun _ => rfl⟩
    rw [hrel.tabs, update_of_ne hq]

/-- and `dup` does. -/
theorem fd_core_dup_ok (oldfd : Int) :
    CallOk leak (fd_core_init ops k) (fd_core_dup ops k oldfd).2 := by
  unfold fd_core_dup
  dsimp only
  generalize fd_core_init ops k = k1 at h ⊢
  cases hl : fd_lookup k1 k1.g_current_process oldfd with
  | none => exact .refl h
  | some x =>
    obtain ⟨old, i⟩ := x
    obtain ⟨-, hold⟩ := fd_lookup_some hl
    dsimp only
    split
    · exact .refl h
    next new hfree =>
      have hentry : (k1.table k1.g_current_process).entries old = some i := hold
      rw [hentry]
      have hframe := Frame.addRef k1 k1.g_current_process new (some i) i
      have hsame := SameUpToRefs.addRef k1 k1.g_current_process new (some i) i
      refine ⟨RefsInv.refs_of_frame (RefsInv.share h (fd_find_free_some hfree) (h.named hold)
        fun _ => ⟨old, hold⟩) hframe, hframe, fun q hq => ?_,
        [], .nothing hsame.closed fun j hj => by rw [hsame.desc j]; exact hj⟩
      show (k1.setEntry k1.g_current_process new (some i)).tabs q = _
      rw [setEntry_tabs, update_of_ne hq]

omit h in
/-- The target of a `dup2` is released when it is taken, and only a file can refuse. -/
theorem release_target {loose : ProcIx → Prop} (h : RefsInv loose leak k) (p : ProcIx)
    (new : FdIx) :
    ∃ rc k2, (if ((k.table p).entries new).isSome then fd_release_entry ops k p new
        else (0, k)) = (rc, k2) ∧ RefsInv loose leak k2 ∧ Released ops k k2 p new ∧
      (rc = 0 ∨ ∃ i e, k.tabs p new = some i ∧ (k.g_descriptions i).kind = .VFS ∧
        (k.g_descriptions i).refs = 1 ∧
        (ops.fs_core_close k.fs (k.g_descriptions i).node_id).1 = .error e) := by
  cases hent : (k.table p).entries new with
  | none =>
    refine ⟨0, k, by rw [if_neg (by simp)], h, ⟨?_, .refl k, ⟨[], .refl k⟩, fun _ => rfl⟩, .inl rfl⟩
    rw [show (none : Option DescIx) = k.tabs p new from hent.symm,
      update_eq_self, update_eq_self]
  | some j =>
    obtain ⟨hrel, hinv, hrc⟩ := fd_release_entry_spec ops h hent
    refine ⟨_, _, by rw [if_pos (by simp)], hinv, hrel, hrc.imp_right ?_⟩
    rintro ⟨e, herr, -, hkind, hone⟩
    exact ⟨j, e, hent, hkind, hone, herr⟩

/-- `dup2` releases its target and then shares; when the release fails it stops there. -/
theorem fd_core_dup2_ok (oldfd newfd : Int) :
    CallOk leak (fd_core_init ops k) (fd_core_dup2 ops k oldfd newfd).2 := by
  unfold fd_core_dup2
  dsimp only
  generalize fd_core_init ops k = k1 at h ⊢
  cases hl : fd_lookup k1 k1.g_current_process oldfd with
  | none => exact .refl h
  | some x =>
  obtain ⟨old, i⟩ := x
  obtain ⟨hfold, hold⟩ := fd_lookup_some hl
  dsimp only
  split
  · exact .refl h
  next new hnew =>
  split
  · exact .refl h
  next heq =>
  have hne : old ≠ new := by
    intro hon
    rw [fdIx_val hfold, fdIx_val hnew, hon] at heq
    exact heq rfl
  -- the target is free after the release, and the source entry is still there
  obtain ⟨rc, k2, hk2, hinv, ⟨htabs, hframe, ⟨l, hcl⟩, -⟩, -⟩ :=
    release_target ops h k1.g_current_process new
  rw [hk2]
  have hother : ∀ q, q ≠ k1.g_current_process → k2.tabs q = k1.tabs q := by
    intro q hq
    rw [htabs, update_of_ne hq]
  split
  · exact ⟨hinv.refs_of_frame hframe, hframe, hother, l, hcl.exactly rfl fun _ => rfl⟩
  next =>
  have hold2 : k2.tabs k1.g_current_process old = some i := by
    rw [htabs, update_self, update_of_ne hne, hold]
  have hnew2 : k2.tabs k1.g_current_process new = none := by
    rw [htabs, update_self, update_self]
  have hentry : (k2.table k1.g_current_process).entries old = some i := hold2
  rw [hentry]
  have hsame := SameUpToRefs.addRef k2 k1.g_current_process new (some i) i
  have hframe' := hframe.trans (Frame.addRef k2 k1.g_current_process new (some i) i)
  have hshare := hinv.share hnew2 (hinv.named hold2) fun _ => ⟨old, hold2⟩
  refine ⟨hshare.refs_of_frame hframe', hframe', fun q hq => ?_,
    l, hcl.exactly hsame.closed fun j => by rw [hsame.desc j]⟩
  show (k2.setEntry k1.g_current_process new (some i)).tabs q = _
  rw [setEntry_tabs, update_of_ne hq, hother q hq]

end

/-- The node of an open that then fails is closed at once; no description was made for
it. -/
theorem closeNode_ok (h : Refs leak k) (fs : σ) (node_id : Nat) (rc : Int) :
    CallOk leak k (closeNode ops { k with fs := fs } node_id rc).2 :=
  .below h _

/-- Whether or not the size is asked for, only the state below changes. -/
theorem fd_start_offset_below (k : Kernel σ) (node_id flags offset : Nat) :
    ∃ r fs, fd_start_offset ops k node_id flags offset = (r, { k with fs := fs }) := by
  unfold fd_start_offset
  split
  · exact ⟨_, _, rfl⟩
  · exact ⟨_, k.fs, rfl⟩

/-- The base of a seek is asked of the filesystem. -/
theorem fd_seek_base_below (k : Kernel σ) (d : Description) (whence : Nat) :
    ∃ r fs, fd_seek_base ops k d whence = (r, { k with fs := fs }) := by
  unfold fd_seek_base
  split
  · exact ⟨_, k.fs, rfl⟩
  split
  · exact ⟨_, k.fs, rfl⟩
  split
  · split
    · exact ⟨_, _, rfl⟩
    · exact ⟨_, _, rfl⟩
  · exact ⟨_, k.fs, rfl⟩

section

variable (h : Refs leak (fd_core_init ops k))

include h

/-- `open` keeps the counts, also where it runs out of descriptors, -/
theorem fd_core_open_ok (path : CString) (flags : Nat) :
    CallOk leak (fd_core_init ops k) (fd_core_open ops k path flags).2 := by
  unfold fd_core_open
  dsimp only
  generalize fd_core_init ops k = k1 at h ⊢
  cases ops.fs_core_open k1.fs (k1.g_processes k1.g_current_process).cwd path flags with
  | mk r fs =>
  cases r with
  | error rc => exact .below h fs
  | ok node_id =>
  dsimp only
  obtain ⟨r, fs', hr⟩ := fd_start_offset_below ops ({ k1 with fs := fs } : Kernel σ) node_id flags 0
  rw [hr]
  cases r with
  | error rc => exact closeNode_ok ops h fs' node_id _
  | ok offset =>
  dsimp only
  have h' : Refs leak ({ k1 with fs := fs' } : Kernel σ) := (CallOk.below h fs').refs
  split
  · exact closeNode_ok ops h fs' node_id _
  next fd hfree =>
  cases halloc : fd_alloc_description ({ k1 with fs := fs' } : Kernel σ) .VFS node_id flags
      offset with
  | none => exact closeNode_ok ops h fs' node_id _
  | some x =>
  obtain ⟨i, k2⟩ := x
  obtain ⟨hun, rfl⟩ := fd_alloc_description_some halloc
  have hasg := assigned_setEntry ({ k1 with fs := fs' } : Kernel σ) k1.g_current_process fd hun
    ⟨true, 1, .VFS, node_id, offset, flags⟩
  have hinv := RefsInv.fresh (d := ⟨true, 1, .VFS, node_id, offset, flags⟩) h' hun
    (fd_find_free_some hfree) rfl rfl
  have hframe : Frame k1 _ := (CallOk.below h fs').frame.trans hasg.frame
  refine ⟨hinv.refs_of_frame hasg.frame, hframe, fun q hq => ?_,
    [], .nothing hasg.closed fun j hj => ?_⟩
  · rw [hasg.tabs, update_of_ne hq]
    rfl
  · rw [hasg.other j (Kernel.ne_of_used hj hun)]
    exact hj

/-- `read` does, -/
theorem fd_core_read_ok (fd : Int) (count : Nat) :
    CallOk leak (fd_core_init ops k) (fd_core_read ops k fd count).2 := by
  unfold fd_core_read
  dsimp only
  generalize fd_core_init ops k = k1 at h ⊢
  cases hl : fd_lookup k1 k1.g_current_process fd with
  | none => exact .refl h
  | some x =>
  obtain ⟨f, i⟩ := x
  dsimp only
  split
  · exact .refl h
  split
  · exact .below h _
  split
  · exact .refl h
  split
  · exact .refl h
  cases ops.fs_core_read k1.fs (k1.g_descriptions i).node_id (k1.g_descriptions i).offset count with
  | mk r fs =>
  cases r with
  | error rc => exact .below h fs
  | ok bytes => exact .moved h fs i rfl rfl

/-- `write` does, -/
theorem fd_core_write_ok (fd : Int) (buffer : List UInt8) :
    CallOk leak (fd_core_init ops k) (fd_core_write ops k fd buffer).2 := by
  unfold fd_core_write
  dsimp only
  generalize fd_core_init ops k = k1 at h ⊢
  cases hl : fd_lookup k1 k1.g_current_process fd with
  | none => exact .refl h
  | some x =>
  obtain ⟨f, i⟩ := x
  dsimp only
  split
  · exact .refl h
  split
  · exact .below h _
  split
  · exact .refl h
  split
  · exact .refl h
  obtain ⟨r, fs', hr⟩ := fd_start_offset_below ops k1 (k1.g_descriptions i).node_id
    (k1.g_descriptions i).flags (k1.g_descriptions i).offset
  rw [hr]
  cases r with
  | error rc => exact .below h fs'
  | ok offset =>
  dsimp only
  split
  · exact .moved h _ i rfl rfl
  next written fs hw =>
  -- the second store of the description replaces the first
  rw [setDesc_setDesc]
  exact .moved h fs i rfl rfl

/-- and so does `lseek`. -/
theorem fd_core_lseek_ok (fd offset : Int) (whence : Nat) :
    CallOk leak (fd_core_init ops k) (fd_core_lseek ops k fd offset whence).2 := by
  unfold fd_core_lseek
  dsimp only
  generalize fd_core_init ops k = k1 at h ⊢
  cases hl : fd_lookup k1 k1.g_current_process fd with
  | none => exact .refl h
  | some x =>
  obtain ⟨f, i⟩ := x
  dsimp only
  split
  · exact .refl h
  obtain ⟨r, fs', hr⟩ := fd_seek_base_below ops k1 (k1.g_descriptions i) whence
  rw [hr]
  cases r with
  | error rc => exact .below h fs'
  | ok base =>
  dsimp only
  split
  · exact .below h fs'
  · exact .moved h fs' i rfl rfl

end

end Calls

end System1.Fd
