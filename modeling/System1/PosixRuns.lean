/-
Every run over a RAMFS root is a run of the reference model.

A run starts at boot over any RAMFS that driver calls have built, and makes descriptor
calls, process calls and calls on paths in any order. The one thing asked of it is that
no call removes a file that a descriptor refers to. `step_sim` matches one call, and the
trace of the run, answer by answer, is then a trace of the model by induction.

The runs include opens that find no descriptor or no description; the reference model
answers those too, so nothing has to be assumed about full tables.
-/
import System1.PosixCalls

set_option autoImplicit false

namespace System1.Posix

open System1.Lib System1.Fd System1.Ramfs Function Vfs

variable {τ : Type}

/-! ## Runs of the kernel -/

section

variable (P : Vfs.Devices τ)

/-- A call on a path, made in the directory of the current process. -/
def onPath (k : Sys τ)
    (call : Vfs.State Ramfs.State τ → List UInt8 → CString →
      Except FsErr Unit × Vfs.State Ramfs.State τ) (path : CString) : Answer × Sys τ :=
  (Ref.step.pathAnswer (call k.fs (k.g_processes k.g_current_process).cwd path).1,
    { k with fs := (call k.fs (k.g_processes k.g_current_process).cwd path).2 })

/-- The answer of a call and the state it leaves. -/
def sysExec (k : Sys τ) : SysCall → Answer × Sys τ
  | .fd c => exec (ops ramfsDriver P) k c
  | .unlink path => onPath k (fs_core_unlink ramfsDriver) path
  | .make_dir path => onPath k (fs_core_make_dir ramfsDriver) path
  | .rmdir path => onPath k (fs_core_rmdir ramfsDriver) path

/-- What `fs_core_open` returns in an open. -/
def openedBy (k : Sys τ) : SysCall → Option (Except FsErr Nat)
  | .fd (.open_ path flags) =>
    let k := fd_core_init (ops ramfsDriver P) k
    some (fs_core_open ramfsDriver k.fs (k.g_processes k.g_current_process).cwd path flags).1
  | _ => none

/-- The call removes no file that a descriptor refers to. -/
def KeepsHeld (k : Sys τ) (c : SysCall) : Prop :=
  ∀ i, Names k i → (k.g_descriptions i).kind = .VFS →
    (filesOf k.fs.root (k.g_descriptions i).node_id).isSome →
    (filesOf (sysExec P k c).2.fs.root (k.g_descriptions i).node_id).isSome

/-- The runs from boot over a given root, with the events seen. Only an unlink can
remove a file, so only an unlink is restricted. -/
inductive SysRun (root : Ramfs.State) (dev : τ) : List Event → Sys τ → Prop where
  | boot : SysRun root dev [] (boot (ops ramfsDriver P) ⟨root, dev⟩)
  | call {es : List Event} {k : Sys τ} (c : SysCall) : SysRun root dev es k →
      (∀ path, c = .unlink path → KeepsHeld P k c) →
      SysRun root dev (es ++ [⟨c, openedBy P k c, (sysExec P k c).1⟩]) (sysExec P k c).2

/-- One call of the kernel is one step of the model, with the same answer. -/
def Simulated (k : Sys τ) (r : Ref) (c : SysCall) : Prop :=
  ∃ o : Oracle, o.Ok r c ∧ (∀ x, openedBy P k c = some x → o.opened = x) ∧
    (r.step o c).1 = (sysExec P k c).1 ∧ Good (sysExec P k c).2 ∧
    Rel (sysExec P k c).2 (r.step o c).2

end

/-- A call of the descriptor or process layer is always allowed. -/
theorem SysRun.fd {P : Vfs.Devices τ} {root : Ramfs.State} {dev : τ} {es : List Event} {k : Sys τ}
    (hrun : SysRun P root dev es k) (c : Fd.Call) :
    SysRun P root dev (es ++ [⟨.fd c, openedBy P k (.fd c), (sysExec P k (.fd c)).1⟩])
      (sysExec P k (.fd c)).2 :=
  .call (.fd c) hrun fun path hc => by cases hc

/-! ## Answers of the oracle -/

/-- A quiet oracle is admissible for every call but `open`. -/
theorem Oracle.Quiet.ok {o : Oracle} {std : Option (DescIx × DescIx × DescIx)} {r : Ref}
    {c : SysCall} (hq : o.Quiet std) (hstd : StdOk r std)
    (hc : ∀ path flags, c ≠ .fd (.open_ path flags)) : o.Ok r c where
  std a b d h := hstd a b d (hq.std.symm.trans h)
  fresh i h := by
    rw [hq.fresh] at h
    cases h
  created n h := by
    rw [hq.created] at h
    cases h
  opened path flags n h := absurd h (hc path flags)
  removed n h := by
    rw [hq.removed] at h
    cases h

/-- Starting a process changes no file. -/
theorem start_file (r : Ref) (std : Option (DescIx × DescIx × DescIx)) :
    (r.start std).file = r.file := by
  unfold Ref.start
  split
  · rfl
  split
  · rfl
  · rfl

/-- The oracle of an `open` is admissible for it. -/
theorem Oracle.Opens.ok {o : Oracle} {std : Option (DescIx × DescIx × DescIx)} {r : Ref}
    {opened : Except FsErr Nat} {path : CString} {flags : Nat}
    (h : o.Opens std (r.start std) opened flags) (hstd : StdOk r std) :
    o.Ok r (.fd (.open_ path flags)) where
  std a b d hs := hstd a b d (h.std.symm.trans hs)
  fresh i hi := by
    rw [h.std]
    exact h.fresh i hi
  created n hn := by
    obtain ⟨hnew, hp, hcreat⟩ := h.created n hn
    grind [start_file]
  opened path' flags' n hc hn := by
    cases hc
    have hnode := h.node n (h.opens.symm.trans hn)
    rw [start_file] at hnode
    rw [h.opens]
    exact hnode
  removed n hn := by
    rw [h.removed] at hn
    cases hn

theorem stdOk_none (r : Ref) : StdOk r none := fun a b d h => by cases h

/-! ## Process calls -/

section Steps

variable {P : Vfs.Devices τ} {k : Sys τ} {r : Ref} (g : Good k) (h : Rel k r)

include g h

omit g in
/-- One slot has another process than before. -/
theorem table_of_slot {k' : Sys τ} {c : ProcIx} {t : FdTable}
    (hself : (k'.g_processes c).fd_table = t)
    (hother : ∀ q, q ≠ c → k'.g_processes q = k.g_processes q) :
    update r.table c t = k'.table := by
  rw [h.table]
  exact (eq_update_iff (g := k'.table).mpr
    ⟨hself, fun q hq => congrArg Process.fd_table (hother q hq)⟩).symm

omit g h in
/-- What is named after one slot has changed was named before. -/
theorem names_of_slot {k' : Sys τ} {c : ProcIx} {j : DescIx} (hj : Names k' j)
    (hself : ∀ f, (k'.g_processes c).fd_table.entries f = some j → Names k j)
    (hother : ∀ q, q ≠ c → k'.g_processes q = k.g_processes q) : Names k j := by
  obtain ⟨q, f, hj⟩ := hj
  by_cases hq : q = c
  · exact hself f (hq ▸ hj)
  · unfold Kernel.tabs Kernel.table at hj
    rw [hother q hq] at hj
    exact ⟨q, f, hj⟩

/-- A spawned process has the descriptors of its parent. -/
theorem spawn_sim :
    Matches none (process_core_spawn_exec (rootOps P) k).2
      (process_core_spawn_exec (rootOps P) k).1 fun o => r.spawn o := by
  obtain ⟨leak, hrefs⟩ := g.refs
  rcases process_core_spawn_exec_spec (rootOps P) hrefs with
    ⟨heq, -⟩ | ⟨c, -, -, hrefs', ⟨heq, -⟩ | ⟨hres, hsp, hne, -⟩⟩
  · -- no slot
    rw [heq]
    exact .of (o := .quiet none) ⟨rfl, rfl, rfl, rfl⟩ rfl g h
  · -- the slot is cleared again
    rw [heq] at hrefs' ⊢
    have hproc : ∀ q, q ≠ c → (process_clear k c).g_processes q = k.g_processes q :=
      fun q hq => update_of_ne hq ..
    have hself : (process_clear k c).g_processes c = Process.zero := update_self ..
    have hquiet : (Oracle.Quiet { Oracle.quiet none with child := some c } none) :=
      ⟨rfl, rfl, rfl, rfl⟩
    refine ⟨_, hquiet, rfl, tables_sim g h ⟨_, hrefs'⟩ rfl (fun j hj => ⟨?_, rfl⟩)
      (table_of_slot h (congrArg Process.fd_table hself) hproc) h.current rfl rfl⟩
    refine names_of_slot hj (fun f hf => ?_) hproc
    rw [hself] at hf
    cases hf
  · -- the child inherits the table
    rw [hres]
    have hquiet : (Oracle.Quiet { Oracle.quiet none with child := some c, spawned := true } none) :=
      ⟨rfl, rfl, rfl, rfl⟩
    refine ⟨_, hquiet, rfl, tables_sim g h ⟨_, hrefs'⟩ hsp.same.fs
      (fun j hj => ⟨?_, by rw [hsp.same.desc j]; rfl⟩) (table_of_slot h ?_ hsp.other)
      hsp.current.symm rfl rfl⟩
    · refine names_of_slot hj (fun f hf => ?_) hsp.other
      rw [hsp.child] at hf
      exact ⟨_, _, hf⟩
    · rw [hsp.child, h.table, h.current]
      rfl

/-- An exit gives the processor back to the parent. -/
theorem exit_sim : Matches none (process_core_exit_current k) () fun o => ((), r.exit o) := by
  obtain ⟨leak, hrefs⟩ := g.refs
  obtain ⟨htabs, hdesc, -, hfs, hinit, -⟩ := process_core_exit_current_spec k
  have hrefs' := process_core_exit_current_refs hrefs
  have hquiet : (Oracle.Quiet { Oracle.quiet none with
      next := (process_core_exit_current k).g_current_process } none) := ⟨rfl, rfl, rfl, rfl⟩
  refine ⟨_, hquiet, rfl, tables_sim g h ⟨leak, hrefs'⟩ hfs ?_ ?_ rfl rfl rfl⟩
  · rintro j ⟨q, f, hj⟩
    rw [htabs] at hj
    exact ⟨⟨q, f, hj⟩, by rw [hdesc]⟩
  · funext q
    show r.table q = FdTable.mk ((process_core_exit_current k).tabs q)
      ((process_core_exit_current k).table q).initialized
    rw [htabs, hinit q, h.table]
    rfl

/-- A reaped process names nothing any more. -/
theorem reap_sim (p : ProcIx) :
    Matches none (process_core_reap (rootOps P) k p) () fun o => ((), r.reap o p) := by
  obtain ⟨leak, hrefs⟩ := g.refs
  obtain ⟨hrefs', ⟨-, heq⟩ | ⟨-, hre⟩⟩ :=
    process_core_reap_spec (rootOps P) hrefs p
  · rw [heq]
    exact .of (o := .quiet none) ⟨rfl, rfl, rfl, rfl⟩ rfl g h
  have hquiet : (Oracle.Quiet { Oracle.quiet none with zombie := true } none) :=
    ⟨rfl, rfl, rfl, rfl⟩
  obtain ⟨l, hcl⟩ := hre.closes
  refine ⟨_, hquiet, rfl, tables_sim g h ⟨leak, hrefs'⟩ (hre.fs fs_core_close_pure)
    (fun j hj => ⟨?_, ?_⟩) (table_of_slot h (congrArg Process.fd_table hre.self) hre.other)
    (h.current.trans hre.current.symm) rfl rfl⟩
  · refine names_of_slot hj (fun f hf => ?_) hre.other
    rw [hre.self] at hf
    cases hf
  · obtain ⟨q, f, hj⟩ := hj
    rw [(hcl.keep j (RefsInv.named hrefs' hj)).2]
    rfl

/-! ## Calls on paths -/

/-- A call on a path that leaves every file alone. -/
theorem onPath_sim {call : Vfs.State Ramfs.State τ → List UInt8 → CString →
      Except FsErr Unit × Vfs.State Ramfs.State τ} {path : CString}
    {driver : Ramfs.State → CString → Except FsErr Unit × Ramfs.State}
    (hcases : OnDriver driver k.fs (call k.fs (k.g_processes k.g_current_process).cwd path))
    (hkeeps : ∀ p, Inv (driver k.fs.root p).2 ∧
      filesOf (driver k.fs.root p).2 = filesOf k.fs.root) :
    Matches none (onPath k call path).2 (onPath k call path).1
      fun o => (Ref.step.pathAnswer o.path_rc, r) := by
  unfold onPath
  generalize call k.fs (k.g_processes k.g_current_process).cwd path = x at hcases
  have hroot : Inv x.2.root ∧ filesOf x.2.root = filesOf k.fs.root := by
    obtain ⟨rc, rfl⟩ | ⟨p, rfl⟩ := hcases
    · exact ⟨g.inv, rfl⟩
    · exact hkeeps p
  have hquiet : (Oracle.Quiet { Oracle.quiet none with path_rc := x.1 } none) :=
    ⟨rfl, rfl, rfl, rfl⟩
  refine .of hquiet rfl (g.below hroot.1 fun m hm => ?_) (h.below hroot.2)
  rw [hroot.2]
  exact hm

theorem make_dir_sim (path : CString) :
    Matches none (sysExec P k (.make_dir path)).2 (sysExec P k (.make_dir path)).1
      fun o => (Ref.step.pathAnswer o.path_rc, r) :=
  onPath_sim g h (fs_on_root_cases ramfsDriver.make_dir _ _ _) fun p =>
    ⟨ramfs_core_make_dir_inv g.inv (some p),
      congrArg byId (ramfs_core_make_dir_files g.inv (some p))⟩

theorem rmdir_sim (path : CString) :
    Matches none (sysExec P k (.rmdir path)).2 (sysExec P k (.rmdir path)).1
      fun o => (Ref.step.pathAnswer o.path_rc, r) :=
  onPath_sim g h (fs_core_rmdir_cases _ _ _) fun p =>
    ⟨ramfs_core_rmdir_inv g.inv (some p), congrArg byId (ramfs_core_rmdir_files g.inv (some p))⟩

omit g h in
/-- A call that is matched from the state with the standard descriptions is a step. -/
theorem Matches.step {α : Type} {std : Option (DescIx × DescIx × DescIx)} {k' : Sys τ} {answer : α}
    {call : Oracle → α × Ref} {c : SysCall} (hm : Matches std k' answer call) (wrap : α → Answer)
    (hstd : StdOk r std) (hopen : openedBy P k c = none)
    (hstep : ∀ o : Oracle, o.std = std → r.step o c = (wrap (call o).1, (call o).2))
    (hexec : sysExec P k c = (wrap answer, k')) : Simulated P k r c := by
  obtain ⟨o, hq, ha, g', h'⟩ := hm
  refine ⟨o, hq.ok hstd ?_, ?_, ?_, ?_, ?_⟩
  · rintro path flags rfl
    cases hopen
  · rw [hopen]
    nofun
  · rw [hstep o hq.std, hexec, ha]
  · rw [hexec]
    exact g'
  · rw [hexec, hstep o hq.std]
    exact h'

/-- An unlink removes one file, and the oracle may say so because no descriptor refers
to it. -/
theorem unlink_sim (path : CString) (hkeep : KeepsHeld P k (.unlink path)) :
    Simulated P k r (.unlink path) := by
  unfold KeepsHeld at hkeep
  have hstill : ∀ rc, fs_core_unlink ramfsDriver k.fs
      (k.g_processes k.g_current_process).cwd path = (.error rc, k.fs) →
      Simulated P k r (.unlink path) := by
    intro rc heq
    have hquiet : (Oracle.Quiet { Oracle.quiet none with path_rc := .error rc } none) :=
      ⟨rfl, rfl, rfl, rfl⟩
    have hexec : sysExec P k (.unlink path) = (Ref.step.pathAnswer (.error rc), k) := by
      show onPath k (fs_core_unlink ramfsDriver) path = _
      unfold onPath
      rw [heq]
    unfold Simulated
    rw [hexec]
    exact ⟨_, hquiet.ok (stdOk_none r) nofun, nofun, rfl, g, h⟩
  rcases fs_on_root_cases ramfsDriver.unlink k.fs (k.g_processes k.g_current_process).cwd path with
    ⟨rc, heq⟩ | ⟨p, heq⟩
  · exact hstill rc heq
  rcases ramfs_core_unlink_files g.inv (some p) with ⟨rc, herr⟩ | ⟨hok, x, hx, -, hfile⟩
  · refine hstill rc ?_
    show fs_on_root _ _ _ _ _ = _
    rw [heq, show ramfsDriver.unlink k.fs.root p = _ from herr]
  have hexec : sysExec P k (.unlink path) = (Ref.step.pathAnswer (.ok ()),
      { k with fs := { k.fs with root := (ramfs_core_unlink k.fs.root (some p)).2 } }) := by
    show onPath k (fs_on_root ramfsDriver ramfsDriver.unlink) path = _
    unfold onPath
    rw [heq, show (ramfsDriver.unlink k.fs.root p).1 = _ from hok]
    rfl
  have hfiles : filesOf (ramfs_core_unlink k.fs.root (some p)).2 =
      update (filesOf k.fs.root) (fs_node_id x) none := by
    unfold filesOf
    rw [hfile]
    exact byId_update _ _ _
  unfold Simulated
  rw [hexec] at hkeep ⊢
  dsimp only at hkeep
  rw [hfiles] at hkeep
  have hxs : (filesOf k.fs.root (fs_node_id x)).isSome := by
    rw [filesOf_id]
    exact hx
  have hother : ∀ i, Names k i → (k.g_descriptions i).kind = .VFS →
      (k.g_descriptions i).node_id ≠ fs_node_id x := by grind
  refine ⟨{ Oracle.quiet none with path_rc := .ok (), removed := some (fs_node_id x) }, ?_,
    nofun, rfl, ⟨?_, ramfs_core_unlink_inv g.inv (some p), fun i hi hv => ?_, g.offset⟩,
    h.table, h.current, h.descr, ?_⟩
  · refine ⟨fun a b d hs => (by cases hs), fun i hi => (by cases hi), fun n hn => (by cases hn),
      fun _ _ n hc => (by cases hc), fun n hn => ?_⟩
    cases hn
    refine ⟨by rw [h.file]; exact hxs, fun i hi hv => ?_⟩
    have hi' := (named_iff h i).mp hi
    rw [h.descr i hi'] at hv ⊢
    exact hother i hi' hv
  · obtain ⟨leak, hrefs⟩ := g.refs
    exact ⟨leak, (CallOk.below hrefs _).refs⟩
  · rcases g.node i hi hv with hp | ⟨hp, hs⟩
    · exact .inl hp
    refine .inr ⟨hp, ?_⟩
    show (filesOf (ramfs_core_unlink k.fs.root (some p)).2 _).isSome
    rw [hfiles, update_of_ne (hother i hi hv)]
    exact hs
  · show update r.file (fs_node_id x) none = _
    rw [h.file]
    exact hfiles.symm

/-! ## One call -/

/-- One call, whichever it is; of `unlink` the file must not be held open. -/
theorem step_sim (c : SysCall) (hkeep : ∀ path, c = .unlink path → KeepsHeld P k c) :
    Simulated P k r c := by
  -- a descriptor call starts from the state in which the process has its table
  obtain ⟨std, hstd, g1, h1⟩ := start_sim P g h
  match c with
  | .unlink path => exact unlink_sim g h path (hkeep path rfl)
  | .make_dir path =>
    exact (make_dir_sim (P := P) g h path).step id (stdOk_none r) rfl (fun _ _ => rfl) rfl
  | .rmdir path =>
    exact (rmdir_sim (P := P) g h path).step id (stdOk_none r) rfl (fun _ _ => rfl) rfl
  | .fd (.open_ path flags) =>
    obtain ⟨o, hopens, ha, g', h'⟩ := open_sim (P := P) std rfl g1 h1 path flags
    refine ⟨o, hopens.ok hstd, fun x hx => ?_, ?_, g', ?_⟩
    · cases hx
      exact hopens.opens
    · show Answer.int ((r.start o.std).open_ o flags).1 = _
      rw [hopens.std, ha]
      rfl
    · show Rel _ ((r.start o.std).open_ o flags).2
      rw [hopens.std]
      exact h'
  | .fd (.close fd) =>
    exact (close_sim std rfl g1 h1 fd).step .int hstd rfl (by rintro _ rfl; rfl) rfl
  | .fd (.read fd count) =>
    exact (read_sim std rfl g1 h1 fd count).step (fun a => .bytes a.1 a.2) hstd rfl
      (by rintro _ rfl; rfl) rfl
  | .fd (.write fd buffer) =>
    exact (write_sim std rfl g1 h1 fd buffer).step .int hstd rfl (by rintro _ rfl; rfl) rfl
  | .fd (.lseek fd offset whence) =>
    exact (lseek_sim std rfl g1 h1 fd offset whence).step .int hstd rfl (by rintro _ rfl; rfl) rfl
  | .fd (.dup oldfd) =>
    exact (dup_sim std rfl g1 h1 oldfd).step .int hstd rfl (by rintro _ rfl; rfl) rfl
  | .fd (.dup2 oldfd newfd) =>
    exact (dup2_sim std rfl g1 h1 oldfd newfd).step .int hstd rfl (by rintro _ rfl; rfl) rfl
  | .fd .spawn => exact (spawn_sim g h).step .process (stdOk_none r) rfl (fun _ _ => rfl) rfl
  | .fd .exit => exact (exit_sim g h).step (fun _ => .void) (stdOk_none r) rfl (fun _ _ => rfl) rfl
  | .fd (.reap p) =>
    exact (reap_sim g h p).step (fun _ => .void) (stdOk_none r) rfl (fun _ _ => rfl) rfl

end Steps

/-! ## Boot -/

/-- The reference model that goes with the boot state. -/
def Ref.ofSys (k : Sys τ) : Ref :=
  ⟨k.table, k.g_current_process, fun i => view (k.g_descriptions i), filesOf k.fs.root⟩

/-- After the boot the two states are related. -/
theorem boot_sim (P : Vfs.Devices τ) {root : Ramfs.State} (hinv : Inv root) (dev : τ) :
    (Ref.ofSys (boot (rootOps P) ⟨root, dev⟩)).Initial (filesOf root) ∧
    Good (boot (rootOps P) ⟨root, dev⟩) := by
  have hb := boot_booted (rootOps P) ⟨root, dev⟩
  have hfs := boot_fs (rootOps P) fs_core_close_pure ⟨root, dev⟩
  generalize boot (rootOps P) ⟨root, dev⟩ = k at hb hfs
  obtain ⟨a, b, c, htabs, hab, hac, hbc, hda, hdb, hdc⟩ := hb.tabs
  have hclear : ∀ p, p ≠ initialSlot → k.table p = FdTable.zero := by
    intro p hp
    unfold Kernel.table
    rw [hb.clear p hp]
    rfl
  have hstd : k.table initialSlot = Ref.stdTable a b c := by
    show FdTable.mk (k.tabs initialSlot) (k.table initialSlot).initialized = _
    rw [htabs, hb.ready]
    rfl
  -- only the terminal descriptions are named
  have hnamed : ∀ i, Names k i → (k.g_descriptions i).kind ≠ .VFS ∧
      (k.g_descriptions i).offset < 2 ^ 32 := by
    rintro i ⟨p, f, hi⟩
    by_cases hp : p = initialSlot
    · rw [hp, htabs] at hi
      dsimp only at hi
      split at hi
      · cases hi
        rw [hda]
        exact ⟨by decide, by decide⟩
      grind
    · unfold Kernel.tabs at hi
      rw [hclear p hp] at hi
      cases hi
  refine ⟨⟨hb.current, ⟨a, b, c, hab, hac, hbc, hstd, ?_, ?_, ?_⟩, hclear, ?_⟩,
    ⟨_, hb.refs⟩, ?_, fun i hi hv => absurd hv (hnamed i hi).1, fun i hi _ => (hnamed i hi).2⟩
  · exact congrArg view hda
  · exact congrArg view hdb
  · exact congrArg view hdc
  · show filesOf k.fs.root = _
    rw [hfs]
  · rw [hfs]
    exact hinv

/-! ## Runs -/

/-- Along every run the kernel stays related to a run of the model with the same trace. -/
theorem run_sim {P : Vfs.Devices τ} {root : Ramfs.State} {dev : τ} (hinv : Inv root)
    {es : List Event} {k : Sys τ} (hrun : SysRun P root dev es k) :
    ∃ r, (Ref.ofSys (boot (rootOps P) ⟨root, dev⟩)).Run es r ∧ Good k ∧ Rel k r := by
  induction hrun with
  | boot => exact ⟨_, .nil, (boot_sim P hinv dev).2, rfl, rfl, fun _ _ => rfl, rfl⟩
  | call c _ hkeep ih =>
    obtain ⟨r, hr, g, h⟩ := ih
    obtain ⟨o, hok, hopened, ha, g', h'⟩ := step_sim g h c hkeep
    refine ⟨_, ?_, g', h'⟩
    rw [← ha]
    exact .step o c _ hr hok hopened

/-- In the model a write that answers with an error leaves every file as it was. -/
theorem write_error_file {r : Ref} {o : Oracle} {fd : Int} {buffer : List UInt8}
    (h : (r.write o fd buffer).1 < 0) : (r.write o fd buffer).2.file = r.file := by
  have hdevice : ∀ i offset, (r.writeDevice o i offset).2.file = r.file := by
    intro i offset
    unfold Ref.writeDevice
    split <;> rfl
  have hfile : ∀ i b offset, (r.writeFile o i b offset buffer).1 < 0 →
      (r.writeFile o i b offset buffer).2.file = r.file := by
    intro i b offset hneg
    unfold Ref.writeFile at hneg ⊢
    dsimp only at hneg ⊢
    split at hneg
    · next hfull =>
      rw [if_pos hfull]
      rfl
    · -- a write that succeeds answers with a length
      exact absurd hneg (by simp)
  have hvfs : ∀ i, (r.writeVfs o i buffer).1 < 0 → (r.writeVfs o i buffer).2.file = r.file := by
    intro i hneg
    unfold Ref.writeVfs at hneg ⊢
    cases hplace : r.place o (r.descr i) with
    | error rc => simp [hplace]
    | ok offset => grind
  unfold Ref.write at h ⊢
  cases hl : r.lookup fd with
  | none => rfl
  | some x => grind

/-- Every run over a RAMFS root is, answer by answer, a run of the reference model that
starts with the files of that root and opens the nodes that `fs_core_open` returned. The
files of the two agree at the end, none is longer than the limit, and a write that
answers with an error changes none of them. -/
theorem descriptor_semantics (P : Vfs.Devices τ) (setup : List Ramfs.Call) (dev : τ)
    {es : List Event} {k : Sys τ}
    (hrun : SysRun P (setup.foldl Ramfs.exec ramfs_core_reset_empty) dev es k) :
    ∃ r0 r : Ref, r0.Initial (filesOf (setup.foldl Ramfs.exec ramfs_core_reset_empty)) ∧
      r0.Run es r ∧ r.file = filesOf k.fs.root ∧
      (∀ n b, r.file n = some b → b.length ≤ FILE_CAP) ∧
      (∀ fd buffer rc, (sysExec P k (.fd (.write fd buffer))).1 = .int rc → rc < 0 →
        filesOf (sysExec P k (.fd (.write fd buffer))).2.fs.root = filesOf k.fs.root) := by
  have hinv := run_inv setup
  obtain ⟨r, hr, g, h⟩ := run_sim hinv hrun
  refine ⟨_, r, (boot_sim P hinv dev).1, hr, h.file, fun n b hb => ?_,
    fun fd buffer rc ha hneg => ?_⟩
  · rw [h.file] at hb
    exact length_filesOf_le g.inv hb
  · obtain ⟨o, -, -, ha', -, h'⟩ := step_sim (P := P) g h (.fd (.write fd buffer))
      fun path hc => by cases hc
    rw [← h'.file, ← h.file]
    rw [ha] at ha'
    -- the model's write starts where the process has its table, with the same files
    have hanswer : ((r.start o.std).write o fd buffer).1 = rc := Answer.int.inj ha'
    exact (write_error_file (by rw [hanswer]; exact hneg)).trans (start_file r o.std)

/-- Devices that answer nothing. -/
def noDevices : Vfs.Devices Unit where
  pseudo_fs_read := fun s _ _ _ => (.error .NOT_FOUND, s)
  pseudo_fs_write := fun s _ _ _ => (.error .NOT_FOUND, s)
  pseudo_fs_size := fun s _ => (.error .NOT_FOUND, s)
  tty_readline := fun s _ => ((0, []), s)
  tty_write := fun s _ _ => s

/-- A file is created, written through a descriptor and read back through a duplicate. -/
theorem descriptor_semantics_sample :
    ∃ (es : List Event) (k : Sys Unit),
      SysRun noDevices (([] : List Ramfs.Call).foldl Ramfs.exec ramfs_core_reset_empty) () es k ∧
      es.map Event.call = [.fd (.open_ (.cut [0x2F, 0x61]) (FS_O_CREAT ||| FS_O_RDWR)),
        .fd (.write 3 [1, 2, 3]), .fd (.dup 3), .fd (.lseek 4 0 0), .fd (.read 3 2)] ∧
      ∃ r0 r : Ref, r0.Run es r ∧ r.file = filesOf k.fs.root := by
  have hboot : SysRun noDevices (([] : List Ramfs.Call).foldl Ramfs.exec ramfs_core_reset_empty) ()
      [] _ := .boot
  have hrun := hboot.fd (.open_ (.cut [0x2F, 0x61]) (FS_O_CREAT ||| FS_O_RDWR)) |>.fd
    (.write 3 [1, 2, 3]) |>.fd (.dup 3) |>.fd (.lseek 4 0 0) |>.fd (.read 3 2)
  obtain ⟨r0, r, -, hr, hfile, -⟩ := descriptor_semantics noDevices [] () hrun
  exact ⟨_, _, hrun, rfl, r0, r, hr, hfile⟩

end System1.Posix
