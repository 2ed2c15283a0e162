/-
Nested programs: spawn, run, exit and reap as `usermode_exec` makes them.

`usermode_exec` spawns a child, enters it, and reaps it when the child has exited. The
child works on its descriptors, changes its directory and calls `usermode_exec` itself,
to any depth. A program is modelled by the calls it makes, as a `Script`, in which a
nested program is a script of its own, so that exits and reaps cannot be out of place.

The theorem is that such a bracket is balanced: whatever the child does, the process
table afterwards is the one before, the caller is current and running again, and every
description has the references it had. The parent is found by its number, so the
argument needs the numbers in use to be distinct. They come from a 32-bit counter that
starts at 1: after `n` spawns the numbers in use are among the first `n + 1` values of
the counter, so they are distinct as long as there were fewer than 2^32 spawns.
-/
import System1.FdRuns

set_option autoImplicit false

namespace System1.Fd

open System1.Lib Function

variable {σ : Type}

/-! ## The calls of a program -/

/-- `process_core_set_cwd` on the current process. -/
def process_core_set_cwd (k : Kernel σ) (cwd : List UInt8) : Kernel σ :=
  k.setProc k.g_current_process
    { k.g_processes k.g_current_process with cwd := process_copy_string cwd }

/-- What a program does from its start to its exit. -/
inductive Script where
  | done
  | call (c : Call) (onTable : c.onTable = true) (rest : Script)
  | chdir (cwd : List UInt8) (rest : Script)
  | program (body rest : Script)

/-- The process calls of `usermode_exec` around the program `body`. The state carries the
number of spawns made so far. -/
def usermode_exec_process (ops : FsOps σ) (body : Kernel σ × Nat → Kernel σ × Nat)
    (s : Kernel σ × Nat) : Option ProcIx × (Kernel σ × Nat) :=
  match process_core_spawn_exec ops s.1 with
  | (none, k) => (none, (k, s.2))
  | (some child, k) =>
    let inside := body (k, s.2 + 1)
    -- the child calls `usermode_exit`, then `usermode_exec` reaps the slot it spawned
    (some child, (process_core_reap ops (process_core_exit_current inside.1) child, inside.2))

def Script.run (ops : FsOps σ) : Script → Kernel σ × Nat → Kernel σ × Nat
  | .done, s => s
  | .call c _ rest, s => rest.run ops ((exec ops s.1 c).2, s.2)
  | .chdir cwd rest, s => rest.run ops (process_core_set_cwd s.1 cwd, s.2)
  | .program body rest, s => rest.run ops (usermode_exec_process ops (body.run ops) s).2

/-- The spawns of a call: one, when it is a spawn that finds a slot. -/
def spawnsOf (ops : FsOps σ) (k : Kernel σ) : Call → Nat
  | .spawn => if (process_core_spawn_exec ops k).1.isSome then 1 else 0
  | _ => 0

/-- The states that any run reaches in which only spawned processes exit, with the number
of its spawns. -/
inductive Spawns (ops : FsOps σ) (fs : σ) : Nat → Kernel σ → Prop where
  | boot : Spawns ops fs 0 (boot ops fs)
  | call {n : Nat} {k : Kernel σ} (c : Call) :
      Spawns ops fs n k → MayCall k c → Spawns ops fs (n + spawnsOf ops k c) (exec ops k c).2
  | chdir {n : Nat} {k : Kernel σ} (cwd : List UInt8) :
      Spawns ops fs n k → Spawns ops fs n (process_core_set_cwd k cwd)

section

variable {ops : FsOps σ} {fs : σ} {k k' : Kernel σ} {n : Nat}

/-! ## Process numbers -/

/-- After `n` spawns the counter has moved `n` times from 2, and the slots in use carry
numbers it has handed out. -/
structure Numbered (n : Nat) (k : Kernel σ) : Prop where
  next : k.g_next_pid = u32 (n + 2)
  handed : ∀ p, (k.g_processes p).state ≠ .UNUSED → ∃ j ≤ n, (k.g_processes p).pid = u32 (j + 1)

/-- With fewer than 2^32 spawns the counter has not come round to a number in use. -/
theorem Numbered.pidFree (h : Numbered n k) (hn : n + 1 < 2 ^ 32) : PidFree k .spawn := by
  intro p hp heq
  obtain ⟨j, hj, hpid⟩ := h.handed p hp
  rw [hpid, h.next] at heq
  unfold u32 at heq
  omega

/-- The numbers stay handed out when no number in use changes. -/
theorem Numbered.of_same (h : Numbered n k) (hnext : k'.g_next_pid = k.g_next_pid)
    (hkeep : ∀ p, (k'.g_processes p).state ≠ .UNUSED →
      (k.g_processes p).state ≠ .UNUSED ∧ (k'.g_processes p).pid = (k.g_processes p).pid) :
    Numbered n k' := by
  refine ⟨hnext.trans h.next, fun p hp => ?_⟩
  obtain ⟨hp', hpid⟩ := hkeep p hp
  rw [hpid]
  exact h.handed p hp'

theorem boot_numbered (ops : FsOps σ) (fs : σ) : Numbered 0 (boot ops fs) := by
  have hb := boot_booted ops fs
  refine ⟨hb.next_pid, fun p hp => ⟨0, Nat.le_refl 0, ?_⟩⟩
  by_cases hpi : p = initialSlot
  · rw [hpi, hb.self]
    rfl
  · rw [hb.clear p hpi] at hp
    exact absurd rfl hp

/-! ## One step at a time -/

/-- In a sound state a spawn fails only for want of a slot, and then changes nothing. -/
theorem Sound.spawn_cases (ops : FsOps σ) (h : Sound k) :
    process_core_spawn_exec ops k = (none, k) ∨
    ∃ c, (k.g_processes c).state = .UNUSED ∧ (process_core_spawn_exec ops k).1 = some c ∧
      Spawned k (process_core_spawn_exec ops k).2 c := by
  rcases process_core_spawn_exec_spec ops h.refs with ⟨heq, -⟩ | ⟨c, hun, -, -, hcase⟩
  · exact .inl heq
  rcases hcase with ⟨-, rfl | hbad⟩ | ⟨hc, hsp, -, -⟩
  · rw [h.current_running] at hun
    cases hun
  · rw [h.ready _ (by rw [h.current_running]; decide)] at hbad
    cases hbad
  · exact .inr ⟨c, hun, hc, hsp⟩

/-- A descriptor call changes one process: the entries of the current one. -/
theorem Sound.onTable_ok (ops : FsOps σ) (h : Sound k) {c : Call} (hc : c.onTable = true) :
    CallOk (fun _ => 0) k (exec ops k c).2 := by
  have hinit : fd_core_init ops k = k := h.init_eq
  have hok := exec_onTable_ok ops (k := k) hc (by rw [hinit]; exact h.refs)
  rwa [hinit] at hok

theorem set_cwd_other (cwd : List UInt8) {p : ProcIx} (hp : p ≠ k.g_current_process) :
    (process_core_set_cwd k cwd).g_processes p = k.g_processes p := update_of_ne hp ..

/-- A new working directory changes nothing else. -/
theorem set_cwd_same (cwd : List UInt8) (p : ProcIx) :
    ((process_core_set_cwd k cwd).g_processes p).pid = (k.g_processes p).pid ∧
      ((process_core_set_cwd k cwd).g_processes p).ppid = (k.g_processes p).ppid ∧
      ((process_core_set_cwd k cwd).g_processes p).state = (k.g_processes p).state ∧
      (process_core_set_cwd k cwd).table p = k.table p := by
  have hself : (process_core_set_cwd k cwd).g_processes k.g_current_process =
      { k.g_processes k.g_current_process with cwd := process_copy_string cwd } :=
    update_self ..
  unfold Kernel.table
  by_cases hp : p = k.g_current_process
  · rw [hp, hself]
    exact ⟨rfl, rfl, rfl, rfl⟩
  · rw [set_cwd_other cwd hp]
    exact ⟨rfl, rfl, rfl, rfl⟩

/-- A change of directory keeps everything the invariant is about. -/
theorem Sound.of_cwd (h : Sound k) (cwd : List UInt8) : Sound (process_core_set_cwd k cwd) := by
  have hsame := set_cwd_same (k := k) cwd
  have htabs : (process_core_set_cwd k cwd).tabs = k.tabs :=
    funext fun p => by unfold Kernel.tabs; rw [(hsame p).2.2.2]
  obtain ⟨st, hlink, hnd, hrun⟩ := h.stack
  refine ⟨⟨?_, h.refs.used⟩, fun p hp => ?_, fun p hp => ?_, fun p q hp hq heq => ?_, st,
    hlink.congr (fun p _ => (hsame p).1) fun p _ => (hsame p).2.1, hnd, fun p hp => ?_⟩
  · rw [htabs]
    refine h.refs.counted.mono fun p hp => .inl ?_
    grind [Kernel.Loose]
  · rw [(hsame p).2.2.1] at hp
    have hpc : p ≠ k.g_current_process := by
      rintro rfl
      rw [h.current_running] at hp
      cases hp
    rw [set_cwd_other cwd hpc]
    exact h.clear p hp
  · rw [(hsame p).2.2.1] at hp
    rw [(hsame p).2.2.2]
    exact h.ready p hp
  · rw [(hsame p).2.2.1] at hp
    rw [(hsame q).2.2.1] at hq
    rw [(hsame p).1, (hsame q).1] at heq
    exact h.pids p q hp hq heq
  · rw [(hsame p).2.2.1]
    exact hrun p hp

/-- The initial process runs, so a slot not in use is not its slot. -/
theorem Sound.initial_running (h : Sound k) : (k.g_processes initialSlot).state = .RUNNING := by
  obtain ⟨st, hlink, -, hrun⟩ := h.stack
  suffices hmem : initialSlot ∈ k.g_current_process :: st from hrun _ hmem
  generalize k.g_current_process :: st = l at hlink
  -- the chain ends in the initial slot
  induction l with
  | nil => exact hlink.elim
  | cons p l ih =>
    cases l with
    | nil => exact List.mem_singleton.mpr hlink.symm
    | cons q l => exact List.mem_cons_of_mem _ (ih hlink.2)

/-- A spawned process exits to a running one. -/
theorem Sound.exited (h : Sound k) (hc : k.g_current_process ≠ initialSlot) :
    ∃ q, (k.g_processes q).state = .RUNNING ∧ Exited k (process_core_exit_current k) q := by
  obtain ⟨st, hlink, hnd, hrun⟩ := h.stack
  cases st with
  | nil => exact absurd hlink hc
  | cons q st =>
    have hq := hrun q (.tail _ (.head _))
    have hne : q ≠ k.g_current_process :=
      fun heq => (List.nodup_cons.mp hnd).1 (heq ▸ List.mem_cons_self)
    exact ⟨q, hq, h.exit_to hq hne hlink.1⟩

/-- An exit moves no number, and puts no slot into use. -/
theorem Sound.exit_keeps (h : Sound k) {q : ProcIx} (hq : (k.g_processes q).state = .RUNNING)
    (hex : Exited k k' q) (p : ProcIx) (hp : (k'.g_processes p).state ≠ .UNUSED) :
    (k.g_processes p).state ≠ .UNUSED ∧ (k'.g_processes p).pid = (k.g_processes p).pid := by
  by_cases hpc : p = k.g_current_process
  · rw [hpc, hex.self, h.current_running]
    exact ⟨by decide, rfl⟩
  by_cases hpq : p = q
  · rw [hpq, hex.parent, hq]
    exact ⟨by decide, rfl⟩
  · rw [hex.other p hpc hpq] at hp ⊢
    exact ⟨hp, rfl⟩

/-! ## Runs -/

/-- What every call of a run preserves, as long as the counter has not come round. -/
theorem Spawns.sound (h : Spawns ops fs n k) (hn : n < 2 ^ 32) : Sound k ∧ Numbered n k := by
  induction h with
  | boot => exact ⟨boot_sound ops fs, boot_numbered ops fs⟩
  | chdir cwd _ ih =>
    obtain ⟨hs, hnum⟩ := ih hn
    refine ⟨hs.of_cwd cwd, hnum.of_same rfl fun p hp => ?_⟩
    grind [set_cwd_same]
  | @call n k c hrun hmay ih =>
    obtain ⟨hs, hnum⟩ := ih (by omega)
    cases hon : c.onTable with
    | true =>
      have hok := hs.onTable_ok ops hon
      have hzero : spawnsOf ops k c = 0 := by
        cases c with
        | spawn => cases hon
        | _ => rfl
      rw [hzero]
      refine ⟨hs.of_call hok, hnum.of_same hok.frame.next_pid fun p hp => ?_⟩
      rw [hok.frame.state] at hp
      exact ⟨hp, hok.frame.pid p⟩
    | false =>
      cases c with
      | spawn =>
        rcases hs.spawn_cases ops with heq | ⟨c, hun, hc, hsp⟩
        · grind [exec, spawnsOf]
        have hone : spawnsOf ops k .spawn = 1 := by
          unfold spawnsOf
          rw [hc]
          rfl
        rw [hone] at hn ⊢
        refine ⟨hs.of_spawn (hnum.pidFree hn), ?_, fun p hp => ?_⟩
        · exact hsp.next_pid.trans (by rw [hnum.next]; unfold u32; omega)
        · change ((process_core_spawn_exec ops k).2.g_processes p).state ≠ .UNUSED at hp
          change ∃ j ≤ n + 1, ((process_core_spawn_exec ops k).2.g_processes p).pid = _
          by_cases hpc : p = c
          · refine ⟨n + 1, Nat.le_refl _, ?_⟩
            rw [hpc, hsp.child]
            exact hnum.next
          rw [hsp.other p hpc] at hp ⊢
          obtain ⟨j, hj, hpid⟩ := hnum.handed p hp
          exact ⟨j, Nat.le_succ_of_le hj, hpid⟩
      | exit =>
        obtain ⟨q, hq, hex⟩ := hs.exited hmay
        exact ⟨hs.of_exit hmay, hnum.of_same hex.next_pid fun p hp => hs.exit_keeps hq hex p hp⟩
      | reap q =>
        refine ⟨hs.of_reap q, ?_⟩
        obtain ⟨-, ⟨-, heq⟩ | ⟨-, hr⟩⟩ := process_core_reap_spec ops hs.refs q
        · rw [exec, heq]
          exact hnum
        refine hnum.of_same hr.next_pid fun p hp => ?_
        change ((process_core_reap ops k q).g_processes p).state ≠ .UNUSED at hp
        have hpq : p ≠ q := by
          rintro rfl
          rw [hr.self] at hp
          exact hp rfl
        rw [exec, hr.other p hpq]
        rw [hr.other p hpq] at hp
        exact ⟨hp, rfl⟩
      | _ => cases hon

/-! ## What a program leaves -/

/-- What a program changes of the process table, from its start to its exit: the entries
and the directory of its own slot. -/
structure Inside (k k' : Kernel σ) : Prop where
  current : k'.g_current_process = k.g_current_process
  ppid : (k'.g_processes k.g_current_process).ppid = (k.g_processes k.g_current_process).ppid
  other : ∀ p, p ≠ k.g_current_process → k'.g_processes p = k.g_processes p

theorem Inside.refl (k : Kernel σ) : Inside k k := ⟨rfl, rfl, fun _ _ => rfl⟩

theorem Inside.trans {k'' : Kernel σ} (h : Inside k k') (h' : Inside k' k'') : Inside k k'' := by
  obtain ⟨hcur', hppid', hother'⟩ := h'
  rw [h.current] at hcur' hppid' hother'
  exact ⟨hcur', hppid'.trans h.ppid, fun p hp => (hother' p hp).trans (h.other p hp)⟩

/-- The states after a bracket: the process table and the current process are the ones
before it. -/
structure Restored (k k' : Kernel σ) : Prop where
  current : k'.g_current_process = k.g_current_process
  processes : k'.g_processes = k.g_processes

theorem Restored.inside (h : Restored k k') : Inside k k' :=
  ⟨h.current, by rw [h.processes], fun p _ => by rw [h.processes]⟩

/-- A child that has only changed its own slot exits to its parent, and reaping it leaves
the process table as it was before the spawn. -/
theorem Sound.restored (h : Sound k) {c : ProcIx} (hun : (k.g_processes c).state = .UNUSED)
    {k1 k2 : Kernel σ} (hsp : Spawned k k1 c) (hin : Inside k1 k2) (h2 : Sound k2) :
    Restored k (process_core_reap ops (process_core_exit_current k2) c) := by
  obtain ⟨hcur2, hppid2, hother2⟩ := hin
  rw [hsp.current] at hcur2 hppid2 hother2
  have hcur : k.g_current_process ≠ c := by
    rintro rfl
    rw [h.current_running] at hun
    cases hun
  -- every slot but the child's is still as before the spawn
  have hkept : ∀ p, p ≠ c → k2.g_processes p = k.g_processes p := fun p hp =>
    (hother2 p hp).trans (hsp.other p hp)
  have hppid : (k2.g_processes k2.g_current_process).ppid =
      (k2.g_processes k.g_current_process).pid := by
    rw [hcur2, hppid2, hsp.child, hkept _ hcur]
  have hex := h2.exit_to (q := k.g_current_process) (by rw [hkept _ hcur]; exact h.current_running)
    (by rw [hcur2]; exact hcur) hppid
  have hcinit : k2.g_current_process ≠ initialSlot := by
    rw [hcur2]
    rintro rfl
    rw [h.initial_running] at hun
    cases hun
  have h3 := h2.of_exit hcinit
  obtain ⟨hself, hparent, hrest, hcur3, -⟩ := hex
  rw [hcur2] at hself hrest
  generalize process_core_exit_current k2 = k3 at hself hparent hrest hcur3 h3 ⊢
  obtain ⟨-, ⟨hnz, -⟩ | ⟨-, hr⟩⟩ := process_core_reap_spec ops h3.refs c
  · rw [hself] at hnz
    exact absurd rfl hnz
  refine ⟨hr.current.trans hcur3, funext fun p => ?_⟩
  by_cases hpc : p = c
  · rw [hpc, hr.self, h.clear c hun]
  rw [hr.other p hpc]
  by_cases hpq : p = k.g_current_process
  · -- the parent was running all along
    rw [hpq, hparent, hkept _ hcur, ← h.current_running]
  · rw [hrest p hpc hpq, hkept p hpc]

/-- A program uses up numbers and gives none back, -/
theorem usermode_exec_process_le (body : Kernel σ × Nat → Kernel σ × Nat)
    (hbody : ∀ s, s.2 ≤ (body s).2) (s : Kernel σ × Nat) :
    s.2 ≤ (usermode_exec_process ops body s).2.2 := by
  unfold usermode_exec_process
  obtain ⟨r, k⟩ := process_core_spawn_exec ops s.1
  cases r with
  | none => exact Nat.le_refl _
  | some c => exact Nat.le_of_succ_le (hbody (k, s.2 + 1))

/-- as a script does. -/
theorem Script.run_le (ops : FsOps σ) (sc : Script) (s : Kernel σ × Nat) :
    s.2 ≤ (sc.run ops s).2 := by
  induction sc generalizing s with
  | done => exact Nat.le_refl _
  | call c hc rest ih => exact ih ((Fd.exec ops s.1 c).2, s.2)
  | chdir cwd rest ih => exact ih (process_core_set_cwd s.1 cwd, s.2)
  | program body rest ihb ihr =>
    exact Nat.le_trans (usermode_exec_process_le (body.run ops) ihb s) (ihr _)

/-- A bracket whose body only changes its own slot. -/
theorem usermode_exec_process_spec (hs : Spawns ops fs n k)
    {body : Kernel σ × Nat → Kernel σ × Nat} (hle : ∀ s, s.2 ≤ (body s).2)
    (hbody : ∀ k n, Spawns ops fs n k → (body (k, n)).2 < 2 ^ 32 →
      Spawns ops fs (body (k, n)).2 (body (k, n)).1 ∧ Inside k (body (k, n)).1)
    (hn : (usermode_exec_process ops body (k, n)).2.2 < 2 ^ 32) :
    Spawns ops fs (usermode_exec_process ops body (k, n)).2.2
        (usermode_exec_process ops body (k, n)).2.1 ∧
      Restored k (usermode_exec_process ops body (k, n)).2.1 ∧
      ((usermode_exec_process ops body (k, n)).1 = none →
        (usermode_exec_process ops body (k, n)).2.1 = k) ∧
      ∀ c, (usermode_exec_process ops body (k, n)).1 = some c →
        (k.g_processes c).state = .UNUSED := by
  have hsound := (hs.sound (Nat.lt_of_le_of_lt (usermode_exec_process_le body hle (k, n)) hn)).1
  unfold usermode_exec_process at hn ⊢
  rcases hsound.spawn_cases ops with heq | ⟨c, hun, hc, hsp⟩
  · dsimp only at hn ⊢
    rw [heq] at hn ⊢
    exact ⟨hs, ⟨rfl, rfl⟩, fun _ => rfl, fun c hc => by cases hc⟩
  have hspawn := hs.call .spawn trivial
  have hone : spawnsOf ops k .spawn = 1 := by
    unfold spawnsOf
    rw [hc]
    rfl
  rw [hone] at hspawn
  change Spawns ops fs (n + 1) (process_core_spawn_exec ops k).2 at hspawn
  dsimp only at hn ⊢
  cases hres : process_core_spawn_exec ops k with
  | mk r k1 =>
  rw [hres] at hn hc hsp hspawn
  dsimp only at hn hc hsp hspawn
  subst hc
  obtain ⟨hs2, hin⟩ := hbody k1 (n + 1) hspawn hn
  have h2 := (hs2.sound hn).1
  refine ⟨?_, hsound.restored hun hsp hin h2, fun h => (by cases h), fun c' hc' => ?_⟩
  · -- the exit and the reap are calls of the run
    have hmay : MayCall (body (k1, n + 1)).1 .exit := by
      show (body (k1, n + 1)).1.g_current_process ≠ initialSlot
      rw [hin.current, hsp.current]
      rintro rfl
      rw [hsound.initial_running] at hun
      cases hun
    exact (hs2.call .exit hmay).call (.reap c) trivial
  · cases hc'
    exact hun

/-- What a program leaves: a state of the run, with its own slot changed at most. -/
theorem Script.run_spec (sc : Script) (k : Kernel σ) (n : Nat) (hs : Spawns ops fs n k)
    (hn : (sc.run ops (k, n)).2 < 2 ^ 32) :
    Spawns ops fs (sc.run ops (k, n)).2 (sc.run ops (k, n)).1 ∧ Inside k (sc.run ops (k, n)).1 := by
  -- on the script, whose nested programs are smaller scripts
  induction sc generalizing k n with
  | done => exact ⟨hs, .refl k⟩
  | call c hc rest ih =>
    have hsound := (hs.sound (Nat.lt_of_le_of_lt (Script.run_le ops (.call c hc rest) (k, n)) hn)).1
    have hok := hsound.onTable_ok ops hc
    have hmay : MayCall k c := by
      cases c with
      | exit => cases hc
      | _ => trivial
    have hzero : spawnsOf ops k c = 0 := by
      cases c with
      | spawn => cases hc
      | _ => rfl
    have hs' := hs.call c hmay
    rw [hzero] at hs'
    obtain ⟨hrun, hin⟩ := ih _ _ hs' hn
    have hstep : Inside k (Fd.exec ops k c).2 :=
      ⟨hok.frame.current, hok.frame.ppid _, fun p hp => hok.frame.proc_eq (hok.other p hp)⟩
    exact ⟨hrun, hstep.trans hin⟩
  | chdir cwd rest ih =>
    obtain ⟨hrun, hin⟩ := ih _ _ (hs.chdir cwd) hn
    have hstep : Inside k (process_core_set_cwd k cwd) :=
      ⟨rfl, (set_cwd_same cwd _).2.1, fun p hp => set_cwd_other cwd hp⟩
    exact ⟨hrun, hstep.trans hin⟩
  | program body rest ihb ihr =>
    have hmid : (usermode_exec_process ops (body.run ops) (k, n)).2.2 < 2 ^ 32 :=
      Nat.lt_of_le_of_lt (rest.run_le ops _) hn
    obtain ⟨hs', hres, -, -⟩ := usermode_exec_process_spec hs (body.run_le ops) ihb hmid
    obtain ⟨hrun, hin⟩ := ihr _ _ hs' hn
    exact ⟨hrun, hres.inside.trans hin⟩

/-! ## The bracket is balanced -/

/-- Nothing that processes share has changed. -/
structure Untouched (k k' : Kernel σ) : Prop where
  processes : k'.g_processes = k.g_processes
  current : k'.g_current_process = k.g_current_process
  refs : ∀ i, (k'.g_descriptions i).refs = (k.g_descriptions i).refs

/-- After a bracket whose child was in slot `child`. -/
structure Balanced (k : Kernel σ) (child : ProcIx) (k' : Kernel σ) : Prop where
  current : k'.g_current_process = k.g_current_process
  running : (k'.g_processes k'.g_current_process).state = .RUNNING
  slot : (k'.g_processes child).state = .UNUSED
  pids : ∀ p q, (k'.g_processes p).state ≠ .UNUSED → (k'.g_processes q).state ≠ .UNUSED →
    (k'.g_processes p).pid = (k'.g_processes q).pid → p = q
  entries : (k'.table k.g_current_process).entries = (k.table k.g_current_process).entries
  cwd : (k'.g_processes k.g_current_process).cwd = (k.g_processes k.g_current_process).cwd
  processes : k'.g_processes = k.g_processes
  refs : ∀ i, (k'.g_descriptions i).refs = (k.g_descriptions i).refs
  used : ∀ i, (k'.g_descriptions i).used = (k.g_descriptions i).used

/-- Exact counts are a function of the tables. -/
theorem Exact.same (h : Exact k) (h' : Exact k') (hp : k'.g_processes = k.g_processes)
    (i : DescIx) : (k'.g_descriptions i).refs = (k.g_descriptions i).refs ∧
      (k'.g_descriptions i).used = (k.g_descriptions i).used := by
  have htabs : k'.tabs = k.tabs := by
    unfold Kernel.tabs Kernel.table
    rw [hp]
  refine ⟨?_, Bool.eq_iff_iff.mpr ?_⟩
  · rw [h'.refs i, h.refs i, htabs]
  · rw [h'.used i, h.used i, htabs]

/-- A failed spawn, whether for want of a slot or of a table to clone, in any state with
right counts whose unused slots are clear. -/
theorem failed_spawn_untouched {leak : DescIx → Nat} (h : Refs leak k)
    (hclear : ∀ p, (k.g_processes p).state = .UNUSED → k.g_processes p = Process.zero)
    (hfail : (process_core_spawn_exec ops k).1 = none) :
    Untouched k (process_core_spawn_exec ops k).2 := by
  rcases process_core_spawn_exec_spec ops h with ⟨heq, -⟩ | ⟨c, hun, -, -, hcase⟩
  · rw [heq]
    exact ⟨rfl, rfl, fun _ => rfl⟩
  rcases hcase with ⟨heq, -⟩ | ⟨hsome, -⟩
  · rw [heq]
    refine ⟨funext fun p => ?_, rfl, fun _ => rfl⟩
    show (process_clear k c).g_processes p = k.g_processes p
    by_cases hp : p = c
    · rw [hp, hclear c hun]
      exact update_self ..
    · exact update_of_ne hp ..
  · rw [hfail] at hsome
    cases hsome

end

/-- **Exec, exit and reap are balanced.** In every run, in every state before a
`usermode_exec`, for every program it enters: with fewer than 2^32 spawns by its end, the
processes and the reference counts are those before it. A spawn that fails changes
neither, in any counted state. -/
theorem exec_exit_reap_balanced (ops : FsOps σ) :
    (∀ (fs : σ) (n : Nat) (k : Kernel σ) (body : Script), Spawns ops fs n k →
      (usermode_exec_process ops (body.run ops) (k, n)).2.2 < 2 ^ 32 →
      (∀ child, (usermode_exec_process ops (body.run ops) (k, n)).1 = some child →
        Balanced k child (usermode_exec_process ops (body.run ops) (k, n)).2.1) ∧
      ((usermode_exec_process ops (body.run ops) (k, n)).1 = none →
        Untouched k (usermode_exec_process ops (body.run ops) (k, n)).2.1)) ∧
    ∀ (leak : DescIx → Nat) (k : Kernel σ), Refs leak k →
      (∀ p, (k.g_processes p).state = .UNUSED → k.g_processes p = Process.zero) →
      (process_core_spawn_exec ops k).1 = none → Untouched k (process_core_spawn_exec ops k).2 := by
  refine ⟨fun fs n k body hs hn => ?_, fun leak k h hclear hfail =>
    failed_spawn_untouched h hclear hfail⟩
  obtain ⟨hs', hres, hnone, hslot⟩ :=
    usermode_exec_process_spec hs (body.run_le ops) (fun k n => body.run_spec k n) hn
  have hsound := (hs.sound
    (Nat.lt_of_le_of_lt (usermode_exec_process_le _ (body.run_le ops) (k, n)) hn)).1
  have hsound' := (hs'.sound hn).1
  refine ⟨fun child hchild => ?_, fun hfail => ?_⟩
  · have hsame := hsound.refs.exact.same hsound'.refs.exact hres.processes
    exact {
      current := hres.current
      running := hsound'.current_running
      slot := by rw [hres.processes]; exact hslot child hchild
      pids := hsound'.pids
      entries := by unfold Kernel.table; rw [hres.processes]
      cwd := by rw [hres.processes]
      processes := hres.processes
      refs := fun i => (hsame i).1
      used := fun i => (hsame i).2 }
  · rw [hnone hfail]
    exact ⟨rfl, rfl, fun _ => rfl⟩

/-- A program that works on its descriptors and its directory around a nested program. -/
def nestingProgram : Script :=
  .call (.dup 1) rfl (.chdir [0x2F, 0x61]
    (.program (.call (.close 0) rfl .done) (.call (.dup2 2 0) rfl .done)))

/-- A program that runs another one comes back to where it was. -/
theorem nested_program_balanced :
    ∃ child k', usermode_exec_process quietOps (nestingProgram.run quietOps)
        (boot quietOps (), 0) = (some child, (k', 2)) ∧
      Balanced (boot quietOps ()) child k' := by
  have hcount : (usermode_exec_process quietOps (nestingProgram.run quietOps)
      (boot quietOps (), 0)).2.2 = 2 := by decide +kernel
  have hchild : (usermode_exec_process quietOps (nestingProgram.run quietOps)
      (boot quietOps (), 0)).1 = some ⟨1, Nat.lt_of_sub_eq_succ rfl⟩ := by decide +kernel
  have hbal := ((exec_exit_reap_balanced quietOps).1 () 0 _ nestingProgram .boot
    (by rw [hcount]; omega)).1 _ hchild
  generalize usermode_exec_process quietOps (nestingProgram.run quietOps)
    (boot quietOps (), 0) = r at hcount hchild hbal ⊢
  exact ⟨_, r.2.1, Prod.ext hchild (Prod.ext rfl hcount), hbal⟩

end System1.Fd
