/-
Runs of the descriptor layer, and when its reference counts are exact.

A run starts from `process_core_init` on zeroed memory and makes descriptor calls,
spawns, exits and reaps in any order. In every state it reaches the counts are right
up to a leak (`FdRefs`). This file settles when the leak is zero.

A table with entries is forgotten only when a slot is unused although the process in it
is current. The processes from the current one up to the initial one form a chain of
running parents, and an exit hands the machine to the parent, which it looks up by
process number. As long as process numbers of the slots in use are distinct the lookup
finds the right slot, so the current slot is always in use and nothing leaks. The
numbers come from a 32-bit counter that nobody checks: after 2^32 spawns it hands out a
number again, and then a run exists that leaks a description (`FdWrap`).
-/
import System1.FdCalls

set_option autoImplicit false

namespace System1.Fd

open System1.Lib Function List

variable {σ : Type} {ops : FsOps σ}

/-! ## Calls and runs -/

/-- The calls of the descriptor layer and the process layer. -/
inductive Call where
  | open_ (path : CString) (flags : Nat)
  | close (fd : Int)
  | read (fd : Int) (count : Nat)
  | write (fd : Int) (buffer : List UInt8)
  | lseek (fd offset : Int) (whence : Nat)
  | dup (oldfd : Int)
  | dup2 (oldfd newfd : Int)
  | spawn
  | exit
  | reap (p : ProcIx)

/-- What a call hands back. -/
inductive Answer where
  | int (rc : Int)
  | bytes (rc : Int) (buffer : List UInt8)
  | process (slot : Option ProcIx)
  | void
  deriving DecidableEq, Repr

def exec (ops : FsOps σ) (k : Kernel σ) : Call → Answer × Kernel σ
  | .open_ path flags =>
    ((.int (fd_core_open ops k path flags).1), (fd_core_open ops k path flags).2)
  | .close fd => (.int (fd_core_close ops k fd).1, (fd_core_close ops k fd).2)
  | .read fd count =>
    (.bytes (fd_core_read ops k fd count).1.1 (fd_core_read ops k fd count).1.2,
      (fd_core_read ops k fd count).2)
  | .write fd buffer => (.int (fd_core_write ops k fd buffer).1, (fd_core_write ops k fd buffer).2)
  | .lseek fd offset whence =>
    (.int (fd_core_lseek ops k fd offset whence).1, (fd_core_lseek ops k fd offset whence).2)
  | .dup oldfd => (.int (fd_core_dup ops k oldfd).1, (fd_core_dup ops k oldfd).2)
  | .dup2 oldfd newfd =>
    (.int (fd_core_dup2 ops k oldfd newfd).1, (fd_core_dup2 ops k oldfd newfd).2)
  | .spawn => (.process (process_core_spawn_exec ops k).1, (process_core_spawn_exec ops k).2)
  | .exit => (.void, process_core_exit_current k)
  | .reap p => (.void, process_core_reap ops k p)

/-- The slot of the initial kernel process. -/
def initialSlot : ProcIx := ⟨0, Nat.succ_pos _⟩

/-- The state `process_core_init` leaves, from zeroed memory. -/
def boot (ops : FsOps σ) (fs : σ) : Kernel σ := process_core_init ops (Kernel.zero fs)

/-- Only a spawned process exits. -/
def MayCall (k : Kernel σ) : Call → Prop
  | .exit => k.g_current_process ≠ initialSlot
  | _ => True

/-- The number a spawn would hand out is not carried by a slot in use. -/
def PidFree (k : Kernel σ) : Call → Prop
  | .spawn => ∀ p, (k.g_processes p).state ≠ .UNUSED → (k.g_processes p).pid ≠ k.g_next_pid
  | _ => True

/-- The states of the runs whose every call satisfies `P`. -/
inductive Reach (ops : FsOps σ) (P : Kernel σ → Call → Prop) (fs : σ) : Kernel σ → Prop where
  | boot : Reach ops P fs (boot ops fs)
  | call {k : Kernel σ} (c : Call) : Reach ops P fs k → P k c → Reach ops P fs (exec ops k c).2

/-- A descriptor call after its `fd_core_init`. -/
def Call.onTable : Call → Bool
  | .spawn => false
  | .exit => false
  | .reap _ => false
  | _ => true

variable {k : Kernel σ} {c : Call}

/-- The descriptor calls keep the counts. -/
theorem exec_onTable_ok (ops : FsOps σ) {leak : DescIx → Nat} (hc : c.onTable = true)
    (h : Refs leak (fd_core_init ops k)) :
    CallOk leak (fd_core_init ops k) (exec ops k c).2 := by
  cases c with
  | open_ path flags => exact fd_core_open_ok ops h path flags
  | close fd => exact fd_core_close_ok ops h fd
  | read fd count => exact fd_core_read_ok ops h fd count
  | write fd buffer => exact fd_core_write_ok ops h fd buffer
  | lseek fd offset whence => exact fd_core_lseek_ok ops h fd offset whence
  | dup oldfd => exact fd_core_dup_ok ops h oldfd
  | dup2 oldfd newfd => exact fd_core_dup2_ok ops h oldfd newfd
  | spawn | exit | reap => cases hc

/-! ## Boot -/

/-- The descriptions not in use. -/
def Kernel.free (k : Kernel σ) : Finset DescIx :=
  Finset.univ.filter fun i => (k.g_descriptions i).used = false

variable {k' : Kernel σ}

/-- While a description is free an assignment succeeds, and takes one. -/
theorem fd_assign_new_description_of_free {n : Nat} (hn : n + 1 ≤ k.free.card) (p : ProcIx)
    (fd : FdIx) (kind : FdKind) (node_id flags offset : Nat) :
    ∃ k', fd_assign_new_description k p fd kind node_id flags offset = some k' ∧
      n ≤ k'.free.card := by
  obtain ⟨x, hx⟩ := Finset.card_pos.mp (Nat.lt_of_lt_of_le (Nat.succ_pos n) hn)
  have hxf : (k.g_descriptions x).used = false := (Finset.mem_filter.mp hx).2
  unfold fd_assign_new_description
  cases ha : fd_alloc_description k kind node_id flags offset with
  | none => grind [fd_alloc_description]
  | some r =>
    obtain ⟨i, k1⟩ := r
    obtain ⟨-, rfl⟩ := fd_alloc_description_some ha
    refine ⟨_, rfl, ?_⟩
    -- all that were free but the one taken are free still
    have hsub : k.free.erase i ⊆
        ((k.setDesc i ⟨true, 1, kind, node_id, offset, flags⟩).setEntry p fd (some i)).free := by
      intro j hj
      obtain ⟨hji, hjf⟩ := Finset.mem_erase.mp hj
      refine Finset.mem_filter.mpr ⟨Finset.mem_univ j, ?_⟩
      rw [show ((k.setDesc i ⟨true, 1, kind, node_id, offset, flags⟩).setEntry p fd
        (some i)).g_descriptions j = k.g_descriptions j from setDesc_ne k i _ hji]
      exact (Finset.mem_filter.mp hjf).2
    have hle := Finset.card_le_card hsub
    grind [Finset.pred_card_le_card_erase]

/-- With three free descriptions a new table gets its standard descriptors. -/
theorem fd_core_table_init_initialized (ops : FsOps σ) (h : 3 ≤ k.free.card) (p : ProcIx) :
    ((fd_core_table_init ops k p).table p).initialized = true := by
  have h0 : 2 + 1 ≤ (fd_core_table_reset k p).free.card := h
  obtain ⟨k1, hk1, h1⟩ := fd_assign_new_description_of_free h0 p ⟨0, by decide⟩ .TTY_IN 0 0 0
  obtain ⟨k2, hk2, h2⟩ :=
    fd_assign_new_description_of_free (n := 1) h1 p ⟨1, by decide⟩ .TTY_OUT 0 0 0
  obtain ⟨k3, hk3, -⟩ :=
    fd_assign_new_description_of_free (n := 0) h2 p ⟨2, by decide⟩ .TTY_OUT 0 0 0
  unfold fd_core_table_init
  simp [hk1, hk2, hk3, setTable_table_self]

/-- The initial process before it has a table. -/
def initialProcess : Process := ⟨1, 0, .RUNNING, process_copy_string rootPath, FdTable.zero⟩

/-- Zeroed memory with the initial process in its slot. -/
def bootSlot (fs : σ) : Kernel σ :=
  { (Kernel.zero fs).setProc initialSlot initialProcess with g_next_pid := u32 2 }

theorem boot_eq (ops : FsOps σ) (fs : σ) :
    boot ops fs = { fd_core_table_init ops (bootSlot fs) initialSlot with
      g_current_process := initialSlot } := rfl

theorem bootSlot_proc (fs : σ) {p : ProcIx} (hp : p ≠ initialSlot) :
    (bootSlot fs).g_processes p = Process.zero := update_of_ne hp ..

theorem bootSlot_self (fs : σ) : (bootSlot fs).g_processes initialSlot = initialProcess := by
  unfold bootSlot Kernel.setProc
  simp

theorem bootSlot_tabs (fs : σ) (p : ProcIx) (fd : FdIx) : (bootSlot fs).tabs p fd = none := by
  unfold Kernel.tabs Kernel.table
  by_cases hp : p = initialSlot
  · rw [hp, bootSlot_self]
    rfl
  · rw [bootSlot_proc fs hp]
    rfl

/-- Before any open the counts are those of empty tables. -/
theorem bootSlot_refs (fs : σ) : Refs (fun _ => 0) (bootSlot fs) := by
  have hnone : (bootSlot fs).tabs = fun _ _ => none :=
    funext fun p => funext fun fd => bootSlot_tabs fs p fd
  have htotal : ∀ i, total (bootSlot fs).tabs i = 0 := by
    intro i
    rw [hnone]
    unfold total
    simp [holders_none]
  refine ⟨⟨fun i => ?_, fun _ => Nat.zero_le _, ?_, ?_⟩, fun i => ?_⟩
  · rw [htotal i]
    rfl
  · rintro p q i - - ⟨fd, hfd⟩ -
    rw [bootSlot_tabs] at hfd
    cases hfd
  · intro p i _ _
    rfl
  · show false = true ↔ 0 < 0
    simp

/-- The boot state: everything is counted, the initial process runs with its three
standard descriptors, and the other slots are clear. -/
structure Booted (k : Kernel σ) : Prop where
  refs : Refs (fun _ => 0) k
  self : k.g_processes initialSlot = { initialProcess with fd_table := k.table initialSlot }
  ready : (k.table initialSlot).initialized = true
  tabs : ∃ a b c : DescIx, (k.tabs initialSlot = fun fd =>
    if fd.val = 0 then some a else if fd.val = 1 then some b
      else if fd.val = 2 then some c else none) ∧ a ≠ b ∧ a ≠ c ∧ b ≠ c ∧
    k.g_descriptions a = ⟨true, 1, .TTY_IN, 0, 0, 0⟩ ∧
    k.g_descriptions b = ⟨true, 1, .TTY_OUT, 0, 0, 0⟩ ∧
    k.g_descriptions c = ⟨true, 1, .TTY_OUT, 0, 0, 0⟩
  clear : ∀ p, p ≠ initialSlot → k.g_processes p = Process.zero
  current : k.g_current_process = initialSlot
  next_pid : k.g_next_pid = 2

/-- What the boot leaves: one process with the three standard descriptors. -/
theorem boot_booted (ops : FsOps σ) (fs : σ) : Booted (boot ops fs) := by
  have hloose : (bootSlot fs).Loose initialSlot := by
    refine .inr ?_
    unfold Kernel.table
    rw [bootSlot_self]
    rfl
  obtain ⟨hst, hinv⟩ := fd_core_table_init_spec ops (bootSlot_refs fs) hloose
  have hfree : (bootSlot fs).free = Finset.univ := Finset.filter_true_of_mem fun _ _ => rfl
  have hinit := fd_core_table_init_initialized ops (k := bootSlot fs)
    (by rw [hfree, Finset.card_univ, Fintype.card_fin]; decide) initialSlot
  rw [RefsInv.holders_empty (bootSlot_tabs fs initialSlot)] at hinv
  rw [boot_eq]
  generalize fd_core_table_init ops (bootSlot fs) initialSlot = k1 at hst hinv hinit
  refine ⟨⟨hinv.counted.mono fun p hp => .inl ?_, hinv.used⟩, ?_, hinit, ?_, ?_, rfl, ?_⟩
  · by_cases hpi : p = initialSlot
    · exact hpi ▸ hloose
    · simpa only [Kernel.Loose, Kernel.table, hst.other p hpi] using hp
  · refine hst.self.trans ?_
    rw [bootSlot_self]
    rfl
  · rcases hst.shape with hzero | ⟨-, a, b, c, -, -, -, hab, hac, hbc, hda, hdb, hdc, htabs⟩
    · rw [hzero] at hinit
      cases hinit
    · exact ⟨a, b, c, htabs, hab, hac, hbc, hda, hdb, hdc⟩
  · intro p hp
    exact (hst.other p hp).trans (bootSlot_proc fs hp)
  · exact hst.next_pid.trans rfl

theorem boot_fs (ops : FsOps σ) (hclose : ∀ s n, (ops.fs_core_close s n).2 = s) (fs : σ) :
    (boot ops fs).fs = fs := by
  have hloose : (bootSlot fs).Loose initialSlot := by
    refine .inr ?_
    unfold Kernel.table
    rw [bootSlot_self]
    rfl
  exact (fd_core_table_init_spec ops (bootSlot_refs fs) hloose).1.fs hclose

theorem Booted.running (h : Booted k) :
    (k.g_processes initialSlot).state = .RUNNING := by
  rw [h.self]
  rfl

/-! ## The chain of parents -/

/-- Each process of the list was spawned by the next one, down to the initial one. -/
def Linked (k : Kernel σ) : List ProcIx → Prop
  | [] => False
  | [p] => p = initialSlot
  | p :: q :: st => (k.g_processes p).ppid = (k.g_processes q).pid ∧ Linked k (q :: st)

/-- The chain of parents depends on the numbers only. -/
theorem Linked.congr {st : List ProcIx}
    (hpid : ∀ p ∈ st, (k'.g_processes p).pid = (k.g_processes p).pid)
    (hppid : ∀ p ∈ st, (k'.g_processes p).ppid = (k.g_processes p).ppid) (h : Linked k st) :
    Linked k' st := by
  induction st with
  | nil => exact h
  | cons p st ih =>
    cases st with
    | nil => exact h
    | cons q st =>
      refine ⟨?_, ih (fun x hx => hpid x (.tail _ hx)) (fun x hx => hppid x (.tail _ hx)) h.2⟩
      rw [hppid p (.head _), hpid q (.tail _ (.head _))]
      exact h.1

/-! ## Exit -/

/-- The current process has exited to slot `q`. -/
structure Exited (k k' : Kernel σ) (q : ProcIx) : Prop where
  self : k'.g_processes k.g_current_process =
    { k.g_processes k.g_current_process with state := .ZOMBIE }
  parent : k'.g_processes q = { k.g_processes q with state := .RUNNING }
  other : ∀ p, p ≠ k.g_current_process → p ≠ q → k'.g_processes p = k.g_processes p
  current : k'.g_current_process = q
  next_pid : k'.g_next_pid = k.g_next_pid

/-- The slots an exit looks at: those in use, the exiting one among them. -/
def Seen (k : Kernel σ) (p : ProcIx) : Prop :=
  ((k.g_processes p).state ≠ .UNUSED ∨ p = k.g_current_process) ∧
    (k.g_processes p).pid = (k.g_processes k.g_current_process).ppid

/-- The state in which an exit looks for its parent. -/
abbrev zombied (k : Kernel σ) : Kernel σ :=
  k.setProc k.g_current_process { k.g_processes k.g_current_process with state := .ZOMBIE }

theorem zombied_seen (k : Kernel σ) (p : ProcIx) :
    (((zombied k).g_processes p).state ≠ .UNUSED ∧ ((zombied k).g_processes p).pid =
      ((zombied k).g_processes k.g_current_process).ppid) ↔ Seen k p := by
  unfold zombied Kernel.setProc Seen
  by_cases hp : p = k.g_current_process
  · simp [hp]
  · simp [hp]

/-- An exit goes to the first slot that carries the parent's number. -/
theorem process_core_exit_current_to {q : ProcIx} (hq : Seen k q) (hleast : ∀ p, Seen k p → q ≤ p)
    (hne : q ≠ k.g_current_process) :
    Exited k (process_core_exit_current k) q := by
  have hfind : process_find_pid (zombied k)
      ((zombied k).g_processes k.g_current_process).ppid = some q := by
    exact find?_finRange_of_least (decide_eq_true ((zombied_seen k q).mpr hq)) fun p hp =>
      hleast p ((zombied_seen k p).mp (of_decide_eq_true hp))
  unfold process_core_exit_current
  dsimp only
  rw [hfind]
  refine ⟨?_, ?_, fun p hp hpq => ?_, rfl, rfl⟩
  · exact (update_of_ne hne.symm ..).trans (update_self ..)
  · refine (update_self ..).trans ?_
    rw [show (zombied k).g_processes q = k.g_processes q from update_of_ne hne ..]
  · exact (update_of_ne hpq ..).trans (update_of_ne hp ..)

/-! ## The invariant -/

/-- What keeps the counts exact: a slot not in use is clear, one in use has its table,
the numbers of the slots in use are distinct, and the current process heads a chain of
running parents. -/
structure Sound (k : Kernel σ) : Prop where
  refs : Refs (fun _ => 0) k
  clear : ∀ p, (k.g_processes p).state = .UNUSED → k.g_processes p = Process.zero
  ready : ∀ p, (k.g_processes p).state ≠ .UNUSED → (k.table p).initialized = true
  pids : ∀ p q, (k.g_processes p).state ≠ .UNUSED → (k.g_processes q).state ≠ .UNUSED →
    (k.g_processes p).pid = (k.g_processes q).pid → p = q
  stack : ∃ st, Linked k (k.g_current_process :: st) ∧ (k.g_current_process :: st).Nodup ∧
    ∀ p ∈ k.g_current_process :: st, (k.g_processes p).state = .RUNNING

namespace Sound

variable {k k' : Kernel σ}

section

variable (h : Sound k)

include h

theorem current_running : (k.g_processes k.g_current_process).state = .RUNNING := by
  obtain ⟨st, -, -, hrun⟩ := h.stack
  exact hrun _ mem_cons_self

/-- The current process has its table, so no call makes a new one. -/
theorem init_eq : fd_core_init ops k = k :=
  fd_core_init_of_initialized (h.ready _ (by rw [h.current_running]; decide))

/-- A slot not in use names nothing, so forgetting its table loses nothing. -/
theorem empty {p : ProcIx} (hp : (k.g_processes p).state = .UNUSED) (fd : FdIx) :
    k.tabs p fd = none := by
  unfold Kernel.tabs Kernel.table
  rw [h.clear p hp]
  rfl

/-- Calls on the table of the current process. -/
theorem of_call (hc : CallOk (fun _ => 0) k k') : Sound k' := by
  obtain ⟨st, hlink, hnd, hrun⟩ := h.stack
  refine ⟨hc.refs, fun p hp => ?_, fun p hp => ?_, fun p q hp hq heq => ?_, st, ?_, ?_, ?_⟩
  · rw [hc.frame.state] at hp
    have hpc : p ≠ k.g_current_process := by
      rintro rfl
      rw [h.current_running] at hp
      cases hp
    rw [hc.frame.proc_eq (hc.other p hpc)]
    exact h.clear p hp
  · rw [hc.frame.state] at hp
    rw [hc.frame.initialized]
    exact h.ready p hp
  · rw [hc.frame.state] at hp hq
    rw [hc.frame.pid, hc.frame.pid] at heq
    exact h.pids p q hp hq heq
  · rw [hc.frame.current]
    exact hlink.congr (fun p _ => hc.frame.pid p) fun p _ => hc.frame.ppid p
  · rw [hc.frame.current]
    exact hnd
  · intro p hp
    rw [hc.frame.current] at hp
    rw [hc.frame.state]
    exact hrun p hp

/-- A reaped slot was a zombie, so it is not in the chain. -/
theorem of_reap (p : ProcIx) : Sound (process_core_reap ops k p) := by
  obtain ⟨hrefs, ⟨-, heq⟩ | ⟨hz, hr⟩⟩ := process_core_reap_spec ops h.refs p
  · rw [heq]
    exact h
  obtain ⟨st, hlink, hnd, hrun⟩ := h.stack
  have hout : ∀ q ∈ k.g_current_process :: st, q ≠ p := by
    rintro q hq rfl
    rw [hrun q hq] at hz
    cases hz
  have huse : ∀ q, ((process_core_reap ops k p).g_processes q).state ≠ .UNUSED → q ≠ p := by
    rintro q hq rfl
    rw [hr.self] at hq
    exact hq rfl
  refine ⟨hrefs, fun q hq => ?_, fun q hq => ?_, fun q x hq hx heq => ?_, st, ?_, ?_, ?_⟩
  · by_cases hqp : q = p
    · rw [hqp, hr.self]
    · rw [hr.other q hqp] at hq ⊢
      exact h.clear q hq
  · have hqp := huse q hq
    rw [hr.other q hqp] at hq
    unfold Kernel.table
    rw [hr.other q hqp]
    exact h.ready q hq
  · have hqp := huse q hq
    have hxp := huse x hx
    rw [hr.other q hqp] at hq
    rw [hr.other x hxp] at hx
    rw [hr.other q hqp, hr.other x hxp] at heq
    exact h.pids q x hq hx heq
  · rw [hr.current]
    exact hlink.congr (fun q hq => by rw [hr.other q (hout q hq)])
      fun q hq => by rw [hr.other q (hout q hq)]
  · rw [hr.current]
    exact hnd
  · intro q hq
    rw [hr.current] at hq
    rw [hr.other q (hout q hq)]
    exact hrun q hq

/-- A spawn puts the child on top of the chain. -/
theorem of_spawn (hfree : PidFree k .spawn) :
    Sound (process_core_spawn_exec ops k).2 := by
  have hrunning := h.current_running
  rcases process_core_spawn_exec_spec ops h.refs with ⟨heq, -⟩ | ⟨c, hun, -, hrefs, hcase⟩
  · rw [heq]
    exact h
  rw [RefsInv.holders_empty (h.empty hun)] at hrefs
  rcases hcase with ⟨-, hbad⟩ | ⟨-, hsp, -, -⟩
  · -- the current process is running and has its table, so the clone does not fail
    exfalso
    rcases hbad with rfl | hbad
    · rw [hrunning] at hun
      cases hun
    · rw [h.ready _ (by rw [hrunning]; decide)] at hbad
      cases hbad
  obtain ⟨st, hlink, hnd, hrun⟩ := h.stack
  have hout : ∀ q ∈ k.g_current_process :: st, q ≠ c := by
    rintro q hq rfl
    rw [hrun q hq] at hun
    cases hun
  generalize (process_core_spawn_exec ops k).2 = k' at hrefs hsp
  refine ⟨hrefs, fun q hq => ?_, fun q hq => ?_, fun q x hq hx heq => ?_,
    k.g_current_process :: st, ?_, ?_, ?_⟩
  · have hqc : q ≠ c := by
      rintro rfl
      rw [hsp.child] at hq
      cases hq
    rw [hsp.other q hqc] at hq ⊢
    exact h.clear q hq
  · unfold Kernel.table
    by_cases hqc : q = c
    · rw [hqc, hsp.child]
    · rw [hsp.other q hqc] at hq ⊢
      exact h.ready q hq
  · -- the child's number is carried by nobody else
    by_cases hqc : q = c
    · by_cases hxc : x = c
      · rw [hqc, hxc]
      rw [hsp.other x hxc] at hx heq
      rw [hqc, hsp.child] at heq
      exact absurd heq.symm (hfree x hx)
    rw [hsp.other q hqc] at hq heq
    by_cases hxc : x = c
    · rw [hxc, hsp.child] at heq
      exact absurd heq (hfree q hq)
    · rw [hsp.other x hxc] at hx heq
      exact h.pids q x hq hx heq
  · rw [hsp.current]
    refine ⟨?_, hlink.congr (fun q hq => by rw [hsp.other q (hout q hq)])
      fun q hq => by rw [hsp.other q (hout q hq)]⟩
    rw [hsp.child, hsp.other _ (hout _ mem_cons_self)]
  · rw [hsp.current]
    exact nodup_cons.mpr ⟨fun hmem => hout c hmem rfl, hnd⟩
  · intro q hq
    rw [hsp.current] at hq
    rcases mem_cons.mp hq with rfl | hq
    · rw [hsp.child]
    · rw [hsp.other q (hout q hq)]
      exact hrun q hq

/-- An exit of a process spawned by slot `q` goes to `q`: by the distinct numbers, no
other slot carries the parent's number. -/
theorem exit_to {q : ProcIx} (hq : (k.g_processes q).state = .RUNNING)
    (hne : q ≠ k.g_current_process)
    (hppid : (k.g_processes k.g_current_process).ppid = (k.g_processes q).pid) :
    Exited k (process_core_exit_current k) q := by
  have hquse : (k.g_processes q).state ≠ .UNUSED := by rw [hq]; decide
  refine process_core_exit_current_to ⟨.inl hquse, hppid.symm⟩ (fun p hp => ?_) hne
  obtain ⟨hp, hpid⟩ := hp
  have hpuse : (k.g_processes p).state ≠ .UNUSED := by
    rcases hp with hp | rfl
    · exact hp
    · rw [h.current_running]
      decide
  rw [h.pids p q hpuse hquse (hpid.trans hppid)]

/-- An exit takes the top off the chain, and goes to the next one of the chain. -/
theorem of_exit (hc : k.g_current_process ≠ initialSlot) :
    Sound (process_core_exit_current k) := by
  obtain ⟨st, hlink, hnd, hrun⟩ := h.stack
  cases st with
  | nil => exact absurd hlink hc
  | cons q st =>
  obtain ⟨hppid, hlink'⟩ := hlink
  obtain ⟨hcnot, hnd'⟩ := nodup_cons.mp hnd
  have hqc : q ≠ k.g_current_process := fun heq => hcnot (heq ▸ mem_cons_self)
  have huse : ∀ p ∈ k.g_current_process :: q :: st, (k.g_processes p).state ≠ .UNUSED := by
    intro p hp
    rw [hrun p hp]
    decide
  have hquse := huse q (.tail _ (.head _))
  have hex := h.exit_to (hrun q (.tail _ (.head _))) hqc hppid
  have hrefs := process_core_exit_current_refs h.refs
  generalize process_core_exit_current k = k' at hex hrefs
  -- numbers, parents' numbers and tables are all untouched
  have hkeep : ∀ p, (k'.g_processes p).pid = (k.g_processes p).pid ∧
      (k'.g_processes p).ppid = (k.g_processes p).ppid ∧ k'.table p = k.table p ∧
      ((k'.g_processes p).state ≠ .UNUSED ↔ (k.g_processes p).state ≠ .UNUSED) := by
    intro p
    unfold Kernel.table
    by_cases hpc : p = k.g_current_process
    · rw [hpc, hex.self]
      refine ⟨rfl, rfl, rfl, fun _ => huse _ mem_cons_self, fun _ => by simp⟩
    by_cases hpq : p = q
    · rw [hpq, hex.parent]
      exact ⟨rfl, rfl, rfl, fun _ => hquse, fun _ => by simp⟩
    · rw [hex.other p hpc hpq]
      exact ⟨rfl, rfl, rfl, Iff.rfl⟩
  refine ⟨hrefs, fun p hp => ?_, fun p hp => ?_, fun p x hp hx heq => ?_, st, ?_, ?_, ?_⟩
  · have hpun : (k.g_processes p).state = .UNUSED := by
      by_contra hne
      exact (hkeep p).2.2.2.mpr hne hp
    have hpc : p ≠ k.g_current_process := fun heq => huse p (heq ▸ mem_cons_self) hpun
    have hpq : p ≠ q := fun heq => hquse (heq ▸ hpun)
    rw [hex.other p hpc hpq]
    exact h.clear p hpun
  · rw [(hkeep p).2.2.1]
    exact h.ready p ((hkeep p).2.2.2.mp hp)
  · rw [(hkeep p).1, (hkeep x).1] at heq
    exact h.pids p x ((hkeep p).2.2.2.mp hp) ((hkeep x).2.2.2.mp hx) heq
  · rw [hex.current]
    exact hlink'.congr (fun p _ => (hkeep p).1) fun p _ => (hkeep p).2.1
  · rw [hex.current]
    exact hnd'
  · intro p hp
    rw [hex.current] at hp
    by_cases hpq : p = q
    · rw [hpq, hex.parent]
    have hpc : p ≠ k.g_current_process := fun heq => hcnot (heq ▸ hp)
    rw [hex.other p hpc hpq]
    exact hrun p (.tail _ hp)

end

end Sound

/-- The state after the boot has exact counts, -/
theorem boot_sound (ops : FsOps σ) (fs : σ) : Sound (boot ops fs) := by
  obtain hb := boot_booted ops fs
  have hrun := hb.running
  obtain ⟨hrefs, -, hinit, -, hclear, hcur, -⟩ := hb
  have honly : ∀ p, ((boot ops fs).g_processes p).state ≠ .UNUSED → p = initialSlot := by
    intro p hp
    by_contra hne
    rw [hclear p hne] at hp
    exact hp rfl
  refine ⟨hrefs, fun p hp => ?_, fun p hp => ?_, fun p q hp hq _ => ?_, [], ?_, ?_, ?_⟩
  · refine hclear p fun heq => ?_
    rw [heq, hrun] at hp
    cases hp
  · rw [honly p hp]
    exact hinit
  · rw [honly p hp, honly q hq]
  · exact hcur
  · exact nodup_singleton _
  · intro p hp
    rw [mem_singleton.mp hp, hcur]
    exact hrun

/-- The calls a run may make while its counts stay exact. -/
def Fresh (k : Kernel σ) (c : Call) : Prop := MayCall k c ∧ PidFree k c

/-- and every call keeps them exact. -/
theorem exec_sound (ops : FsOps σ) (h : Sound k) (hc : Fresh k c) :
    Sound (exec ops k c).2 := by
  cases hon : c.onTable with
  | true =>
    have hinit : fd_core_init ops k = k := h.init_eq
    have hok := exec_onTable_ok ops (k := k) hon (by rw [hinit]; exact h.refs)
    rw [hinit] at hok
    exact h.of_call hok
  | false =>
    cases c with
    | spawn => exact h.of_spawn hc.2
    | exit => exact h.of_exit hc.1
    | reap p => exact h.of_reap p
    | _ => cases hon

theorem reach_sound {fs : σ} (h : Reach ops Fresh fs k) : Sound k := by
  induction h with
  | boot => exact boot_sound ops fs
  | call c _ hc ih => exact exec_sound ops ih hc

/-! ## Exact counts -/

/-- The counts of the descriptions are exact: a description has as many references as
entries name it, it is in use exactly when one does, and every entry names a
description in use. -/
structure Exact (k : Kernel σ) : Prop where
  refs : ∀ i, (k.g_descriptions i).refs = total k.tabs i
  used : ∀ i, (k.g_descriptions i).used = true ↔ 0 < total k.tabs i
  named : ∀ p fd i, (k.table p).entries fd = some i → (k.g_descriptions i).used = true

/-- Between `k` and `k'`, `fs_core_close` is called exactly once for each VFS description
whose last entry went away, with the description's node, and for no other. -/
structure ClosesLast (k k' : Kernel σ) : Prop where
  log : ∃ l, k'.closed = k.closed ++ l ∧
    (∀ i, (l.map Prod.fst).count i =
      if (k.g_descriptions i).kind = .VFS ∧ 0 < total k.tabs i ∧ total k'.tabs i = 0
      then 1 else 0) ∧
    ∀ x ∈ l, x.2 = (k.g_descriptions x.1).node_id

theorem Refs.exact (h : Refs (fun _ => 0) k) : Exact k := by
  have hrefs : ∀ i, (k.g_descriptions i).refs = total k.tabs i := fun i =>
    (h.counted.eq i).trans (Nat.add_zero _)
  refine ⟨hrefs, fun i => ?_, fun p fd i he => h.named he⟩
  rw [← hrefs i]
  exact h.used i

/-- What is closed is what lost its last name. -/
theorem ClosedExactly.last {l : List (DescIx × Nat)} (h : ClosedExactly k k' l) (hk : Exact k)
    (hk' : Exact k') : ClosesLast k k' := by
  refine ⟨l, h.closed, fun i => ?_, h.node⟩
  rw [h.count i]
  have hfree : (k'.g_descriptions i).used = false ↔ total k'.tabs i = 0 := by
    rw [← Bool.not_eq_true, hk'.used i]
    omega
  simp only [hk.used i, hfree, and_left_comm]

/-- What a call closes, in a state with exact counts. -/
theorem exec_closes (ops : FsOps σ) (h : Sound k) (hc : Fresh k c) :
    ∃ l, ClosedExactly k (exec ops k c).2 l := by
  cases hon : c.onTable with
  | true =>
    have hinit : fd_core_init ops k = k := h.init_eq
    have hok := exec_onTable_ok ops (k := k) hon (by rw [hinit]; exact h.refs)
    rw [hinit] at hok
    exact hok.closes
  | false =>
    cases c with
    | spawn =>
      refine ⟨[], ?_⟩
      rcases process_core_spawn_exec_spec ops h.refs with
        ⟨heq, -⟩ | ⟨c, -, -, -, ⟨heq, -⟩ | ⟨-, hsp, -⟩⟩
      · exact .nothing (by rw [exec, heq]) fun i hi => by rw [exec, heq]; exact hi
      · refine .nothing (by rw [exec, heq]; rfl) fun i hi => ?_
        rw [exec, heq]
        exact hi
      exact .nothing hsp.same.closed fun i hi => by
        show ((process_core_spawn_exec ops k).2.g_descriptions i).used = true
        rw [hsp.same.desc i]
        exact hi
    | exit =>
      obtain ⟨-, hdesc, hclosed, -⟩ := process_core_exit_current_spec k
      refine ⟨[], .nothing hclosed fun i hi => ?_⟩
      show ((process_core_exit_current k).g_descriptions i).used = true
      rw [hdesc]
      exact hi
    | reap p =>
      obtain ⟨-, ⟨-, heq⟩ | ⟨-, hr⟩⟩ := process_core_reap_spec ops h.refs p
      · exact ⟨[], .nothing (by rw [exec, heq]) fun i hi => by rw [exec, heq]; exact hi⟩
      · obtain ⟨l, hl⟩ := hr.closes
        exact ⟨l, hl.exactly rfl fun _ => rfl⟩
    | _ => cases hon

/-- **Exact reference counts.** In every run in which only spawned processes exit and no
spawn hands out a number that a slot in use still carries, the counts are exact in every
state, and every further such call closes exactly the descriptions it drops. -/
theorem refs_exact_of_fresh_pids (ops : FsOps σ) (fs : σ) (k : Kernel σ)
    (h : Reach ops Fresh fs k) :
    Exact k ∧ ∀ c, Fresh k c → ClosesLast k (exec ops k c).2 := by
  have hsound := reach_sound h
  refine ⟨hsound.refs.exact, fun c hc => ?_⟩
  obtain ⟨l, hl⟩ := exec_closes ops hsound hc
  exact hl.last hsound.refs.exact (exec_sound ops hsound hc).refs.exact

/-- A filesystem with nothing in it. -/
def quietOps : FsOps Unit where
  fs_core_open := fun s _ _ _ => (.error .NOT_FOUND, s)
  fs_core_read := fun s _ _ _ => (.error .NOT_FOUND, s)
  fs_core_write := fun s _ _ _ => (.error .NOT_FOUND, s)
  fs_core_size := fun s _ => (.error .NOT_FOUND, s)
  fs_core_close := fun s _ => (.ok (), s)
  tty_readline := fun s _ => ((0, []), s)
  tty_write := fun s _ _ => s

/-- A filesystem with one file, as node 7. -/
def fileOps : FsOps Unit :=
  { quietOps with fs_core_open := fun s _ _ _ => (.ok 7, s) }

/-- The initial process has opened the file and spawned a child. -/
def inherited : Kernel Unit :=
  (exec fileOps (exec fileOps (boot fileOps ()) (.open_ (.cut [0x66]) 0)).2 .spawn).2

/-- The child shares the description of the file with its parent. The counts are exact, and
stay so under every further call. -/
theorem refs_exact_after_spawn :
    inherited.g_descriptions ⟨3, by decide⟩ = ⟨true, 2, .VFS, 7, 0, 0⟩ ∧
    Exact inherited ∧
      ∀ c, Fresh inherited c → ClosesLast inherited (exec fileOps inherited c).2 := by
  have hopen : Fresh (boot fileOps ()) (.open_ (.cut [0x66]) 0) := ⟨trivial, trivial⟩
  have hspawn : Fresh (exec fileOps (boot fileOps ()) (.open_ (.cut [0x66]) 0)).2 .spawn :=
    ⟨trivial, by unfold PidFree; decide +kernel⟩
  exact ⟨by decide +kernel, refs_exact_of_fresh_pids fileOps () inherited
    ((Reach.boot.call _ hopen).call _ hspawn)⟩

end System1.Fd
