/-
A run of the descriptor layer that leaks.

Process numbers come from a 32-bit counter, and the slots in use are not consulted when
one is handed out, so after 2^32 spawns numbers repeat. The run of this file keeps a
zombie whose own parent is gone, waits until the zombie's number is handed out again,
and lets an exit find the zombie in place of the parent. The zombie becomes current,
exits, finds no parent, and is reaped although it is current: the current slot is
unused. A descriptor call then gives the slot a table, and the next spawn clears the
slot without releasing what the table names.

The run has more than 2^32 calls. Its beginning and its end are evaluated. In between
three calls are repeated, which bring every variable but the next number back to what it
was (`round_again`).
-/
import Mathlib
import System1.FdRuns

set_option autoImplicit false

namespace System1.Fd

open List

attribute [ext] Kernel

/-- A slot by its number. -/
def slot (n : Nat) : ProcIx := ⟨n % PROCESS_MAX, Nat.mod_lt _ (by decide)⟩

def runCalls (k : Kernel Unit) (calls : List Call) : Kernel Unit :=
  calls.foldl (fun k c => (exec quietOps k c).2) k

/-- Every call of the list may be made when its turn comes. -/
def MayRun (k : Kernel Unit) : List Call → Prop
  | [] => True
  | c :: calls => MayCall k c ∧ MayRun (exec quietOps k c).2 calls

theorem Reach.calls {k : Kernel Unit} (h : Reach quietOps MayCall () k) {calls : List Call}
    (hmay : MayRun k calls) : Reach quietOps MayCall () (runCalls k calls) := by
  induction calls generalizing k with
  | nil => exact h
  | cons c calls ih => exact ih (h.call c hmay.1) hmay.2

/-- Process 1 spawns 2, which exits; it spawns 3 in the next slot, 2 is reaped, and 3
spawns 4 in the freed slot. Now 4 and then 3 exit, and 3 is reaped: the zombie 4 in
slot 1 is left, whose parent is gone. -/
def orphanCalls : List Call :=
  [.spawn, .exit, .spawn, .reap (slot 1), .spawn, .exit, .exit, .reap (slot 2)]

/-- The state while the orphan waits. -/
def waiting (next_pid : Nat) : Kernel Unit :=
  { runCalls (boot quietOps ()) orphanCalls with g_next_pid := next_pid }

/-- The initial process spawns a child in slot 2, which exits and is reaped. -/
def roundCalls : List Call := [.spawn, .exit, .reap (slot 2)]

/-- A round takes one number and changes nothing else. -/
theorem round_again (n : Nat) : runCalls (waiting n) roundCalls = waiting (u32 (n + 1)) := by
  have hprocs : (finRange PROCESS_MAX).map (runCalls (waiting n) roundCalls).g_processes =
      (finRange PROCESS_MAX).map (waiting (u32 (n + 1))).g_processes := by cbv
  have hdescs : (finRange POSIX_OFD_CAP).map (runCalls (waiting n) roundCalls).g_descriptions =
      (finRange POSIX_OFD_CAP).map (waiting (u32 (n + 1))).g_descriptions := by cbv
  have hrest : (runCalls (waiting n) roundCalls).g_current_process =
        (waiting (u32 (n + 1))).g_current_process ∧
      (runCalls (waiting n) roundCalls).g_next_pid = (waiting (u32 (n + 1))).g_next_pid ∧
      (runCalls (waiting n) roundCalls).closed = (waiting (u32 (n + 1))).closed := by cbv
  obtain ⟨hcur, hnext, hclosed⟩ := hrest
  have hprocs' := fun p => map_inj_left.mp hprocs p (mem_finRange p)
  have hdescs' := fun d => map_inj_left.mp hdescs d (mem_finRange d)
  exact Kernel.ext (funext hprocs') hcur hnext (funext hdescs')
    (Subsingleton.elim _ _) hclosed

theorem mayRun_round (n : Nat) : MayRun (waiting n) roundCalls := by
  have hchild : (exec quietOps (waiting n) .spawn).2.g_current_process = slot 2 := by cbv
  refine ⟨trivial, ?_, trivial, trivial⟩
  show _ ≠ initialSlot
  rw [hchild]
  decide

/-- The orphan waits while any number of children come and go. -/
theorem reach_waiting (m : Nat) : Reach quietOps MayCall () (waiting ((5 + m) % 2 ^ 32)) := by
  induction m with
  | zero =>
    have hmay : MayRun (boot quietOps ()) orphanCalls := by
      refine ⟨trivial, ?_, trivial, trivial, trivial, ?_, ?_, trivial, trivial⟩ <;>
        (show _ ≠ initialSlot; decide +kernel)
    have hnext : (runCalls (boot quietOps ()) orphanCalls).g_next_pid = 5 := by decide +kernel
    have hwaiting : waiting 5 = runCalls (boot quietOps ()) orphanCalls := by
      rw [waiting, ← hnext]
    exact hwaiting ▸ Reach.boot.calls hmay
  | succ m ih =>
    have hround := ih.calls (mayRun_round _)
    rw [round_again] at hround
    rwa [show u32 ((5 + m) % 2 ^ 32 + 1) = (5 + (m + 1)) % 2 ^ 32 by
      simp only [u32]; omega] at hround

/-- Number 4 is handed out again, to slot 2, and its holder spawns 5 in slot 3. At the exit
of 5 the zombie is found as the parent and becomes current. It exits, finds no parent,
and is reaped; it is still current, so the duplication that fails gives the unused slot
a table, and the spawn takes that slot. -/
def leakCalls : List Call := [.spawn, .spawn, .exit, .exit, .reap (slot 1), .dup (-1), .spawn]

/-- The counts are not the numbers of descriptors in every reachable state: the three
descriptions that `fd_core_table_init` opened for the unused slot keep a count of one
and no descriptor names them. -/
theorem refs_leak_after_pid_wrap :
    ∃ k : Kernel Unit, Reach quietOps MayCall () k ∧ ¬ Exact k := by
  have hmay : MayRun (waiting 4) leakCalls := by
    refine ⟨trivial, trivial, ?_, ?_, trivial, trivial, trivial, trivial⟩ <;>
      (show _ ≠ initialSlot; decide +kernel)
  have hwaiting : Reach quietOps MayCall () (waiting 4) := reach_waiting (2 ^ 32 - 1)
  refine ⟨runCalls (waiting 4) leakCalls, hwaiting.calls hmay, fun h => ?_⟩
  have hlost : ¬ ∀ d, ((runCalls (waiting 4) leakCalls).g_descriptions d).refs =
      Lib.total (runCalls (waiting 4) leakCalls).tabs d := by decide +kernel
  exact hlost h.refs

end System1.Fd
