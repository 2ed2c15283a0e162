/-
Lists linked through a table.

A table gives every index a next one. A chain starts at an index, goes on while the index
is one of the table's cells, and is over at a value that ends it; any other value makes it
broken, and then there is no chain at all. `Chain next cell ends c cs` says that the chain
from `c` visits the cells `cs`.

Because a step is a function of the cell, a chain is determined by its start, and so it
cannot come back to a cell: it would be infinite (`Chain.nodup`). The table may change
freely in all cells the chain does not visit (`Chain.congr`), and a chain is extended by a
write to its last cell (`Chain.link`).

A table that nobody has checked may lead in circles. Then there is no chain, but still the
set of cells that following the links comes to, `Reached`. If the first cell is made to lead
nowhere, what is reached from the one behind it is the rest of that set (`reached_iff_cut`):
so a walk that cuts every link it has followed comes to every cell and then ends.
-/
import Mathlib.Data.List.Nodup
import Mathlib.Data.List.Perm.Basic
import Mathlib.Logic.Function.Basic

set_option autoImplicit false

namespace System1.Lib.Linked

open List Function

/-- The chain from a cell, as a list of cells. -/
inductive Chain {α : Type} (next : α → α) (cell ends : α → Prop) : α → List α → Prop
  | nil {c : α} (h : ends c) : Chain next cell ends c []
  | cons {c : α} {cs : List α} (h : cell c) (hs : Chain next cell ends (next c) cs) :
      Chain next cell ends c (c :: cs)

namespace Chain

variable {α : Type} {next next' : α → α} {cell ends : α → Prop} {c x : α} {cs cs' : List α}

section

variable (h : Chain next cell ends c cs) (hx : x ∈ cs)

include h hx

theorem cell_of_mem : cell x := by
  induction h with
  | nil h => cases hx
  | cons hc hs ih =>
    cases hx with
    | head => exact hc
    | tail _ hx => exact ih hx

/-- A cell of a chain does not lead out of it. -/
theorem next_of_mem :
    cell (next x) ∨ ends (next x) := by
  induction h with
  | nil h => cases hx
  | cons hc hs ih =>
    cases hx with
    | head =>
      cases hs with
      | nil h => exact .inr h
      | cons h _ => exact .inl h
    | tail _ hx => exact ih hx

/-- The rest of a chain from one of its cells on. -/
theorem suffix_of_mem :
    ∃ ds, Chain next cell ends x ds ∧ ds.length ≤ cs.length := by
  induction h with
  | nil h => cases hx
  | @cons c cs hc hs ih =>
    cases hx with
    | head => exact ⟨_, .cons hc hs, Nat.le_refl _⟩
    | tail _ hx =>
      obtain ⟨ds, hds, hlen⟩ := ih hx
      exact ⟨ds, hds, Nat.le_succ_of_le hlen⟩

end

section

variable (hends : ∀ x, cell x → ¬ ends x) (h : Chain next cell ends c cs)

include hends h

/-- One start has one chain. -/
theorem unique (h' : Chain next cell ends c cs') : cs = cs' := by
  induction h generalizing cs' with
  | nil h =>
    cases h' with
    | nil _ => rfl
    | cons hc _ => exact absurd h (hends _ hc)
  | cons hc hs ih =>
    cases h' with
    | nil h => exact absurd h (hends _ hc)
    | cons _ hs' => rw [ih hs']

/-- A chain that ends visits no cell twice. -/
theorem nodup : cs.Nodup := by
  induction h with
  | nil h => exact nodup_nil
  | @cons c cs hc hs ih =>
    refine nodup_cons.mpr ⟨fun hmem => ?_, ih⟩
    -- the chain from `c` would be as long as its own rest
    obtain ⟨ds, hds, hlen⟩ := hs.suffix_of_mem hmem
    have heq : ds = c :: cs := hds.unique hends (.cons hc hs)
    rw [heq, length_cons] at hlen
    exact Nat.not_succ_le_self _ hlen

end

theorem congr (h : Chain next cell ends c cs) (heq : ∀ x ∈ cs, next' x = next x) :
    Chain next' cell ends c cs := by
  induction h with
  | nil h => exact .nil h
  | @cons c cs hc hs ih =>
    refine .cons hc ?_
    grind

/-- The last cell is made to lead to a new one. -/
theorem link [DecidableEq α] {p q : α} (hends : ∀ x, cell x → ¬ ends x)
    (h : Chain next cell ends c cs) (hp : cs.getLast? = some p) (hq : cell q) (hnew : q ∉ cs)
    (hstop : ends (next q)) : Chain (update next p q) cell ends c (cs ++ [q]) := by
  have hnd := h.nodup hends
  induction h with
  | nil h => cases hp
  | @cons c cs hc hs ih =>
    refine .cons hc ?_
    obtain ⟨hcs, hnd⟩ := nodup_cons.mp hnd
    cases cs with
    | nil =>
      have hpc : c = p := by simpa using hp
      have hqc : q ≠ c := by simpa using hnew
      subst hpc
      rw [update_self]
      refine .cons hq (.nil ?_)
      rwa [update_of_ne hqc]
    | cons c' cs =>
      have hlast : (c' :: cs).getLast? = some p := by
        rw [← hp, List.getLast?_cons_cons]
      have hne : c ≠ p := by
        rintro rfl
        exact hcs (mem_of_getLast? hlast)
      simp_all

/-- A chain is not longer than there are cells. -/
theorem length_le {next : Nat → Nat} {cell ends : Nat → Prop} {c lo n : Nat} {cs : List Nat}
    (hends : ∀ x, cell x → ¬ ends x) (hcell : ∀ x, cell x → lo ≤ x ∧ x < lo + n)
    (h : Chain next cell ends c cs) : cs.length ≤ n := by
  have hsub : cs ⊆ List.range' lo n := by
    intro x hx
    exact mem_range'_1.mpr (hcell x (h.cell_of_mem hx))
  have hlen := (subperm_of_subset (h.nodup hends) hsub).length_le
  rwa [length_range'] at hlen

end Chain

/-- The cells that following the links from `start` comes to. -/
inductive Reached {α : Type} (next : α → α) (cell : α → Prop) (start : α) : α → Prop
  | start (h : cell start) : Reached next cell start start
  | step {c : α} (h : Reached next cell start c) (hc : cell (next c)) :
      Reached next cell start (next c)

theorem Reached.cell_start {α : Type} {next : α → α} {cell : α → Prop} {start x : α}
    (h : Reached next cell start x) : cell start := by
  induction h with
  | start h => exact h
  | step _ _ ih => exact ih

/-- Cutting a cell off leaves what the rest reaches. -/
theorem reached_iff_cut {α : Type} {next next' : α → α} {cell : α → Prop} {c : α} (hc : cell c)
    (hcut : ¬ cell (next' c))
    (hsame : ∀ y, Reached next cell c y → y ≠ c → next' y = next y) (x : α) :
    Reached next cell c x ↔ x = c ∨ Reached next' cell (next c) x := by
  constructor
  · intro h
    induction h with
    | start => exact .inl rfl
    | @step y hy hcell ih =>
      by_cases hyc : y = c
      · rw [hyc] at hcell ⊢
        exact .inr (.start hcell)
      have hy' := ih.resolve_left hyc
      rw [← hsame y hy hyc] at hcell ⊢
      exact .inr (.step hy' hcell)
  · rintro (rfl | h)
    · exact .start hc
    · induction h with
      | start h => exact .step (.start hc) h
      | @step y _ hcell ih =>
        have hyc : y ≠ c := by
          rintro rfl
          exact hcut hcell
        rw [hsame y ih hyc] at hcell ⊢
        exact .step ih hcell

end System1.Lib.Linked
