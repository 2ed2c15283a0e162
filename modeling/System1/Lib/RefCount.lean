/-
Reference counting over a family of tables.

Objects are named by the entries of tables, and each object carries a count. The
count is right when it is the number of entries that name the object; it is too high
by `leak` when entries were forgotten without being dropped. `Counted` is the
invariant of such a system, and one lemma for each move keeps it: a fresh object is
named for the first time, an entry is shared, an entry is dropped, a whole table is
forgotten.

A table may be forgotten only while it is `loose`. What makes the leak of one object
bounded is that it can be named by at most one loose table, and by none once it has
leaked: an object leaks at most once, by at most as much as one table holds.
-/
import Mathlib.Algebra.BigOperators.Group.Finset.Basic
import Mathlib.Algebra.BigOperators.Group.Finset.Piecewise
import Mathlib.Algebra.Order.BigOperators.Group.Finset
import Mathlib.Algebra.Group.Action.Defs
import Mathlib.Data.Fintype.Card

set_option autoImplicit false
set_option linter.unusedSectionVars false

namespace System1.Lib

open Finset Function

variable {ι α β : Type} [Fintype ι] [DecidableEq ι] [Fintype α] [DecidableEq α] [DecidableEq β]

/-! ## Counting names -/

/-- The number of entries of one table that name `b`. -/
def holders (t : α → Option β) (b : β) : Nat := (univ.filter fun a => t a = some b).card

/-- The number of entries that name `b`, over all tables. -/
def total (tabs : ι → α → Option β) (b : β) : Nat := ∑ i, holders (tabs i) b

theorem holders_le (t : α → Option β) (b : β) : holders t b ≤ Fintype.card α :=
  card_le_univ _

theorem holders_none (b : β) : holders (fun _ : α => (none : Option β)) b = 0 := by simp [holders]

variable {b : β}

/-- A count is positive when some slot holds the object. -/
theorem holders_pos {t : α → Option β} : 0 < holders t b ↔ ∃ a, t a = some b := by
  unfold holders
  rw [card_pos]
  constructor
  · rintro ⟨a, ha⟩
    exact ⟨a, (mem_filter.mp ha).2⟩
  · rintro ⟨a, ha⟩
    exact ⟨a, mem_filter.mpr ⟨mem_univ a, ha⟩⟩

/-- Overwriting one entry changes the count by what it named before and after. -/
theorem holders_update (t : α → Option β) (a : α) (v : Option β) (b : β) :
    holders (update t a v) b + (if t a = some b then 1 else 0) =
      holders t b + (if v = some b then 1 else 0) := by
  have hrest : ∀ u : α → Option β, holders u b =
      ((univ.erase a).filter fun x => u x = some b).card + (if u a = some b then 1 else 0) := by
    intro u
    unfold holders
    rw [← insert_erase (mem_univ a), filter_insert, erase_insert (notMem_erase a univ)]
    split
    · rw [card_insert_of_notMem (by simp)]
    · rfl
  grind [filter_congr, ne_of_mem_erase]

section

variable (tabs : ι → α → Option β)

include tabs

/-- Replacing one table changes the total by what it held before and after. -/
theorem total_update (i : ι) (t : α → Option β) (b : β) :
    total (update tabs i t) b + holders (tabs i) b = total tabs b + holders t b := by
  have hrest : ∀ u : ι → α → Option β, total u b =
      holders (u i) b + ∑ j ∈ univ.erase i, holders (u j) b :=
    fun u => (add_sum_erase univ (fun j => holders (u j) b) (mem_univ i)).symm
  grind [sum_congr, ne_of_mem_erase]

/-- Changing one slot moves the counts of its old and new object by one. -/
theorem total_entry (i : ι) (a : α) (v : Option β) (b : β) :
    total (update tabs i (update (tabs i) a v)) b +
        (if tabs i a = some b then 1 else 0) =
      total tabs b + (if v = some b then 1 else 0) := by
  have h1 := total_update tabs i (update (tabs i) a v) b
  have h2 := holders_update (tabs i) a v b
  omega

theorem holders_le_total (i : ι) (b : β) :
    holders (tabs i) b ≤ total tabs b :=
  single_le_sum (f := fun j => holders (tabs j) b) (fun _ _ => Nat.zero_le _) (mem_univ i)

theorem total_le (b : β) :
    total tabs b ≤ Fintype.card ι * Fintype.card α := by
  have h := sum_le_card_nsmul univ (fun i => holders (tabs i) b) (Fintype.card α)
    fun i _ => holders_le _ _
  rwa [card_univ, smul_eq_mul] at h

end

/-! ## The invariant -/

/-- Table `i` names `b`. -/
def Holds (tabs : ι → α → Option β) (i : ι) (b : β) : Prop := ∃ a, tabs i a = some b

variable {i : ι}

theorem Holds.total_pos {tabs : ι → α → Option β} (h : Holds tabs i b) :
    0 < total tabs b :=
  Nat.lt_of_lt_of_le (holders_pos.mpr h) (holders_le_total tabs i b)

/-- The counts are the numbers of names, up to the leak. -/
structure Counted (loose : ι → Prop) (leak : β → Nat) (tabs : ι → α → Option β)
    (refs : β → Nat) : Prop where
  eq : ∀ b, refs b = total tabs b + leak b
  leak_le : ∀ b, leak b ≤ Fintype.card α
  once : ∀ i j b, loose i → loose j → Holds tabs i b → Holds tabs j b → i = j
  noleak : ∀ i b, loose i → Holds tabs i b → leak b = 0

variable {a : α}

namespace Counted

variable {loose : ι → Prop} {leak : β → Nat} {tabs : ι → α → Option β} {refs : β → Nat}

section

variable (h : Counted loose leak tabs refs)

include h

theorem refs_le (b : β) :
    refs b ≤ Fintype.card ι * Fintype.card α + Fintype.card α := by
  have h1 := h.eq b
  have h2 := h.leak_le b
  have h3 := total_le tabs b
  omega

theorem refs_pos (hb : tabs i a = some b) : 0 < refs b := by
  rw [h.eq b]
  exact Nat.add_pos_left (Holds.total_pos ⟨a, hb⟩) _

/-- Fewer loose tables ask for less. -/
theorem mono {loose' : ι → Prop} (hl : ∀ i, loose' i → loose i ∨ ∀ a, tabs i a = none) :
    Counted loose' leak tabs refs where
  eq := h.eq
  leak_le := h.leak_le
  once i j b hi hj hbi hbj := by
    -- a table that has become loose is empty, so it holds nothing
    have hold : ∀ m, loose' m → Holds tabs m b → loose m := by
      rintro m hm ⟨a, ha⟩
      grind
    exact h.once i j b (hold i hi hbi) (hold j hj hbj) hbi hbj
  noleak i b hi hb := by
    obtain ⟨a, ha⟩ := hb
    refine h.noleak i b ((hl i hi).resolve_right fun hempty => ?_) ⟨a, ha⟩
    rw [hempty a] at ha
    cases ha

end

/-- Who names what after one entry has been overwritten. -/
theorem holds_entry {v : Option β} {j : ι}
    (h : Holds (update tabs i (update (tabs i) a v)) j b) :
    (j = i ∧ v = some b) ∨ Holds tabs j b := by
  obtain ⟨x, hx⟩ := h
  by_cases hj : j = i
  · subst hj
    rw [update_self] at hx
    by_cases hxa : x = a
    · grind
    · rw [update_of_ne hxa] at hx
      exact .inr ⟨x, hx⟩
  · rw [update_of_ne hj] at hx
    exact .inr ⟨x, hx⟩

section

variable (h : Counted loose leak tabs refs)

include h

/-- A fresh object is named once. -/
theorem fresh (hb : refs b = 0) (ha : tabs i a = none) :
    Counted loose leak (update tabs i (update (tabs i) a (some b)))
      (update refs b 1) := by
  have hfree : total tabs b = 0 ∧ leak b = 0 := by
    have heq := h.eq b
    omega
  have hnot : ∀ j, ¬ Holds tabs j b := by
    intro j hj
    have hpos := hj.total_pos
    omega
  refine ⟨fun c => ?_, h.leak_le, ?_, ?_⟩
  · have hc := total_entry tabs i a (some b) c
    rw [ha, if_neg (by simp)] at hc
    by_cases hcb : c = b
    · grind
    · rw [if_neg (by simpa using fun hbc => hcb hbc.symm)] at hc
      rw [update_of_ne hcb, h.eq c]
      omega
  · intro j k c hj hk hcj hck
    rcases holds_entry hcj with ⟨rfl, hv⟩ | hcj
    · cases hv
      rcases holds_entry hck with ⟨rfl, -⟩ | hck
      · rfl
      · exact absurd hck (hnot k)
    rcases holds_entry hck with ⟨-, hv⟩ | hck
    · cases hv
      exact absurd hcj (hnot j)
    · exact h.once j k c hj hk hcj hck
  · intro j c hj hc
    rcases holds_entry hc with ⟨-, hv⟩ | hc
    · cases hv
      exact hfree.2
    · exact h.noleak j c hj hc

/-- An object gains a name, in a table that is not loose or names it already. -/
theorem share (ha : tabs i a = none) (hi : loose i → Holds tabs i b) :
    Counted loose leak (update tabs i (update (tabs i) a (some b)))
      (update refs b (refs b + 1)) := by
  have hold : ∀ j c, loose j →
      Holds (update tabs i (update (tabs i) a (some b))) j c →
      Holds tabs j c := by
    intro j c hj hc
    rcases holds_entry hc with ⟨rfl, hv⟩ | hc
    · cases hv
      exact hi hj
    · exact hc
  refine ⟨fun c => ?_, h.leak_le, fun j k c hj hk hcj hck =>
    h.once j k c hj hk (hold j c hj hcj) (hold k c hk hck),
    fun j c hj hc => h.noleak j c hj (hold j c hj hc)⟩
  have hc := total_entry tabs i a (some b) c
  rw [ha, if_neg (by simp)] at hc
  have heq := h.eq c
  grind

/-- An object loses a name. -/
theorem drop (ha : tabs i a = some b) :
    Counted loose leak (update tabs i (update (tabs i) a none))
      (update refs b (refs b - 1)) := by
  have hold : ∀ j c, Holds (update tabs i (update (tabs i) a none)) j c →
      Holds tabs j c := by
    intro j c hc
    rcases holds_entry hc with ⟨-, hv⟩ | hc
    · cases hv
    · exact hc
  refine ⟨fun c => ?_, h.leak_le, fun j k c hj hk hcj hck =>
    h.once j k c hj hk (hold j c hcj) (hold k c hck),
    fun j c hj hc => h.noleak j c hj (hold j c hc)⟩
  have hc := total_entry tabs i a none c
  rw [ha, if_neg (by simp : ¬ (none : Option β) = some c)] at hc
  have heq := h.eq c
  grind

/-- A loose table is forgotten: its names go, the counts stay. -/
theorem forget (hi : loose i) :
    Counted loose (fun b => leak b + holders (tabs i) b)
      (update tabs i fun _ => none) refs := by
  have hold : ∀ j c, Holds (update tabs i fun _ => none) j c →
      j ≠ i ∧ Holds tabs j c := by
    rintro j c ⟨x, hx⟩
    by_cases hj : j = i
    · subst hj
      rw [update_self] at hx
      cases hx
    · rw [update_of_ne hj] at hx
      exact ⟨hj, x, hx⟩
  refine ⟨fun b => ?_, fun b => ?_, fun j k c hj hk hcj hck =>
    h.once j k c hj hk (hold j c hcj).2 (hold k c hck).2, fun j c hj hc => ?_⟩
  · have hb := total_update tabs i (fun _ => none) b
    rw [holders_none] at hb
    have heq := h.eq b
    omega
  · -- an object the table names has not leaked before
    rcases Nat.eq_zero_or_pos (holders (tabs i) b) with hz | hpos
    · rw [hz]
      exact h.leak_le b
    · rw [h.noleak i b hi (holders_pos.mp hpos), Nat.zero_add]
      exact holders_le _ _
  · obtain ⟨hji, hc'⟩ := hold j c hc
    have hnone : holders (tabs i) c = 0 := by
      by_contra hne
      exact hji (h.once j i c hj hi hc' (holders_pos.mp (Nat.pos_of_ne_zero hne)))
    rw [h.noleak j c hj hc', hnone]

end

end Counted

end System1.Lib
