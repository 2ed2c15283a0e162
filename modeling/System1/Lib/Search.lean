/-
First-match loops.

`for (i = 0; i < n; ++i) if (p(i)) return f(i);` is `findSome?` over `List.range n`,
or `find?` over `List.finRange n` when the answer is the index itself. The lemmas say
what the loop's answer means in terms of indices, which is what the invariants about
arrays are stated in.
-/
import Mathlib.Data.List.Basic
import Mathlib.Data.List.FinRange

set_option autoImplicit false

namespace System1.Lib

open List

/-- The loop stops at the first index with an answer. -/
theorem findSome?_range_eq_some {α : Type} {f : Nat → Option α} {n : Nat} {b : α}
    (h : (range n).findSome? f = some b) : ∃ i < n, f i = some b ∧ ∀ j < i, f j = none := by
  induction n with
  | zero => cases h
  | succ n ih =>
    rw [range_succ, findSome?_append] at h
    cases hn : (range n).findSome? f with
    | some b' => grind
    | none => grind

section

variable {n : Nat} {p : Fin n → Bool}

/-- The loop stops at the least index that passes the test. -/
theorem find?_finRange_eq_some {i : Fin n} (h : (finRange n).find? p = some i) :
    p i = true ∧ ∀ j, p j = true → i ≤ j := by
  obtain ⟨hi, as, bs, hsplit, hbefore⟩ := find?_eq_some_iff_append.mp h
  refine ⟨hi, fun j hj => ?_⟩
  have hsorted := pairwise_lt_finRange n
  rw [hsplit, pairwise_append, pairwise_cons] at hsorted
  have hmem : j ∈ as ++ i :: bs := hsplit ▸ mem_finRange j
  grind

theorem find?_finRange_eq_none (h : (finRange n).find? p = none) (j : Fin n) : p j = false :=
  Bool.eq_false_of_not_eq_true (find?_eq_none.mp h j (mem_finRange j))

/-- The least index that satisfies the predicate is the one found. -/
theorem find?_finRange_of_least {i : Fin n} (hi : p i = true) (hleast : ∀ j, p j = true → i ≤ j) :
    (finRange n).find? p = some i := by
  cases h : (finRange n).find? p with
  | none =>
    rw [find?_finRange_eq_none h i] at hi
    cases hi
  | some j =>
    obtain ⟨hj, hjleast⟩ := find?_finRange_eq_some h
    rw [Fin.le_antisymm (hjleast i hi) (hleast j hj)]

end

end System1.Lib
