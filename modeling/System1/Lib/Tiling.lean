/-
Intervals that tile a set.

A list of half-open intervals covers a point as often as the point lies in one of them.
Counting is what makes splitting and merging easy: cutting an interval in two, or joining
two that meet, changes no count. A list that covers every point of a set once and no
other point is a partition of the set, and its intervals are then pairwise disjoint.
-/
import Mathlib.Data.List.Basic
import Mathlib.Data.List.Nodup

set_option autoImplicit false

namespace System1.Lib

variable {β : Type} (lo hi : β → Nat)

/-- How often a point is covered. -/
def cover (l : List β) (x : Nat) : Nat := l.countP fun b => decide (lo b ≤ x ∧ x < hi b)

@[simp] theorem cover_nil (x : Nat) : cover lo hi [] x = 0 := rfl

@[simp] theorem cover_cons (b : β) (l : List β) (x : Nat) :
    cover lo hi (b :: l) x = (if lo b ≤ x ∧ x < hi b then 1 else 0) + cover lo hi l x := by
  unfold cover
  rw [List.countP_cons, Nat.add_comm]
  simp

@[simp] theorem cover_append (l m : List β) (x : Nat) :
    cover lo hi (l ++ m) x = cover lo hi l x + cover lo hi m x := List.countP_append

variable {lo hi}

theorem cover_pos {l : List β} {b : β} {x : Nat} (hb : b ∈ l) (hlo : lo b ≤ x) (hhi : x < hi b) :
    0 < cover lo hi l x :=
  List.countP_pos_iff.mpr ⟨b, hb, by simp [hlo, hhi]⟩

theorem exists_of_cover_pos {l : List β} {x : Nat} (h : 0 < cover lo hi l x) :
    ∃ b ∈ l, lo b ≤ x ∧ x < hi b := by
  obtain ⟨b, hb, hx⟩ := List.countP_pos_iff.mp h
  exact ⟨b, hb, of_decide_eq_true hx⟩

/-- An interval `c` stands for two that meet. -/
theorem cover_joined {a b c : β} (ha : lo c = lo a) (hab : hi a = lo b) (hb : hi c = hi b)
    (hle : lo a ≤ hi a) (hle' : lo b ≤ hi b) (l m : List β) (x : Nat) :
    cover lo hi (l ++ c :: m) x = cover lo hi (l ++ a :: b :: m) x := by
  grind [cover_append, cover_cons]

section

variable {l : List β} (hne : ∀ b ∈ l, lo b < hi b) (h : ∀ x, cover lo hi l x ≤ 1)

include hne h

/-- No point is covered twice, so the intervals are pairwise disjoint. -/
theorem pairwise_of_cover_le_one : l.Pairwise fun a b => hi a ≤ lo b ∨ hi b ≤ lo a := by
  induction l with
  | nil => exact .nil
  | cons a l ih =>
    refine .cons (fun b hb => ?_) (ih (fun b hb => hne b (.tail _ hb)) fun x => ?_)
    · -- otherwise the larger of the two starts would be covered twice
      by_contra hcon
      have hna := hne a (.head _)
      have hnb := hne b (.tail _ hb)
      have hx := h (max (lo a) (lo b))
      grind [cover_cons, cover_pos]
    · have hx := h x
      rw [cover_cons] at hx
      omega

theorem nodup_of_cover_le_one : (l.map lo).Nodup := by
  refine List.pairwise_map.mpr ?_
  refine List.Pairwise.imp_of_mem ?_ (pairwise_of_cover_le_one hne h)
  grind

end

end System1.Lib
