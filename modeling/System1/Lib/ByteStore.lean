/-
Stores to a flat memory whose addresses wrap.

A memory is a function from addresses to cells and the address space has `M`
cells, so the store at `a + i` goes to `(a + i) % M`. Everything a caller needs to
know about a block store is in two lemmas, one for the cells it hits and one for
the cells it misses, both under the hypothesis that the block does not run past
the end of the address space.
-/
import Mathlib.Data.List.Basic
import Mathlib.Logic.Function.Basic

set_option autoImplicit false

namespace System1.Lib

open Function List

variable {β : Type}

/-- Store a list of cells at consecutive addresses from `a` on. -/
def storeBytes (M : Nat) (m : Nat → β) (a : Nat) : List β → (Nat → β)
  | [] => m
  | b :: bs => storeBytes M (update m (a % M) b) (a + 1) bs

/-- The addresses `storeBytes` touches for a block of `n` cells. -/
def storeAddrs (M a n : Nat) : List Nat :=
  (range n).map (fun i => (a + i) % M)

/-- A block that fits touches exactly the addresses from `a` to `a + n`. -/
theorem mem_storeAddrs {M a n x : Nat} (hfit : a + n ≤ M) (hx : x ∈ storeAddrs M a n) :
    a ≤ x ∧ x < a + n := by
  obtain ⟨i, hi, rfl⟩ := mem_map.mp hx
  have hin : i < n := mem_range.mp hi
  rw [Nat.mod_eq_of_lt (by omega)]
  omega

/-- A cell outside the block keeps its value. -/
theorem storeBytes_miss {M : Nat} (bs : List β) : ∀ (m : Nat → β) (a x : Nat),
    a + bs.length ≤ M → (x < a ∨ a + bs.length ≤ x) → storeBytes M m a bs x = m x := by
  induction bs with
  | nil => intro m a x _ _; rfl
  | cons b bs ih =>
    intro m a x hfit hx
    simp only [length_cons] at hfit hx
    have hne : x ≠ a % M := by rw [Nat.mod_eq_of_lt (by omega)]; omega
    rw [storeBytes, ih _ (a + 1) x (by omega) (by omega), update_of_ne hne]

/-- A cell of the block holds the stored value. -/
theorem storeBytes_hit {M : Nat} (bs : List β) : ∀ (m : Nat → β) (a i : Nat) (d : β),
    a + bs.length ≤ M → i < bs.length → storeBytes M m a bs (a + i) = bs.getD i d := by
  induction bs with
  | nil => intro m a i d _ hi; exact absurd hi (Nat.not_lt_zero i)
  | cons b bs ih =>
    intro m a i d hfit hi
    simp only [length_cons] at hfit hi
    rw [storeBytes]
    cases i with
    | zero =>
      -- the head cell is not touched again by the tail of the block
      show storeBytes M (update m (a % M) b) (a + 1) bs a = b
      rw [storeBytes_miss bs _ (a + 1) a (by omega) (by omega),
        Nat.mod_eq_of_lt (by omega), update_self]
    | succ j =>
      have h := ih (update m (a % M) b) (a + 1) j d (by omega) (by omega)
      rw [show a + (j + 1) = a + 1 + j by omega, h, getD_cons_succ]

/-- Replace the `n` cells from `a` on by those of `src`: the result of the loop
`for (i = 0; i < n; ++i) m[a + i] = src[i]`. -/
def overlay (m : Nat → β) (a n : Nat) (src : Nat → β) : Nat → β :=
  fun k => if a ≤ k ∧ k < a + n then src (k - a) else m k

@[simp] theorem overlay_hit {m : Nat → β} {a n : Nat} {src : Nat → β} {i : Nat} (h : i < n) :
    overlay m a n src (a + i) = src i := by
  rw [overlay, if_pos ⟨Nat.le_add_right a i, by omega⟩, Nat.add_sub_cancel_left]

theorem overlay_miss {m : Nat → β} {a n : Nat} {src : Nat → β} {k : Nat}
    (h : k < a ∨ a + n ≤ k) : overlay m a n src k = m k := by
  rw [overlay, if_neg (by omega)]

end System1.Lib
