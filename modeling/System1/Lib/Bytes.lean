/-
Byte arrays as files see them: reading a slice and writing over a range.

`readAt` and `writeAt` are the two operations of a file of any length. Both are given
by what stands at each position, with a filler beyond the end, so a store that keeps
its bytes in any other way is compared with them one position at a time
(`ext_getD`).
-/
import Mathlib.Data.List.GetD

set_option autoImplicit false

namespace System1.Lib

open List

variable {α : Type}

/-- The slice of at most `cap` elements from `off` on. -/
def readAt (b : List α) (off cap : Nat) : List α := (b.drop off).take cap

/-- Write `data` at `off`: the array is padded with `z` up to `off`, and what `data`
covers is replaced. -/
def writeAt (z : α) (b : List α) (off : Nat) (data : List α) : List α :=
  b.take off ++ replicate (off - b.length) z ++ data ++ b.drop (off + data.length)

/-- Arrays of one length with the same elements are equal. -/
theorem ext_getD {z : α} {a b : List α} (hlen : a.length = b.length)
    (h : ∀ i < a.length, a.getD i z = b.getD i z) : a = b := by grind [ext_getElem, getD_eq_getElem]

theorem length_readAt (b : List α) (off cap : Nat) :
    (readAt b off cap).length = min cap (b.length - off) := by
  rw [readAt, length_take, length_drop]

theorem getD_readAt {z : α} (b : List α) {off cap i : Nat} (hi : i < cap) :
    (readAt b off cap).getD i z = b.getD (off + i) z := by grind [readAt]

/-- Past the end there is nothing to read. -/
theorem readAt_of_length_le {b : List α} {off : Nat} (h : b.length ≤ off) (cap : Nat) :
    readAt b off cap = [] := by
  rw [readAt, drop_of_length_le h, take_nil]

theorem length_writeAt (z : α) (b : List α) (off : Nat) (data : List α) :
    (writeAt z b off data).length = max (max b.length off) (off + data.length) := by
  simp only [writeAt, length_append, length_take, length_replicate, length_drop]
  omega

/-- A write replaces its range, filling any gap before it with `z`. -/
theorem getD_writeAt (z : α) (b : List α) (off : Nat) (data : List α) (i : Nat) :
    (writeAt z b off data).getD i z =
      if off ≤ i ∧ i < off + data.length then data.getD (i - off) z else b.getD i z := by
  -- the first two parts together are the array cut or padded to `off`
  have hlen : (b.take off ++ replicate (off - b.length) z).length = off := by
    simp only [length_append, length_take, length_replicate]
    omega
  have hhead : ∀ j < off, (b.take off ++ replicate (off - b.length) z).getD j z =
      b.getD j z := by
    intro j hj
    rw [getD_eq_getElem?_getD, getD_eq_getElem?_getD, getElem?_append,
      length_take]
    split
    · rw [getElem?_take_of_lt hj]
    · rw [getElem?_replicate, getElem?_eq_none (by omega : b.length ≤ j)]
      split <;> rfl
  rw [writeAt, append_assoc]
  by_cases hlt : i < off
  · rw [if_neg (by omega), getD_append _ _ _ _ (by omega), hhead i hlt]
  rw [getD_append_right _ _ _ _ (by omega), hlen]
  by_cases hin : i < off + data.length
  · rw [if_pos ⟨by omega, hin⟩, getD_append _ _ _ _ (by omega)]
  rw [if_neg (by omega), getD_append_right _ _ _ _ (by omega),
    getD_eq_getElem?_getD, getElem?_drop, ← getD_eq_getElem?_getD]
  congr 1
  omega

end System1.Lib
