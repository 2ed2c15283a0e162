/-
The line editor of MultiShell, `replace_range` of `src/userland/smu/shell/msh.c`: how a
completion gets into the line.

The rest of the line is moved with its NUL, from the back where the line grows and from the
front where it shrinks, so that no byte is overwritten before it has been read. A store
outside the array ends the model with `none`; that the function has a value says that there is
none.

The two strings are in one memory of 2^32 bytes and do not overlap. That is what keeps the
sum in the test from wrapping.
-/
import System1.ShellHooks

set_option autoImplicit false

namespace System1.Msh

open System1.Lib Function List

/-- A store to an array of `cap` bytes. -/
def putByte (cap : Nat) (line : Nat → UInt8) (i : Nat) (c : UInt8) : Option (Nat → UInt8) :=
  if i < cap then some (update line i c) else none

/-- The two loops that move the rest of the line, which begins at `end_`, by the difference of
the lengths; `i` is counted from there. -/
def moveRest (cap : Nat) (l : Line UInt8) (start end_ rlen : Nat) : Option (Nat → UInt8) :=
  let old := end_ - start
  if rlen > old then
    (range (l.len + 1 - end_)).reverse.foldlM (fun line i =>
      putByte cap line (end_ + (rlen - old) + i) (line (end_ + i))) l.data
  else if rlen < old then
    (range (l.len + 1 - end_)).foldlM (fun line i =>
      putByte cap line (start + rlen + i) (line (end_ + i))) l.data
  else some l.data

def replace_range (cap : Nat) (l : Line UInt8) (start end_ : Nat) (replacement : List UInt8) :
    Option (Int × Line UInt8) :=
  let rlen := replacement.length
  let old := end_ - start
  if u32 (l.len - old + rlen + 1) > cap then some (-1, l)
  else do
    let line ← moveRest cap l start end_ rlen
    let line ← (range rlen).foldlM (fun line i =>
      putByte cap line (start + i) (replacement.getD i 0)) line
    let len := l.len - old + rlen
    let line ← putByte cap line len 0
    return (0, ⟨line, len, start + rlen⟩)

/-! ## The loops -/

/-- A loop of stores inside the array. -/
theorem foldlM_putByte {cap : Nat} {dst : Nat → Nat} (byte : (Nat → UInt8) → Nat → UInt8)
    {is : List Nat} (h : ∀ i ∈ is, dst i < cap) (line : Nat → UInt8) :
    is.foldlM (fun line i => putByte cap line (dst i) (byte line i)) line =
      some (is.foldl (fun line i => update line (dst i) (byte line i)) line) := by
  induction is generalizing line with
  | nil => rfl
  | cons i is ih => grind [putByte]

/-- `for (i = n; i > 0; --i) buf[dst + i - 1] = buf[src + i - 1];` to a higher place. -/
theorem upLoop_apply (f : Nat → UInt8) {dst src : Nat} (h : src ≤ dst) (n j : Nat) :
    (range n).reverse.foldl (fun buf i => update buf (dst + i) (buf (src + i))) f j =
      if dst ≤ j ∧ j < dst + n then f (src + (j - dst)) else f j := by
  induction n generalizing f with
  | zero => exact (if_neg (by omega)).symm
  | succ n ih =>
    rw [range_succ, reverse_append, reverse_singleton, singleton_append, foldl_cons, ih]
    grind [update_apply]

section

variable {cap start end_ : Nat} {l : Line UInt8} (hstart : start ≤ end_) (hend : end_ ≤ l.len)

include hstart hend

/-- The bytes after the token are moved whole when the result fits. -/
theorem moveRest_eq {rlen : Nat} (hfit : l.len - (end_ - start) + rlen + 1 ≤ cap) :
    ∃ line, moveRest cap l start end_ rlen = some line ∧ ∀ j, (j < start → line j = l.data j) ∧
      (start + rlen ≤ j → j ≤ l.len - (end_ - start) + rlen →
        line j = l.data (end_ + (j - (start + rlen)))) ∧ (cap ≤ j → line j = l.data j) := by
  unfold moveRest
  dsimp only
  split
  · rw [foldlM_putByte (fun line i => line (end_ + i))
      (by simp only [mem_reverse, mem_range]; omega)]
    refine ⟨_, rfl, fun j => ?_⟩
    rw [upLoop_apply _ (Nat.le_add_right _ _)]
    grind
  split
  · rw [foldlM_putByte (fun line i => line (end_ + i)) (by simp only [mem_range]; omega)]
    refine ⟨_, rfl, fun j => ?_⟩
    rw [Tty.copyLoop_apply, Nat.sub_eq_zero_of_le (show start + rlen ≤ end_ by omega), Nat.mod_zero]
    grind
  · exact ⟨_, rfl, by grind⟩

/-- `replace_range` refuses exactly the replacements that do not fit with their NUL and then
changes nothing. Any other it puts in the place of the bytes from `start` to `end_`, without a
store outside the array. -/
theorem replace_range_splices {replacement : List UInt8} (hlen : l.len < cap)
    (hmem : cap + replacement.length + 1 ≤ 2 ^ 32) :
    (cap < l.len - (end_ - start) + replacement.length + 1 →
      replace_range cap l start end_ replacement = some (-1, l)) ∧
    (l.len - (end_ - start) + replacement.length + 1 ≤ cap →
      ∃ l', replace_range cap l start end_ replacement = some (0, l') ∧
        l'.text = l.text.take start ++ replacement ++ l.text.drop end_ ∧ l'.data l'.len = 0 ∧
        l'.len = l.len - (end_ - start) + replacement.length ∧
        l'.cursor = start + replacement.length ∧ ∀ j ≥ cap, l'.data j = l.data j) := by
  unfold replace_range
  dsimp only
  rw [u32_of_lt (by omega)]
  refine ⟨fun hfull => if_pos hfull, fun hfit => ?_⟩
  obtain ⟨line, hmoved, hline⟩ := moveRest_eq hstart hend hfit
  have hstored := @foldlM_putByte cap (start + ·) (fun _ i => replacement.getD i 0)
    (range replacement.length) (by simp only [mem_range]; omega) line
  rw [if_neg (by omega), hmoved]
  simp only [Option.bind_eq_bind, Option.bind_some, hstored]
  rw [putByte, if_pos (by omega)]
  refine ⟨_, rfl, ?_, update_self .., rfl, rfl, ?_⟩
  · refine ext_getElem (by grind) fun i _ _ => ?_
    obtain ⟨hbefore, hbehind, -⟩ := hline i
    clear hline hmoved hstored
    simp only [Line.text_getElem, update_apply, Tty.storeLoop_apply]
    grind
  · intro j hj
    simp only [update_apply, Tty.storeLoop_apply]
    grind

end

/-- The line `ec abc` with `echo` for `ec`, in an array of 16 bytes. -/
theorem completion_spliced : ∃ l', replace_range 16 Tty.ecLine 0 2 [0x65, 0x63, 0x68, 0x6F] =
      some (0, l') ∧ l'.text = [0x65, 0x63, 0x68, 0x6F, 0x20, 0x61, 0x62, 0x63] := by
  obtain ⟨l', hrun, htext, -⟩ := (@replace_range_splices 16 0 2 Tty.ecLine (Nat.zero_le 2)
    (by decide) [0x65, 0x63, 0x68, 0x6F] (by decide) (by decide)).2 (by decide)
  exact ⟨l', hrun, htext⟩

end System1.Msh
