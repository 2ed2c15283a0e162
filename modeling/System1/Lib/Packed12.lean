/-
Twelve-bit entries packed into bytes.

Entry `c` starts at byte `c + c / 2`; two neighbours share the byte in the middle of their
three. An even entry has its low byte to itself and the low half of the next one, an odd
entry the high half of its first byte and all of the next. Reading an entry back after a
store, and reading any other entry, is arithmetic modulo 16 once the bit operations have
been turned into it.
-/
import Mathlib.Algebra.Order.Ring.Nat
import Mathlib.Data.Nat.Bitwise
import Mathlib.Logic.Function.Basic

set_option autoImplicit false

namespace System1.Lib.Packed12

open Function

/-- The first byte of an entry. -/
def pos (c : Nat) : Nat := c + c / 2

/-- The value of entry `c`, from the two bytes it lies in. -/
def decode (c : Nat) (lo hi : UInt8) : Nat :=
  let value := lo.toNat ||| (hi.toNat <<< 8)
  if c % 2 ≠ 0 then value >>> 4 else value &&& 0x0FFF

/-- The first byte with `value` stored in entry `c`. -/
def lowByte (c value : Nat) (old : UInt8) : UInt8 :=
  if c % 2 ≠ 0 then (old &&& (0x0F : UInt8)) ||| UInt8.ofNat ((value <<< 4) &&& 0xF0)
  else UInt8.ofNat (value &&& 0xFF)

/-- The second byte with `value` stored in entry `c`. -/
def highByte (c value : Nat) (old : UInt8) : UInt8 :=
  if c % 2 ≠ 0 then UInt8.ofNat ((value >>> 4) &&& 0xFF)
  else (old &&& (0xF0 : UInt8)) ||| UInt8.ofNat ((value >>> 8) &&& 0x0F)

/-! ## The bit operations as arithmetic -/

theorem and_240 (n : Nat) : n &&& 240 = n % 256 / 16 * 16 := by
  have hbyte : ∀ m < 256, m &&& 240 = m / 16 * 16 := by decide +kernel
  rw [show (240 : Nat) = (2 ^ 8 - 1) &&& 240 by decide, ← Nat.and_assoc,
    Nat.and_two_pow_sub_one_eq_mod]
  exact hbyte _ (Nat.mod_lt _ (by decide))

theorem and_15 (n : Nat) : n &&& 15 = n % 16 := Nat.and_two_pow_sub_one_eq_mod n 4

theorem and_255 (n : Nat) : n &&& 255 = n % 256 := Nat.and_two_pow_sub_one_eq_mod n 8

theorem and_4095 (n : Nat) : n &&& 4095 = n % 4096 := Nat.and_two_pow_sub_one_eq_mod n 12

theorem or_nibbles {a b : Nat} (ha : a < 16) (hb : b < 16) : a ||| b * 16 = a + b * 16 := by
  have hall : ∀ a < 16, ∀ b < 16, a ||| b * 16 = a + b * 16 := by decide
  exact hall a ha b hb

theorem toNat_ofNat_lt {n : Nat} (h : n < 256) : (UInt8.ofNat n).toNat = n := by
  rw [UInt8.toNat_ofNat']
  exact Nat.mod_eq_of_lt h

/-- An entry as a number: the upper twelve bits for an odd index, the lower for an even one. -/
theorem decode_eq (c : Nat) (lo hi : UInt8) :
    decode c lo hi =
      if c % 2 ≠ 0 then (lo.toNat + 256 * hi.toNat) / 16
      else (lo.toNat + 256 * hi.toNat) % 4096 := by
  have hsum : lo.toNat ||| (hi.toNat <<< 8) = lo.toNat + 256 * hi.toNat := by
    rw [Nat.shiftLeft_eq, Nat.or_comm, Nat.mul_comm, ← Nat.two_pow_add_eq_or_of_lt lo.toNat_lt,
      Nat.add_comm]
  unfold decode
  dsimp only
  rw [hsum, and_4095, Nat.shiftRight_eq_div_pow]

variable (c value : Nat)

/-- The first byte that is stored, -/
theorem lowByte_toNat (old : UInt8) :
    (lowByte c value old).toNat =
      if c % 2 ≠ 0 then old.toNat % 16 + value % 16 * 16 else value % 256 := by
  unfold lowByte
  split
  · have hshift : (value <<< 4) &&& 240 = value % 16 * 16 := by
      rw [and_240, Nat.shiftLeft_eq]
      omega
    grind [UInt8.toNat_or, UInt8.toNat_and, and_15, toNat_ofNat_lt, or_nibbles, Nat.mod_lt]
  · rw [and_255, toNat_ofNat_lt (Nat.mod_lt _ (by decide))]

/-- and the second; each keeps the half that belongs to its neighbour. -/
theorem highByte_toNat (old : UInt8) :
    (highByte c value old).toNat =
      if c % 2 ≠ 0 then value / 16 % 256 else value / 256 % 16 + old.toNat / 16 * 16 := by
  unfold highByte
  split
  · rw [and_255, Nat.shiftRight_eq_div_pow, toNat_ofNat_lt (Nat.mod_lt _ (by decide))]
  have hold := old.toNat_lt
  rw [and_15, Nat.shiftRight_eq_div_pow, UInt8.toNat_or, UInt8.toNat_and,
    toNat_ofNat_lt (by omega), show (0xF0 : UInt8).toNat = 240 from rfl, and_240,
    Nat.mod_eq_of_lt hold, Nat.or_comm]
  exact or_nibbles (Nat.mod_lt _ (by decide)) (by omega)

/-! ## A packed table -/

/-- Entry `c` of the table `f`. -/
def entry (f : Nat → UInt8) (c : Nat) : Nat := decode c (f (pos c)) (f (pos c + 1))

/-- The table with `value` stored in entry `c`. -/
def store (f : Nat → UInt8) (c value : Nat) : Nat → UInt8 :=
  update (update f (pos c) (lowByte c value (f (pos c)))) (pos c + 1)
    (highByte c value (f (pos c + 1)))

variable (f : Nat → UInt8)

theorem store_low :
    store f c value (pos c) = lowByte c value (f (pos c)) := by simp [store]

theorem store_high :
    store f c value (pos c + 1) = highByte c value (f (pos c + 1)) :=
  update_self ..

theorem entry_store_self {c value : Nat} (hvalue : value < 4096) :
    entry (store f c value) c = value := by
  unfold entry
  rw [store_low, store_high, decode_eq, lowByte_toNat, highByte_toNat]
  split <;> omega

theorem pos_eq (c : Nat) : pos c = 3 * (c / 2) + c % 2 := by
  unfold pos
  omega

/-- The first byte of an entry, stored alone. -/
def storeLow (f : Nat → UInt8) (c value : Nat) : Nat → UInt8 :=
  update f (pos c) (lowByte c value (f (pos c)))

/-- An entry only sees its own half of a byte it shares: the first byte of another. -/
theorem entry_storeLow_ne {c c' value : Nat} (hne : c' ≠ c) :
    entry (storeLow f c value) c' = entry f c' := by
  have hpos := pos_eq c
  have hpos' := pos_eq c'
  unfold entry storeLow
  grind [decode_eq, lowByte_toNat]

/-- And the second byte of another. -/
theorem entry_storeHigh_ne {c c' value : Nat} (hne : c' ≠ c) :
    entry (update f (pos c + 1) (highByte c value (f (pos c + 1)))) c' = entry f c' := by
  have hpos := pos_eq c
  have hpos' := pos_eq c'
  unfold entry
  by_cases hshare : pos c' = pos c + 1
  · -- `c` is even and `c'` the odd entry behind it
    have hodd : c' % 2 ≠ 0 := by omega
    have heven : ¬ c % 2 ≠ 0 := by omega
    rw [hshare, update_self, update_of_ne (by omega), decode_eq, decode_eq,
      highByte_toNat]
    simp only [if_pos hodd, if_neg heven]
    omega
  · rw [update_of_ne hshare, update_of_ne (by omega)]

theorem store_eq :
    store f c value = update (storeLow f c value) (pos c + 1)
      (highByte c value (storeLow f c value (pos c + 1))) := by
  have hother : storeLow f c value (pos c + 1) = f (pos c + 1) :=
    update_of_ne (by omega) ..
  rw [hother]
  rfl

theorem entry_store_ne {c c' value : Nat} (hne : c' ≠ c) :
    entry (store f c value) c' = entry f c' := by
  rw [store_eq, entry_storeHigh_ne _ hne, entry_storeLow_ne f hne]

/-- Only the low twelve bits of a value are stored. -/
theorem lowByte_mod (old : UInt8) :
    lowByte c (value % 4096) old = lowByte c value old := by
  apply UInt8.toNat_inj.mp
  rw [lowByte_toNat, lowByte_toNat]
  split <;> omega

theorem highByte_mod (old : UInt8) :
    highByte c (value % 4096) old = highByte c value old := by
  apply UInt8.toNat_inj.mp
  rw [highByte_toNat, highByte_toNat]
  split <;> omega

/-! ## Bits -/

/-- Bit `k` of byte `n` belongs to entry `c`. -/
def Bit (c n k : Nat) : Prop :=
  if c % 2 ≠ 0 then (n = pos c ∧ 4 ≤ k) ∨ n = pos c + 1
  else n = pos c ∨ (n = pos c + 1 ∧ k < 4)

theorem testBit_congr_low {a b k : Nat} (h : a % 16 = b % 16) (hk : k < 4) :
    a.testBit k = b.testBit k := by
  have hbit : ∀ m : Nat, (m % 2 ^ 4).testBit k = m.testBit k := by
    intro m
    rw [Nat.testBit_mod_two_pow, decide_eq_true hk, Bool.true_and]
  rw [← hbit a, ← hbit b]
  exact congrArg (·.testBit k) h

theorem testBit_congr_high {a b k : Nat} (h : a / 16 = b / 16) (hk : 4 ≤ k) :
    a.testBit k = b.testBit k := by grind [Nat.testBit_div_two_pow, Nat.sub_add_cancel]

/-- The bits that are not the entry's stay as they are. -/
theorem testBit_store (value : Nat) {c n k : Nat} (h : ¬ Bit c n k) :
    (store f c value n).toNat.testBit k = (f n).toNat.testBit k := by
  unfold Bit at h
  by_cases hlow : n = pos c
  · -- the low half of the first byte, which an odd entry leaves alone
    grind [store_low, lowByte_toNat, testBit_congr_low]
  by_cases hhigh : n = pos c + 1
  · subst hhigh
    split at h
    · exact absurd (.inr rfl) h
    next heven =>
    rw [store_high]
    apply testBit_congr_high _ (by omega)
    rw [highByte_toNat, if_neg heven]
    omega
  unfold store
  rw [update_of_ne hhigh, update_of_ne hlow]

end System1.Lib.Packed12
