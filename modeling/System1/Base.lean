/-
The vocabulary the kernel models share: return codes, C strings and the 32-bit
arithmetic of `types.h`.

A C string is a list of bytes without a NUL; the terminator is the end of the
list. Keeping that in the type means no model has to say what a path with a NUL in
the middle would mean, which is a question the C code cannot ask either.
-/
import Mathlib.Algebra.Order.Ring.Nat
import Mathlib.Data.List.Basic

set_option autoImplicit false

namespace System1

/-- The error codes of `fs_core.h`; `FS_OK` is a normal return. -/
inductive FsErr where
  | NOT_FOUND
  | EXISTS
  | NOT_DIR
  | INVALID
  | NO_SPACE
  | READ_ONLY
  | IS_DIR
  | NOT_EMPTY
  deriving DecidableEq, Repr

/-- `fs_stat_t`. -/
structure FsStat where
  mode : Nat
  size : Nat
  deriving DecidableEq, Repr

/-- The file modes of `fs.h`. -/
def FS_MODE_DIR : Nat := 0o040000
def FS_MODE_FILE : Nat := 0o100000

/-- `FS_NAME_CAP`, the size of a name buffer with its terminator. -/
def FS_NAME_CAP : Nat := 24

/-- `FS_PATH_CAP`, the size of a path buffer with its terminator. -/
def FS_PATH_CAP : Nat := 128

/-- The open flags of `fs_core.h`; an access mode is a non-zero choice of the first
two bits. -/
def FS_O_RDONLY : Nat := 0x0001
def FS_O_WRONLY : Nat := 0x0002
def FS_O_RDWR : Nat := 0x0003
def FS_O_CREAT : Nat := 0x0100
def FS_O_TRUNC : Nat := 0x0200
def FS_O_APPEND : Nat := 0x0400

/-- A NUL-terminated string, without its NUL. -/
structure CString where
  bytes : List UInt8
  nonul : 0 ∉ bytes

/-- The string a buffer holds: the bytes up to its first NUL. -/
def CString.cut (buffer : List UInt8) : CString where
  bytes := buffer.takeWhile (· ≠ 0)
  nonul := fun h => by simpa using List.all_eq_true.mp List.all_takeWhile _ h

/-- Sectors and page tables both have 512 entries. -/
instance neZero512 : NeZero 512 := ⟨Nat.succ_ne_zero 511⟩

/-- Truncation to `uint32_t`. -/
def u32 (n : Nat) : Nat := n % 2 ^ 32

theorem u32_of_lt {n : Nat} (h : n < 2 ^ 32) : u32 n = n := Nat.mod_eq_of_lt h

theorem u32_lt (n : Nat) : u32 n < 2 ^ 32 := Nat.mod_lt _ (by decide)

/-- A `uint32_t` difference. -/
def u32_sub (a b : Nat) : Nat := u32 (a + (2 ^ 32 - b))

theorem u32_sub_of_le {a b : Nat} (hb : b ≤ a) (ha : a < 2 ^ 32) : u32_sub a b = a - b := by
  unfold u32_sub u32
  omega

/-- A little-endian 16-bit load. -/
def le16 (b0 b1 : UInt8) : Nat := b0.toNat + 2 ^ 8 * b1.toNat

/-- A little-endian 32-bit load. -/
def le32 (b0 b1 b2 b3 : UInt8) : Nat :=
  b0.toNat + 2 ^ 8 * b1.toNat + 2 ^ 16 * b2.toNat + 2 ^ 24 * b3.toNat

theorem le16_lt (b0 b1 : UInt8) : le16 b0 b1 < 2 ^ 16 := by
  have h0 := b0.toNat_lt
  have h1 := b1.toNat_lt
  unfold le16
  omega

theorem le32_lt (b0 b1 b2 b3 : UInt8) : le32 b0 b1 b2 b3 < 2 ^ 32 := by
  grind [le32, b0.toNat_lt, b1.toNat_lt, b2.toNat_lt, b3.toNat_lt]

end System1
