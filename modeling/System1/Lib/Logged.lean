/-
Programs that log what they do.

`Logs P V m` says that `m` logs only what satisfies `P` and returns a value that satisfies
`V`. It is proved along the program, with one rule for each construct, so that a bound on
everything a program touches comes down to the bounds on its single reads. Memory does not
change; a read of it is logged by its address.
-/
import System1.Base

set_option autoImplicit false

namespace System1.Lib

/-- Log entries that can say that the byte at an address was read. -/
class ReadEvent (ε : Type) where
  read : Nat → ε

abbrev Logged (ε α : Type) : Type := StateM (List ε) α

namespace Logged

variable {ε α β : Type}

def note (e : ε) : Logged ε Unit := modify (· ++ [e])

section

variable [ReadEvent ε] (mem : Nat → UInt8)

def read8 (addr : Nat) : Logged ε UInt8 := do
  note (ReadEvent.read addr)
  return mem addr

def read32 (addr : Nat) : Logged ε Nat := do
  let b0 ← read8 mem addr
  let b1 ← read8 mem (addr + 1)
  let b2 ← read8 mem (addr + 2)
  let b3 ← read8 mem (addr + 3)
  return le32 b0 b1 b2 b3

/-- `p[0] == text[0] && p[1] == text[1] && ...` -/
def equals (addr : Nat) : List UInt8 → Logged ε Bool
  | [] => return true
  | c :: text => do
    let b ← read8 mem addr
    if b = c then equals (addr + 1) text else return false

end

/-! ## What a program logs -/

/-- From a log of entries that satisfy `P` the program goes on with such entries, and its
value satisfies `V`. -/
def Logs (P : ε → Prop) (V : α → Prop) (m : Logged ε α) : Prop :=
  ∀ log, (∀ e ∈ log, P e) → V (m.run log).1 ∧ ∀ e ∈ (m.run log).2, P e

section

variable {P : ε → Prop} {V : α → Prop} {W : β → Prop}

theorem Logs.pure {a : α} (h : V a) : Logs P V (pure a) := fun _ hlog => ⟨h, hlog⟩

theorem Logs.bind {m : Logged ε α} {f : α → Logged ε β} (hm : Logs P V m)
    (hf : ∀ a, V a → Logs P W (f a)) : Logs P W (m >>= f) := fun log hlog =>
  hf _ (hm log hlog).1 _ (hm log hlog).2

theorem Logs.note {e : ε} (h : P e) : Logs P (fun _ => True) (note e) := by
  refine fun log hlog => ⟨trivial, fun e' he' => ?_⟩
  rcases List.mem_append.mp he' with he' | he'
  · exact hlog e' he'
  · rw [List.mem_singleton.mp he']
    exact h

end

section

variable [ReadEvent ε] {mem : Nat → UInt8} {P : ε → Prop} {lo hi : Nat}

/-- The bytes of `[lo, hi)` may be read. -/
def MayRead (P : ε → Prop) (lo hi : Nat) : Prop :=
  ∀ a, lo ≤ a → a < hi → P (ReadEvent.read a)

variable (hP : MayRead P lo hi) {addr : Nat} (hlo : lo ≤ addr)

include hP hlo

theorem logs_read8 (hhi : addr < hi) : Logs P (fun b => b = mem addr) (read8 mem addr) :=
  (Logs.note (hP addr hlo hhi)).bind fun _ _ => .pure rfl

/-- A 32-bit read logs its four bytes. -/
theorem logs_read32 (hhi : addr + 4 ≤ hi) :
    Logs P (fun v => v = le32 (mem addr) (mem (addr + 1)) (mem (addr + 2)) (mem (addr + 3)))
      (read32 mem addr) := by
  refine (logs_read8 hP hlo (by omega)).bind fun b0 h0 => ?_
  refine (logs_read8 hP (by omega) (by omega)).bind fun b1 h1 => ?_
  refine (logs_read8 hP (by omega) (by omega)).bind fun b2 h2 => ?_
  refine (logs_read8 hP (by omega) (by omega)).bind fun b3 h3 => .pure ?_
  rw [h0, h1, h2, h3]

/-- The comparison reads no further than the text is long. -/
theorem logs_equals {text : List UInt8} (hhi : addr + text.length ≤ hi) :
    Logs P (fun _ => True) (equals mem addr text) := by
  induction text generalizing addr with
  | nil => exact .pure trivial
  | cons c text ih =>
    rw [List.length_cons] at hhi
    refine (logs_read8 hP hlo (by omega)).bind fun b _ => ?_
    split
    · exact ih (by omega) (by omega)
    · exact .pure trivial

end

end Logged

end System1.Lib
