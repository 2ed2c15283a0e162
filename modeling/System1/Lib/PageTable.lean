/-
Leaf page tables: `n` tables of `m` entries, each `w` bits wide.

Entry `j` of table `i` is the entry of page `i * m + j`. An entry is a frame address
under flag bits, and an operation on flags is a mask: setting bits outside the frame
mask, or clearing them, leaves the frame alone. `Maps` is the invariant an identity map
keeps under such operations: the frame of every page is the page itself, every page is
present, and the pages with the user bit lie in a given set.

The tables are filled by two nested loops that carry the next address along; `fill` is
one such loop over an array, with the value it leaves in every place.
-/
import System1.Base
import Mathlib.Data.List.FinRange
import Mathlib.Logic.Function.Basic
import Mathlib.Logic.Function.Iterate

set_option autoImplicit false

namespace System1.Lib

open Function List

/-! ## A loop that fills an array -/

section Fill

variable {α β : Type} {n : Nat}

/-- `for (i = 0; i < n; ++i) { t[i] = g(a); a = next(a); }` -/
def fill (g : α → β) (next : α → α) (t : Fin n → β) (a : α) : (Fin n → β) × α :=
  (finRange n).foldl (fun s i => (update s.1 i (g s.2), next s.2)) (t, a)

/-- The loop over any list of places without repetition. -/
theorem foldl_update (g : α → β) (next : α → α) (l : List (Fin n)) (hl : l.Nodup)
    (t : Fin n → β) (a : α) :
    let s := l.foldl (fun s i => (update s.1 i (g s.2), next s.2)) (t, a)
    s.2 = next^[l.length] a ∧ (∀ i, i ∉ l → s.1 i = t i) ∧
      ∀ (k : Nat) (hk : k < l.length), s.1 l[k] = g (next^[k] a) := by
  induction l generalizing t a with
  | nil => exact ⟨rfl, fun i _ => rfl, fun k hk => absurd hk (Nat.not_lt_zero k)⟩
  | cons x l ih =>
    obtain ⟨hx, hl⟩ := nodup_cons.mp hl
    obtain ⟨hacc, hout, hin⟩ := ih hl (update t x (g a)) (next a)
    refine ⟨hacc, fun i hi => ?_, fun k hk => ?_⟩
    · rw [mem_cons, not_or] at hi
      exact (hout i hi.2).trans (update_of_ne hi.1 ..)
    · cases k with
      | zero => exact (hout x hx).trans (update_self ..)
      | succ k => exact hin k (Nat.lt_of_succ_lt_succ hk)

theorem fill_eq (g : α → β) (next : α → α) (t : Fin n → β) (a : α) :
    fill g next t a = (fun i => g (next^[i.val] a), next^[n] a) := by
  obtain ⟨hacc, -, hin⟩ := foldl_update g next (finRange n) (nodup_finRange n) t a
  rw [length_finRange] at hacc
  refine Prod.ext (funext fun i => ?_) hacc
  have h := hin i.val (by rw [length_finRange]; exact i.isLt)
  rwa [getElem_finRange] at h

end Fill

/-! ## Entries -/

section Entry

variable {w : Nat}

/-- Setting bits outside the mask leaves what is under it. -/
theorem or_and_mask {e b mask : BitVec w} (h : b &&& mask = 0#w) :
    (e ||| b) &&& mask = e &&& mask := by
  ext k hk
  have hk' := congrArg (fun v => v.getLsbD k) h
  grind

/-- Clearing bits outside the mask leaves what is under it. -/
theorem and_and_mask {e b mask : BitVec w} (h : b &&& mask = mask) :
    (e &&& b) &&& mask = e &&& mask := by
  rw [BitVec.and_assoc, h]

/-- An entry: the frame under the mask, the present bit and the user bit. -/
structure Entry (mask e frame : BitVec w) (user : Prop) : Prop where
  frame : e &&& mask = frame
  present : e.getLsbD 0 = true
  user : e.getLsbD 2 = true → user

variable {e b frame mask : BitVec w} {U V : Prop}

/-- Setting flags keeps the frame and the present bit. -/
theorem Entry.or (h : Entry mask e frame V) (hb : b &&& mask = 0#w) (hU : U) :
    Entry mask (e ||| b) frame U :=
  ⟨(or_and_mask hb).trans h.frame, by rw [BitVec.getLsbD_or, h.present, Bool.true_or], fun _ => hU⟩

/-- Clearing flags other than the present bit keeps the frame. -/
theorem Entry.and (h : Entry mask e frame V) (hb : b &&& mask = mask) (h0 : b.getLsbD 0 = true)
    (hU : U) : Entry mask (e &&& b) frame U :=
  ⟨(and_and_mask hb).trans h.frame, by rw [BitVec.getLsbD_and, h.present, h0, Bool.and_true],
    fun _ => hU⟩

/-- A frame under the mask with flags that set the present bit and not the user bit. -/
theorem Entry.of_frame (hframe : frame &&& mask = frame) (hb : b &&& mask = 0#w)
    (h0 : b.getLsbD 0 = true) (h2 : b.getLsbD 2 = false) (hm : mask.getLsbD 2 = false) (U : Prop) :
    Entry mask ((frame &&& mask) ||| b) frame U := by
  refine ⟨?_, ?_, fun h => ?_⟩
  · rw [or_and_mask hb, BitVec.and_assoc, BitVec.and_self, hframe]
  · rw [BitVec.getLsbD_or, h0, Bool.or_true]
  · grind

end Entry

/-! ## Tables -/

section Tables

variable {n m w : Nat}

/-- The address of the page of entry `j` of table `i`, for pages of `size` bytes. -/
def pageAddr (size : Nat) (i : Fin n) (j : Fin m) : Nat := (i.val * m + j.val) * size

/-- An identity map whose user pages lie in `U`. -/
def Maps (size : Nat) (mask : BitVec w) (U : Nat → Prop) (t : Fin n → Fin m → BitVec w) : Prop :=
  ∀ i j, Entry mask (t i j) (BitVec.ofNat w (pageAddr size i j)) (U (pageAddr size i j))

variable {size : Nat} {mask : BitVec w} {U : Nat → Prop} {t : Fin n → Fin m → BitVec w}

/-- Replacing one entry. -/
theorem Maps.update (h : Maps size mask U t) (i : Fin n) (j : Fin m) {e : BitVec w}
    (he : Entry mask e (BitVec.ofNat w (pageAddr size i j)) (U (pageAddr size i j))) :
    Maps size mask U (update t i (update (t i) j e)) := by
  intro i' j'
  by_cases hi : i' = i
  · subst hi
    rw [update_self]
    by_cases hj : j' = j
    · subst hj
      rw [update_self]
      exact he
    · rw [update_of_ne hj]
      exact h i' j'
  · rw [update_of_ne hi]
    exact h i' j'

/-- The tables that the two nested loops leave. -/
def fillTables (g : BitVec w → BitVec w) (size : Nat) (t : Fin n → Fin m → BitVec w)
    (a : BitVec w) : (Fin n → Fin m → BitVec w) × BitVec w :=
  (finRange n).foldl (fun s i =>
    let row := fill g (fun a => a + BitVec.ofNat w size) (s.1 i) s.2
    (update s.1 i row.1, row.2)) (t, a)

theorem iterate_add_ofNat (size a k : Nat) :
    (fun a => a + BitVec.ofNat w size)^[k] (BitVec.ofNat w a) = BitVec.ofNat w (a + k * size) := by
  induction k with
  | zero => rw [Nat.zero_mul, Nat.add_zero]; rfl
  | succ k ih =>
    rw [iterate_succ_apply', ih, ← BitVec.ofNat_add, Nat.succ_mul, Nat.add_assoc]

/-- Filled in order, entry `(i, j)` holds the address of its own page. -/
theorem fillTables_apply (g : BitVec w → BitVec w) (size : Nat) (t : Fin n → Fin m → BitVec w)
    (i : Fin n) (j : Fin m) :
    (fillTables g size t 0#w).1 i j = g (BitVec.ofNat w (pageAddr size i j)) := by
  -- a row is a function of the address it starts at alone, so the outer loop is a fill
  have hrow : fillTables g size t 0#w =
      fill (fun a => fun j : Fin m => g ((fun a => a + BitVec.ofNat w size)^[j.val] a))
        (fun a => (fun a => a + BitVec.ofNat w size)^[m] a) t (BitVec.ofNat w 0) := by
    refine congrArg (fun f => (finRange n).foldl f (t, 0#w)) (funext fun s => funext fun i => ?_)
    simp [fill_eq]
  have hstart : ∀ k, (fun a => (fun a => a + BitVec.ofNat w size)^[m] a)^[k] (BitVec.ofNat w 0) =
      BitVec.ofNat w (k * m * size) := by
    intro k
    induction k with
    | zero => rw [Nat.zero_mul, Nat.zero_mul]; rfl
    | succ k ih => rw [iterate_succ_apply', ih, iterate_add_ofNat, ← Nat.add_mul, Nat.succ_mul]
  rw [hrow, fill_eq]
  simp only [hstart, iterate_add_ofNat, ← Nat.add_mul]
  rfl

end Tables

end System1.Lib
