/-
The page tables of `src/kernel/arch/x86/paging_x86.c`, for both builds.

The 32-bit build has a directory and 16 leaf tables of 1024 entries, the 64-bit build a
PML4, a PDPT, a directory and 32 leaf tables of 512 entries. Either way the leaf tables
cover 64 MiB in pages of 4 KiB. `paging_core_init` makes them an identity map of kernel
pages, and `paging_core_set_user_range` is the only function that changes them
afterwards: it gives the pages of a byte range the user bit, and sets or clears the
writable bit.

The two builds differ in the last function. The 64-bit one refuses a range that starts
below `0x60000`, marks the two top tables as well, and never clears the writable bit.

Every operation keeps `Maps`: frames are the identity, every page is present, and the
user pages are those of a set that contains every range handed out. The translation
buffer flushes and the control registers are left out, and so is the reading of the
multiboot memory map, whose verdict is an argument.
-/
import System1.Lib.PageTable

set_option autoImplicit false

namespace System1.Paging

open System1.Lib Function

def PAGE_SIZE : Nat := 4096
def PAGING_IDENTITY_LIMIT : Nat := 0x04000000
def MB2_BOOTLOADER_MAGIC : Nat := 0x36D76289

/-! ## The tables -/

/-- The static variables of the 32-bit build. -/
structure Tables32 where
  g_paging_enabled : Bool
  g_pd : Fin 1024 → BitVec 32
  g_pt : Fin 16 → Fin 1024 → BitVec 32

/-- The static variables of the 64-bit build. -/
structure Tables64 where
  g_paging_enabled : Bool
  g_pml4 : Fin 512 → BitVec 64
  g_pdpt : Fin 512 → BitVec 64
  g_pd : Fin 512 → BitVec 64
  g_pt : Fin 32 → Fin 512 → BitVec 64

/-- The tables before `paging_core_init`. -/
def Tables32.zero : Tables32 := ⟨false, fun _ => 0, fun _ _ => 0⟩
def Tables64.zero : Tables64 := ⟨false, fun _ => 0, fun _ => 0, fun _ => 0, fun _ _ => 0⟩

/-- The frame bits of an entry. -/
def FRAME32 : BitVec 32 := 0xFFFFF000#32
def FRAME64 : BitVec 64 := 0x000FFFFFFFFFF000#64

/-! ## `paging_core_init` -/

/-- Where the linker put the tables of the 64-bit build. -/
structure Symbols where
  g_pdpt : Nat
  g_pd : Nat
  g_pt : Nat

/-- A leaf entry, `(phys & mask) | 0x3`. -/
def leaf32 (phys : BitVec 32) : BitVec 32 := (phys &&& FRAME32) ||| 3#32
def leaf64 (phys : BitVec 64) : BitVec 64 := (phys &&& FRAME64) ||| 3#64

/-- The directory entry of leaf table `i`; a table fills one page. -/
def build_identity_tables_x86 (g_pt : Nat) (t : Tables32) : Tables32 where
  g_paging_enabled := true
  g_pd := fun i => if i.val < 16 then leaf32 (BitVec.ofNat 32 (g_pt + i.val * PAGE_SIZE)) else 0
  g_pt := (fillTables leaf32 PAGE_SIZE t.g_pt 0#32).1

def build_identity_tables_x64 (at_ : Symbols) (t : Tables64) : Tables64 where
  g_paging_enabled := true
  g_pml4 := fun i => if i.val = 0 then leaf64 (BitVec.ofNat 64 at_.g_pdpt) else 0
  g_pdpt := fun i => if i.val = 0 then leaf64 (BitVec.ofNat 64 at_.g_pd) else 0
  g_pd := fun i => if i.val < 32 then leaf64 (BitVec.ofNat 64 (at_.g_pt + i.val * PAGE_SIZE)) else 0
  g_pt := (fillTables leaf64 PAGE_SIZE t.g_pt 0#64).1

/-- `paging_core_init` around the `build` of one of the builds, which also sets
`g_paging_enabled`. -/
def paging_core_init {τ : Type} (enabled : τ → Bool) (build : τ → τ)
    (mb2_has_usable_region : Bool) (boot_magic : Nat) (t : τ) : Bool × τ :=
  if enabled t then (true, t)
  else if boot_magic = MB2_BOOTLOADER_MAGIC ∧ mb2_has_usable_region = false then (false, t)
  else (true, build t)

/-! ## `paging_core_set_user_range` -/

/-- `for (addr = start; addr < end; addr += PAGE_SIZE)` over the page-aligned range of
`count` pages, left early when the body fails. -/
def forPages {τ : Type} (body : Nat → τ → Option τ) : Nat → Nat → τ → Bool × τ
  | 0, _, t => (true, t)
  | count + 1, addr, t =>
    match body addr t with
    | none => (false, t)
    | some t' => forPages body count (addr + PAGE_SIZE) t'

/-- The page-aligned range around `[start, stop)`: its first address and its pages. -/
def pageFloor (start : Nat) : Nat := start / PAGE_SIZE * PAGE_SIZE
def pageCount (start stop : Nat) : Nat :=
  ((stop + PAGE_SIZE - 1) / PAGE_SIZE * PAGE_SIZE - pageFloor start) / PAGE_SIZE

/-- The new leaf entry of the 32-bit build: user, and writable or not. -/
def userEntry32 (writable : Bool) (e : BitVec 32) : BitVec 32 :=
  if writable then (e ||| 4#32) ||| 2#32 else (e ||| 4#32) &&& ~~~2#32

/-- The new leaf entry of the 64-bit build, which is never made read-only. -/
def userEntry64 (writable : Bool) (e : BitVec 64) : BitVec 64 :=
  if writable then (e ||| 4#64) ||| 2#64 else e ||| 4#64

def set_user_page_x86 (writable : Bool) (addr : Nat) (t : Tables32) : Option Tables32 :=
  if hpd : addr / 2 ^ 22 < 16 then
    let pd_index : Fin 16 := ⟨addr / 2 ^ 22, hpd⟩
    let pt_index : Fin 1024 := Fin.ofNat 1024 (addr / 2 ^ 12)
    some { t with
      g_pd := update t.g_pd (Fin.ofNat 1024 pd_index)
        (t.g_pd (Fin.ofNat 1024 pd_index) ||| 4#32)
      g_pt := update t.g_pt pd_index
        (update (t.g_pt pd_index) pt_index
          (userEntry32 writable (t.g_pt pd_index pt_index))) }
  else none

def set_user_page_x64 (writable : Bool) (addr : Nat) (t : Tables64) : Option Tables64 :=
  if hpd : addr / 2 ^ 21 < 32 then
    let pd : Fin 32 := ⟨addr / 2 ^ 21, hpd⟩
    let pt : Fin 512 := Fin.ofNat 512 (addr / 2 ^ 12)
    some { t with
      g_pd := update t.g_pd (Fin.ofNat 512 pd) (t.g_pd (Fin.ofNat 512 pd) ||| 4#64)
      g_pt := update t.g_pt pd
        (update (t.g_pt pd) pt (userEntry64 writable (t.g_pt pd pt))) }
  else none

def paging_core_set_user_range_x86 (t : Tables32) (start stop : Nat) (writable : Bool) :
    Bool × Tables32 :=
  if start ≥ stop ∨ stop > PAGING_IDENTITY_LIMIT then (false, t)
  else forPages (set_user_page_x86 writable) (pageCount start stop) (pageFloor start) t

def paging_core_set_user_range_x64 (t : Tables64) (start stop : Nat) (writable : Bool) :
    Bool × Tables64 :=
  if start ≥ stop ∨ start < 0x00060000 ∨ stop > PAGING_IDENTITY_LIMIT then (false, t)
  else
    forPages (set_user_page_x64 writable) (pageCount start stop) (pageFloor start)
      { t with
        g_pml4 := update t.g_pml4 0 (t.g_pml4 0 ||| 4#64)
        g_pdpt := update t.g_pdpt 0 (t.g_pdpt 0 ||| 4#64) }

/-! ## The map they keep -/

/-- The identity map whose user pages lie in `U`. -/
def Tables32.Identity (U : Nat → Prop) (t : Tables32) : Prop := Maps PAGE_SIZE FRAME32 U t.g_pt
def Tables64.Identity (U : Nat → Prop) (t : Tables64) : Prop := Maps PAGE_SIZE FRAME64 U t.g_pt

/-- A page address below 2^26 has no bit outside the frame mask, which holds bits 12 and
up to bit 25 at least. -/
theorem page_and_mask {w : Nat} {mask : BitVec w} {p : Nat} (hp : p < 2 ^ 14)
    (hmask : ∀ k, 12 ≤ k → k < 26 → mask.getLsbD k = true) :
    BitVec.ofNat w (p * PAGE_SIZE) &&& mask = BitVec.ofNat w (p * PAGE_SIZE) := by
  apply BitVec.eq_of_getLsbD_eq
  intro k hk
  rw [BitVec.getLsbD_and, BitVec.getLsbD_ofNat]
  have hbit : (p * PAGE_SIZE).testBit k = true → mask.getLsbD k = true := by
    intro hb
    rw [show p * PAGE_SIZE = p * 2 ^ 12 from rfl, Nat.testBit_mul_two_pow, Bool.and_eq_true,
      decide_eq_true_eq] at hb
    refine hmask k hb.1 (Nat.lt_of_not_le fun hle => ?_)
    have hlow : p < 2 ^ (k - 12) :=
      Nat.lt_of_lt_of_le hp (Nat.pow_le_pow_right (by decide) (by omega))
    rw [Nat.testBit_lt_two_pow hlow] at hb
    cases hb.2
  grind

theorem build_identity_tables_x86_identity (g_pt : Nat) (t : Tables32) (U : Nat → Prop) :
    (build_identity_tables_x86 g_pt t).Identity U := by
  intro i j
  rw [show (build_identity_tables_x86 g_pt t).g_pt i j = _ from
    fillTables_apply leaf32 PAGE_SIZE t.g_pt i j]
  exact .of_frame (page_and_mask (by omega) (by decide)) (by decide) rfl rfl rfl _

theorem build_identity_tables_x64_identity (at_ : Symbols) (t : Tables64) (U : Nat → Prop) :
    (build_identity_tables_x64 at_ t).Identity U := by
  intro i j
  rw [show (build_identity_tables_x64 at_ t).g_pt i j = _ from
    fillTables_apply leaf64 PAGE_SIZE t.g_pt i j]
  exact .of_frame (page_and_mask (by omega) (by decide)) (by decide) rfl rfl rfl _

/-- A user entry keeps the frame and the present bit. -/
theorem userEntry32_entry {e frame : BitVec 32} {U V : Prop} (h : Entry FRAME32 e frame V)
    (hU : U) (writable : Bool) : Entry FRAME32 (userEntry32 writable e) frame U := by
  have huser : Entry FRAME32 (e ||| 4#32) frame U := h.or (by decide) hU
  cases writable with
  | false => exact huser.and (by decide) rfl hU
  | true => exact huser.or (by decide) hU

theorem userEntry64_entry {e frame : BitVec 64} {U V : Prop} (h : Entry FRAME64 e frame V)
    (hU : U) (writable : Bool) : Entry FRAME64 (userEntry64 writable e) frame U := by
  have huser : Entry FRAME64 (e ||| 4#64) frame U := h.or (by decide) hU
  cases writable with
  | false => exact huser
  | true => exact huser.or (by decide) hU

variable {U : Nat → Prop} {addr : Nat}

/-- Opening one 32-bit page keeps the identity map. -/
theorem set_user_page_x86_identity {writable : Bool} {t t' : Tables32} (hU : U (pageFloor addr))
    (h : t.Identity U) (hset : set_user_page_x86 writable addr t = some t') : t'.Identity U := by
  unfold set_user_page_x86 at hset
  by_cases hpd : addr / 2 ^ 22 < 16
  · rw [dif_pos hpd, Option.some.injEq] at hset
    subst hset
    refine Maps.update h _ _ (userEntry32_entry (h _ _) ?_ writable)
    grind [Fin.val_ofNat, pageAddr, pageFloor, PAGE_SIZE]
  · rw [dif_neg hpd] at hset
    cases hset

/-- Opening one 64-bit page keeps the identity map. -/
theorem set_user_page_x64_identity {writable : Bool} {t t' : Tables64} (hU : U (pageFloor addr))
    (h : t.Identity U) (hset : set_user_page_x64 writable addr t = some t') : t'.Identity U := by
  unfold set_user_page_x64 at hset
  by_cases hpd : addr / 2 ^ 21 < 32
  · rw [dif_pos hpd, Option.some.injEq] at hset
    subst hset
    refine Maps.update h _ _ (userEntry64_entry (h _ _) ?_ writable)
    grind [Fin.val_ofNat, pageAddr, pageFloor, PAGE_SIZE]
  · rw [dif_neg hpd] at hset
    cases hset

/-- What the body keeps at every page of a range, the loop keeps. -/
theorem forPages_inv {τ : Type} {body : Nat → τ → Option τ} {I : τ → Prop} {count : Nat}
    (hbody : ∀ k < count, ∀ t t', I t → body (addr + k * PAGE_SIZE) t = some t' → I t') {t : τ}
    (ht : I t) : I (forPages body count addr t).2 := by
  induction count generalizing addr t with
  | zero => exact ht
  | succ count ih =>
    unfold forPages
    split
    · exact ht
    next t' _ =>
      have hfirst : I t' := hbody 0 (Nat.succ_pos _) t t' ht (by rwa [Nat.zero_mul, Nat.add_zero])
      refine ih (fun k hk u u' hu hu' => hbody (k + 1) (Nat.succ_lt_succ hk) u u' hu ?_) hfirst
      rwa [Nat.succ_mul, Nat.add_comm (k * PAGE_SIZE), ← Nat.add_assoc]

/-- The set contains the pages of the range `[lo, hi)`. -/
def HasPages (U : Nat → Prop) (lo hi : Nat) : Prop :=
  ∀ p, lo ≤ p * PAGE_SIZE → p * PAGE_SIZE < hi → U (p * PAGE_SIZE)

variable {lo hi start stop : Nat}

/-- Rounding a range to pages does not leave a range with page-aligned ends. -/
theorem HasPages.of_range (h : HasPages U lo hi) (hlo : lo % PAGE_SIZE = 0)
    (hhi : hi % PAGE_SIZE = 0) (hstart : lo ≤ start) (hstop : stop ≤ hi) {k : Nat}
    (hk : k < pageCount start stop) :
    U (pageFloor (pageFloor start + k * PAGE_SIZE)) := by
  unfold pageCount pageFloor at hk
  unfold pageFloor
  refine h _ ?_ ?_ <;> simp only [PAGE_SIZE] at * <;> omega

section

variable (hpages : HasPages U lo hi) (hlo : lo % PAGE_SIZE = 0) (hhi : hi % PAGE_SIZE = 0)

include hpages hlo hhi

/-- So does opening a range in 32-bit mode. -/
theorem paging_core_set_user_range_x86_identity {t : Tables32} (h : t.Identity U)
    (hstart : lo ≤ start) (hstop : stop ≤ hi) (writable : Bool) :
    (paging_core_set_user_range_x86 t start stop writable).2.Identity U := by
  unfold paging_core_set_user_range_x86
  split
  · exact h
  · exact forPages_inv (I := Tables32.Identity U) (fun k hk u u' hu hu' =>
    set_user_page_x86_identity (hpages.of_range hlo hhi hstart hstop hk) hu hu') h

/-- So does opening a range in 64-bit mode. -/
theorem paging_core_set_user_range_x64_identity {t : Tables64} (h : t.Identity U)
    (hstart : lo ≤ start) (hstop : stop ≤ hi) (writable : Bool) :
    (paging_core_set_user_range_x64 t start stop writable).2.Identity U := by
  unfold paging_core_set_user_range_x64
  split
  · exact h
  · exact forPages_inv (I := Tables64.Identity U) (fun k hk u u' hu hu' =>
    set_user_page_x64_identity (hpages.of_range hlo hhi hstart hstop hk) hu hu') h

end

end System1.Paging
