/-
The block list of the kernel heap.

The blocks are read off memory as a list of `Blk`. `Holds s l` says that memory holds
exactly that list: a ring through null, whose links are the head and tail variables, with
the sizes and flags in the headers. The heap operations are three edits of the list: a
block is cut in two, a block absorbs its successor, and a block is appended.

What the blocks cover is counted point by point, so that cutting and absorbing change
nothing and appending adds whole pages. Disjointness, distinct headers and the bounds that
keep all arithmetic exact follow from the count.
-/
import System1.Mm
import System1.Lib.Ring
import System1.Lib.Tiling
import Mathlib.Algebra.BigOperators.Group.List.Basic
import Mathlib.Data.List.Chain
import Mathlib.Data.List.Perm.Subperm

set_option autoImplicit false

namespace System1.Mm

open System1.Lib Function List

/-- A block of the heap: where its header is, its size without the header, its flag. -/
structure Blk where
  addr : Nat
  size : Nat
  free : Bool
  deriving DecidableEq, Repr

/-- The first address after a block. -/
def Blk.stop (W : Arch) (b : Blk) : Nat := b.addr + W.header + b.size

/-- The successor of a block, and of null the head. -/
def State.nxt (s : State) (a : Nat) : Nat := if a = 0 then s.g_heap_head else (s.mem a).next

/-- The predecessor of a block, and of null the tail. -/
def State.prv (s : State) (a : Nat) : Nat := if a = 0 then s.g_heap_tail else (s.mem a).prev

/-- The addresses of the headers. -/
def addrs (l : List Blk) : List Nat := l.map Blk.addr

@[simp] theorem addrs_append (l m : List Blk) : addrs (l ++ m) = addrs l ++ addrs m :=
  map_append

@[simp] theorem addrs_cons (b : Blk) (l : List Blk) : addrs (b :: l) = b.addr :: addrs l := rfl

@[simp] theorem addrs_nil : addrs [] = [] := rfl

/-- Memory holds the list of blocks. -/
structure Holds (s : State) (l : List Blk) : Prop where
  ring : Ring s.nxt s.prv 0 (addrs l)
  size : ∀ b ∈ l, (s.mem b.addr).size = b.size
  free : ∀ b ∈ l, (s.mem b.addr).free = b.free

/-- The header is the one of a block. -/
def HeapBlock.Is (x : HeapBlock) (b : Blk) : Prop := x.size = b.size ∧ x.free = b.free

theorem Holds.of {s : State} {l : List Blk} (hring : Ring s.nxt s.prv 0 (addrs l))
    (his : ∀ b ∈ l, (s.mem b.addr).Is b) : Holds s l :=
  ⟨hring, fun b hb => (his b hb).1, fun b hb => (his b hb).2⟩

theorem Holds.is {s : State} {l : List Blk} (h : Holds s l) {b : Blk} (hb : b ∈ l) :
    (s.mem b.addr).Is b :=
  ⟨h.size b hb, h.free b hb⟩

/-- The list is in memory and in the two variables, nowhere else. -/
theorem Holds.congr {s s' : State} {l : List Blk} (h : Holds s l)
    (hhead : s'.g_heap_head = s.g_heap_head) (htail : s'.g_heap_tail = s.g_heap_tail)
    (hmem : ∀ b ∈ l, s'.mem b.addr = s.mem b.addr) : Holds s' l := by
  have haddr : ∀ x ∈ 0 :: addrs l, x ≠ 0 → s'.mem x = s.mem x := by
    intro x hx hx0
    obtain ⟨b, hb, rfl⟩ := mem_map.mp ((mem_cons.mp hx).resolve_left hx0)
    exact hmem b hb
  refine .of (h.ring.congr (fun x hx => ?_) (fun x hx => ?_)) fun b hb => ?_
  · grind [State.nxt]
  · grind [State.prv]
  · rw [hmem b hb]
    exact h.is hb

/-! ## Stores -/

section Stores

variable (s : State) {a : Nat}

theorem nxt_eq_update :
    s.nxt = update (fun a => (s.mem a).next) 0 s.g_heap_head := by
  funext x
  rw [update_apply]
  rfl

theorem prv_eq_update :
    s.prv = update (fun a => (s.mem a).prev) 0 s.g_heap_tail := by
  funext x
  rw [update_apply]
  rfl

theorem store_nxt (ha : a ≠ 0) (b : HeapBlock) :
    (s.store a b).nxt = update s.nxt a b.next := by
  rw [nxt_eq_update, nxt_eq_update, update_comm ha.symm]
  exact congrArg (update · 0 s.g_heap_head) (comp_update HeapBlock.next s.mem a b)

theorem store_prv (ha : a ≠ 0) (b : HeapBlock) :
    (s.store a b).prv = update s.prv a b.prev := by
  rw [prv_eq_update, prv_eq_update, update_comm ha.symm]
  exact congrArg (update · 0 s.g_heap_tail) (comp_update HeapBlock.prev s.mem a b)

@[simp] theorem store_mem_self (b : HeapBlock) : (s.store a b).mem a = b := update_self ..

theorem store_mem_ne (b : HeapBlock) {x : Nat} (hx : x ≠ a) : (s.store a b).mem x = s.mem x :=
  update_of_ne hx ..

/-- The links of a block that is not null are in its header. -/
theorem prv_eq {s : State} (ha : a ≠ 0) : s.prv a = (s.mem a).prev := if_neg ha

theorem nxt_eq {s : State} (ha : a ≠ 0) : s.nxt a = (s.mem a).next := if_neg ha

theorem setPrev_prv (v : Nat) : (s.setPrev a v).prv = update s.prv a v := by
  unfold State.setPrev
  by_cases ha : a = 0
  · rw [if_neg (by simp [ha]), ha, prv_eq_update, prv_eq_update, update_idem]
  · rw [if_pos ha, store_prv s ha]

theorem setPrev_nxt (v : Nat) : (s.setPrev a v).nxt = s.nxt := by
  unfold State.setPrev
  by_cases ha : a = 0
  · rw [if_neg (by simp [ha])]
    rfl
  · rw [if_pos ha, store_nxt s ha]
    exact update_eq_self_iff.mpr (nxt_eq ha).symm

theorem setNext_nxt (v : Nat) : (s.setNext a v).nxt = update s.nxt a v := by
  unfold State.setNext
  by_cases ha : a = 0
  · rw [if_neg (by simp [ha]), ha, nxt_eq_update, nxt_eq_update, update_idem]
  · rw [if_pos ha, store_nxt s ha]

theorem setNext_prv (v : Nat) : (s.setNext a v).prv = s.prv := by
  unfold State.setNext
  by_cases ha : a = 0
  · rw [if_neg (by simp [ha])]
    rfl
  · rw [if_pos ha, store_prv s ha]
    exact update_eq_self_iff.mpr (prv_eq ha).symm

/-- Storing a link touches neither sizes nor flags. -/
theorem store_is {h : HeapBlock} (hsize : h.size = (s.mem a).size) (hfree : h.free = (s.mem a).free)
    (x : Nat) {b : Blk} : ((s.store a h).mem x).Is b ↔ (s.mem x).Is b := by
  grind [store_mem_self, HeapBlock.Is, store_mem_ne]

theorem setPrev_is (v x : Nat) {b : Blk} :
    ((s.setPrev a v).mem x).Is b ↔ (s.mem x).Is b := by grind [State.setPrev, store_is]

theorem setNext_is (v x : Nat) {b : Blk} :
    ((s.setNext a v).mem x).Is b ↔ (s.mem x).Is b := by grind [State.setNext, store_is]

end Stores

/-! ## Edits of the list -/

section Edits

variable {s : State} {p q : List Blk} {a b : Blk}

/-- The first block of a list, by address. -/
def first (q : List Blk) : Nat := (addrs q).headD 0

/-- The last block of a list, by address. -/
def last (p : List Blk) : Nat := (addrs p).getLastD 0

theorem Holds.next (h : Holds s (p ++ b :: q)) (hb : b.addr ≠ 0) :
    (s.mem b.addr).next = first q := by
  have hring := h.ring
  rw [addrs_append, addrs_cons] at hring
  rw [← nxt_eq hb]
  exact hring.at.2.1

theorem Holds.prev (h : Holds s (p ++ b :: q)) (hb : b.addr ≠ 0) :
    (s.mem b.addr).prev = last p := by
  have hring := h.ring
  rw [addrs_append, addrs_cons] at hring
  rw [← prv_eq hb]
  exact hring.at.1

theorem first_mem_or (q : List Blk) : first q = 0 ∨ first q ∈ addrs q := by
  cases q with
  | nil => exact .inl rfl
  | cons b q => exact .inr (.head _)

/-- The flag or the size of a header is stored again. -/
theorem Holds.store (h : Holds s (p ++ b :: q)) (hnd : (0 :: addrs (p ++ b :: q)).Nodup)
    (size : Nat) (free : Bool) :
    Holds (s.store b.addr { s.mem b.addr with size := size, free := free })
      (p ++ ⟨b.addr, size, free⟩ :: q) := by
  have hb : b.addr ≠ 0 := by
    rintro h0
    exact (nodup_cons.mp hnd).1 (by rw [← h0]; simp)
  have hne : ∀ c ∈ p ++ q, c.addr ≠ b.addr := by
    intro c hc heq
    have hnd' := (nodup_cons.mp hnd).2
    rw [addrs_append, addrs_cons, nodup_middle] at hnd'
    refine (nodup_cons.mp hnd').1 ?_
    rw [← addrs_append, ← heq]
    exact mem_map_of_mem hc
  refine .of ?_ fun c hc => ?_
  · have hring := h.ring
    rw [store_nxt s hb, store_prv s hb]
    rw [← nxt_eq hb, ← prv_eq hb, update_eq_self, update_eq_self]
    simpa using hring
  · rcases mem_cons.mp (perm_middle.mem_iff.mp hc) with rfl | hc
    · rw [store_mem_self]
      exact ⟨rfl, rfl⟩
    · rw [store_mem_ne s _ (hne c hc)]
      exact h.is (perm_middle.mem_iff.mpr (.tail _ hc))

/-- Two neighbours of a list without repetitions, away from the rest. -/
theorem nodup_pair {z x y : Nat} {l m : List Nat} (h : (z :: (l ++ x :: y :: m)).Nodup) :
    x ∉ y :: z :: (l ++ m) ∧ y ∉ z :: (l ++ m) ∧ (z :: (l ++ m)).Nodup := by
  have hperm : (z :: (l ++ x :: y :: m)).Perm (x :: y :: z :: (l ++ m)) := by
    refine (List.Perm.cons z perm_middle).trans ((List.Perm.swap x z _).trans ?_)
    refine List.Perm.cons x ?_
    exact (List.Perm.cons z perm_middle).trans (List.Perm.swap y z _)
  have hnd := hperm.nodup_iff.mp h
  grind

/-- A block absorbs its successor. -/
theorem Holds.absorb (h : Holds s (p ++ a :: b :: q))
    (hnd : (0 :: addrs (p ++ a :: b :: q)).Nodup) (size : Nat) {s1 : State}
    (hs1 : s1 = s.store a.addr { s.mem a.addr with
      size := size, next := (s.mem b.addr).next }) :
    Holds (s1.setPrev (s1.mem a.addr).next a.addr) (p ++ ⟨a.addr, size, a.free⟩ :: q) := by
  have hring := h.ring
  simp only [addrs_append, addrs_cons] at hring hnd
  obtain ⟨ha, hb, hnd'⟩ := nodup_pair hnd
  have ha0 : a.addr ≠ 0 := fun h0 => ha (by rw [h0]; simp)
  have hb0 : b.addr ≠ 0 := fun h0 => hb (by rw [h0]; simp)
  -- the ring with `b` taken out from between `p ++ [a]` and `q`
  have hring' : Ring s.nxt s.prv 0 ((addrs p ++ [a.addr]) ++ b.addr :: addrs q) := by
    simpa using hring
  have hlast : (addrs p ++ [a.addr]).getLastD 0 = a.addr := getLastD_concat ..
  have hnext : (s.mem b.addr).next = first q := by
    rw [← nxt_eq hb0]
    exact hring'.at.2.1
  have hnext1 : (s1.mem a.addr).next = first q := by
    rw [hs1, store_mem_self]
    exact hnext
  have hnxt : (s1.setPrev (s1.mem a.addr).next a.addr).nxt =
      update s.nxt a.addr (first q) := by
    rw [setPrev_nxt, hs1, store_nxt s ha0, hnext]
  have hprv : (s1.setPrev (s1.mem a.addr).next a.addr).prv =
      update s.prv (first q) a.addr := by
    rw [setPrev_prv, hnext1, hs1, store_prv s ha0]
    rw [← prv_eq ha0, update_eq_self]
  refine .of ?_ fun c hc => ?_
  · have hremove := hring'.remove (by simpa using hnd)
    simp_all [first]
  · rw [setPrev_is, hs1]
    rcases mem_cons.mp (perm_middle.mem_iff.mp hc) with rfl | hc
    · rw [store_mem_self]
      exact ⟨rfl, h.free a (by simp)⟩
    rw [store_mem_ne s _ fun h0 => ha ?_]
    · refine h.is (perm_middle.mem_iff.mpr (.tail _ ?_))
      exact perm_middle.mem_iff.mpr (.tail _ hc)
    · rw [← h0, ← addrs_append]
      exact .tail _ (.tail _ (mem_map_of_mem hc))

/-- A block is cut in two; the second part starts at `c`. -/
theorem Holds.split (h : Holds s (p ++ b :: q)) {c : Nat} {size rest : Nat}
    (hnd : (0 :: addrs (p ++ b :: ⟨c, rest, true⟩ :: q)).Nodup) {s1 s2 : State}
    (hs1 : s1 = s.store c ⟨rest, true, (s.mem b.addr).next, b.addr⟩)
    (hs2 : s2 = s1.setPrev (s1.mem c).next c) :
    Holds (s2.store b.addr { s2.mem b.addr with size := size, next := c })
      (p ++ ⟨b.addr, size, b.free⟩ :: ⟨c, rest, true⟩ :: q) := by
  have hring := h.ring
  simp only [addrs_append, addrs_cons] at hring hnd
  obtain ⟨hb, hc, hnd'⟩ := nodup_pair hnd
  have hb0 : b.addr ≠ 0 := fun h0 => hb (by rw [h0]; simp)
  have hc0 : c ≠ 0 := fun h0 => hc (by rw [h0]; simp)
  have hcb : c ≠ b.addr := fun h0 => hb (by rw [← h0]; simp)
  have hring' : Ring s.nxt s.prv 0 ((addrs p ++ [b.addr]) ++ addrs q) := by
    simpa using hring
  have hlast : (addrs p ++ [b.addr]).getLastD 0 = b.addr := getLastD_concat ..
  have hnext : (s.mem b.addr).next = first q := by
    rw [← nxt_eq hb0]
    exact (Ring.at hring).2.1
  have hnext1 : (s1.mem c).next = first q := by
    rw [hs1, store_mem_self]
    exact hnext
  have hnxt : (s2.store b.addr { s2.mem b.addr with size := size, next := c }).nxt =
      update (update s.nxt c (first q)) b.addr c := by
    rw [store_nxt s2 hb0, hs2, setPrev_nxt, hs1, store_nxt s hc0, hnext]
  have hprv : (s2.store b.addr { s2.mem b.addr with size := size, next := c }).prv =
      update (update s.prv c b.addr) (first q) c := by
    rw [store_prv s2 hb0]
    rw [← prv_eq hb0, update_eq_self, hs2, setPrev_prv, hnext1, hs1, store_prv s hc0]
  refine .of ?_ fun d hd => ?_
  · have hinsert := hring'.insert (b := c) (by simpa using hnd)
    simp_all [first]
  rcases mem_cons.mp (perm_middle.mem_iff.mp hd) with rfl | hd
  · rw [store_mem_self, HeapBlock.Is]
    have his : (s2.mem b.addr).Is b := by
      rw [hs2, setPrev_is, hs1, store_mem_ne s _ hcb.symm]
      exact h.is (by simp)
    exact ⟨rfl, his.2⟩
  rcases mem_cons.mp (perm_middle.mem_iff.mp hd) with rfl | hd
  · rw [store_mem_ne s2 _ hcb, hs2, setPrev_is, hs1, store_mem_self]
    exact ⟨rfl, rfl⟩
  have hmem : d.addr ∈ addrs p ++ addrs q := by
    rw [← addrs_append]
    exact mem_map_of_mem hd
  rw [store_mem_ne s2 _ fun h0 => hb ?_, hs2, setPrev_is, hs1, store_mem_ne s _ fun h0 => hc ?_]
  · exact h.is (perm_middle.mem_iff.mpr (.tail _ hd))
  · rw [← h0]
    exact .tail _ hmem
  · rw [← h0]
    exact .tail _ (.tail _ hmem)

/-- A block is appended. -/
theorem Holds.append {l : List Blk} (h : Holds s l) {c size : Nat}
    (hnd : (0 :: addrs (l ++ [⟨c, size, true⟩])).Nodup) {s1 s2 : State}
    (hs1 : s1 = s.store c ⟨size, true, 0, s.g_heap_tail⟩) (hs2 : s2 = s1.setNext s1.g_heap_tail c)
    (total : Nat) :
    Holds { s2 with g_heap_tail := c, g_heap_total_bytes := total } (l ++ [⟨c, size, true⟩]) ∧
    (s2.mem c).prev = last l := by
  have hring := h.ring
  simp only [addrs_append, addrs_cons, addrs_nil] at hnd
  have hperm : (0 :: (addrs l ++ [c])).Perm (c :: 0 :: addrs l) :=
    (List.Perm.cons 0 (perm_append_singleton c (addrs l))).trans (List.Perm.swap c 0 _)
  obtain ⟨hc, hnd'⟩ := nodup_cons.mp (hperm.nodup_iff.mp hnd)
  have hc0 : c ≠ 0 := fun h0 => hc (by rw [h0]; simp)
  have htail : s.g_heap_tail = last l := hring.ends.2
  have htail1 : s1.g_heap_tail = last l := by
    rw [hs1]
    exact htail
  have hnxt : ({ s2 with g_heap_tail := c, g_heap_total_bytes := total } : State).nxt =
      update (update s.nxt c 0) (last l) c := by
    show s2.nxt = _
    rw [hs2, setNext_nxt, htail1, hs1, store_nxt s hc0]
  have hprv2 : s2.prv = update s.prv c (last l) := by
    rw [hs2, setNext_prv, hs1, store_prv s hc0, htail]
  have hprv : ({ s2 with g_heap_tail := c, g_heap_total_bytes := total } : State).prv =
      update (update s.prv c (last l)) 0 c := by
    rw [← hprv2, prv_eq_update, prv_eq_update, update_idem]
  refine ⟨.of ?_ fun d hd => ?_, ?_⟩
  · rw [hnxt, hprv, addrs_append]
    exact Ring.insert (q := []) hnd (by simpa using hring)
  · show (s2.mem d.addr).Is d
    rw [hs2, setNext_is, hs1]
    rcases mem_append.mp hd with hd | hd
    · rw [store_mem_ne s _ fun h0 => hc (by rw [← h0]; exact .tail _ (mem_map_of_mem hd))]
      exact h.is hd
    · rw [mem_singleton.mp hd, store_mem_self]
      exact ⟨rfl, rfl⟩
  · rw [← prv_eq hc0, hprv2, update_self]

end Edits

/-! ## The heap -/

variable (W : Arch)

theorem header_pos : 0 < W.header := by
  cases W <;> decide

theorem header_le : W.header ≤ 24 := by
  cases W <;> decide

theorem uptr_of_lt {n : Nat} (h : n < 2 ^ 32) : W.uptr n = n := by
  refine Nat.mod_eq_of_lt (Nat.lt_of_lt_of_le h ?_)
  cases W <;> decide

/-- The bytes of the blocks, headers included. -/
def bytes (W : Arch) (l : List Blk) : Nat := (l.map fun b => W.header + b.size).sum

@[simp] theorem bytes_append (l m : List Blk) :
    bytes W (l ++ m) = bytes W l + bytes W m := by
  unfold bytes
  rw [map_append, sum_append]

@[simp] theorem bytes_cons (b : Blk) (l : List Blk) :
    bytes W (b :: l) = W.header + b.size + bytes W l := by
  unfold bytes
  rw [map_cons, sum_cons]

@[simp] theorem bytes_nil : bytes W [] = 0 := rfl

/-- The block list tiles the pages that growing has taken, and nothing else. -/
structure Heap (W : Arch) (s : State) (l : List Blk) : Prop where
  holds : Holds s l
  tiles : ∀ x, cover Blk.addr (Blk.stop W) l x = if x / MM_PAGE_SIZE ∈ s.grown then 1 else 0
  inside : ∀ p ∈ s.grown, p ≠ 0 ∧ p < MM_MAX_PAGES
  distinct : s.grown.Nodup
  total : s.g_heap_total_bytes = bytes W l
  pages : s.g_heap_total_bytes = MM_PAGE_SIZE * s.grown.length

/-- Two blocks that would be joined if they were neighbours: both free, and the second
right after the first. -/
def Joinable (W : Arch) (a b : Blk) : Prop :=
  a.free = true ∧ b.free = true ∧ a.stop W = b.addr

/-- No two neighbours are left to be joined. -/
def Maximal (W : Arch) (l : List Blk) : Prop := l.IsChain fun a b => ¬ Joinable W a b

theorem Blk.addr_lt_stop (b : Blk) : b.addr < b.stop W := by
  have := header_pos W
  unfold Blk.stop
  omega

/-- Blocks that tile a set of pages without page 0 have distinct headers, none at null. -/
theorem nodup_of_tiles {W : Arch} {l : List Blk} {pages : List Nat}
    (h : ∀ x, cover Blk.addr (Blk.stop W) l x = if x / MM_PAGE_SIZE ∈ pages then 1 else 0)
    (h0 : 0 ∉ pages) : (0 :: addrs l).Nodup := by
  refine nodup_cons.mpr ⟨fun hnull => ?_,
    nodup_of_cover_le_one (fun b _ => b.addr_lt_stop W) fun x => ?_⟩
  · obtain ⟨b, hb, hb0⟩ := mem_map.mp hnull
    have hpos : 0 < cover Blk.addr (Blk.stop W) l b.addr :=
      cover_pos hb (Nat.le_refl _) (b.addr_lt_stop W)
    simp_all
  · rw [h]
    split <;> omega

namespace Heap

variable {W : Arch} {s : State} {l : List Blk} (h : Heap W s l)

include h

theorem cover_le_one (x : Nat) : cover Blk.addr (Blk.stop W) l x ≤ 1 := by
  rw [h.tiles]
  split <;> omega

/-- An address inside a block lies in a page of the heap. -/
theorem mem_grown {b : Blk} (hb : b ∈ l) {x : Nat} (hlo : b.addr ≤ x) (hhi : x < b.stop W) :
    x / MM_PAGE_SIZE ∈ s.grown := by
  by_contra hx
  have hpos : 0 < cover Blk.addr (Blk.stop W) l x := cover_pos hb hlo hhi
  rw [h.tiles, if_neg hx] at hpos
  exact absurd hpos (by omega)

theorem zero_notMem : 0 ∉ s.grown := fun h0 => (h.inside 0 h0).1 rfl

theorem pairwise : l.Pairwise fun a b => a.stop W ≤ b.addr ∨ b.stop W ≤ a.addr :=
  pairwise_of_cover_le_one (fun b _ => b.addr_lt_stop W) h.cover_le_one

/-- Headers are distinct, and none is at null. -/
theorem nodup : (0 :: addrs l).Nodup := nodup_of_tiles h.tiles h.zero_notMem

theorem addr_ne_zero {b : Blk} (hb : b ∈ l) : b.addr ≠ 0 := by
  intro h0
  exact (nodup_cons.mp h.nodup).1 (by rw [← h0]; exact mem_map_of_mem hb)

/-- Blocks lie below the identity limit. -/
theorem stop_le {b : Blk} (hb : b ∈ l) : b.stop W ≤ PAGING_IDENTITY_LIMIT := by
  have hlt := b.addr_lt_stop W
  have hpage := h.mem_grown hb (x := b.stop W - 1) (by omega) (by omega)
  have hmax := (h.inside _ hpage).2
  unfold MM_MAX_PAGES MM_PAGE_SIZE at hmax
  unfold PAGING_IDENTITY_LIMIT
  omega

/-- The heap lies in the memory that is mapped. -/
theorem total_le : s.g_heap_total_bytes ≤ PAGING_IDENTITY_LIMIT := by
  have hsub : s.grown ⊆ List.range MM_MAX_PAGES :=
    fun p hp => mem_range.mpr (h.inside p hp).2
  have hlen := (h.distinct.subperm hsub).length_le
  rw [length_range] at hlen
  rw [h.pages]
  unfold MM_MAX_PAGES at hlen
  unfold MM_PAGE_SIZE PAGING_IDENTITY_LIMIT at *
  omega

/-- The fuel of a walk over the list is never used up. -/
theorem length_lt : l.length < HEAP_FUEL := by
  have hle : ∀ m : List Blk, 16 * m.length ≤ bytes W m := by
    intro m
    induction m with
    | nil => exact Nat.zero_le _
    | cons b m ih =>
      have hhdr : 16 ≤ W.header := by cases W <;> decide
      rw [bytes_cons, length_cons]
      omega
  have h1 := hle l
  have h2 := h.total_le
  rw [h.total] at h2
  unfold PAGING_IDENTITY_LIMIT at h2
  unfold HEAP_FUEL
  omega

/-- An edit that neither grows the heap nor changes what is covered. -/
theorem edit {s' : State} {l' : List Blk} (hgrown : s'.grown = s.grown)
    (htotal : s'.g_heap_total_bytes = s.g_heap_total_bytes)
    (hcover : ∀ x, cover Blk.addr (Blk.stop W) l' x = cover Blk.addr (Blk.stop W) l x)
    (hbytes : bytes W l' = bytes W l) (hholds : (0 :: addrs l').Nodup → Holds s' l') :
    Heap W s' l' := by
  have htiles : ∀ x, cover Blk.addr (Blk.stop W) l' x =
      if x / MM_PAGE_SIZE ∈ s.grown then 1 else 0 := by
    intro x
    rw [hcover, h.tiles]
  refine ⟨hholds (nodup_of_tiles htiles h.zero_notMem), ?_, ?_, ?_, ?_, ?_⟩
  · rw [hgrown]
    exact htiles
  · rw [hgrown]
    exact h.inside
  · rw [hgrown]
    exact h.distinct
  · rw [htotal, h.total, hbytes]
  · rw [htotal, h.pages, hgrown]

end Heap

end System1.Mm
