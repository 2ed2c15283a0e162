/-
The sizes of requests.

`kmalloc_core` rounds a size up, adds a header and rounds to pages, each time in 32 bits.
Up to `2 ^ 32 - sizeof(heap_block_t)` nothing is lost on the way: a request that large finds
no block and no pages, and null comes back. Past it the sums wrap, and what is looked for is
a block of nothing or one page. If there is one the caller gets it, for a size of almost
4 GiB. `Servable` is where that does not happen, and `kmalloc_serves_iff` says that it is
exact; the runs are those in which every request is servable, and they are the runs of
`Reach`, since the requests that `Reach` leaves out change nothing (`Run.reach`).

The second half is about the joining of free blocks. It holds in all these runs, as part of
what is proved there (`Maximal`), and is here stated for the list in memory.
-/
import System1.MmBoot

set_option autoImplicit false

namespace System1.Mm

open List

/-! ## The two searches when they find nothing -/

section Searches

variable {W : Arch} {s : State} {l : List Blk}

/-- The walk over the blocks passes none that would do. -/
theorem mm_find_free_block_none (size : Nat) :
    ∀ (q p : List Blk) (fuel : Nat), Holds s (p ++ q) → (∀ b ∈ p ++ q, b.addr ≠ 0) →
      q.length < fuel → (∀ b ∈ q, ¬ (b.free = true ∧ b.size ≥ size)) →
      mm_find_free_block s size fuel (first q) = some 0 := by
  intro q p fuel h hne hfuel hnone
  grind [mm_find_free_block_spec]

/-- And if there is one, the walk does not come to null. -/
theorem mm_find_free_block_ne (size : Nat) :
    ∀ (q p : List Blk) (fuel : Nat), Holds s (p ++ q) → (∀ b ∈ p ++ q, b.addr ≠ 0) →
      (∃ b ∈ q, b.free = true ∧ size ≤ b.size) →
      mm_find_free_block s size fuel (first q) ≠ some 0 := by
  intro q
  induction q with
  | nil =>
    rintro p fuel _ _ ⟨b, hb, -⟩
    cases hb
  | cons b q ih =>
    intro p fuel h hne hex
    cases fuel with
    | zero => exact fun hnone => by cases hnone
    | succ fuel =>
      have hb : b ∈ p ++ b :: q := by simp
      have hb0 := hne b hb
      show mm_find_free_block s size (fuel + 1) b.addr ≠ some 0
      unfold mm_find_free_block
      rw [if_neg hb0, h.free b hb, h.size b hb, h.next hb0]
      split
      · exact fun heq => hb0 (Option.some.inj heq)
      next hfit =>
      apply ih (p ++ [b]) fuel (by simpa using h) (by simpa using hne)
      grind

/-- A page that is not in use can be had, and its address is not null. -/
theorem mm_alloc_pages_one_ne (h0 : s.Used 0) {page : Nat} (h : s.Unused page) :
    mm_alloc_pages s 1 ≠ (0, s) := by
  classical
  have hex : ∃ page, s.Unused page := ⟨page, h⟩
  have hfirst := Nat.find_spec hex
  have hused : ∀ page < Nat.find hex, s.Used page := by
    intro page hpage
    have hlt : page < MM_MAX_PAGES := hpage.trans hfirst.1
    exact ⟨hlt, by simpa using fun hun => Nat.find_min hex hpage ⟨hlt, hun⟩⟩
  -- page 0 is in use, so it is not the page found
  have hne : Nat.find hex ≠ 0 := fun hzero => not_used_of_unused (hzero ▸ hfirst) h0
  rw [mm_alloc_pages_first hused hfirst]
  intro heq
  have haddr : Nat.find hex * MM_PAGE_SIZE = 0 := congrArg Prod.fst heq
  unfold MM_PAGE_SIZE at haddr
  omega

/-- No pages, or more than there are, cannot be had. -/
theorem mm_alloc_pages_null (h0 : s.Used 0) {count : Nat}
    (h : count = 0 ∨ MM_MAX_PAGES < count ∨ ∀ page, ¬ s.Unused page) :
    mm_alloc_pages s count = (0, s) := by
  obtain hnull | ⟨start, s', -, -, hpos, hend, hun, -⟩ := mm_alloc_pages_spec h0 count
  · exact hnull
  grind

end Searches

/-! ## The sizes that are too large -/

section Sizes

variable {W : Arch} {s : State} {l : List Blk} {size : Nat}

theorem ptrSize_cases (W : Arch) :
    W.ptrSize = 4 ∧ W.header = 16 ∨ W.ptrSize = 8 ∧ W.header = 24 := by
  cases W with
  | i386 => exact .inl ⟨rfl, rfl⟩
  | x86_64 => exact .inr ⟨rfl, rfl⟩

/-- Rounding up to a power of two in 32 bits. -/
theorem align_up_eq_div {value k : Nat} (hk : k ≤ 32) :
    mm_align_up_u32 value (2 ^ k) = u32 (value + 2 ^ k - 1) / 2 ^ k * 2 ^ k := by
  exact and_mask (u32_lt _) hk

theorem align_alloc_eq (W : Arch) (size : Nat) :
    mm_align_alloc_size W size = u32 (size + W.ptrSize - 1) / W.ptrSize * W.ptrSize := by
  cases W with
  | i386 => exact align_up_eq_div (k := 2) (by decide)
  | x86_64 => exact align_up_eq_div (k := 3) (by decide)

/-- A size that leaves room for a header is rounded up without a wrap. -/
theorem align_alloc_ge (h : size + W.header ≤ 2 ^ 32) :
    size ≤ mm_align_alloc_size W size ∧ mm_align_alloc_size W size + W.header ≤ 2 ^ 32 := by
  grind [align_alloc_eq, ptrSize_cases, u32_of_lt]

/-- Past that size the header makes the sum wrap, to one page; in the end the size itself
wraps, to nothing. -/
theorem align_alloc_wraps (hlo : 2 ^ 32 < size + W.header) (hhi : size < 2 ^ 32) :
    (2 ^ 32 < size + W.ptrSize ∧ mm_align_alloc_size W size = 0) ∨
    (¬ 2 ^ 32 < size + W.ptrSize ∧ 2 ^ 31 ≤ mm_align_alloc_size W size ∧
      0 < u32 (mm_align_alloc_size W size + W.header) ∧
      u32 (mm_align_alloc_size W size + W.header) ≤ W.header) := by
  rw [align_alloc_eq]
  unfold u32
  obtain ⟨hp, hh⟩ | ⟨hp, hh⟩ := ptrSize_cases W
  · rw [hh] at hlo
    rw [hp, hh]
    omega
  rw [hh] at hlo
  rw [hp, hh]
  omega

/-- No block of the heap is that large. -/
theorem Sound.size_le (h : Sound W s l) {b : Blk} (hb : b ∈ l) :
    b.size ≤ PAGING_IDENTITY_LIMIT := by
  have hstop := h.heap.stop_le hb
  unfold Blk.stop at hstop
  omega

/-- No block is large enough, or none is free. -/
theorem Sound.find_null (h : Sound W s l)
    (hnone : PAGING_IDENTITY_LIMIT < size ∨ ∀ b ∈ l, b.free = false) :
    mm_find_free_block s size HEAP_FUEL s.g_heap_head = some 0 := by
  have hhead : s.g_heap_head = first l := h.heap.holds.ring.ends.1
  rw [hhead]
  apply mm_find_free_block_none size l [] HEAP_FUEL h.heap.holds
    (fun b hb => h.heap.addr_ne_zero hb) h.heap.length_lt
  rintro b hb ⟨hfree, hsize⟩
  obtain hlarge | hused := hnone
  · have := h.size_le hb
    omega
  · rw [hused b hb] at hfree
    cases hfree

/-- What growing does depends on the number of pages only. -/
theorem mm_grow_heap_congr {size' : Nat} (fuel : Nat)
    (h : u32 (u32 (size + W.header) + MM_PAGE_SIZE - 1) / MM_PAGE_SIZE =
      u32 (u32 (size' + W.header) + MM_PAGE_SIZE - 1) / MM_PAGE_SIZE) :
    mm_grow_heap W fuel s size = mm_grow_heap W fuel s size' := by
  unfold mm_grow_heap
  dsimp only
  rw [h]

/-- The pages of a sum that has wrapped, and of no bytes. -/
theorem pages_one {total : Nat} (hpos : 0 < total) (hle : total ≤ 24) :
    u32 (total + MM_PAGE_SIZE - 1) / MM_PAGE_SIZE = 1 := by
  unfold u32 MM_PAGE_SIZE
  omega

theorem find_or_grow_of_null (h : mm_find_free_block s size HEAP_FUEL s.g_heap_head = some 0) :
    mm_find_or_grow W s size = mm_grow_heap W HEAP_FUEL s size := by
  unfold mm_find_or_grow
  rw [h]
  dsimp only
  rw [if_pos rfl]

theorem kmalloc_of_null (h : mm_find_or_grow W s (mm_align_alloc_size W size) = some (0, s)) :
    kmalloc_core W s size = some (0, s) := by simp [kmalloc_core, h]

end Sizes

/-! ## What a request gets -/

/-- There is one list in memory. -/
theorem BlockList.unique {s : State} {l l' : List Nat} (h : BlockList s l) (h' : BlockList s l') :
    l = l' := by
  -- two ends of the lists that start alike are equal
  have hends : ∀ q q' p p', l = p ++ q → l' = p' ++ q' → q.headD 0 = q'.headD 0 → q = q' := by
    intro q
    induction q with
    | nil =>
      rintro (_ | ⟨a, q'⟩) p p' - hl' hhead
      · rfl
      · refine absurd ?_ h'.nonnull
        rw [hl', show (0 : Nat) = a from hhead]
        simp
    | cons a q ih =>
      rintro (_ | ⟨a', q'⟩) p p' hl hl' hhead
      · refine absurd ?_ h.nonnull
        rw [hl, show (0 : Nat) = a from hhead.symm]
        simp
      · obtain rfl : a = a' := hhead
        rw [ih q' (p ++ [a]) (p' ++ [a]) (by simp [hl]) (by simp [hl'])
          ((h.links p a q hl).2.symm.trans (h'.links p' a q' hl').2)]
  exact hends l l' [] [] rfl rfl (h.head.symm.trans h'.head)

/-- The caller has what was asked for: null, or a block of the list that is at least `size`
bytes long, and these bytes are in pages of the heap. -/
def Served (W : Arch) (s : State) (p size : Nat) : Prop :=
  p = 0 ∨ ∃ l a, BlockList s l ∧ a ∈ l ∧ p = a + W.header ∧ size ≤ (s.mem a).size ∧
    ∀ x, p ≤ x → x < p + size → x / MM_PAGE_SIZE ∈ s.grown

/-- There is nothing to allocate from: no heap yet, or no page that is not in use and, for a
size that is rounded up to nothing, no free block. -/
def Exhausted (W : Arch) (s : State) (size : Nat) : Prop :=
  s.g_initialized = false ∨
    (∀ page, ¬ s.Unused page) ∧
      (2 ^ 32 < size + W.ptrSize → ∀ l a, BlockList s l → a ∈ l → (s.mem a).free = false)

/-- The size and a header fit in 32 bits, or there is nothing to allocate from. -/
def Servable (W : Arch) (s : State) (size : Nat) : Prop :=
  size + W.header ≤ 2 ^ 32 ∨ Exhausted W s size

section Requests

variable {W : Arch} {s : State} {l : List Blk} {size : Nat}

/-- Such a size is too large for the heap, and nothing comes of it. -/
theorem kmalloc_null (h : Sound W s l) (hlarge : PAGING_IDENTITY_LIMIT < size)
    (hsize : size < 2 ^ 32) (hok : Servable W s size) : kmalloc_core W s size = some (0, s) := by
  by_cases hinit : s.g_initialized = false
  · unfold kmalloc_core
    rw [if_pos (.inl hinit)]
  have h0 := h.zero (by simpa using hinit)
  apply kmalloc_of_null
  by_cases hfits : size + W.header ≤ 2 ^ 32
  · obtain ⟨hge, hle⟩ := align_alloc_ge hfits
    rw [find_or_grow_of_null (h.find_null (.inl (by omega)))]
    apply mm_grow_heap_null
    apply mm_alloc_pages_null h0
    -- the pages are more than there are, or the sum has wrapped and they are none
    unfold PAGING_IDENTITY_LIMIT at hlarge
    unfold MM_MAX_PAGES MM_PAGE_SIZE u32
    omega
  obtain hinit' | ⟨hnopage, hnoblock⟩ := hok.resolve_left hfits
  · exact absurd hinit' hinit
  have hfind : mm_find_free_block s (mm_align_alloc_size W size) HEAP_FUEL s.g_heap_head =
      some 0 := by
    obtain ⟨hwrap, -⟩ | ⟨-, hge, -⟩ := align_alloc_wraps (W := W) (by omega) hsize
    · apply h.find_null (.inr fun b hb => ?_)
      rw [← h.heap.holds.free b hb]
      exact hnoblock hwrap _ _ h.heap.blockList (mem_map_of_mem hb)
    · exact h.find_null (.inl (by unfold PAGING_IDENTITY_LIMIT; omega))
  rw [find_or_grow_of_null hfind]
  exact mm_grow_heap_null _ (mm_alloc_pages_null h0 (.inr (.inr hnopage)))

/-- Past it a block is found where there is one. -/
theorem find_or_grow_wraps (h : Sound W s l) (hinit : s.g_initialized = true)
    (hsize : size < 2 ^ 32) (hno : ¬ Servable W s size) :
    ∃ s' p b q, mm_find_or_grow W s (mm_align_alloc_size W size) = some (b.addr, s') ∧
      Heap W s' (p ++ b :: q) := by
  have h0 := h.zero hinit
  have hlo : 2 ^ 32 < size + W.header := by
    by_contra hle
    exact hno (.inl (by omega))
  -- growing takes one page, whatever the sum has become
  have hgrown : ∀ {n page}, 0 < u32 (n + W.header) → u32 (n + W.header) ≤ W.header →
      s.Unused page → ∃ s' p b, mm_grow_heap W HEAP_FUEL s n = some (b.addr, s') ∧
        Heap W s' (p ++ [b]) := by
    intro n page hpos hle hun
    have hhdr := header_le W
    have hone : (0 + W.header + MM_PAGE_SIZE - 1) / MM_PAGE_SIZE = 1 := by
      have hhdr0 := header_pos W
      unfold MM_PAGE_SIZE
      omega
    have hzero : mm_grow_heap W HEAP_FUEL s n = mm_grow_heap W HEAP_FUEL s 0 := by
      apply mm_grow_heap_congr
      rw [pages_one hpos (by omega), grow_pages_eq (Nat.zero_le _), hone]
    have hpages : mm_alloc_pages s ((0 + W.header + MM_PAGE_SIZE - 1) / MM_PAGE_SIZE) ≠ (0, s) := by
      rw [hone]
      exact mm_alloc_pages_one_ne h0 hun
    obtain ⟨s', p, b, pages, hgrow, hheap, -⟩ :=
      mm_grow_heap_grown h h0 (Nat.zero_le _) (HEAP_FUEL - 1) hpages
    exact ⟨s', p, b, hzero.trans hgrow, hheap⟩
  obtain ⟨hwrap, hnothing⟩ | ⟨hnot, hge, hpos, hle⟩ := align_alloc_wraps hlo hsize
  · rw [hnothing]
    by_cases hblock : ∃ b ∈ l, b.free = true
    · -- any free block is large enough for nothing
      have hhead : s.g_heap_head = first l := h.heap.holds.ring.ends.1
      obtain ⟨c, hc, hcfree⟩ := hblock
      obtain hnone | ⟨p, b, q, rfl, -, -, hfound⟩ := mm_find_free_block_spec 0 l [] HEAP_FUEL
        h.heap.holds (fun b hb => h.heap.addr_ne_zero hb) h.heap.length_lt
      · exact absurd hnone (mm_find_free_block_ne 0 l [] HEAP_FUEL h.heap.holds
          (fun b hb => h.heap.addr_ne_zero hb) ⟨c, hc, hcfree, Nat.zero_le _⟩)
      refine ⟨s, p, b, q, ?_, h.heap⟩
      unfold mm_find_or_grow
      rw [hhead, hfound]
      dsimp only
      rw [if_neg (h.heap.addr_ne_zero (by simp))]
    have hused : ∀ b ∈ l, b.free = false := fun b hb => by
      by_contra hfree
      exact hblock ⟨b, hb, by simpa using hfree⟩
    have hpage : ∃ page, s.Unused page := by
      by_contra hnone
      refine hno (.inr (.inr ⟨fun page hp => hnone ⟨page, hp⟩, fun _ l' a hl' ha => ?_⟩))
      rw [hl'.unique h.heap.blockList] at ha
      obtain ⟨b, hb, rfl⟩ := mem_map.mp ha
      rw [h.heap.holds.free b hb]
      exact hused b hb
    obtain ⟨page, hun⟩ := hpage
    rw [find_or_grow_of_null (h.find_null (.inr hused))]
    have hhdr := header_le W
    have hhdr0 := header_pos W
    have hsum : u32 (0 + W.header) = W.header := by
      rw [Nat.zero_add]
      exact u32_of_lt (by omega)
    obtain ⟨s', p, b, hgrow, hheap⟩ := hgrown (by rw [hsum]; exact hhdr0) hsum.le hun
    exact ⟨s', p, b, [], hgrow, hheap⟩
  · have hpage : ∃ page, s.Unused page := by
      by_contra hnone
      exact hno (.inr (.inr ⟨fun page hp => hnone ⟨page, hp⟩, fun hw => absurd hw hnot⟩))
    obtain ⟨page, hun⟩ := hpage
    rw [find_or_grow_of_null (h.find_null (.inl (by unfold PAGING_IDENTITY_LIMIT; omega)))]
    obtain ⟨s', p, b, hgrow, hheap⟩ := hgrown hpos hle hun
    exact ⟨s', p, b, [], hgrow, hheap⟩

theorem mm_split_block_grown (block n : Nat) : (mm_split_block W s block n).grown = s.grown := by
  unfold mm_split_block
  dsimp only
  split_ifs with hsmall
  · rfl
  · exact (Same.setPrev _ _ _).grown

/-- A size that has wrapped around is answered with too small a block. -/
theorem kmalloc_wraps (h : Sound W s l) (hinit : s.g_initialized = true) (hpos : 0 < size)
    (hsize : size < 2 ^ 32) (hno : ¬ Servable W s size) :
    ∃ p s', kmalloc_core W s size = some (p, s') ∧ p ≠ 0 ∧
      ∀ page ∈ s'.grown, page < MM_MAX_PAGES := by
  obtain ⟨s', p, b, q, hfound, hheap⟩ := find_or_grow_wraps h hinit hsize hno
  have hb : b ∈ p ++ b :: q := by simp
  have hstop := hheap.stop_le hb
  have hhdr := header_pos W
  unfold Blk.stop PAGING_IDENTITY_LIMIT at hstop
  unfold kmalloc_core
  rw [if_neg (by rw [hinit]; simp; omega)]
  dsimp only
  rw [hfound]
  dsimp only
  rw [if_neg (hheap.addr_ne_zero hb), uptr_of_lt W (by omega)]
  refine ⟨_, _, rfl, by omega, fun page hpage => (hheap.inside page ?_).2⟩
  rw [← mm_split_block_grown b.addr (mm_align_alloc_size W size)]
  exact hpage

/-- The pages of the heap are too few for so many bytes. -/
theorem not_served_of_large {p : Nat} (hlarge : PAGING_IDENTITY_LIMIT < size) (hp : p ≠ 0)
    (hgrown : ∀ page ∈ s.grown, page < MM_MAX_PAGES) : ¬ Served W s p size := by
  rintro (h0 | ⟨-, -, -, -, -, -, hbytes⟩)
  · exact hp h0
  · have hlast := hgrown _ (hbytes (p + size - 1) (by omega) (by omega))
    unfold PAGING_IDENTITY_LIMIT at hlarge
    unfold MM_MAX_PAGES MM_PAGE_SIZE at hlast
    omega

/-- A request that the heap can hold is served. -/
theorem kmalloc_small (h : Sound W s l) (hsmall : size ≤ PAGING_IDENTITY_LIMIT) :
    ∃ p s', kmalloc_core W s size = some (p, s') ∧ Served W s' p size := by
  obtain hnull | ⟨s', l', b, -, hcall, hS, -, hb, -, hle, -, -⟩ := kmalloc_core_spec h hsmall
  · exact ⟨0, s, hnull, .inl rfl⟩
  refine ⟨_, s', hcall, .inr ⟨addrs l', b.addr, hS.heap.blockList, mem_map_of_mem hb, rfl,
    ?_, fun x hlo hhi => ?_⟩⟩
  · rw [hS.heap.holds.size b hb]
    exact hle
  · apply hS.heap.mem_grown hb (by omega)
    unfold Blk.stop
    omega

end Requests


/-! ## Runs -/

/-- The states of the runs in which every request is servable, with the pages handed out
and the live allocations, as in `Reach`. -/
inductive Run (B : Boot) : State → List Nat → List (Nat × Nat) → Prop where
  | init {fuel boot_magic boot_info_ptr : Nat} {mem : Nat → HeapBlock} {rc : Int} {s : State} :
      mm_core_init B fuel (State.zero mem) boot_magic boot_info_ptr = some (rc, s) →
      Run B s [] []
  | kmalloc {s s' : State} {out : List Nat} {live : List (Nat × Nat)} {p : Nat} (size : Nat) :
      Run B s out live → size < 2 ^ 32 → Servable B.arch s size →
      kmalloc_core B.arch s size = some (p, s') →
      Run B s' out (if p = 0 then live else (p, size) :: live)
  | kfree {s s' : State} {out : List Nat} {live : List (Nat × Nat)} {p : Nat} :
      Run B s out live → p ∈ live.map Prod.fst → kfree_core B.arch s p = some s' →
      Run B s' out (live.filter fun u => u.1 ≠ p)
  | alloc_page {s s' : State} {out : List Nat} {live : List (Nat × Nat)} {page : Nat} :
      Run B s out live → mm_core_alloc_page s = (page, s') →
      Run B s' (if page = 0 then out else page :: out) live
  | free_page {s : State} {out : List Nat} {live : List (Nat × Nat)} {page : Nat} :
      Run B s out live → page ∈ out →
      Run B (mm_core_free_page s page) (out.filter fun x => x ≠ page) live
  | write {s : State} {out : List Nat} {live : List (Nat × Nat)} {mem : Nat → HeapBlock} :
      Run B s out live → (∀ l a, BlockList s l → a ∈ l → mem a = s.mem a) →
      Run B { s with mem := mem } out live

/-- A servable request of more than the 64 MiB of `Reach` changes nothing. -/
theorem Run.reach {B : Boot} {s : State} {out : List Nat} {live : List (Nat × Nat)}
    (h : Run B s out live) : Reach B s out live := by
  induction h with
  | init hinit => exact .init hinit
  | @kmalloc s s' out live p size _ hsize hok hcall ih =>
    by_cases hsmall : size ≤ 64 * 2 ^ 20
    · exact .kmalloc size ih hsmall hcall
    obtain ⟨l, hl⟩ := reach_owned ih
    have hnull := kmalloc_null hl.sound (by unfold PAGING_IDENTITY_LIMIT; omega) hsize hok
    rw [hnull] at hcall
    cases hcall
    exact ih
  | kfree _ hp hcall ih => exact .kfree ih hp hcall
  | alloc_page _ hcall ih => exact .alloc_page ih hcall
  | free_page _ hpage ih => exact .free_page ih hpage
  | write _ hmem ih => exact .write ih hmem

/-- In every state of these runs a request for any 32-bit size returns, and the caller has
what was asked for exactly when the request was servable. -/
theorem kmalloc_serves_iff {B : Boot} {s : State} {out : List Nat} {live : List (Nat × Nat)}
    (h : Run B s out live) {size : Nat} (hpos : 0 < size) (hsize : size < 2 ^ 32) :
    ∃ p s', kmalloc_core B.arch s size = some (p, s') ∧
      (Served B.arch s' p size ↔ Servable B.arch s size) := by
  obtain ⟨l, hl⟩ := reach_owned h.reach
  by_cases hsmall : size ≤ PAGING_IDENTITY_LIMIT
  · have hservable : Servable B.arch s size := by
      have hhdr := header_le B.arch
      unfold PAGING_IDENTITY_LIMIT at hsmall
      exact .inl (by omega)
    obtain ⟨p, s', hcall, hserved⟩ := kmalloc_small hl.sound hsmall
    exact ⟨p, s', hcall, iff_of_true hserved hservable⟩
  by_cases hok : Servable B.arch s size
  · exact ⟨0, s, kmalloc_null hl.sound (by omega) hsize hok, iff_of_true (.inl rfl) hok⟩
  have hinit : s.g_initialized = true := by
    by_contra hno
    exact hok (.inr (.inl (by simpa using hno)))
  obtain ⟨p, s', hcall, hp, hgrown⟩ := kmalloc_wraps hl.sound hinit hpos hsize hok
  exact ⟨p, s', hcall, iff_of_false (not_served_of_large (by omega) hp hgrown) hok⟩

theorem kmalloc_serves_iff_100 : ∃ s p s', Run plainBoot s [] [] ∧
    kmalloc_core plainBoot.arch s 100 = some (p, s') ∧ Served plainBoot.arch s' p 100 := by
  obtain ⟨total_pages, used_pages, hinit⟩ := plainBoot_started
  obtain ⟨p, s', hcall, hserved⟩ :=
    kmalloc_serves_iff (.init hinit) (by decide : 0 < 100) (by decide)
  exact ⟨_, p, s', .init hinit, hcall, hserved.mpr (.inl (by decide))⟩

/-- A request for `0xFFFFFFFF` bytes on a fresh heap is answered with a pointer. -/
theorem all_ones_not_served : ∃ s p s', Run plainBoot s [] [] ∧
    kmalloc_core plainBoot.arch s 0xFFFFFFFF = some (p, s') ∧ p ≠ 0 ∧
    ¬ Served plainBoot.arch s' p 0xFFFFFFFF := by
  obtain ⟨total_pages, used_pages, hinit⟩ := plainBoot_started
  have hrun : Run plainBoot (freshHeap total_pages used_pages) [] [] := .init hinit
  obtain ⟨l, hl⟩ := reach_owned hrun.reach
  have hno : ¬ Servable plainBoot.arch (freshHeap total_pages used_pages) 0xFFFFFFFF := by
    rintro (hfits | hinit' | ⟨hnone, -⟩)
    · exact absurd hfits (by decide)
    · cases hinit'
    · exact hnone 0x200 ⟨by decide, by simp [freshHeap]⟩
  obtain ⟨p, s', hcall, hp, hgrown⟩ := kmalloc_wraps hl.sound rfl (by decide) (by decide) hno
  exact ⟨_, p, s', hrun, hcall, hp, not_served_of_large (by decide) hp hgrown⟩

/-! ## Free blocks are joined -/

theorem Maximal.not_joinable {W : Arch} {l p q : List Blk} {a b : Blk} (h : Maximal W l)
    (hl : l = p ++ a :: b :: q) : ¬ Joinable W a b := by
  unfold Maximal at h
  rw [hl, isChain_append_cons_cons] at h
  exact h.2.1

/-- In every reachable state no two blocks that follow each other in the list and meet in
memory are both free; and when growing succeeds, its result is a free block of the list
that is large enough. -/
theorem heap_coalesced {B : Boot} {s : State} {out : List Nat} {live : List (Nat × Nat)}
    (h : Reach B s out live) :
    (∃ l, BlockList s l ∧ ∀ p a b q, l = p ++ a :: b :: q →
      a + B.arch.header + (s.mem a).size = b →
      ¬ ((s.mem a).free = true ∧ (s.mem b).free = true)) ∧
    (s.g_initialized = true → ∀ size ≤ 64 * 2 ^ 20, ∃ block s',
      mm_grow_heap B.arch HEAP_FUEL s size = some (block, s') ∧
      (block ≠ 0 → ∃ l, BlockList s' l ∧ block ∈ l ∧ (s'.mem block).free = true ∧
        size ≤ (s'.mem block).size)) := by
  obtain ⟨l, hl⟩ := reach_owned h
  have hheap := hl.sound.heap
  constructor
  · refine ⟨addrs l, hheap.blockList, ?_⟩
    rintro p a b q hsplit hmeet ⟨ha, hb⟩
    -- the blocks behind the two addresses
    obtain ⟨p', r, rfl, rfl, hr⟩ := map_eq_append_iff.mp hsplit
    obtain ⟨a', r', rfl, rfl, hr'⟩ := map_eq_cons_iff.mp hr
    obtain ⟨b', q', rfl, rfl, -⟩ := map_eq_cons_iff.mp hr'
    have hma : a' ∈ p' ++ a' :: b' :: q' := by simp
    have hmb : b' ∈ p' ++ a' :: b' :: q' := by simp
    apply hl.sound.maximal.not_joinable rfl
    rw [hheap.holds.free a' hma] at ha
    rw [hheap.holds.free b' hmb] at hb
    rw [hheap.holds.size a' hma] at hmeet
    exact ⟨ha, hb, hmeet⟩
  · intro hinit size hsize
    obtain hnull | ⟨s', p, b, -, hgrow, hheap', -, hfree, hle, -, -⟩ :=
      mm_grow_heap_spec hl.sound (hl.sound.zero hinit)
        (show size ≤ PAGING_IDENTITY_LIMIT by unfold PAGING_IDENTITY_LIMIT; omega) (HEAP_FUEL - 1)
    · exact ⟨0, s, hnull, fun h0 => absurd rfl h0⟩
    have hb : b ∈ p ++ [b] := by simp
    refine ⟨b.addr, s', hgrow, fun _ => ⟨_, hheap'.blockList, mem_map_of_mem hb, ?_, ?_⟩⟩
    · rw [hheap'.holds.free b hb]
      exact hfree
    · rw [hheap'.holds.size b hb]
      exact hle

/-- The two blocks are the heap. -/
theorem twoBlocks_list (total_pages used_pages : Nat) :
    BlockList (twoBlocks total_pages used_pages) [0x200000, 0x200074] where
  nonnull := by decide
  distinct := by decide
  head := rfl
  tail := rfl
  links := by
    intro p a q hsplit
    rcases p with _ | ⟨x, _ | ⟨y, p⟩⟩
    · obtain ⟨rfl, rfl⟩ : 0x200000 = a ∧ [0x200074] = q := by simpa using hsplit
      exact ⟨rfl, rfl⟩
    · obtain ⟨rfl, rfl, rfl⟩ : 0x200000 = x ∧ 0x200074 = a ∧ [] = q := by simpa using hsplit
      exact ⟨rfl, rfl⟩
    · simp at hsplit

/-- The next page is appended to the rest of the first, which it follows. -/
theorem twoBlocks_grow (total_pages used_pages : Nat) : ∃ s',
    mm_grow_heap plainBoot.arch HEAP_FUEL (twoBlocks total_pages used_pages) 4000 =
      some (0x200074, s') := by
  have hpages : u32 (u32 (4000 + plainBoot.arch.header) + MM_PAGE_SIZE - 1) / MM_PAGE_SIZE = 1 := by
    decide
  unfold mm_grow_heap
  dsimp only
  rw [hpages, mm_alloc_pages_next (by decide) rfl, show HEAP_FUEL = 0x3FFFFFF + 1 from rfl]
  simp [mm_join_appended, mm_append_block, mm_coalesce_block, mm_absorb_next, mm_blocks_adjacent,
    State.store, State.setNext, State.setPrev, twoBlocks, plainBoot, Arch.header, Arch.ptrSize,
    u32, u32_sub, Arch.uptr, MM_PAGE_SIZE]

/-- After a first request for 100 bytes there are two blocks that meet, and one of them is
in use. Growing joins the new page to the free one. -/
theorem heap_coalesced_started : ∃ s s', Reach plainBoot s [] [(0x200010, 100)] ∧
    0x200000 + plainBoot.arch.header + (s.mem 0x200000).size = 0x200074 ∧
    ¬ ((s.mem 0x200000).free = true ∧ (s.mem 0x200074).free = true) ∧
    mm_grow_heap plainBoot.arch HEAP_FUEL s 4000 = some (0x200074, s') ∧
    ∃ l, BlockList s' l ∧ 0x200074 ∈ l ∧ (s'.mem 0x200074).free = true ∧
      4000 ≤ (s'.mem 0x200074).size := by
  obtain ⟨total_pages, used_pages, hinit⟩ := plainBoot_started
  have hreach : Reach plainBoot (twoBlocks total_pages (u32 (used_pages + 1))) []
      [(0x200010, 100)] :=
    .kmalloc 100 (.init hinit) (by decide) (freshHeap_kmalloc total_pages used_pages)
  obtain ⟨⟨l, hl, hmeet⟩, hgrow⟩ := heap_coalesced hreach
  obtain ⟨block, s', hcall, hblock⟩ := hgrow rfl 4000 (by decide)
  obtain ⟨s'', hcall'⟩ := twoBlocks_grow total_pages (u32 (used_pages + 1))
  obtain ⟨rfl, rfl⟩ : 0x200074 = block ∧ s'' = s' := by
    simpa using hcall'.symm.trans hcall
  obtain rfl := hl.unique (twoBlocks_list total_pages _)
  exact ⟨_, _, hreach, rfl, hmeet [] _ _ [] rfl rfl, hcall, hblock (by decide)⟩

end System1.Mm
