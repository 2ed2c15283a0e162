/-
The kernel memory manager: `mm_core.c`.

Two allocators share one array of page flags. `mm_alloc_pages` hands out runs of pages,
first fit. The heap is a doubly linked list of blocks, each with its header in front of
it; `kmalloc_core` takes the first free block that is large enough, growing the heap by
whole pages when there is none, and splits off what it does not need; `kfree_core` joins
a block with its neighbours when they are free and lie next to it.

Headers live in memory, so memory here is a map from addresses to headers. A block that
has been absorbed keeps its header, and `mm_grow_heap` reads one such stale header.
Pointers are addresses and null is 0. `Arch` fixes the size of a pointer and with it the
size of a header and the alignment of requests.

The walk over the block list and the recursion of `mm_coalesce_block` have no bound in
the source; here they have fuel and end in `none` when it runs out, which the runs of
the heap never do. The state has one field the source does not have: `grown` records the
pages that `mm_grow_heap` has taken.
-/
import System1.Base
import Mathlib.Logic.Function.Basic
import Mathlib.Data.Fin.Basic
import Mathlib.Data.List.FinRange

set_option autoImplicit false

namespace System1.Mm

open List

def MM_MB2_BOOTLOADER_MAGIC : Nat := 0x36D76289
def MM_FLOPPY_MAGIC : Nat := 0x53314D47
def MM_PAGE_SIZE : Nat := 4096
def MM_LOW_MEMORY_LIMIT : Nat := 0x00100000
def MM_MAX_PAGES : Nat := 0x04000000 / MM_PAGE_SIZE
def PAGING_IDENTITY_LIMIT : Nat := 0x04000000

abbrev PageIx : Type := Fin MM_MAX_PAGES

/-- The two targets. -/
inductive Arch where
  | i386
  | x86_64
  deriving DecidableEq, Repr

/-- `sizeof(uintptr_t)`. -/
def Arch.ptrSize : Arch → Nat
  | .i386 => 4
  | .x86_64 => 8

/-- Truncation to `uintptr_t`. -/
def Arch.uptr (W : Arch) (n : Nat) : Nat := n % 2 ^ (8 * W.ptrSize)

/-- `sizeof(heap_block_t)`: a 32-bit size, a flag with its padding and two pointers. -/
def Arch.header (W : Arch) : Nat := 8 + 2 * W.ptrSize

/-- `heap_block_t`. -/
structure HeapBlock where
  size : Nat
  free : Bool
  next : Nat
  prev : Nat
  deriving DecidableEq, Repr

def HeapBlock.zero : HeapBlock := ⟨0, false, 0, 0⟩

structure State where
  g_page_used : PageIx → Bool
  g_total_pages : Nat
  g_used_pages : Nat
  g_initialized : Bool
  g_heap_head : Nat
  g_heap_tail : Nat
  g_heap_total_bytes : Nat
  /-- The headers in memory, by address. After a request whose size has wrapped around, blocks
  can be smaller than a header and their headers overlap in memory; here every address has
  a header of its own, so from then on the states are not those of the code. -/
  mem : Nat → HeapBlock
  /-- The pages taken by `mm_grow_heap` so far. -/
  grown : List Nat

/-- Static memory before `mm_core_init`. -/
def State.zero (mem : Nat → HeapBlock) : State where
  g_page_used := fun _ => false
  g_total_pages := 0
  g_used_pages := 0
  g_initialized := false
  g_heap_head := 0
  g_heap_tail := 0
  g_heap_total_bytes := 0
  mem := mem
  grown := []

/-! ## Arithmetic -/

def mm_align_up_u32 (value align : Nat) : Nat := u32 (value + align - 1) &&& (2 ^ 32 - align)

def mm_align_down_u32 (value align : Nat) : Nat := value &&& (2 ^ 32 - align)

def mm_align_alloc_size (W : Arch) (size : Nat) : Nat := mm_align_up_u32 size W.ptrSize

def mm_mb2_align8 (value : Nat) : Nat := u32 (value + 7) &&& (2 ^ 32 - 8)

/-! ## Pages -/

def mm_clear_pages (s : State) : State :=
  { s with g_page_used := fun _ => true, g_total_pages := 0, g_used_pages := MM_MAX_PAGES }

def mm_set_page_used (s : State) (page : Nat) (used : Bool) : State :=
  if h : page < MM_MAX_PAGES then
    if s.g_page_used ⟨page, h⟩ = used then s
    else
      { s with
        g_page_used := Function.update s.g_page_used ⟨page, h⟩ used
        g_used_pages :=
          if used then u32 (s.g_used_pages + 1) else u32_sub s.g_used_pages 1 }
  else s

/-- The loop of the two functions below. Both ends are page aligned, so it makes one
round for each page between them. -/
def mm_mark_pages (s : State) (start stop : Nat) (used : Bool) : State :=
  (range ((stop - start) / MM_PAGE_SIZE)).foldl
    (fun s i => mm_set_page_used s ((start + i * MM_PAGE_SIZE) / MM_PAGE_SIZE) used) s

def mm_mark_range_free (s : State) (start stop : Nat) : State :=
  if start ≥ PAGING_IDENTITY_LIMIT then s
  else
    let stop := if stop > PAGING_IDENTITY_LIMIT then PAGING_IDENTITY_LIMIT else stop
    let start := mm_align_up_u32 start MM_PAGE_SIZE
    let stop := mm_align_down_u32 stop MM_PAGE_SIZE
    if start ≥ stop then s else mm_mark_pages s start stop false

def mm_mark_range_used (s : State) (start stop : Nat) : State :=
  if start ≥ PAGING_IDENTITY_LIMIT then s
  else
    let stop := if stop > PAGING_IDENTITY_LIMIT then PAGING_IDENTITY_LIMIT else stop
    let start := mm_align_down_u32 start MM_PAGE_SIZE
    let stop := mm_align_up_u32 stop MM_PAGE_SIZE
    if start ≥ stop then s else mm_mark_pages s start stop true

/-- The number of pages is counted in a `uint32_t`. -/
def mm_count_total_pages (s : State) : State :=
  let unused := (finRange MM_MAX_PAGES).countP fun i => s.g_page_used i = false
  { s with g_total_pages := u32 (unused + s.g_used_pages) }

/-- The scan of `mm_alloc_pages`: the first run of `count` free pages. -/
def mm_alloc_pages_loop (s : State) (count : Nat) : List PageIx → Nat → Nat → Option Nat
  | [], _, _ => none
  | i :: is, run, start =>
    if s.g_page_used i = false then
      let start := if run = 0 then i.val else start
      if run + 1 = count then some start else mm_alloc_pages_loop s count is (run + 1) start
    else mm_alloc_pages_loop s count is 0 start

def mm_alloc_pages (s : State) (count : Nat) : Nat × State :=
  if count = 0 then (0, s)
  else
    match mm_alloc_pages_loop s count (finRange MM_MAX_PAGES) 0 0 with
    | none => (0, s)
    | some start =>
      (u32 (start * MM_PAGE_SIZE),
        (range count).foldl (fun s j => mm_set_page_used s (start + j) true) s)

def mm_free_pages (s : State) (ptr count : Nat) : State :=
  if ptr = 0 ∨ count = 0 ∨ ptr % MM_PAGE_SIZE ≠ 0 then s
  else
    let page := u32 (ptr / MM_PAGE_SIZE)
    (range count).foldl
      (fun s i => if page + i < MM_MAX_PAGES then mm_set_page_used s (page + i) false else s) s

/-! ## Boot -/

/-- What `mm_core_init` finds: the extent of the kernel, whether paging is on, and the
32-bit words of memory, where the boot loader has left its information. -/
structure Boot where
  arch : Arch
  paging_is_enabled : Bool
  kernel_start : Nat
  kernel_end : Nat
  word : Nat → Nat

/-- A 64-bit load. -/
def Boot.word64 (B : Boot) (addr : Nat) : Nat := B.word addr + 2 ^ 32 * B.word (addr + 4)

/-- The memory map entries of one tag: usable ranges below 4 GiB are marked free. -/
def mm_mark_mb2_entries (B : Boot) (entry_size mmap_end : Nat) :
    Nat → Nat → State → Option State
  | 0, _, _ => none
  | fuel + 1, entry_ptr, s =>
    if B.arch.uptr (entry_ptr + 24) ≤ mmap_end then
      let addr := B.word64 entry_ptr
      let s :=
        if B.word (entry_ptr + 16) = 1 ∧ addr < 0x100000000 then
          let end64 := (addr + B.word64 (entry_ptr + 8)) % 2 ^ 64
          let end64 := if end64 > 0x100000000 then 0x100000000 else end64
          mm_mark_range_free s (u32 addr) (u32 end64)
        else s
      mm_mark_mb2_entries B entry_size mmap_end fuel (B.arch.uptr (entry_ptr + entry_size)) s
    else some s

/-- The tags from `tag` on. -/
def mm_mark_mb2_tags (B : Boot) (stop : Nat) : Nat → Nat → State → Option State
  | 0, _, _ => none
  | fuel + 1, tag, s =>
    if tag < stop then
      let type := B.word tag
      let size := B.word (tag + 4)
      if type = 0 ∨ size < 8 then some s
      else if type = 6 then
        if B.word (tag + 8) < 24 then some s
        else
          match mm_mark_mb2_entries B (B.word (tag + 8)) (B.arch.uptr (tag + size)) fuel
              (B.arch.uptr (tag + 16)) s with
          | none => none
          | some s => mm_mark_mb2_tags B stop fuel (B.arch.uptr (tag + mm_mb2_align8 size)) s
      else mm_mark_mb2_tags B stop fuel (B.arch.uptr (tag + mm_mb2_align8 size)) s
    else some s

def mm_mark_mb2_usable (B : Boot) (fuel : Nat) (s : State) (boot_info_ptr : Nat) : Option State :=
  mm_mark_mb2_tags B (B.arch.uptr (boot_info_ptr + B.word boot_info_ptr)) fuel
    (B.arch.uptr (boot_info_ptr + 8)) s

/-- The module tags from `tag` on: what the boot loader has loaded is marked used. -/
def mm_reserve_mb2_tags (B : Boot) (stop : Nat) : Nat → Nat → State → Option State
  | 0, _, _ => none
  | fuel + 1, tag, s =>
    if tag < stop then
      let type := B.word tag
      let size := B.word (tag + 4)
      if type = 0 ∨ size < 8 then some s
      else
        let mod_start := B.word (tag + 8)
        let mod_end := B.word (tag + 12)
        let s :=
          if type = 3 ∧ size ≥ 16 ∧ mod_end > mod_start then
            mm_mark_range_used s mod_start mod_end
          else s
        mm_reserve_mb2_tags B stop fuel (B.arch.uptr (tag + mm_mb2_align8 size)) s
    else some s

def mm_reserve_mb2_regions (B : Boot) (fuel : Nat) (s : State) (boot_info_ptr : Nat) :
    Option State :=
  let s := mm_mark_range_used s boot_info_ptr (u32 (boot_info_ptr + B.word boot_info_ptr))
  mm_reserve_mb2_tags B (B.arch.uptr (boot_info_ptr + B.word boot_info_ptr)) fuel
    (B.arch.uptr (boot_info_ptr + 8)) s

def mm_reserve_common (B : Boot) (fuel : Nat) (s : State) (boot_magic boot_info_ptr : Nat) :
    Option State :=
  let s := mm_mark_range_used s 0 MM_LOW_MEMORY_LIMIT
  let s := mm_mark_range_used s (u32 B.kernel_start) (u32 B.kernel_end)
  if boot_magic = MM_MB2_BOOTLOADER_MAGIC ∧ boot_info_ptr ≠ 0 then
    mm_reserve_mb2_regions B fuel s boot_info_ptr
  else if boot_magic = MM_FLOPPY_MAGIC ∧ boot_info_ptr ≠ 0 then
    some (mm_mark_range_used s boot_info_ptr (u32 (boot_info_ptr + MM_PAGE_SIZE)))
  else some s

/-- The return code and the state; `none` when the boot information makes a loop run out
of fuel. -/
def mm_core_init (B : Boot) (fuel : Nat) (s : State) (boot_magic boot_info_ptr : Nat) :
    Option (Int × State) :=
  if s.g_initialized then some (0, s)
  else if B.paging_is_enabled = false ∨ PAGING_IDENTITY_LIMIT < MM_PAGE_SIZE then some (-1, s)
  else
    let s := mm_clear_pages s
    let usable :=
      if boot_magic = MM_MB2_BOOTLOADER_MAGIC ∧ boot_info_ptr ≠ 0 then
        mm_mark_mb2_usable B fuel s boot_info_ptr
      else some (mm_mark_range_free s MM_LOW_MEMORY_LIMIT PAGING_IDENTITY_LIMIT)
    match usable with
    | none => none
    | some s =>
      match mm_reserve_common B fuel s boot_magic boot_info_ptr with
      | none => none
      | some s =>
        some (0, { mm_count_total_pages s with
          g_heap_head := 0, g_heap_tail := 0, g_heap_total_bytes := 0, g_initialized := true })

/-! ## Blocks -/

section

variable (W : Arch)

/-- Store a header. -/
def State.store (s : State) (block : Nat) (b : HeapBlock) : State :=
  { s with mem := Function.update s.mem block b }

/-- `if (block != 0) block->prev = value; else g_heap_tail = value;` -/
def State.setPrev (s : State) (block value : Nat) : State :=
  if block ≠ 0 then s.store block { s.mem block with prev := value }
  else { s with g_heap_tail := value }

/-- `if (block != 0) block->next = value; else g_heap_head = value;` -/
def State.setNext (s : State) (block value : Nat) : State :=
  if block ≠ 0 then s.store block { s.mem block with next := value }
  else { s with g_heap_head := value }

/-- The first free block of at least `size` bytes, from `block` on; 0 when there is
none. -/
def mm_find_free_block (s : State) (size : Nat) : Nat → Nat → Option Nat
  | 0, _ => none
  | fuel + 1, block =>
    if block = 0 then some 0
    else if (s.mem block).free = true ∧ (s.mem block).size ≥ size then some block
    else mm_find_free_block s size fuel (s.mem block).next

def mm_split_block (s : State) (block size : Nat) : State :=
  let min_split := W.header + W.ptrSize
  if block = 0 ∨ (s.mem block).size < u32 (size + min_split) then s
  else
    let split := W.uptr (block + W.header + size)
    let s := s.store split
      ⟨u32_sub (u32_sub (s.mem block).size size) W.header, true, (s.mem block).next, block⟩
    let s := s.setPrev (s.mem split).next split
    s.store block { s.mem block with size := size, next := split }

def mm_blocks_adjacent (s : State) (left right : Nat) : Bool :=
  left ≠ 0 ∧ right ≠ 0 ∧ W.uptr (left + W.header + (s.mem left).size) = right

/-- The first half of `mm_coalesce_block`: the next block is absorbed when it is free and
lies next to this one. -/
def mm_absorb_next (s : State) (block : Nat) : State :=
  let next := (s.mem block).next
  if next ≠ 0 ∧ (s.mem next).free = true ∧ mm_blocks_adjacent W s block next = true then
    let s := s.store block { s.mem block with
      size := u32 ((s.mem block).size + W.header + (s.mem next).size)
      next := (s.mem next).next }
    s.setPrev (s.mem block).next block
  else s

def mm_coalesce_block : Nat → State → Nat → Option State
  | 0, _, _ => none
  | fuel + 1, s, block =>
    if block = 0 then some s
    else
      let s := mm_absorb_next W s block
      let prev := (s.mem block).prev
      if prev ≠ 0 ∧ (s.mem prev).free = true ∧ mm_blocks_adjacent W s prev block = true then
        mm_coalesce_block fuel s prev
      else some s

/-- The middle part of `mm_grow_heap`: the new block is written and linked in after the
last one. -/
def mm_append_block (s : State) (block pages : Nat) : State :=
  let s := { s with grown := s.grown ++ (range pages).map (block / MM_PAGE_SIZE + ·) }
  let s := s.store block
    ⟨u32_sub (u32 (pages * MM_PAGE_SIZE)) W.header, true, 0, s.g_heap_tail⟩
  let s := s.setNext s.g_heap_tail block
  { s with
    g_heap_tail := block
    g_heap_total_bytes := u32 (s.g_heap_total_bytes + u32 (pages * MM_PAGE_SIZE)) }

/-- The last part: when the block before the new one is free and lies next to it, the two
are joined, and the result is the `prev` of the header that was absorbed. -/
def mm_join_appended (fuel : Nat) (s : State) (block : Nat) : Option (Nat × State) :=
  let prev := (s.mem block).prev
  if prev ≠ 0 ∧ (s.mem prev).free = true ∧ mm_blocks_adjacent W s prev block = true then
    match mm_coalesce_block W fuel s prev with
    | none => none
    | some s => some ((s.mem block).prev, s)
  else some (block, s)

def mm_grow_heap (fuel : Nat) (s : State) (size : Nat) : Option (Nat × State) :=
  let total := u32 (size + W.header)
  let pages := u32 (total + MM_PAGE_SIZE - 1) / MM_PAGE_SIZE
  match mm_alloc_pages s pages with
  | (block, s) =>
    if block = 0 then some (0, s)
    else mm_join_appended W fuel (mm_append_block W s block pages) block

/-- Fuel for the walks over the block list: there are fewer blocks than bytes. -/
def HEAP_FUEL : Nat := 0x04000000

/-- `block = mm_find_free_block(size); if (block == 0) block = mm_grow_heap(size);` -/
def mm_find_or_grow (s : State) (size : Nat) : Option (Nat × State) :=
  match mm_find_free_block s size HEAP_FUEL s.g_heap_head with
  | none => none
  | some block => if block = 0 then mm_grow_heap W HEAP_FUEL s size else some (block, s)

def kmalloc_core (s : State) (size : Nat) : Option (Nat × State) :=
  if s.g_initialized = false ∨ size = 0 then some (0, s)
  else
    let size := mm_align_alloc_size W size
    match mm_find_or_grow W s size with
    | none => none
    | some (block, s) =>
      if block = 0 then some (0, s)
      else
        let s := mm_split_block W s block size
        some (W.uptr (block + W.header), s.store block { s.mem block with free := false })

def kfree_core (s : State) (ptr : Nat) : Option State :=
  if ptr = 0 then some s
  else
    let block := W.uptr (ptr + 2 ^ (8 * W.ptrSize) - W.header)
    mm_coalesce_block W HEAP_FUEL (s.store block { s.mem block with free := true }) block

def mm_core_alloc_page (s : State) : Nat × State :=
  if s.g_initialized = false then (0, s) else mm_alloc_pages s 1

def mm_core_free_page (s : State) (page : Nat) : State :=
  if s.g_initialized = false then s else mm_free_pages s page 1

end

end System1.Mm
