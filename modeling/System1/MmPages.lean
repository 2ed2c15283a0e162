/-
The page allocator and the start of the memory manager.

`g_used_pages` counts the pages that are marked used. Every function that marks pages goes
through `mm_set_page_used`, so one lemma about it gives the count for all of them, whatever
ranges the boot information asks for. Page 0 is reserved at the start and never handed out
afterwards, which is why 0 can stand for failure.
-/
import System1.Mm
import Mathlib.Data.Fintype.Card
import Mathlib.Data.Finset.Card

set_option autoImplicit false

namespace System1.Mm

open List Function

/-- The page is marked used. -/
def State.Used (s : State) (page : Nat) : Prop :=
  ∃ h : page < MM_MAX_PAGES, s.g_page_used ⟨page, h⟩ = true

/-- The page is there and is not marked used. -/
def State.Unused (s : State) (page : Nat) : Prop :=
  ∃ h : page < MM_MAX_PAGES, s.g_page_used ⟨page, h⟩ = false

/-- The number of pages that are marked used. -/
def usedPages (s : State) : Nat := (Finset.univ.filter fun i => s.g_page_used i = true).card

/-- The counter of used pages is right. -/
def Counted (s : State) : Prop := s.g_used_pages = usedPages s

/-- Only pages and counters of pages change. -/
structure SameHeap (s s' : State) : Prop where
  g_initialized : s'.g_initialized = s.g_initialized
  g_heap_head : s'.g_heap_head = s.g_heap_head
  g_heap_tail : s'.g_heap_tail = s.g_heap_tail
  g_heap_total_bytes : s'.g_heap_total_bytes = s.g_heap_total_bytes
  mem : s'.mem = s.mem
  grown : s'.grown = s.grown

theorem SameHeap.refl (s : State) : SameHeap s s := ⟨rfl, rfl, rfl, rfl, rfl, rfl⟩

variable {s s' s'' : State}

theorem SameHeap.trans (h : SameHeap s s') (h' : SameHeap s' s'') :
    SameHeap s s'' :=
  ⟨h'.g_initialized.trans h.g_initialized, h'.g_heap_head.trans h.g_heap_head,
    h'.g_heap_tail.trans h.g_heap_tail, h'.g_heap_total_bytes.trans h.g_heap_total_bytes,
    h'.mem.trans h.mem, h'.grown.trans h.grown⟩

/-- The pages of a list are marked, and the count follows. -/
structure Marked (s s' : State) (pages : List Nat) (used : Bool) : Prop where
  flags : ∀ i : PageIx, s'.g_page_used i = if i.val ∈ pages then used else s.g_page_used i
  counted : Counted s → Counted s'
  rest : SameHeap s s'

theorem Marked.nil (s : State) (used : Bool) : Marked s s [] used :=
  ⟨fun _ => by simp, id, .refl s⟩

theorem Marked.cons {x : Nat} {xs : List Nat} {used : Bool} (h : Marked s s' [x] used)
    (h' : Marked s' s'' xs used) : Marked s s'' (x :: xs) used := by
  refine ⟨fun i => ?_, fun hc => h'.counted (h.counted hc), h.rest.trans h'.rest⟩
  rw [h'.flags, h.flags]
  by_cases hx : i.val ∈ xs
  · simp [hx]
  · simp [hx]

theorem usedPages_le (s : State) : usedPages s ≤ MM_MAX_PAGES := by
  have hle := Finset.card_filter_le (Finset.univ : Finset PageIx) fun i => s.g_page_used i = true
  rwa [Finset.card_univ, Fintype.card_fin] at hle

/-- One page more is in use. -/
theorem usedPages_mark_true (s : State) {page : PageIx} (h : ¬ s.g_page_used page = true)
    {n : Nat} :
    usedPages { s with g_page_used := update s.g_page_used page true, g_used_pages := n } =
      usedPages s + 1 := by
  unfold usedPages
  rw [← Finset.card_insert_of_notMem (a := page) (by simpa using h)]
  refine congrArg Finset.card ?_
  ext i
  by_cases hi : i = page
  · simp [hi]
  · simp [hi]

/-- One page less is. -/
theorem usedPages_mark_false (s : State) {page : PageIx} (h : ¬ s.g_page_used page = false)
    {n : Nat} :
    0 < usedPages s ∧
    usedPages { s with g_page_used := update s.g_page_used page false, g_used_pages := n } =
      usedPages s - 1 := by
  have hin : page ∈ Finset.univ.filter fun i => s.g_page_used i = true := by simpa using h
  unfold usedPages
  refine ⟨Finset.card_pos.mpr ⟨_, hin⟩, ?_⟩
  rw [← Finset.card_erase_of_mem hin]
  refine congrArg Finset.card ?_
  ext i
  by_cases hi : i = page
  · simp [hi]
  · simp [hi]

/-- The flag and the count change together. -/
theorem mm_set_page_used_marked (s : State) (page : Nat) (used : Bool) :
    Marked s (mm_set_page_used s page used) [page] used := by
  unfold mm_set_page_used
  by_cases hpage : page < MM_MAX_PAGES
  · rw [dif_pos hpage]
    split
    · next hsame =>
      refine ⟨fun i => ?_, id, .refl s⟩
      grind
    next hsame =>
    refine ⟨fun i => ?_, fun hc => ?_, ⟨rfl, rfl, rfl, rfl, rfl, rfl⟩⟩
    · grind
    · -- the set of used pages gains or loses exactly this one
      have hle := usedPages_le s
      have hmax : MM_MAX_PAGES < 2 ^ 32 - 1 := by decide
      unfold Counted at hc ⊢
      grind [usedPages_mark_true, u32_of_lt, usedPages_mark_false, u32_sub_of_le]
  · rw [dif_neg hpage]
    refine ⟨fun i => ?_, id, .refl s⟩
    grind

theorem foldl_marked {α : Type} (f : α → Nat) (used : Bool) (xs : List α) (s : State) :
    Marked s (xs.foldl (fun s x => mm_set_page_used s (f x) used) s) (xs.map f) used := by
  induction xs generalizing s with
  | nil => exact .nil s used
  | cons x xs ih => exact (mm_set_page_used_marked s (f x) used).cons (ih _)

/-! ## Allocating -/

/-- The scan, in the middle: `run` pages before page `k` are free, and the scan goes on
from `k`. A hit is a run of `count` free pages. -/
theorem mm_alloc_pages_loop_spec {count : Nat} (is : List PageIx) (k n run start : Nat)
    (his : is.map Fin.val = range' k n) (hrun : run < count)
    (hfree : run = 0 ∨ (start + run = k ∧ ∀ j < run, s.Unused (start + j))) {st : Nat}
    (h : mm_alloc_pages_loop s count is run start = some st) :
    ∀ j < count, s.Unused (st + j) := by
  induction is generalizing k n run start with
  | nil => cases h
  | cons i is ih =>
    obtain ⟨n, rfl⟩ : ∃ m, n = m + 1 := by
      cases n with
      | zero => cases his
      | succ n => exact ⟨n, rfl⟩
    rw [map_cons, range'_succ] at his
    obtain ⟨hi, his⟩ := cons_eq_cons.mp his
    unfold mm_alloc_pages_loop at h
    by_cases hused : s.g_page_used i = false
    · rw [if_pos hused] at h
      dsimp only at h
      -- the run now ends with this page
      have hfree' : (if run = 0 then i.val else start) + (run + 1) = k + 1 ∧
          ∀ j < run + 1, s.Unused ((if run = 0 then i.val else start) + j) := by
        by_cases hzero : run = 0
        · rw [if_pos hzero, hi, hzero]
          refine ⟨rfl, fun j hj => ?_⟩
          rw [show j = 0 by omega, Nat.add_zero, ← hi]
          exact ⟨i.isLt, hused⟩
        obtain ⟨hk, hrest⟩ := hfree.resolve_left hzero
        rw [if_neg hzero]
        refine ⟨by omega, fun j hj => ?_⟩
        by_cases hlast : j = run
        · rw [hlast, hk, ← hi]
          exact ⟨i.isLt, hused⟩
        · exact hrest j (by omega)
      by_cases hdone : run + 1 = count
      · rw [if_pos hdone] at h
        cases h
        rw [← hdone]
        exact hfree'.2
      · grind
    · grind

/-- The scan for one page passes the pages in use. -/
theorem mm_alloc_pages_loop_first {n : Nat} (hused : ∀ page < n, s.Used page)
    (hfree : s.Unused n) (is : List PageIx) (k m start : Nat) (his : is.map Fin.val = range' k m)
    (hk : k ≤ n) (hn : n < k + m) : mm_alloc_pages_loop s 1 is 0 start = some n := by
  induction is generalizing k m start with
  | nil =>
    have hlen := congrArg length his
    simp at hlen
    omega
  | cons i is ih =>
    obtain ⟨m, rfl⟩ : ∃ m', m = m' + 1 := ⟨m - 1, by omega⟩
    rw [map_cons, range'_succ] at his
    obtain ⟨rfl, his⟩ := cons_eq_cons.mp his
    unfold mm_alloc_pages_loop
    by_cases hi : i.val = n
    · obtain ⟨_, hun⟩ := hfree
      subst hi
      simp [hun]
    · obtain ⟨_, hin⟩ := hused i.val (by omega)
      rw [if_neg (by simp [hin])]
      exact ih _ _ _ his (by omega) (by omega)

/-- One page: the first that is not in use. -/
theorem mm_alloc_pages_first {n : Nat} (hused : ∀ page < n, s.Used page) (hfree : s.Unused n) :
    mm_alloc_pages s 1 = (n * MM_PAGE_SIZE, mm_set_page_used s n true) := by
  have hlt : n < 0x4000 := hfree.1
  unfold mm_alloc_pages
  rw [if_neg (by decide), mm_alloc_pages_loop_first hused hfree (finRange MM_MAX_PAGES) 0
    MM_MAX_PAGES 0 (by rw [map_coe_finRange_eq_range, range_eq_range']) (by omega)
    (by have := hfree.1; omega)]
  dsimp only
  rw [u32_of_lt (by unfold MM_PAGE_SIZE; omega)]
  rfl

/-- An allocation fails and changes nothing, or marks a run of pages that were unused.
With page 0 in use the two can be told apart by the result. -/
theorem mm_alloc_pages_spec (h0 : s.Used 0) (count : Nat) :
    mm_alloc_pages s count = (0, s) ∨
    ∃ start s', mm_alloc_pages s count = (start * MM_PAGE_SIZE, s') ∧ start ≠ 0 ∧ 0 < count ∧
      start + count ≤ MM_MAX_PAGES ∧ (∀ j < count, s.Unused (start + j)) ∧
      Marked s s' ((range count).map (start + ·)) true := by
  unfold mm_alloc_pages
  split
  · exact .inl rfl
  next =>
  cases hloop : mm_alloc_pages_loop s count (finRange MM_MAX_PAGES) 0 0 with
  | none => exact .inl rfl
  | some start =>
    have hfree := mm_alloc_pages_loop_spec (finRange MM_MAX_PAGES) 0 MM_MAX_PAGES 0 0
      (by rw [map_coe_finRange_eq_range, range_eq_range']) (by omega) (.inl rfl) hloop
    obtain ⟨hlt, hun⟩ := hfree 0 (by omega)
    have hend := (hfree (count - 1) (by omega)).1
    have hmax : MM_MAX_PAGES * MM_PAGE_SIZE < 2 ^ 32 := by decide
    refine .inr ⟨start, _, ?_, ?_, by omega, by omega, hfree, foldl_marked (start + ·) true _ s⟩
    · dsimp only
      rw [u32_of_lt]
      refine Nat.lt_of_le_of_lt (Nat.mul_le_mul_right _ ?_) hmax
      omega
    · rintro rfl
      obtain ⟨hlt0, hused0⟩ := h0
      grind

/-- Freeing a page clears its flag. -/
theorem mm_free_pages_marked {page : Nat} (hpage : page ≠ 0) (hlt : page < MM_MAX_PAGES) :
    Marked s (mm_free_pages s (page * MM_PAGE_SIZE) 1) [page] false := by
  have hmax : MM_MAX_PAGES < 2 ^ 32 := by decide
  unfold mm_free_pages
  have hptr : ¬ (page * MM_PAGE_SIZE = 0 ∨ 1 = 0 ∨ page * MM_PAGE_SIZE % MM_PAGE_SIZE ≠ 0) := by
    unfold MM_PAGE_SIZE
    omega
  rw [if_neg hptr]
  rw [Nat.mul_div_cancel _ (by decide), u32_of_lt (by omega)]
  simp only [range_one, foldl_cons, foldl_nil, Nat.add_zero, if_pos hlt]
  exact mm_set_page_used_marked s page false

/-! ## Starting -/

/-- Marking in any way keeps the count and the heap; marking used keeps what is used. -/
structure Kept (s s' : State) : Prop where
  counted : Counted s → Counted s'
  rest : SameHeap s s'

theorem Kept.refl (s : State) : Kept s s := ⟨id, .refl s⟩

theorem Kept.trans (h : Kept s s') (h' : Kept s' s'') : Kept s s'' :=
  ⟨fun hc => h'.counted (h.counted hc), h.rest.trans h'.rest⟩

theorem Marked.kept {pages : List Nat} {used : Bool} (h : Marked s s' pages used) :
    Kept s s' := ⟨h.counted, h.rest⟩

/-- Marking pages used frees none. -/
theorem Marked.used {pages : List Nat} (h : Marked s s' pages true) {page : Nat}
    (hu : s.Used page) :
    s'.Used page := by
  obtain ⟨hlt, hused⟩ := hu
  refine ⟨hlt, ?_⟩
  rw [h.flags]
  split
  · rfl
  · exact hused

theorem mm_mark_pages_marked (s : State) (start stop : Nat) (used : Bool) :
    ∃ pages, Marked s (mm_mark_pages s start stop used) pages used :=
  ⟨_, foldl_marked (fun i => (start + i * MM_PAGE_SIZE) / MM_PAGE_SIZE) used _ s⟩

/-- The loop over the pages between two aligned addresses. -/
theorem mark_pages_flags (s : State) (first last : Nat) (used : Bool) (i : PageIx) :
    (mm_mark_pages s (first * MM_PAGE_SIZE) (last * MM_PAGE_SIZE) used).g_page_used i =
      if first ≤ i.val ∧ i.val < last then used else s.g_page_used i := by
  have hm := foldl_marked (fun i => (first * MM_PAGE_SIZE + i * MM_PAGE_SIZE) / MM_PAGE_SIZE) used
    (range ((last * MM_PAGE_SIZE - first * MM_PAGE_SIZE) / MM_PAGE_SIZE)) s
  have hmem : i.val ∈ (range ((last * MM_PAGE_SIZE - first * MM_PAGE_SIZE) / MM_PAGE_SIZE)).map
      (fun i => (first * MM_PAGE_SIZE + i * MM_PAGE_SIZE) / MM_PAGE_SIZE) ↔
      first ≤ i.val ∧ i.val < last := by
    simp only [mem_map, mem_range, MM_PAGE_SIZE]
    constructor
    · rintro ⟨k, hk, hi⟩
      omega
    · rintro ⟨hlow, hhigh⟩
      exact ⟨i.val - first, by omega, by omega⟩
  unfold mm_mark_pages
  rw [hm.flags]
  exact if_congr hmem rfl rfl

/-- Freeing a range marks a list of pages free and touches no other flag. -/
theorem mm_mark_range_free_marked (s : State) (start stop : Nat) :
    ∃ pages, Marked s (mm_mark_range_free s start stop) pages false := by
  unfold mm_mark_range_free
  dsimp only
  split
  · exact ⟨[], .nil s false⟩
  generalize mm_align_down_u32 _ MM_PAGE_SIZE = stop
  split
  · exact ⟨[], .nil s false⟩
  · exact mm_mark_pages_marked s _ _ false

/-- Reserving a range marks a list of pages used and touches no other flag. -/
theorem mm_mark_range_used_marked (s : State) (start stop : Nat) :
    ∃ pages, Marked s (mm_mark_range_used s start stop) pages true := by
  unfold mm_mark_range_used
  dsimp only
  split
  · exact ⟨[], .nil s true⟩
  generalize mm_align_up_u32 _ MM_PAGE_SIZE = stop
  split
  · exact ⟨[], .nil s true⟩
  · exact mm_mark_pages_marked s _ _ true

/-- The memory map only marks pages, -/
theorem mm_mark_mb2_entries_kept (B : Boot) (entry_size mmap_end : Nat) :
    ∀ (fuel entry_ptr : Nat) (s s' : State),
      mm_mark_mb2_entries B entry_size mmap_end fuel entry_ptr s = some s' → Kept s s' := by
  intro fuel
  induction fuel with
  | zero =>
    intro entry_ptr s s' h
    cases h
  | succ fuel ih =>
    intro entry_ptr s s' h
    unfold mm_mark_mb2_entries at h
    dsimp only at h
    split at h
    · refine Kept.trans ?_ (ih _ _ s' h)
      split
      · exact (mm_mark_range_free_marked s _ _).choose_spec.kept
      · exact .refl s
    · cases h
      exact .refl s

/-- whatever the tags are. -/
theorem mm_mark_mb2_tags_kept (B : Boot) (stop : Nat) :
    ∀ (fuel tag : Nat) (s s' : State), mm_mark_mb2_tags B stop fuel tag s = some s' →
      Kept s s' := by
  intro fuel
  induction fuel with
  | zero =>
    intro tag s s' h
    cases h
  | succ fuel ih =>
    intro tag s s' h
    unfold mm_mark_mb2_tags at h
    dsimp only at h
    split at h
    · split at h
      · cases h
        exact .refl s
      split at h
      · split at h
        · cases h
          exact .refl s
        split at h
        · cases h
        · next s1 hs1 => exact (mm_mark_mb2_entries_kept B _ _ _ _ _ _ hs1).trans (ih _ _ _ h)
      · exact ih _ _ _ h
    · cases h
      exact .refl s

/-- Reserving the modules frees no page. -/
theorem mm_reserve_mb2_tags_marked (B : Boot) (stop : Nat) :
    ∀ (fuel tag : Nat) (s s' : State), mm_reserve_mb2_tags B stop fuel tag s = some s' →
      Kept s s' ∧ (s.Used 0 → s'.Used 0) := by
  intro fuel
  induction fuel with
  | zero =>
    intro tag s s' h
    cases h
  | succ fuel ih =>
    intro tag s s' h
    unfold mm_reserve_mb2_tags at h
    dsimp only at h
    split at h
    · split at h
      · cases h
        exact ⟨.refl s, id⟩
      obtain ⟨hk, hu⟩ := ih _ _ _ h
      split at hk
      · next hmod =>
        rw [if_pos hmod] at hu
        obtain ⟨pages, hm⟩ := mm_mark_range_used_marked s (B.word (tag + 8)) (B.word (tag + 12))
        exact ⟨hm.kept.trans hk, fun h0 => hu (hm.used h0)⟩
      · next hmod =>
        rw [if_neg hmod] at hu
        exact ⟨hk, hu⟩
    · cases h
      exact ⟨.refl s, id⟩

/-- The low megabyte is reserved, so page 0 is used. -/
theorem mm_reserve_common_spec (B : Boot) (fuel : Nat) {boot_magic boot_info_ptr : Nat}
    (h : mm_reserve_common B fuel s boot_magic boot_info_ptr = some s') :
    Kept s s' ∧ s'.Used 0 := by
  have hlow : mm_mark_range_used s 0 MM_LOW_MEMORY_LIMIT =
      mm_mark_pages s 0 MM_LOW_MEMORY_LIMIT true := rfl
  have hm := foldl_marked (fun i => (0 + i * MM_PAGE_SIZE) / MM_PAGE_SIZE) true
    (range ((MM_LOW_MEMORY_LIMIT - 0) / MM_PAGE_SIZE)) s
  unfold mm_reserve_common at h
  dsimp only at h
  rw [hlow] at h
  change Marked s (mm_mark_pages s 0 MM_LOW_MEMORY_LIMIT true) _ true at hm
  generalize mm_mark_pages s 0 MM_LOW_MEMORY_LIMIT true = s1 at h hm
  have hu1 : s1.Used 0 := by
    refine ⟨by decide, ?_⟩
    rw [hm.flags, if_pos]
    exact mem_map.mpr ⟨0, by decide, by decide⟩
  obtain ⟨pages2, hm2⟩ := mm_mark_range_used_marked s1 (u32 B.kernel_start) (u32 B.kernel_end)
  generalize mm_mark_range_used s1 (u32 B.kernel_start) (u32 B.kernel_end) = s2 at h hm2
  have hk2 : Kept s s2 := hm.kept.trans hm2.kept
  have hu2 := hm2.used hu1
  split at h
  · unfold mm_reserve_mb2_regions at h
    dsimp only at h
    obtain ⟨pages3, hm3⟩ := mm_mark_range_used_marked s2 boot_info_ptr
      (u32 (boot_info_ptr + B.word boot_info_ptr))
    obtain ⟨hk, hu⟩ := mm_reserve_mb2_tags_marked B _ _ _ _ _ h
    exact ⟨hk2.trans (hm3.kept.trans hk), hu (hm3.used hu2)⟩
  split at h
  · cases h
    obtain ⟨pages3, hm3⟩ := mm_mark_range_used_marked s2 boot_info_ptr
      (u32 (boot_info_ptr + MM_PAGE_SIZE))
    exact ⟨hk2.trans hm3.kept, hm3.used hu2⟩
  · cases h
    exact ⟨hk2, hu2⟩

/-- What `mm_core_init` leaves: a right count, an empty heap and, after a success, page 0
in use. -/
structure Started (s : State) : Prop where
  counted : Counted s
  g_heap_head : s.g_heap_head = 0
  g_heap_tail : s.g_heap_tail = 0
  g_heap_total_bytes : s.g_heap_total_bytes = 0
  grown : s.grown = []
  zero : s.g_initialized = true → s.Used 0

/-- A start that succeeds leaves an empty heap, page 0 in use and a right count. -/
theorem mm_core_init_spec {B : Boot} {fuel boot_magic boot_info_ptr : Nat} {mem : Nat → HeapBlock}
    {rc : Int} (h : mm_core_init B fuel (State.zero mem) boot_magic boot_info_ptr = some (rc, s)) :
    Started s := by
  have hclear : Counted (mm_clear_pages (State.zero mem)) := by
    unfold Counted usedPages mm_clear_pages
    simp
  have hzero : Counted (State.zero mem) := by
    unfold Counted usedPages State.zero
    simp
  unfold mm_core_init at h
  rw [if_neg (show ¬ (State.zero mem).g_initialized = true from Bool.false_ne_true)] at h
  split at h
  · cases h
    exact ⟨hzero, rfl, rfl, rfl, rfl, fun hi => by cases hi⟩
  dsimp only at h
  -- whatever is marked free, the count is right and the heap is empty
  generalize husable : (if boot_magic = MM_MB2_BOOTLOADER_MAGIC ∧ boot_info_ptr ≠ 0 then
    mm_mark_mb2_usable B fuel (mm_clear_pages (State.zero mem)) boot_info_ptr
    else some (mm_mark_range_free (mm_clear_pages (State.zero mem)) MM_LOW_MEMORY_LIMIT
      PAGING_IDENTITY_LIMIT)) = usable at h
  cases usable with
  | none => cases h
  | some s1 =>
  have hk1 : Kept (mm_clear_pages (State.zero mem)) s1 := by
    split at husable
    · grind [mm_mark_mb2_usable, mm_mark_mb2_tags_kept]
    · rw [← Option.some.inj husable]
      exact (mm_mark_range_free_marked _ _ _).choose_spec.kept
  dsimp only at h
  cases hres : mm_reserve_common B fuel s1 boot_magic boot_info_ptr with
  | none =>
    rw [hres] at h
    cases h
  | some s2 =>
    rw [hres] at h
    cases h
    obtain ⟨hk2, hu⟩ := mm_reserve_common_spec B fuel hres
    have hk := hk1.trans hk2
    exact ⟨hk.counted hclear, rfl, rfl, rfl, hk.rest.grown, fun _ => hu⟩

end System1.Mm
