/-
The page map that `mm_core_init` makes from Multiboot2 information.

The map should have exactly the pages free that the boot loader calls usable and that
nothing is in: first all pages are used, then the usable regions are marked free, shrunk to
whole pages, then what is occupied is marked used, grown to whole pages. The two
roundings are what makes the answer exact, and they are right.

The bounds of a region have 64 bits and are cut to 32. A region that ends at or above
4 GiB has its end cut to `0x100000000` first, and then to a `uint32_t`, which is 0. So such
a region is empty and none of its pages is marked free. `page_map_exact_iff` says when that
does not show, and `region_to_4GiB_lost` is a map with one region.

The boot information is what a loader leaves in memory: `Tags` describes it address by
address, and `WellFormed` puts it below 4 GiB, where pointers to it do not wrap.
-/
import System1.MmRuns

set_option autoImplicit false

namespace System1.Mm

open List

/-! ## Pages and ranges -/

/-- Some byte of the range is in the page. -/
def Meets (page start stop : Nat) : Prop := ∃ a, start ≤ a ∧ a < stop ∧ a / MM_PAGE_SIZE = page

/-- All bytes of the page are in the range. -/
def Inside (page start stop : Nat) : Prop := ∀ a, a / MM_PAGE_SIZE = page → start ≤ a ∧ a < stop

variable {page start : Nat}

/-- A page that a range meets, by its ends. -/
theorem meets_iff {stop : Nat} :
    Meets page start stop ↔
      start < stop ∧ page * MM_PAGE_SIZE < stop ∧ start < (page + 1) * MM_PAGE_SIZE := by
  unfold Meets MM_PAGE_SIZE
  constructor
  · rintro ⟨a, hstart, hstop, hpage⟩
    omega
  · rintro ⟨hne, hlow, hhigh⟩
    -- the first byte of the page or of the range, whichever comes later
    exact ⟨max (page * 4096) start, by omega, by omega, by omega⟩

/-- A page inside a range, by its ends. -/
theorem inside_iff {stop : Nat} :
    Inside page start stop ↔ start ≤ page * MM_PAGE_SIZE ∧ (page + 1) * MM_PAGE_SIZE ≤ stop := by
  unfold Inside MM_PAGE_SIZE
  constructor
  · intro h
    have hpage : (page * 4096 + 4095) / 4096 = page := by omega
    obtain ⟨hlow, -⟩ := h (page * 4096) (Nat.mul_div_cancel page (by decide))
    obtain ⟨-, hhigh⟩ := h (page * 4096 + 4095) hpage
    refine ⟨hlow, ?_⟩
    omega
  · rintro ⟨hlow, hhigh⟩ a ha
    omega

variable {value : Nat}

theorem align_down_eq (h : value < 2 ^ 32) :
    mm_align_down_u32 value MM_PAGE_SIZE = value / MM_PAGE_SIZE * MM_PAGE_SIZE := by
  have hmask := and_mask (x := value) (k := 12) h (by decide)
  grind [mm_align_down_u32, MM_PAGE_SIZE]

theorem align_up_eq (h : value ≤ PAGING_IDENTITY_LIMIT) :
    mm_align_up_u32 value MM_PAGE_SIZE = (value + 4095) / MM_PAGE_SIZE * MM_PAGE_SIZE := by
  unfold PAGING_IDENTITY_LIMIT at h
  have hmask := and_mask (x := value + 4095) (k := 12) (by omega) (by decide)
  grind [mm_align_up_u32, MM_PAGE_SIZE, u32_of_lt]

/-- Marking a range free frees the pages inside it. -/
theorem mark_range_free_unused (s : State) {stop : Nat} (hstop : stop < 2 ^ 32) (page : Nat) :
    (mm_mark_range_free s start stop).Unused page ↔
      s.Unused page ∨ page < MM_MAX_PAGES ∧ Inside page start stop := by
  have hlimit : PAGING_IDENTITY_LIMIT = MM_MAX_PAGES * MM_PAGE_SIZE := by decide
  have hnone : (page < MM_MAX_PAGES → ¬ Inside page start stop) →
      (s.Unused page ↔ s.Unused page ∨ page < MM_MAX_PAGES ∧ Inside page start stop) :=
    fun hno => (or_iff_left fun h => hno h.1 h.2).symm
  unfold mm_mark_range_free
  split
  next hhigh =>
    -- the range starts above every page
    apply hnone
    intro hlt hin
    have := (inside_iff.mp hin).1
    unfold MM_PAGE_SIZE at *
    omega
  next hlow =>
  have hcut : (if stop > PAGING_IDENTITY_LIMIT then PAGING_IDENTITY_LIMIT else stop) =
      min stop PAGING_IDENTITY_LIMIT := by
    split
    · omega
    · omega
  dsimp only
  rw [hcut, align_up_eq (by omega), align_down_eq (by omega)]
  have hinside : page < MM_MAX_PAGES → (Inside page start stop ↔
      (start + 4095) / MM_PAGE_SIZE ≤ page ∧
        page < min stop PAGING_IDENTITY_LIMIT / MM_PAGE_SIZE) := by
    intro hlt
    rw [inside_iff]
    unfold MM_PAGE_SIZE at *
    omega
  split
  next hempty =>
    apply hnone
    intro hlt hin
    have := (hinside hlt).mp hin
    unfold MM_PAGE_SIZE at *
    omega
  next =>
    constructor
    · rintro ⟨hlt, hflag⟩
      rw [mark_pages_flags] at hflag
      split at hflag
      next hin => exact .inr ⟨hlt, (hinside hlt).mpr hin⟩
      next => exact .inl ⟨hlt, hflag⟩
    · rintro (⟨hlt, hflag⟩ | ⟨hlt, hin⟩)
      · refine ⟨hlt, ?_⟩
        grind [mark_pages_flags]
      · refine ⟨hlt, ?_⟩
        rw [mark_pages_flags, if_pos ((hinside hlt).mp hin)]

/-- Marking a range used takes the pages that meet it. -/
theorem mark_range_used_unused (s : State) {stop : Nat} (hne : start < stop) (page : Nat) :
    (mm_mark_range_used s start stop).Unused page ↔ s.Unused page ∧ ¬ Meets page start stop := by
  have hlimit : PAGING_IDENTITY_LIMIT = MM_MAX_PAGES * MM_PAGE_SIZE := by decide
  unfold mm_mark_range_used
  split
  next hhigh =>
    constructor
    · rintro ⟨hlt, hflag⟩
      refine ⟨⟨hlt, hflag⟩, fun hmeets => ?_⟩
      have := (meets_iff.mp hmeets).2.2
      unfold MM_PAGE_SIZE at *
      omega
    · exact fun h => h.1
  next hlow =>
  have hcut : (if stop > PAGING_IDENTITY_LIMIT then PAGING_IDENTITY_LIMIT else stop) =
      min stop PAGING_IDENTITY_LIMIT := by
    split
    · omega
    · omega
  have hsmall : start < 2 ^ 32 := Nat.lt_of_lt_of_le (Nat.lt_of_not_le hlow) (by decide)
  dsimp only
  rw [hcut, align_down_eq hsmall, align_up_eq (by omega)]
  have hmeets : page < MM_MAX_PAGES → (Meets page start stop ↔ start / MM_PAGE_SIZE ≤ page ∧
      page < (min stop PAGING_IDENTITY_LIMIT + 4095) / MM_PAGE_SIZE) := by
    intro hlt
    rw [meets_iff]
    unfold MM_PAGE_SIZE at *
    omega
  rw [if_neg (by unfold MM_PAGE_SIZE at *; omega)]
  constructor
  · rintro ⟨hlt, hflag⟩
    rw [mark_pages_flags] at hflag
    split at hflag
    · cases hflag
    next hout => exact ⟨⟨hlt, hflag⟩, fun hm => hout ((hmeets hlt).mp hm)⟩
  · rintro ⟨⟨hlt, hflag⟩, hout⟩
    refine ⟨hlt, ?_⟩
    grind [mark_pages_flags]

/-! ## Boot information -/

/-- `mm_mb2_mmap_entry_t`. -/
structure MapEntry where
  addr : Nat
  len : Nat
  type : Nat

/-- The entry at an address. -/
def Boot.entry (B : Boot) (p : Nat) : MapEntry := ⟨B.word64 p, B.word64 (p + 8), B.word (p + 16)⟩

/-- What a tag says. -/
inductive Tag where
  | mmap (entries : List MapEntry)
  | module (mod_start mod_end : Nat)
  | other

/-- The size of a tag, and where the next one starts. -/
def Boot.tagSize (B : Boot) (tag : Nat) : Nat := B.word (tag + 4)
def Boot.nextTag (B : Boot) (tag : Nat) : Nat := tag + (B.tagSize tag + 7) / 8 * 8

/-- The tags in memory from `tag` on, up to the end tag, which is before `stop`. -/
inductive Tags (B : Boot) (stop : Nat) : Nat → List Tag → Prop
  | finish {tag : Nat} : B.word tag = 0 → tag + 8 ≤ stop → Tags B stop tag []
  | mmap {tag n : Nat} {rest : List Tag} : B.word tag = 6 → 24 ≤ B.word (tag + 8) →
      B.tagSize tag = 16 + n * B.word (tag + 8) → Tags B stop (B.nextTag tag) rest →
      Tags B stop tag
        (.mmap ((range n).map fun k => B.entry (tag + 16 + k * B.word (tag + 8))) :: rest)
  | module {tag : Nat} {rest : List Tag} : B.word tag = 3 → 16 ≤ B.tagSize tag →
      Tags B stop (B.nextTag tag) rest →
      Tags B stop tag (.module (B.word (tag + 8)) (B.word (tag + 12)) :: rest)
  | other {tag : Nat} {rest : List Tag} : B.word tag ≠ 0 → B.word tag ≠ 3 → B.word tag ≠ 6 →
      8 ≤ B.tagSize tag → Tags B stop (B.nextTag tag) rest → Tags B stop tag (.other :: rest)

/-- The memory map of a tag. -/
def Tag.entries : Tag → List MapEntry
  | .mmap entries => entries
  | .module _ _ => []
  | .other => []

/-- The module of a tag. -/
def Tag.ranges : Tag → List (Nat × Nat)
  | .mmap _ => []
  | .module mod_start mod_end => [(mod_start, mod_end)]
  | .other => []

/-- The entries of all memory maps, and the ranges of all modules. -/
def mapEntries (tags : List Tag) : List MapEntry := tags.flatMap Tag.entries
def modules (tags : List Tag) : List (Nat × Nat) := tags.flatMap Tag.ranges

/-- Boot information at `ptr` with the given tags. It ends far enough below 4 GiB for a
pointer past an entry not to wrap, and its regions end in the 64-bit address space. -/
structure WellFormed (B : Boot) (ptr : Nat) (tags : List Tag) : Prop where
  words : ∀ a, B.word a < 2 ^ 32
  ptr_ne : ptr ≠ 0
  room : ptr + B.word ptr + 24 ≤ 2 ^ 32
  walk : Tags B (ptr + B.word ptr) (ptr + 8) tags
  regions : ∀ e ∈ mapEntries tags, e.addr + e.len ≤ 2 ^ 64
  kernel : B.kernel_start < B.kernel_end
  kernel_end : B.kernel_end < 2 ^ 32

/-! ## The page map -/

/-- The page is wholly inside a usable region. -/
def Usable (entries : List MapEntry) (page : Nat) : Prop :=
  ∃ e ∈ entries, e.type = 1 ∧ Inside page e.addr (e.addr + e.len)

/-- The page is wholly inside a usable region that ends below 4 GiB. -/
def UsableBelow (entries : List MapEntry) (page : Nat) : Prop :=
  ∃ e ∈ entries, e.type = 1 ∧ Inside page e.addr (e.addr + e.len) ∧ e.addr + e.len < 2 ^ 32

/-- The page meets the low megabyte, the kernel, the boot information or a module. -/
def Reserved (B : Boot) (ptr : Nat) (tags : List Tag) (page : Nat) : Prop :=
  Meets page 0 MM_LOW_MEMORY_LIMIT ∨ Meets page B.kernel_start B.kernel_end ∨
    Meets page ptr (ptr + B.word ptr) ∨ ∃ m ∈ modules tags, Meets page m.1 m.2

theorem usableBelow_append {l l' : List MapEntry} :
    UsableBelow (l ++ l') page ↔ UsableBelow l page ∨ UsableBelow l' page := by
  unfold UsableBelow
  simp only [mem_append, or_and_right, exists_or]

theorem usableBelow_cons {e : MapEntry} {l : List MapEntry} :
    UsableBelow (e :: l) page ↔
      (e.type = 1 ∧ Inside page e.addr (e.addr + e.len) ∧ e.addr + e.len < 2 ^ 32) ∨
        UsableBelow l page := by
  unfold UsableBelow
  simp

variable {tag : Nat} {tags : List Tag}

section Walk

variable {B : Boot} {stop : Nat}

theorem mb2_align8_eq (h : value + 7 < 2 ^ 32) :
    mm_mb2_align8 value = (value + 7) / 8 * 8 := by
  have hmask := and_mask (x := value + 7) (k := 3) h (by decide)
  grind [mm_mb2_align8, u32_of_lt]

/-- One entry of a memory map: the pages inside it are freed if it ends below 4 GiB. -/
theorem mark_entry_unused (s : State) (e : MapEntry) (hend : e.addr + e.len ≤ 2 ^ 64) (page : Nat) :
    (if e.type = 1 ∧ e.addr < 0x100000000 then
        mm_mark_range_free s (u32 e.addr)
          (u32 (if (e.addr + e.len) % 2 ^ 64 > 0x100000000 then 0x100000000
            else (e.addr + e.len) % 2 ^ 64))
      else s).Unused page ↔
      s.Unused page ∨ page < MM_MAX_PAGES ∧ e.type = 1 ∧ Inside page e.addr (e.addr + e.len) ∧
        e.addr + e.len < 2 ^ 32 := by
  have hnone : ¬ (e.type = 1 ∧ e.addr + e.len < 2 ^ 32) →
      (s.Unused page ↔ s.Unused page ∨ page < MM_MAX_PAGES ∧ e.type = 1 ∧
        Inside page e.addr (e.addr + e.len) ∧ e.addr + e.len < 2 ^ 32) :=
    fun hno => (or_iff_left fun h => hno ⟨h.2.1, h.2.2.2⟩).symm
  by_cases htype : e.type = 1 ∧ e.addr < 0x100000000
  swap
  · grind
  rw [if_pos htype]
  obtain ⟨h1, hlow⟩ := htype
  by_cases hbelow : e.addr + e.len < 2 ^ 32
  · -- neither bound is cut
    rw [Nat.mod_eq_of_lt (by omega), if_neg (by omega), u32_of_lt hlow, u32_of_lt hbelow,
      mark_range_free_unused s hbelow]
    simp only [h1, hbelow, true_and, and_true]
  -- the end is cut to 4 GiB, or wraps, and is 0 as a 32-bit number
  have hzero : u32 (if (e.addr + e.len) % 2 ^ 64 > 0x100000000 then 0x100000000
      else (e.addr + e.len) % 2 ^ 64) = 0 := by
    unfold u32
    split
    · rfl
    · omega
  rw [hzero, mark_range_free_unused s (by decide), ← hnone fun h => hbelow h.2]
  refine or_iff_left ?_
  rintro ⟨-, hin⟩
  have := (inside_iff.mp hin).2
  unfold MM_PAGE_SIZE at this
  omega

/-- The loop over the entries of a memory map. -/
theorem mark_entries_unused {entry_size mmap_end : Nat}
    (hsize : 24 ≤ entry_size) (hroom : mmap_end + 24 < 2 ^ 32) (n : Nat) :
    ∀ (fuel p : Nat) (s : State), n < fuel → p + n * entry_size = mmap_end →
      (∀ e ∈ (range n).map fun k => B.entry (p + k * entry_size), e.addr + e.len ≤ 2 ^ 64) →
      ∃ s', mm_mark_mb2_entries B entry_size mmap_end fuel p s = some s' ∧ ∀ page,
        s'.Unused page ↔ s.Unused page ∨ page < MM_MAX_PAGES ∧
          UsableBelow ((range n).map fun k => B.entry (p + k * entry_size)) page := by
  induction n with
  | zero =>
    intro fuel p s hfuel hp hends
    obtain _ | fuel := fuel
    · omega
    have hpast : B.arch.uptr (p + 24) = p + 24 := uptr_of_lt _ (by omega)
    refine ⟨s, ?_, fun page => by simp [UsableBelow]⟩
    unfold mm_mark_mb2_entries
    rw [hpast, if_neg (by omega)]
  | succ n ih =>
    intro fuel p s hfuel hp hends
    obtain _ | fuel := fuel
    · omega
    have hstep : p + (n + 1) * entry_size = p + entry_size + n * entry_size := by
      rw [Nat.succ_mul]
      omega
    -- the entries are the first and those from the next address on
    have hsplit : (range (n + 1)).map (fun k => B.entry (p + k * entry_size)) =
        B.entry p :: (range n).map fun k => B.entry (p + entry_size + k * entry_size) := by
      rw [range_succ_eq_map, map_cons, map_map, Nat.zero_mul, Nat.add_zero]
      congr 1
      apply map_congr_left
      grind
    rw [hsplit] at hends ⊢
    obtain ⟨hfirst, hrest⟩ := forall_mem_cons.mp hends
    have hpast : B.arch.uptr (p + 24) = p + 24 := uptr_of_lt _ (by omega)
    have hnext : B.arch.uptr (p + entry_size) = p + entry_size := uptr_of_lt _ (by omega)
    unfold mm_mark_mb2_entries
    rw [hpast, if_pos (by omega), hnext]
    have hmark := mark_entry_unused s (B.entry p) hfirst
    obtain ⟨s', hs', hunused⟩ := ih fuel (p + entry_size) _ (by omega) (by omega) hrest
    refine ⟨s', hs', fun page => ?_⟩
    rw [hunused]
    refine (or_congr_left (hmark page)).trans ?_
    rw [usableBelow_cons, or_assoc, ← and_or_left]

/-- A tag ends before the end tag does. -/
theorem Tags.lt_stop (h : Tags B stop tag tags) : tag + 8 ≤ stop := by
  induction h with
  | finish _ hle => exact hle
  | _ =>
    unfold Boot.nextTag at *
    omega

/-- Where the walk goes from a tag. -/
theorem nextTag_eq (hnext : B.nextTag tag + 8 ≤ stop) (hstop : stop + 24 ≤ 2 ^ 32) :
    B.arch.uptr (tag + mm_mb2_align8 (B.tagSize tag)) = B.nextTag tag := by
  unfold Boot.nextTag at *
  rw [mb2_align8_eq (by omega), uptr_of_lt _ (by omega)]

/-- The walk of `mm_mark_mb2_usable` passes over a tag that is no memory map. -/
theorem mark_tags_skip (hstop : stop + 24 ≤ 2 ^ 32) (h0 : B.word tag ≠ 0) (h6 : B.word tag ≠ 6)
    (hsize : 8 ≤ B.tagSize tag) (hnext : B.nextTag tag + 8 ≤ stop) (fuel : Nat) (s : State) :
    mm_mark_mb2_tags B stop (fuel + 1) tag s =
      mm_mark_mb2_tags B stop fuel (B.nextTag tag) s := by
  have hgo := nextTag_eq hnext hstop
  unfold Boot.nextTag at hnext
  have hbad : ¬ (B.word tag = 0 ∨ B.tagSize tag < 8) := by omega
  conv_lhs => unfold mm_mark_mb2_tags
  rw [if_pos (by omega)]
  rw [show B.word (tag + 4) = B.tagSize tag from rfl, if_neg hbad, if_neg h6, hgo]

theorem nextTag_fuel {fuel : Nat} (hsize : 8 ≤ B.tagSize tag) (hnext : B.nextTag tag + 8 ≤ stop)
    (h : stop - tag < fuel + 1) : stop - B.nextTag tag < fuel := by
  unfold Boot.nextTag at *
  omega

/-- The walk of `mm_mark_mb2_usable`. -/
theorem mark_tags_unused (hstop : stop + 24 ≤ 2 ^ 32)
    (h : Tags B stop tag tags) :
    ∀ (fuel : Nat) (s : State), stop - tag < fuel →
      (∀ e ∈ mapEntries tags, e.addr + e.len ≤ 2 ^ 64) →
      ∃ s', mm_mark_mb2_tags B stop fuel tag s = some s' ∧ ∀ page,
        s'.Unused page ↔
          s.Unused page ∨ page < MM_MAX_PAGES ∧ UsableBelow (mapEntries tags) page := by
  induction h with
  | @finish tag hend hle =>
    intro fuel s hfuel _
    obtain _ | fuel := fuel
    · omega
    simp_all [UsableBelow, mapEntries, mm_mark_mb2_tags]
  | @mmap tag n rest htype hentry hsize hrest ih =>
    intro fuel s hfuel hends
    obtain _ | fuel := fuel
    · omega
    have hnext := hrest.lt_stop
    have hgo := nextTag_eq hnext hstop
    have hfuel' := nextTag_fuel (by omega) hnext hfuel
    unfold Boot.nextTag at hnext
    have hn : n ≤ n * B.word (tag + 8) := Nat.le_mul_of_pos_right n (by omega)
    have hlast : B.arch.uptr (tag + B.tagSize tag) = tag + B.tagSize tag :=
      uptr_of_lt _ (by omega)
    have hfirst : B.arch.uptr (tag + 16) = tag + 16 := uptr_of_lt _ (by omega)
    have hmap : ∀ here : List MapEntry, mapEntries (.mmap here :: rest) = here ++ mapEntries rest :=
      fun _ => rfl
    rw [hmap] at hends ⊢
    obtain ⟨hhere, hthere⟩ := forall_mem_append.mp hends
    have hroom : tag + B.tagSize tag + 24 < 2 ^ 32 := by omega
    obtain ⟨s₁, hs₁, hunused₁⟩ := mark_entries_unused hentry hroom n fuel (tag + 16) s
      (by omega) (by omega) hhere
    obtain ⟨s₂, hs₂, hunused₂⟩ := ih fuel s₁ hfuel' hthere
    refine ⟨s₂, ?_, fun page => ?_⟩
    · have hbad : ¬ (B.word tag = 0 ∨ B.tagSize tag < 8) := by omega
      unfold mm_mark_mb2_tags
      rw [if_pos (by omega)]
      rw [show B.word (tag + 4) = B.tagSize tag from rfl, if_neg hbad, if_pos htype,
        if_neg (by omega), hlast, hfirst, hs₁]
      dsimp only
      rw [hgo, hs₂]
    · rw [hunused₂, hunused₁, usableBelow_append, or_assoc, ← and_or_left]
  | @module tag rest htype hsize hrest ih =>
    intro fuel s hfuel hends
    obtain _ | fuel := fuel
    · omega
    rw [mark_tags_skip hstop (by omega) (by omega) (by omega) hrest.lt_stop]
    exact ih fuel s (nextTag_fuel (by omega) hrest.lt_stop hfuel) hends
  | @other tag rest h0 h3 h6 hsize hrest ih =>
    intro fuel s hfuel hends
    obtain _ | fuel := fuel
    · omega
    rw [mark_tags_skip hstop h0 h6 hsize hrest.lt_stop]
    exact ih fuel s (nextTag_fuel hsize hrest.lt_stop hfuel) hends

/-- One turn of the walk of `mm_reserve_mb2_regions`. -/
theorem reserve_tags_step (hstop : stop + 24 ≤ 2 ^ 32) (h0 : B.word tag ≠ 0)
    (hsize : 8 ≤ B.tagSize tag) (hnext : B.nextTag tag + 8 ≤ stop) (fuel : Nat) (s : State) :
    mm_reserve_mb2_tags B stop (fuel + 1) tag s =
      mm_reserve_mb2_tags B stop fuel (B.nextTag tag)
        (if B.word tag = 3 ∧ B.tagSize tag ≥ 16 ∧ B.word (tag + 12) > B.word (tag + 8) then
          mm_mark_range_used s (B.word (tag + 8)) (B.word (tag + 12)) else s) := by
  have hgo := nextTag_eq hnext hstop
  unfold Boot.nextTag at hnext
  have hbad : ¬ (B.word tag = 0 ∨ B.tagSize tag < 8) := by omega
  conv_lhs => unfold mm_reserve_mb2_tags
  rw [if_pos (by omega)]
  rw [show B.word (tag + 4) = B.tagSize tag from rfl, if_neg hbad, hgo]

/-- The walk of `mm_reserve_mb2_regions`. -/
theorem reserve_tags_unused (hstop : stop + 24 ≤ 2 ^ 32) (h : Tags B stop tag tags) :
    ∀ (fuel : Nat) (s : State), stop - tag < fuel →
      ∃ s', mm_reserve_mb2_tags B stop fuel tag s = some s' ∧ ∀ page,
        s'.Unused page ↔ s.Unused page ∧ ¬ ∃ m ∈ modules tags, Meets page m.1 m.2 := by
  induction h with
  | @finish tag hend hle =>
    intro fuel s hfuel
    obtain _ | fuel := fuel
    · omega
    simp_all [modules, mm_reserve_mb2_tags]
  | @mmap tag n rest htype hentry hsize hrest ih =>
    intro fuel s hfuel
    obtain _ | fuel := fuel
    · omega
    rw [reserve_tags_step hstop (by omega) (by omega) hrest.lt_stop, if_neg (by omega)]
    exact ih fuel s (nextTag_fuel (by omega) hrest.lt_stop hfuel)
  | @module tag rest htype hsize hrest ih =>
    intro fuel s hfuel
    obtain _ | fuel := fuel
    · omega
    rw [reserve_tags_step hstop (by omega) (by omega) hrest.lt_stop]
    obtain ⟨s', hs', hunused⟩ := ih fuel _ (nextTag_fuel (by omega) hrest.lt_stop hfuel)
    refine ⟨s', hs', fun page => ?_⟩
    have hmodules : modules (.module (B.word (tag + 8)) (B.word (tag + 12)) :: rest) =
        (B.word (tag + 8), B.word (tag + 12)) :: modules rest := rfl
    rw [hunused, hmodules]
    simp only [mem_cons, exists_eq_or_imp, not_or, ← and_assoc]
    apply and_congr_left'
    split
    next hmod => exact mark_range_used_unused s hmod.2 page
    next hmod =>
      -- a module without bytes meets nothing
      refine ⟨fun h => ⟨h, fun hm => hmod ⟨⟨htype, hsize⟩, (meets_iff.mp hm).1⟩⟩, fun h => h.1⟩
  | @other tag rest h0 h3 h6 hsize hrest ih =>
    intro fuel s hfuel
    obtain _ | fuel := fuel
    · omega
    rw [reserve_tags_step hstop h0 hsize hrest.lt_stop, if_neg (fun h => h3 h.1)]
    exact ih fuel s (nextTag_fuel hsize hrest.lt_stop hfuel)

end Walk

/-- What `mm_core_init` leaves: free are the pages of usable regions that end below 4 GiB,
unless something is in them. -/
theorem page_map {B : Boot} {ptr : Nat} (h : WellFormed B ptr tags)
    (hpaging : B.paging_is_enabled = true) {s : State} (hs : s.g_initialized = false) {fuel : Nat}
    (hfuel : B.word ptr ≤ fuel) :
    ∃ s', mm_core_init B fuel s MM_MB2_BOOTLOADER_MAGIC ptr = some (0, s') ∧ ∀ page,
      s'.Unused page ↔
        page < MM_MAX_PAGES ∧ UsableBelow (mapEntries tags) page ∧ ¬ Reserved B ptr tags page := by
  have hroom := h.room
  have hinside := h.walk.lt_stop
  have hptr : B.arch.uptr (ptr + 8) = ptr + 8 := uptr_of_lt _ (by omega)
  have hstop : B.arch.uptr (ptr + B.word ptr) = ptr + B.word ptr := uptr_of_lt _ (by omega)
  -- all pages used, then the usable ones free
  obtain ⟨s₁, hs₁, hunused₁⟩ := mark_tags_unused hroom h.walk fuel (mm_clear_pages s) (by omega)
    h.regions
  have hclear : ∀ page, ¬ (mm_clear_pages s).Unused page := by
    rintro page ⟨hlt, hflag⟩
    cases hflag
  -- then what is occupied used again
  have hlow := mark_range_used_unused s₁ (show 0 < MM_LOW_MEMORY_LIMIT by decide)
  generalize hs₂ : mm_mark_range_used s₁ 0 MM_LOW_MEMORY_LIMIT = s₂ at hlow
  have hkernel := mark_range_used_unused s₂ h.kernel
  generalize hs₃ : mm_mark_range_used s₂ B.kernel_start B.kernel_end = s₃ at hkernel
  have hinfo := mark_range_used_unused s₃ (show ptr < ptr + B.word ptr by omega)
  generalize hs₄ : mm_mark_range_used s₃ ptr (ptr + B.word ptr) = s₄ at hinfo
  obtain ⟨s₅, hs₅, hunused₅⟩ := reserve_tags_unused hroom h.walk fuel s₄ (by omega)
  refine ⟨{ mm_count_total_pages s₅ with
    g_heap_head := 0, g_heap_tail := 0, g_heap_total_bytes := 0, g_initialized := true }, ?_, ?_⟩
  · have hcond : MM_MB2_BOOTLOADER_MAGIC = MM_MB2_BOOTLOADER_MAGIC ∧ ptr ≠ 0 := ⟨rfl, h.ptr_ne⟩
    have hready : ¬ (B.paging_is_enabled = false ∨ PAGING_IDENTITY_LIMIT < MM_PAGE_SIZE) := by
      rw [hpaging]
      decide
    have hreserve : mm_reserve_common B fuel s₁ MM_MB2_BOOTLOADER_MAGIC ptr = some s₅ := by
      unfold mm_reserve_common mm_reserve_mb2_regions
      rw [if_pos hcond, u32_of_lt (Nat.lt_trans h.kernel h.kernel_end), u32_of_lt h.kernel_end,
        u32_of_lt (by omega), hs₂, hs₃, hs₄, hstop, hptr, hs₅]
    unfold mm_core_init
    simp_all [mm_mark_mb2_usable]
  · intro page
    have hsame : State.Unused { mm_count_total_pages s₅ with
        g_heap_head := 0, g_heap_tail := 0, g_heap_total_bytes := 0, g_initialized := true } page ↔
        s₅.Unused page := Iff.rfl
    rw [hsame, hunused₅, hinfo, hkernel, hlow, hunused₁]
    unfold Reserved
    rw [or_iff_right (hclear page)]
    simp only [not_or, and_assoc]

/-- The page map is exact if and only if every page that is usable and that nothing is in
lies in a usable region that ends below 4 GiB. -/
theorem page_map_exact_iff {B : Boot} {ptr : Nat} {tags : List Tag} (h : WellFormed B ptr tags)
    (hpaging : B.paging_is_enabled = true) {s : State} (hs : s.g_initialized = false) {fuel : Nat}
    (hfuel : B.word ptr ≤ fuel) :
    ∃ s', mm_core_init B fuel s MM_MB2_BOOTLOADER_MAGIC ptr = some (0, s') ∧
      ((∀ page < MM_MAX_PAGES,
          s'.Unused page ↔ Usable (mapEntries tags) page ∧ ¬ Reserved B ptr tags page) ↔
        ∀ page < MM_MAX_PAGES, Usable (mapEntries tags) page → ¬ Reserved B ptr tags page →
          UsableBelow (mapEntries tags) page) := by
  obtain ⟨s', hinit, hunused⟩ := page_map h hpaging hs hfuel
  refine ⟨s', hinit, ?_, ?_⟩
  · grind
  · intro hbelow page hlt
    rw [hunused]
    constructor
    · rintro ⟨-, ⟨e, he, htype, hin, -⟩, hfree⟩
      exact ⟨⟨e, he, htype, hin⟩, hfree⟩
    · grind

/-! ## A map with one region -/

/-- The words of boot information at `0x10000` with a usable region of `len` bytes from
1 MiB on. -/
def oneRegionWord (len a : Nat) : Nat :=
  if a = 0x10000 then 56
  else if a = 0x10008 then 6
  else if a = 0x1000C then 40
  else if a = 0x10010 then 24
  else if a = 0x10018 then 0x100000
  else if a = 0x10020 then len % 2 ^ 32
  else if a = 0x10024 then len / 2 ^ 32 % 2 ^ 32
  else if a = 0x10028 then 1
  else 0

/-- An i386 machine with a kernel of 1 MiB at 1 MiB. -/
def oneRegion (len : Nat) : Boot where
  arch := .i386
  paging_is_enabled := true
  kernel_start := 0x100000
  kernel_end := 0x200000
  word := oneRegionWord len

def oneRegionTags (len : Nat) : List Tag := [.mmap [⟨0x100000, len, 1⟩]]

variable {len : Nat}

theorem oneRegion_entry (h : len < 2 ^ 63) :
    (oneRegion len).entry 0x10018 = ⟨0x100000, len, 1⟩ := by
  have hlen : len % 2 ^ 32 + 2 ^ 32 * (len / 2 ^ 32 % 2 ^ 32) = len := by omega
  show MapEntry.mk (0x100000 + 2 ^ 32 * 0) (len % 2 ^ 32 + 2 ^ 32 * (len / 2 ^ 32 % 2 ^ 32)) 1 = _
  rw [hlen]
  rfl

/-- The map with one region is well formed. -/
theorem oneRegion_wellFormed (h : len < 2 ^ 63) :
    WellFormed (oneRegion len) 0x10000 (oneRegionTags len) where
  words := by
    intro a
    show oneRegionWord len a < 2 ^ 32
    unfold oneRegionWord
    split_ifs <;> omega
  ptr_ne := by decide
  room := show 0x10000 + 56 + 24 ≤ 2 ^ 32 by decide
  walk := by
    have hend : Tags (oneRegion len) 0x10038 0x10030 [] := .finish rfl (by decide)
    have hsize : (oneRegion len).tagSize 0x10008 = 40 := rfl
    have hnext : (oneRegion len).nextTag 0x10008 = 0x10030 := by
      unfold Boot.nextTag
      rw [hsize]
    have hmap : Tags (oneRegion len) 0x10038 0x10008
        [.mmap ((range 1).map fun k => (oneRegion len).entry (0x10018 + k * 24))] :=
      .mmap rfl (show 24 ≤ 24 from Nat.le_refl 24) rfl (by rw [hnext]; exact hend)
    rw [show (range 1).map (fun k => (oneRegion len).entry (0x10018 + k * 24)) =
      [(oneRegion len).entry 0x10018] from rfl, oneRegion_entry h] at hmap
    exact hmap
  regions := by
    intro e he
    rw [mem_singleton.mp (show e ∈ [MapEntry.mk 0x100000 len 1] from he)]
    show 0x100000 + len ≤ 2 ^ 64
    omega
  kernel := show 0x100000 < 0x200000 by decide
  kernel_end := show 0x200000 < 2 ^ 32 by decide

/-- The page at 16 MiB is in the region and nothing is in it. -/
theorem oneRegion_free (h : 0xF01000 ≤ len) :
    Usable (mapEntries (oneRegionTags len)) 0x1000 ∧
      ¬ Reserved (oneRegion len) 0x10000 (oneRegionTags len) 0x1000 := by
  constructor
  · refine ⟨⟨0x100000, len, 1⟩, mem_singleton.mpr rfl, rfl, inside_iff.mpr ?_⟩
    show 0x100000 ≤ 0x1000 * 4096 ∧ (0x1000 + 1) * 4096 ≤ 0x100000 + len
    omega
  · rintro (hm | hm | hm | ⟨m, hm, -⟩)
    · exact absurd (meets_iff.mp hm).2.1 (by decide)
    · exact absurd (meets_iff.mp hm).2.1 (show ¬ 0x1000 * 4096 < 0x200000 by decide)
    · exact absurd (meets_iff.mp hm).2.1 (show ¬ 0x1000 * 4096 < 0x10000 + 56 by decide)
    · cases hm

/-- With a region of 31 MiB the map is exact. -/
theorem page_map_exact_31MiB :
    ∃ s', mm_core_init (oneRegion 0x1F00000) 56 (State.zero fun _ => .zero)
        MM_MB2_BOOTLOADER_MAGIC 0x10000 = some (0, s') ∧
      ∀ page < MM_MAX_PAGES, s'.Unused page ↔
        Usable (mapEntries (oneRegionTags 0x1F00000)) page ∧
          ¬ Reserved (oneRegion 0x1F00000) 0x10000 (oneRegionTags 0x1F00000) page := by
  obtain ⟨s', hinit, hiff⟩ := page_map_exact_iff (s := State.zero fun _ => .zero)
    (oneRegion_wellFormed (show 0x1F00000 < 2 ^ 63 by decide)) rfl rfl (Nat.le_refl 56)
  refine ⟨s', hinit, hiff.mpr ?_⟩
  rintro page - ⟨e, he, htype, hin⟩ -
  refine ⟨e, he, htype, hin, ?_⟩
  rw [mem_singleton.mp (show e ∈ [MapEntry.mk 0x100000 0x1F00000 1] from he)]
  decide

/-- With a region that ends at 4 GiB the page at 16 MiB is usable, nothing is in it, and it
is not free. -/
theorem region_to_4GiB_lost :
    WellFormed (oneRegion 0xFFF00000) 0x10000 (oneRegionTags 0xFFF00000) ∧
      Usable (mapEntries (oneRegionTags 0xFFF00000)) 0x1000 ∧
      ¬ Reserved (oneRegion 0xFFF00000) 0x10000 (oneRegionTags 0xFFF00000) 0x1000 ∧
      ∃ s', mm_core_init (oneRegion 0xFFF00000) 56 (State.zero fun _ => .zero)
        MM_MB2_BOOTLOADER_MAGIC 0x10000 = some (0, s') ∧ ¬ s'.Unused 0x1000 := by
  have hwf := oneRegion_wellFormed (show 0xFFF00000 < 2 ^ 63 by decide)
  obtain ⟨husable, hfree⟩ := oneRegion_free (show 0xF01000 ≤ 0xFFF00000 by decide)
  have hzero : (State.zero fun _ => .zero).g_initialized = false := rfl
  obtain ⟨s', hinit, hunused⟩ := page_map hwf rfl hzero (Nat.le_refl 56)
  refine ⟨hwf, husable, hfree, s', hinit, fun h => ?_⟩
  obtain ⟨-, ⟨e, he, -, -, hbelow⟩, -⟩ := (hunused 0x1000).mp h
  rw [mem_singleton.mp (show e ∈ [MapEntry.mk 0x100000 0xFFF00000 1] from he)] at hbelow
  exact absurd hbelow (by decide)

end System1.Mm
