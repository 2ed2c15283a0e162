/-
The pages of a program's segments on the 32-bit build.

The validator keeps the bytes of the segments apart, not their pages, and the loop of
`usermode_exec` hands a segment's permissions to whole pages, in the order of the table.
`paging_core_set_user_range` of the 32-bit build clears the writable bit for a segment
without `W`, also where an earlier segment had asked for it. So the entry of a page is
what the last segment on it asked for (`mapSegments_perms`), and a program can store to
all of its writable segments exactly when on each of their pages the last segment of the
table is a writable one. The 64-bit build never clears the bit.
-/
import System1.UsermodePages

set_option autoImplicit false

namespace System1.Paging

open Function

/-- The user bit and the writable bit of the page of an address below 64 MiB. -/
def Tables32.perms (t : Tables32) (addr : Nat) : Bool × Bool :=
  let e := t.g_pt ⟨addr / 2 ^ 22 % 16, Nat.mod_lt _ (by decide)⟩
    ⟨addr / 2 ^ 12 % 1024, Nat.mod_lt _ (by decide)⟩
  (e.getLsbD 2, e.getLsbD 1)

variable {t t' : Tables32} {writable : Bool} {addr : Nat}

/-- Opening a page sets the permissions of that page only. -/
theorem set_user_page_x86_perms (haddr : addr < PAGING_IDENTITY_LIMIT)
    (h : set_user_page_x86 writable addr t = some t') {a : Nat} (ha : a < PAGING_IDENTITY_LIMIT) :
    t'.perms a = if a / PAGE_SIZE = addr / PAGE_SIZE then (true, writable) else t.perms a := by
  simp only [PAGING_IDENTITY_LIMIT] at haddr ha
  unfold set_user_page_x86 at h
  rw [dif_pos (by omega), Option.some.injEq] at h
  subst h
  -- the two indices together are the page
  have hpd : (⟨a / 2 ^ 22 % 16, Nat.mod_lt _ (by decide)⟩ : Fin 16) = ⟨addr / 2 ^ 22, by omega⟩ ↔
      a / 2 ^ 22 = addr / 2 ^ 22 := by
    simp [Fin.ext_iff]
    omega
  have hpt : (⟨a / 2 ^ 12 % 1024, Nat.mod_lt _ (by decide)⟩ : Fin 1024) =
      Fin.ofNat 1024 (addr / 2 ^ 12) ↔ a / 2 ^ 12 % 1024 = addr / 2 ^ 12 % 1024 := by
    simp [Fin.ext_iff]
  split
  · next hpage =>
    simp only [PAGE_SIZE] at hpage
    simp only [Tables32.perms, hpd.mpr (by omega), hpt.mpr (by omega), update_self]
    cases writable <;> simp [userEntry32]
  next hpage =>
  simp only [PAGE_SIZE] at hpage
  by_cases hsame : a / 2 ^ 22 = addr / 2 ^ 22
  · simp only [Tables32.perms, hpd.mpr hsame, update_self,
      update_of_ne (mt hpt.mp (by omega))]
  · simp only [Tables32.perms, update_of_ne (mt hpd.mp hsame)]

/-- Opening a run of pages sets the permissions of the run only. -/
theorem forPages_perms {count : Nat} (hend : addr + count * PAGE_SIZE ≤ PAGING_IDENTITY_LIMIT)
    (h : forPages (set_user_page_x86 writable) count addr t = (true, t')) {a : Nat}
    (ha : a < PAGING_IDENTITY_LIMIT) :
    t'.perms a = if addr / PAGE_SIZE ≤ a / PAGE_SIZE ∧ a / PAGE_SIZE < addr / PAGE_SIZE + count
      then (true, writable) else t.perms a := by
  induction count generalizing addr t with
  | zero =>
    cases h
    rw [if_neg (by omega)]
  | succ count ih =>
    unfold forPages at h
    rw [Nat.succ_mul] at hend
    have hnext : (addr + PAGE_SIZE) / PAGE_SIZE = addr / PAGE_SIZE + 1 :=
      Nat.add_div_right _ (by decide)
    cases hset : set_user_page_x86 writable addr t with
    | none =>
      rw [hset] at h
      cases h
    | some u =>
      rw [hset] at h
      have hpage : 0 < PAGE_SIZE := by decide
      rw [ih (by omega) h, set_user_page_x86_perms (by omega) hset ha, hnext]
      -- the first page, or one of the rest
      split_ifs <;> first | rfl | omega

/-- A range is taken by the pages it has bytes on. -/
theorem paging_core_set_user_range_x86_perms {start stop : Nat}
    (h : paging_core_set_user_range_x86 t start stop writable = (true, t')) :
    start < stop ∧ stop ≤ PAGING_IDENTITY_LIMIT ∧ ∀ a < PAGING_IDENTITY_LIMIT,
      t'.perms a = if start < (a / PAGE_SIZE + 1) * PAGE_SIZE ∧ a / PAGE_SIZE * PAGE_SIZE < stop
        then (true, writable) else t.perms a := by
  unfold paging_core_set_user_range_x86 at h
  by_cases hbad : start ≥ stop ∨ stop > PAGING_IDENTITY_LIMIT
  · rw [if_pos hbad] at h
    cases h
  rw [if_neg hbad] at h
  refine ⟨by omega, by omega, fun a ha => ?_⟩
  have hend : pageFloor start + pageCount start stop * PAGE_SIZE ≤ PAGING_IDENTITY_LIMIT := by
    simp only [pageCount, pageFloor, PAGE_SIZE, PAGING_IDENTITY_LIMIT] at *
    omega
  rw [forPages_perms hend h ha]
  refine if_congr ?_ rfl rfl
  simp only [pageCount, pageFloor, PAGE_SIZE] at *
  omega

end System1.Paging

namespace System1.Usermode

open System1.Lib System1.Sprg System1.Paging

/-- The segment carries the `W` flag. -/
def writable (seg : Segment) : Bool := decide (seg.flags &&& SPRG_FLAG_W ≠ 0)

/-- A segment that is not empty has bytes on the page. -/
def Touches (seg : Segment) (page : Nat) : Prop :=
  seg.vaddr < (page + 1) * PAGE_SIZE ∧ page * PAGE_SIZE < seg.vaddr + seg.memsz

instance (seg : Segment) (page : Nat) : Decidable (Touches seg page) :=
  inferInstanceAs (Decidable (_ ∧ _))

/-- The last segment of the table with bytes on the page. -/
def lastOn (page : Nat) : List Segment → Option Segment
  | [] => none
  | seg :: rest => (lastOn page rest).or (if Touches seg page then some seg else none)

theorem Touches.isSome_lastOn {page : Nat} {seg : Segment} (h : Touches seg page)
    {segs : List Segment} (hseg : seg ∈ segs) : ∃ last, lastOn page segs = some last := by
  rw [← Option.isSome_iff_exists]
  induction segs with
  | nil => cases hseg
  | cons first rest ih => grind [lastOn, Option.isSome_or]

/-- The page tables once the loop has passed every segment: segments are not empty and end
below the limit, and a page has what the last segment on it asked for. -/
theorem mapSegments_perms {segs : List Segment} {t : Tables32}
    (h32 : ∀ seg ∈ segs, seg.vaddr < 2 ^ 32 ∧ seg.memsz < 2 ^ 32)
    (h : (mapSegments i386 segs t).1 = true) :
    (∀ seg ∈ segs, 0 < seg.memsz ∧ seg.vaddr + seg.memsz ≤ PAGING_IDENTITY_LIMIT) ∧
    ∀ a < PAGING_IDENTITY_LIMIT, (mapSegments i386 segs t).2.perms a =
      (lastOn (a / PAGE_SIZE) segs).elim (t.perms a) fun seg => (true, writable seg) := by
  induction segs generalizing t with
  | nil => exact ⟨List.forall_mem_nil _, fun a _ => rfl⟩
  | cons seg rest ih =>
    obtain ⟨⟨hv, hm⟩, hrest⟩ := List.forall_mem_cons.mp h32
    rw [mapSegments] at h ⊢
    cases hset : i386.paging_set_user_range t seg.vaddr (segmentEnd i386.W seg) (writable seg) with
    | mk ok u =>
      unfold writable at hset
      cases ok with
      | false =>
        simp only [hset] at h
        cases h
      | true =>
        simp only [hset] at h ⊢
        obtain ⟨hlt, hle, hperms⟩ := paging_core_set_user_range_x86_perms hset
        -- a range that starts below its end has not wrapped
        have hend : segmentEnd i386.W seg = seg.vaddr + seg.memsz := by
          simp only [segmentEnd, i386] at *
          omega
        rw [hend] at hlt hle hperms
        obtain ⟨hin, hlast⟩ := ih hrest h
        refine ⟨List.forall_mem_cons.mpr ⟨⟨by omega, hle⟩, hin⟩, fun a ha => ?_⟩
        rw [hlast a ha, lastOn, hperms a ha]
        cases lastOn (a / PAGE_SIZE) rest with
        | some last => rfl
        | none =>
          rw [Option.none_or]
          by_cases hon : Touches seg (a / PAGE_SIZE)
          · rw [if_pos hon]
            exact if_pos hon
          · rw [if_neg hon]
            exact if_neg hon

/-- Ring 3 may store to every byte of every writable segment. -/
def WritableMapped (segs : List Segment) (t : Tables32) : Prop :=
  ∀ seg ∈ segs, writable seg = true → ∀ a, seg.Covers a → t.perms a = (true, true)

/-- **Writable segments.** Whatever file is loaded for a slot: when the loop has mapped its
segments, the writable ones are writable exactly if no page of theirs was taken last by a
segment without `W`. -/
theorem writable_mapped_iff {file : List UInt8} {fs : Fs} (hfs : fs.Serves file) (path : CString)
    (slot : Slot) {env : Env} {image : Image}
    (hload : ((sprg_core_load_file 32 path SPRG_ARCH_I386 slot.program_min slot.program_max).run
      (handler 32 fs) env).1 = .done image)
    {t : Tables32} (hmap : (mapSegments i386 image.segments t).1 = true) :
    WritableMapped image.segments (mapSegments i386 image.segments t).2 ↔
      ∀ seg ∈ image.segments, writable seg = true → ∀ page, Touches seg page →
        ∀ last, lastOn page image.segments = some last → writable last = true := by
  have hwp := Prog.wp_run (handler 32 fs) (handler_allowed hfs)
    (sprg_core_load_file_spec (.inl rfl) path SPRG_ARCH_I386 slot.program_min slot.program_max env)
  have hloaded := hwp.elim.2.2 image hload
  have h32 : ∀ seg ∈ image.segments, seg.vaddr < 2 ^ 32 ∧ seg.memsz < 2 ^ 32 := by
    rw [hloaded.accepted.segments]
    intro seg hseg
    obtain ⟨i, -, rfl⟩ := List.mem_map.mp hseg
    exact segmentOf_lt _
  obtain ⟨hin, hperms⟩ := mapSegments_perms h32 hmap
  constructor
  · intro hall seg hseg hw page hon last hlast
    obtain ⟨hpos, hle⟩ := hin seg hseg
    -- a byte of the segment on the page
    obtain ⟨a, hcov, hpage⟩ : ∃ a, seg.Covers a ∧ a / PAGE_SIZE = page := by
      refine ⟨max seg.vaddr (page * PAGE_SIZE), ?_⟩
      simp only [Touches, Segment.Covers, PAGE_SIZE] at *
      omega
    have hbits := hall seg hseg hw a hcov
    rw [hperms a (Nat.lt_of_lt_of_le hcov.2 hle), hpage, hlast] at hbits
    exact congrArg Prod.snd hbits
  · intro hlasts seg hseg hw a hcov
    obtain ⟨hpos, hle⟩ := hin seg hseg
    have hon : Touches seg (a / PAGE_SIZE) := by
      simp only [Touches, Segment.Covers, PAGE_SIZE] at *
      omega
    obtain ⟨last, hlast⟩ := hon.isSome_lastOn hseg
    rw [hperms a (Nat.lt_of_lt_of_le hcov.2 hle), hlast]
    exact congrArg (Prod.mk true) (hlasts seg hseg hw _ hon last hlast)

/-- Two bytes of code at `0x60000`, then four of data on the same page. -/
def codeFirstFile : List UInt8 :=
  [0x53, 0x50, 0x52, 0x47, 1, 0, 0, 0, 1, 0, 0, 0, 0, 0, 6, 0, 28, 0, 0, 0, 2, 0, 0, 0, 0, 0, 0, 0,
    1, 0, 0, 0, 92, 0, 0, 0, 0, 0, 6, 0, 2, 0, 0, 0, 2, 0, 0, 0, 5, 0, 0, 0, 0, 0, 0, 0, 0, 0, 0, 0,
    1, 0, 0, 0, 0, 0, 0, 0, 16, 0, 6, 0, 0, 0, 0, 0, 4, 0, 0, 0, 3, 0, 0, 0, 0, 0, 0, 0, 0, 0, 0, 0,
    0x90, 0xc3]

/-- Its segments, of which the second carries `W`. -/
def codeFirst : List Segment :=
  [⟨1, 92, 0x60000, 2, 2, 5, 0, 0⟩, ⟨1, 0, 0x60010, 0, 4, 3, 0, 0⟩]

/-- With the data last the page is writable. -/
theorem writable_mapped_command :
    ((sprg_core_load_file 32 samplePath SPRG_ARCH_I386 Slot.command.program_min
      Slot.command.program_max).run (handler 32 (fileFs codeFirstFile)) booted32.env).1 =
        .done ⟨0x60000, 1, 94, codeFirst⟩ ∧
    WritableMapped codeFirst (mapSegments i386 codeFirst booted32.tables).2 := by
  have hload : ((sprg_core_load_file 32 samplePath SPRG_ARCH_I386 Slot.command.program_min
      Slot.command.program_max).run (handler 32 (fileFs codeFirstFile)) booted32.env).1 =
        .done ⟨0x60000, 1, 94, codeFirst⟩ := by decide +kernel
  refine ⟨hload, (writable_mapped_iff (fileFs_serves codeFirstFile) samplePath .command hload
    rfl).mpr ?_⟩
  intro seg hseg hw page hon last hlast
  -- only the data carries `W`, and it is the last segment on its page
  obtain rfl : seg = ⟨1, 0, 0x60010, 0, 4, 3, 0, 0⟩ := by
    rcases List.mem_pair.mp hseg with rfl | rfl
    · cases hw
    · rfl
  rw [codeFirst, lastOn, lastOn, if_pos hon] at hlast
  obtain rfl : _ = last := Option.some.inj hlast
  exact hw

/-- Four bytes of data at `0x60000`, then two of code on the same page. -/
def sharedPageFile : List UInt8 :=
  [0x53, 0x50, 0x52, 0x47, 1, 0, 0, 0, 1, 0, 0, 0, 16, 0, 6, 0, 28, 0, 0, 0, 2, 0, 0, 0, 0, 0, 0, 0,
    1, 0, 0, 0, 0, 0, 0, 0, 0, 0, 6, 0, 0, 0, 0, 0, 4, 0, 0, 0, 3, 0, 0, 0, 0, 0, 0, 0, 0, 0, 0, 0,
    1, 0, 0, 0, 92, 0, 0, 0, 16, 0, 6, 0, 2, 0, 0, 0,
    2, 0, 0, 0, 5, 0, 0, 0, 0, 0, 0, 0, 0, 0, 0, 0, 0x90, 0xc3]

def sharedPageFs : Fs := fileFs sharedPageFile

def dataSegment : Segment := ⟨1, 0, 0x60000, 0, 4, 3, 0, 0⟩
def codeSegment : Segment := ⟨1, 92, 0x60010, 2, 2, 5, 0, 0⟩

/-- The file is loaded and mapped, and its data is read-only. -/
theorem data_behind_code_read_only :
    ((sprg_core_load_file 32 samplePath SPRG_ARCH_I386 Slot.command.program_min
      Slot.command.program_max).run (handler 32 sharedPageFs) booted32.env).1 =
        .done ⟨0x60010, 1, 94, [dataSegment, codeSegment]⟩ ∧
    (mapSegments i386 [dataSegment, codeSegment] booted32.tables).1 = true ∧
    writable dataSegment = true ∧ dataSegment.Covers 0x60000 ∧
    (mapSegments i386 [dataSegment, codeSegment] booted32.tables).2.perms 0x60000 =
      (true, false) := by
  refine ⟨by decide +kernel, rfl, rfl, ⟨by decide, by decide⟩, ?_⟩
  exact (mapSegments_perms (by decide) rfl).2 0x60000 (by decide)

end System1.Usermode
