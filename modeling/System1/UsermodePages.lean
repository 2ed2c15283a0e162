/-
Which pages ring 3 ever gets.

Every change of the page tables after `usermode_init` is made by the loop of
`usermode_exec` over the segments of a loaded image. The image was read from the file a
second time by the loader, so the slot chosen for the first reading says nothing about
it; what confines it is that the loader checks each segment against the slot once more
before it copies it, and only an image that passed is mapped. This holds whatever the
filesystem answers, also when the file changes between the two readings.

So every run keeps the identity map with user pages in the slots only, for both builds:
one proof over any page tables whose `paging_set_user_range` keeps a property of the
tables on ranges inside the slots, used twice.
-/
import System1.Usermode

set_option autoImplicit false

namespace System1.Usermode

open System1.Lib System1.Sprg System1.Paging

/-! ## What the loader lets through -/

/-- The segment lies in the window, with its end as the source computes it. -/
def InWindow (W lo hi : Nat) (seg : Segment) : Prop := lo ≤ seg.vaddr ∧ segmentEnd W seg ≤ hi

theorem closeAndFail_only {α : Type} (node_id : Nat) (err : SprgErr) (V : α → Prop) :
    (closeAndFail node_id err : M α).Only (fun _ => True) V := ⟨trivial, fun _ => trivial⟩

theorem sprg_load_segment_only (W node_id lo hi entry : Nat) (seg : Segment) :
    (sprg_load_segment W node_id lo hi entry seg).Only (fun _ => True)
      fun _ => InWindow W lo hi seg := by
  unfold sprg_load_segment
  grind [InWindow, segmentEnd, closeAndFail_only, Prog.only_true]

/-- All segments of a list that was loaded to its end lie in the window. -/
theorem sprg_load_segments_only (W node_id lo hi entry : Nat) (segs : List Segment) (hit : Bool) :
    (sprg_load_segments W node_id lo hi entry segs hit).Only (fun _ => True)
      fun _ => ∀ seg ∈ segs, InWindow W lo hi seg := by
  induction segs generalizing hit with
  | nil =>
    intro seg hseg
    simp at hseg
  | cons seg rest ih =>
    refine (sprg_load_segment_only W node_id lo hi entry seg).bind fun h hseg => ?_
    refine (ih (hit || h)).mono fun _ hrest => ?_
    grind

/-- An image the loader returns lies in the window, whatever it was told. -/
theorem sprg_core_load_file_only (W : Nat) (path : CString) (arch lo hi : Nat) :
    (sprg_core_load_file W path arch lo hi).Only (fun _ => True)
      fun image => ∀ seg ∈ image.segments, InWindow W lo hi seg := by
  unfold sprg_core_load_file
  split
  · trivial
  refine (Prog.only_true _).bind fun image _ => ?_
  refine (Prog.only_true _).bind fun r _ => ?_
  cases r with
  | error rc => trivial
  | ok node_id =>
    refine (sprg_load_segments_only W node_id lo hi image.entry image.segments false).bind
      fun hit hsegs => ?_
    refine (Prog.only_true _).bind fun _ _ => ?_
    split
    · trivial
    · exact hsegs

/-! ## What `usermode_exec` does to the tables -/

section

variable {τ : Type} (cpu : Cpu τ) {I : τ → Prop}

/-- Mapping a range inside the slots keeps `I`. -/
def KeepsInSlots (I : τ → Prop) : Prop :=
  ∀ t start stop writable, I t → 0x00060000 ≤ start → stop ≤ 0x0009F000 →
    I (cpu.paging_set_user_range t start stop writable).2

variable {cpu}

/-- A slot lies in the user area. -/
theorem Slot.bounds (slot : Slot) :
    0x00060000 ≤ slot.program_min ∧ slot.program_max ≤ 0x0009F000 := by
  cases slot <;> decide

/-- Mapping the segments of a program, -/
theorem mapSegments_keeps (hI : KeepsInSlots cpu I) {lo hi : Nat} (hlo : 0x00060000 ≤ lo)
    (hhi : hi ≤ 0x0009F000) {segs : List Segment} (hsegs : ∀ seg ∈ segs, InWindow cpu.W lo hi seg)
    {t : τ} (ht : I t) : I (mapSegments cpu segs t).2 := by
  induction segs generalizing t with
  | nil => exact ht
  | cons seg rest ih =>
    obtain ⟨hstart, hstop⟩ := hsegs seg List.mem_cons_self
    have hnext := hI t seg.vaddr (segmentEnd cpu.W seg) (decide (seg.flags &&& SPRG_FLAG_W ≠ 0))
      ht (by omega) (by omega)
    grind [mapSegments]

theorem enterImage_tables (call : ExecCall) (slot : Slot) (image : Image) (m : Machine τ) :
    (enterImage cpu call slot image m).2.tables = (mapSegments cpu image.segments m.tables).2 := by
  unfold enterImage
  generalize mapSegments cpu image.segments m.tables = r
  obtain ⟨ok, t⟩ := r
  grind [Machine.perform]

section

variable (hI : KeepsInSlots cpu I)

include hI

/-- A call of `usermode_exec`, whatever it returns. -/
theorem usermode_exec_enter_keeps (call : ExecCall) {m : Machine τ} (hm : I m.tables) :
    I (usermode_exec_enter cpu call m).2.tables := by
  unfold usermode_exec_enter
  split
  · exact hm
  dsimp only [Machine.perform]
  generalize (sprg_core_validate_file call.path SPRG_ARCH_I386).run
    (handler cpu.W call.fs) m.env = v
  obtain ⟨r, env⟩ := v
  -- only the branch that has loaded an image touches the tables
  cases r with
  | fail rc => exact hm
  | spin => exact hm
  | done image =>
    dsimp only
    cases selectSlot cpu.W m.g_usermode_exec_depth image with
    | error rc => exact hm
    | ok slot =>
      dsimp only
      have hfits := fun image (h : ((sprg_core_load_file cpu.W call.path SPRG_ARCH_I386
          slot.program_min slot.program_max).run (handler cpu.W call.fs) env).1 = .done image) =>
        (sprg_core_load_file_only cpu.W call.path SPRG_ARCH_I386 slot.program_min
          slot.program_max).run (handler cpu.W call.fs) h
      generalize (sprg_core_load_file cpu.W call.path SPRG_ARCH_I386 slot.program_min
        slot.program_max).run (handler cpu.W call.fs) env = l at hfits
      obtain ⟨r, env'⟩ := l
      cases r with
      | fail rc => exact hm
      | spin => exact hm
      | done image =>
        rw [enterImage_tables]
        exact mapSegments_keeps hI slot.bounds.1 slot.bounds.2 (hfits image rfl) hm

/-- or ranges within the slots, keeps what every mapping keeps. -/
theorem mapRanges_keeps {l : List (Nat × Nat)} (hl : ∀ r ∈ l, 0x00060000 ≤ r.1 ∧ r.2 ≤ 0x0009F000)
    {t : τ} (ht : I t) :
    I (mapRanges cpu l t).2 := by
  induction l generalizing t with
  | nil => exact ht
  | cons r rest ih =>
    have hr := hl r List.mem_cons_self
    have hnext := hI t r.1 r.2 true ht hr.1 hr.2
    unfold mapRanges
    generalize cpu.paging_set_user_range t r.1 r.2 true = s at hnext
    obtain ⟨ok, t'⟩ := s
    cases ok with
    | false => exact hnext
    | true => exact ih (fun r' h => hl r' (List.mem_cons_of_mem _ h)) hnext

theorem usermode_init_keeps (hl : ∀ r ∈ cpu.init_ranges, 0x00060000 ≤ r.1 ∧ r.2 ≤ 0x0009F000)
    {m : Machine τ} (hm : I m.tables) : I (usermode_init cpu m).2.tables := by
  have h := mapRanges_keeps hI hl hm
  grind [usermode_init]

/-- One event, and then every run. -/
theorem step_keeps {m : Machine τ} (hm : I m.tables) (e : Event) :
    I (m.step cpu e).tables := by
  cases e with
  | exec call => exact usermode_exec_enter_keeps hI call hm
  | exit => exact hm
  | store addr bytes => exact hm

theorem Reach.keeps {P : Machine τ → Event → Prop} {m0 m : Machine τ} (h0 : I m0.tables)
    (h : Reach cpu P m0 m) : I m.tables := by
  induction h with
  | start => exact h0
  | step e _ _ _ ih => exact step_keeps hI ih e

end

end

/-! ## The two builds -/

/-- The pages of the user slots. -/
def UserPage (addr : Nat) : Prop := 0x00060000 ≤ addr ∧ addr + PAGE_SIZE ≤ 0x0009F000

theorem userPage_hasPages : HasPages UserPage 0x00060000 0x0009F000 := by
  intro p hlo hhi
  unfold UserPage
  simp only [PAGE_SIZE] at *
  omega

theorem i386_keeps : KeepsInSlots i386 (Tables32.Identity UserPage) := by
  intro t start stop writable ht hstart hstop
  exact paging_core_set_user_range_x86_identity userPage_hasPages rfl rfl ht hstart hstop writable

theorem x86_64_keeps : KeepsInSlots x86_64 (Tables64.Identity UserPage) := by
  intro t start stop writable ht hstart hstop
  exact paging_core_set_user_range_x64_identity userPage_hasPages rfl rfl ht hstart hstop writable

/-- Every leaf entry maps its page to itself and is present, and has the user bit only
when its page is in a user slot. -/
structure Confined {n m w : Nat} (mask : BitVec w) (g_pt : Fin n → Fin m → BitVec w) : Prop where
  identity : ∀ i j, g_pt i j &&& mask = BitVec.ofNat w ((i.val * m + j.val) * PAGE_SIZE)
  present : ∀ i j, (g_pt i j).getLsbD 0 = true
  user : ∀ i j, (g_pt i j).getLsbD 2 = true → 0x00060000 ≤ (i.val * m + j.val) * PAGE_SIZE ∧
    (i.val * m + j.val) * PAGE_SIZE + PAGE_SIZE ≤ 0x0009F000

theorem Maps.confined {n m w : Nat} {mask : BitVec w} {g_pt : Fin n → Fin m → BitVec w}
    (h : Maps PAGE_SIZE mask UserPage g_pt) : Confined mask g_pt :=
  ⟨fun i j => (h i j).frame, fun i j => (h i j).present, fun i j => (h i j).user⟩

/-- `paging_core_init` that returns 0 on memory it has not run on has built the tables. -/
theorem paging_core_init_built {τ : Type} {enabled : τ → Bool} {build : τ → τ} {usable : Bool}
    {magic : Nat} {t : τ} (ht : enabled t = false)
    (h : (paging_core_init enabled build usable magic t).1 = true) :
    (paging_core_init enabled build usable magic t).2 = build t := by grind [paging_core_init]

/-- **User page confinement.** After a successful `paging_core_init` and `usermode_init`,
in every run of calls of `usermode_exec` on any files, program exits and stores, on either
build: the leaf tables are the identity map and ring 3 has pages of the user slots only. -/
theorem user_pages_confined (usable : Bool) (boot_magic : Nat) (env : Env) :
    (∀ (g_pt : Nat) (t : Tables32) (m : Machine Tables32),
      paging_core_init Tables32.g_paging_enabled (build_identity_tables_x86 g_pt) usable boot_magic
        Tables32.zero = (true, t) →
      Reach i386 (fun _ _ => True) (started i386 t env) m → Confined FRAME32 m.tables.g_pt) ∧
    ∀ (at_ : Symbols) (t : Tables64) (m : Machine Tables64),
      paging_core_init Tables64.g_paging_enabled (build_identity_tables_x64 at_) usable boot_magic
        Tables64.zero = (true, t) →
      Reach x86_64 (fun _ _ => True) (started x86_64 t env) m → Confined FRAME64 m.tables.g_pt := by
  constructor
  · intro g_pt t m hinit hreach
    have hbuilt := paging_core_init_built (t := Tables32.zero) rfl (congrArg Prod.fst hinit)
    have ht : t = build_identity_tables_x86 g_pt Tables32.zero := by rw [← hbuilt, hinit]
    have h0 : t.Identity UserPage := by
      rw [ht]
      apply build_identity_tables_x86_identity
    apply Maps.confined
    exact hreach.keeps i386_keeps (usermode_init_keeps i386_keeps (by decide) h0)
  · intro at_ t m hinit hreach
    have hbuilt := paging_core_init_built (t := Tables64.zero) rfl (congrArg Prod.fst hinit)
    have ht : t = build_identity_tables_x64 at_ Tables64.zero := by rw [← hbuilt, hinit]
    have h0 : t.Identity UserPage := by
      rw [ht]
      apply build_identity_tables_x64_identity
    apply Maps.confined
    exact hreach.keeps x86_64_keeps (usermode_init_keeps x86_64_keeps (by decide) h0)

/-- After one program has been entered from a generic boot. -/
theorem user_pages_confined_after_exec :
    Confined FRAME32 (booted32.step i386 (.exec commandCall)).tables.g_pt ∧
    Confined FRAME64 (booted64.step x86_64 (.exec commandCall)).tables.g_pt := by
  obtain ⟨h32, h64⟩ := user_pages_confined true 0 ⟨0, fun _ => 0, []⟩
  constructor
  · apply h32 0x200000 _ _ rfl
    exact Reach.start.step (.exec commandCall) trivial trivial
  · apply h64 ⟨0x200000, 0x201000, 0x202000⟩ _ _ rfl
    exact Reach.start.step (.exec commandCall) trivial trivial

end System1.Usermode
