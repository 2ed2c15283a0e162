/-
Changes of a FAT12 volume and what they do to its tree.

Three kinds are enough for every operation of the driver. A change of table entries that
no live entry owns and of slots that no live directory has is not seen at all (`Agree`). An
entry may be taken out, if it is a file or a directory with nothing but `.` and `..` in
it (`Removal`). And an entry may be put into a place that holds none, if it brings a chain
of its own (`Insertion`).

Each proof about a change goes through the tree twice, once from the old volume to the new
one and once back, since the live directories are the least ones on either side.
-/
import System1.Fat12Volume

set_option autoImplicit false

namespace System1.Fat12.Geometry

open System1.Lib

variable {g : Geometry} {V V' : Volume}

/-! ## Changes that are not seen -/

variable (g) in
/-- The second volume has what the first one's tree looks at. -/
structure Agree (V V' : Volume) : Prop where
  slots : ∀ ref, g.InDir V ref → V'.slot ref = V.slot ref
  fat : ∀ x, g.Owned V x → V'.fat x = V.fat x

theorem Agree.refl (V : Volume) : g.Agree V V := ⟨fun _ _ => rfl, fun _ _ => rfl⟩

variable {c x : Nat} {refs : List EntryRef} {ref : EntryRef}

section

variable (hS : g.Sound V) (hA : g.Agree V V')

include hS hA

/-- A live directory has the same slots. -/
theorem Agree.dirRefs (hdir : g.LiveDir V c)
    (hrefs : g.DirRefs V c refs) : g.DirRefs V' c refs := by
  obtain h | ⟨cs, hne, hchain, rfl⟩ := hrefs
  · exact .inl h
  obtain ⟨ref, hlive, -, -, howns⟩ := hS.dir_owned hdir hchain
  refine .inr ⟨cs, hne, hchain.congr ?_, rfl⟩
  intro x hx
  exact hA.fat x ⟨ref, cs, hlive, howns, hx⟩

theorem Agree.dirRefs_back (hdir : g.LiveDir V c) (hrefs' : g.DirRefs V' c refs) :
    g.DirRefs V c refs := by
  obtain ⟨refs₁, hrefs⟩ := hS.dirRefs hdir
  obtain rfl := hrefs'.unique (hA.dirRefs hS hdir hrefs)
  exact hrefs

omit hS in
theorem Agree.entries (hdir : g.LiveDir V c) (hrefs : g.DirRefs V c refs) :
    V'.entries refs = V.entries refs :=
  Volume.entries_congr fun r hr => hA.slots r ⟨c, refs, hdir, hrefs, hr⟩

/-- A live directory stays one, -/
theorem Agree.liveDir (hdir : g.LiveDir V c) : g.LiveDir V' c := by
  induction hdir with
  | root => exact .root
  | @sub c refs ref hdir hrefs hmem hdots hisDir ih =>
    have hslot := hA.slots ref ⟨c, refs, hdir, hrefs, (Volume.mem_of_entries hmem).1⟩
    rw [← hslot]
    apply LiveDir.sub ih (hA.dirRefs hS hdir hrefs)
    · rwa [hA.entries hdir hrefs]
    · rwa [hslot]
    · rwa [hslot]

/-- and was one before. -/
theorem Agree.liveDir_back (hdir : g.LiveDir V' c) : g.LiveDir V c := by
  induction hdir with
  | root => exact .root
  | @sub c refs ref hdir' hrefs' hmem hdots hisDir ih =>
    have hrefs := hA.dirRefs_back hS ih hrefs'
    rw [hA.entries ih hrefs] at hmem
    have hslot := hA.slots ref ⟨c, refs, ih, hrefs, (Volume.mem_of_entries hmem).1⟩
    rw [hslot] at hdots hisDir ⊢
    exact .sub ih hrefs hmem hdots hisDir

theorem Agree.liveEntry (h : g.LiveEntry V ref) : g.LiveEntry V' ref := by
  have hslot := hA.slots ref h.inDir
  obtain ⟨c, refs, hdir, hrefs, hmem, hdots⟩ := h
  refine ⟨c, refs, hA.liveDir hS hdir, hA.dirRefs hS hdir hrefs, ?_, ?_⟩
  · rwa [hA.entries hdir hrefs]
  · rwa [hslot]

/-- So do live entries. -/
theorem Agree.liveEntry_back (h : g.LiveEntry V' ref) : g.LiveEntry V ref := by
  obtain ⟨c, refs, hdir', hrefs', hmem, hdots⟩ := h
  have hdir := hA.liveDir_back hS hdir'
  have hrefs := hA.dirRefs_back hS hdir hrefs'
  rw [hA.entries hdir hrefs] at hmem
  have hslot := hA.slots ref ⟨c, refs, hdir, hrefs, (Volume.mem_of_entries hmem).1⟩
  rw [hslot] at hdots
  exact ⟨c, refs, hdir, hrefs, hmem, hdots⟩

omit hS in
theorem Agree.owns {cs : List Nat} (hlive : g.LiveEntry V ref) (h : g.Owns V (V.slot ref) cs) :
    g.Owns V' (V'.slot ref) cs := by
  rw [hA.slots ref hlive.inDir]
  exact h.congr fun x hx => hA.fat x ⟨ref, cs, hlive, h, hx⟩

theorem Agree.owned (h : g.Owned V x) : g.Owned V' x := by
  obtain ⟨ref, cs, hlive, howns, hx⟩ := h
  exact ⟨ref, cs, hA.liveEntry hS hlive, hA.owns hlive howns, hx⟩

theorem Agree.owned_back (h : g.Owned V' x) : g.Owned V x := by
  obtain ⟨ref, cs, hlive', howns', hx⟩ := h
  have hlive := hA.liveEntry_back hS hlive'
  obtain ⟨cs', howns, -⟩ := hS.owns ref hlive
  obtain rfl := (hA.owns hlive howns).unique howns'
  exact ⟨ref, cs', hlive, howns, hx⟩

/-- The tree of the second volume is the tree of the first. -/
theorem Agree.symm : g.Agree V' V where
  slots := by
    rintro ref ⟨c, refs, hdir', hrefs', hmem⟩
    have hdir := hA.liveDir_back hS hdir'
    exact (hA.slots ref ⟨c, refs, hdir, hA.dirRefs_back hS hdir hrefs', hmem⟩).symm
  fat := fun x hx => (hA.fat x (hA.owned_back hS hx)).symm

/-- A volume that agrees with a sound one is sound. -/
theorem Agree.sound : g.Sound V' where
  owns := by
    intro ref hlive'
    have hlive := hA.liveEntry_back hS hlive'
    obtain ⟨cs, howns, hfits⟩ := hS.owns ref hlive
    refine ⟨cs, hA.owns hlive howns, ?_⟩
    rwa [hA.slots ref hlive.inDir]
  disjoint := by
    intro ref ref' cs cs' hlive hlive' howns howns' hne
    have hback := hA.symm hS
    exact hS.disjoint ref ref' cs cs' (hA.liveEntry_back hS hlive) (hA.liveEntry_back hS hlive')
      (hback.owns hlive howns) (hback.owns hlive' howns') hne

end

theorem Agree.neat (hN : g.Neat V) (hA : g.Agree V V') : g.Neat V' where
  toSound := hA.sound hN.toSound
  tidy := by
    intro c refs hdir' hrefs'
    have hdir := hA.liveDir_back hN.toSound hdir'
    have hrefs := hA.dirRefs_back hN.toSound hdir hrefs'
    exact (hN.tidy c refs hdir hrefs).congr fun r hr => hA.slots r ⟨c, refs, hdir, hrefs, hr⟩

/-- And no name comes twice in it. -/
theorem Agree.distinct (hS : g.Sound V) (hA : g.Agree V V') (hD : g.Distinct V) :
    g.Distinct V' := by
  intro c refs ref ref' hdir' hrefs' hmem hmem' hname
  have hdir := hA.liveDir_back hS hdir'
  have hrefs := hA.dirRefs_back hS hdir hrefs'
  rw [hA.entries hdir hrefs] at hmem hmem'
  rw [hA.slots ref ⟨c, refs, hdir, hrefs, (Volume.mem_of_entries hmem).1⟩,
    hA.slots ref' ⟨c, refs, hdir, hrefs, (Volume.mem_of_entries hmem').1⟩] at hname
  exact hD c refs ref ref' hdir hrefs hmem hmem' hname

/-! ## One slot of a live directory -/

variable (g) in
/-- A place in a live directory where an entry is or can be put. -/
structure Place (V : Volume) (c : Nat) (refs : List EntryRef) (ref : EntryRef) : Prop where
  dir : g.LiveDir V c
  slots : g.DirRefs V c refs
  usable : V.Usable refs ref

variable (g) in
/-- A directory that holds nothing but `.` and `..`. -/
def Hollow (V : Volume) (c : Nat) : Prop :=
  ∀ refs, g.DirRefs V c refs → ∀ r ∈ V.entries refs, (V.slot r).dots = true

variable {c₀ : Nat} {refs₀ : List EntryRef} {ref₀ : EntryRef} {e : Slot}

theorem Place.inDir (h : g.Place V c₀ refs₀ ref₀) : g.InDir V ref₀ :=
  ⟨c₀, refs₀, h.dir, h.slots, h.usable.mem⟩

/-- In a well-formed volume the place holds an entry exactly when its slot is live. -/
theorem Place.mem_entries (hN : g.Neat V) (h : g.Place V c₀ refs₀ ref₀)
    (hlive : (V.slot ref₀).live = true) : ref₀ ∈ V.entries refs₀ :=
  (Volume.mem_entries_tidy (hN.tidy c₀ refs₀ h.dir h.slots)).mpr ⟨h.usable.mem, hlive⟩

variable {r : EntryRef}

variable (g) in
/-- A slot that is not free comes to a place of a well-formed volume. -/
structure Edit (V : Volume) (c₀ : Nat) (refs₀ : List EntryRef) (ref₀ : EntryRef) (e : Slot) :
    Prop extends Place g V c₀ refs₀ ref₀ where
  neat : g.Neat V
  ne_free : e.first ≠ FAT12_ENTRY_FREE

section

variable (h : g.Edit V c₀ refs₀ ref₀ e) (hdir : g.LiveDir V c) (hrefs : g.DirRefs V c refs)

include h hdir hrefs

/-- A slot may be freed or filled where the scan gets to it. -/
theorem Edit.tidy : (V.setSlot ref₀ e).Tidy refs := by
  have htidy := h.neat.tidy c refs hdir hrefs
  by_cases hmem : ref₀ ∈ refs
  · obtain rfl := h.neat.dir_unique hdir h.dir hrefs h.slots hmem h.usable.mem
    obtain rfl := hrefs.unique h.slots
    exact htidy.setSlot hrefs.nodup h.usable h.ne_free
  apply htidy.congr
  intro r hr
  exact V.setSlot_ne (ne_of_mem_of_not_mem hr hmem) e

theorem Edit.mem_iff :
    r ∈ (V.setSlot ref₀ e).entries refs ↔ r ∈ refs ∧ ((V.setSlot ref₀ e).slot r).live = true :=
  Volume.mem_entries_tidy (h.tidy hdir hrefs)

theorem Edit.mem_ne (hr : r ≠ ref₀) :
    r ∈ (V.setSlot ref₀ e).entries refs ↔ r ∈ V.entries refs := by
  rw [h.mem_iff hdir hrefs, V.setSlot_ne hr,
    Volume.mem_entries_tidy (h.neat.tidy c refs hdir hrefs)]

end

/-! ## Taking an entry out -/

variable (g) in
/-- The place is marked deleted. If it held a directory, that one was empty. -/
structure Removal (V : Volume) (c₀ : Nat) (refs₀ : List EntryRef) (ref₀ : EntryRef) (e : Slot) :
    Prop extends Place g V c₀ refs₀ ref₀ where
  neat : g.Neat V
  deleted : e.first = FAT12_ENTRY_DELETED
  hollow : (V.slot ref₀).live = true → (V.slot ref₀).dots = false → (V.slot ref₀).isDir = true →
    g.Hollow V (V.slot ref₀).cluster

namespace Removal

/-- The directory that goes with the entry. -/
def Gone (V : Volume) (ref₀ : EntryRef) (c : Nat) : Prop :=
  (V.slot ref₀).live = true ∧ (V.slot ref₀).dots = false ∧ (V.slot ref₀).isDir = true ∧
    c = (V.slot ref₀).cluster

variable (h : g.Removal V c₀ refs₀ ref₀ e)

include h

theorem edit : g.Edit V c₀ refs₀ ref₀ e :=
  ⟨h.toPlace, h.neat, by rw [h.deleted]; decide⟩

theorem dead : e.live = false := by
  simp [Slot.live, Slot.skipped, h.deleted]

theorem not_gone_of_entry (hrefs : g.DirRefs V c refs) (hr : r ∈ V.entries refs)
    (hdots : (V.slot r).dots = false) :
    ¬ Gone V ref₀ c := by
  rintro ⟨hlive, hdots₀, hisDir, rfl⟩
  rw [h.hollow hlive hdots₀ hisDir refs hrefs r hr] at hdots
  cases hdots

theorem liveEntry_of_live (hlive : (V.slot ref₀).live = true) (hdots : (V.slot ref₀).dots = false) :
    g.LiveEntry V ref₀ :=
  ⟨c₀, refs₀, h.dir, h.slots, h.toPlace.mem_entries h.neat hlive, hdots⟩

/-- Removing an entry leaves every directory that does not hang from it. -/
theorem liveDir (hdir : g.LiveDir V c) (hgone : ¬ Gone V ref₀ c) :
    g.LiveDir (V.setSlot ref₀ e) c := by
  induction hdir with
  | root => exact .root
  | @sub c refs ref hdir hrefs hmem hdots hisDir ih =>
    have hne : ref ≠ ref₀ := by
      rintro rfl
      exact hgone ⟨(Volume.mem_of_entries hmem).2, hdots, hisDir, rfl⟩
    have hslot := V.setSlot_ne hne e
    rw [← hslot]
    apply LiveDir.sub (ih (h.not_gone_of_entry hrefs hmem hdots)) hrefs
    · exact (h.edit.mem_ne hdir hrefs hne).mpr hmem
    · rwa [hslot]
    · rwa [hslot]

theorem ne_of_entry (hdir : g.LiveDir V c) (hrefs : g.DirRefs V c refs)
    (hr : r ∈ (V.setSlot ref₀ e).entries refs) : r ≠ ref₀ := by
  rintro rfl
  have hlive := ((h.edit.mem_iff hdir hrefs).mp hr).2
  rw [Volume.setSlot_self, h.dead] at hlive
  cases hlive

/-- What is a live directory after the removal was one before, and did not hang from the
entry. -/
theorem liveDir_back (hdir : g.LiveDir (V.setSlot ref₀ e) c) :
    g.LiveDir V c ∧ ¬ Gone V ref₀ c := by
  have hN := h.neat
  induction hdir with
  | root =>
    refine ⟨.root, ?_⟩
    rintro ⟨hlive, hdots, hisDir, hzero⟩
    -- a directory entry leads to a chain, and there is none from 0
    obtain ⟨cs, howns, hfits⟩ := hN.owns ref₀ (h.liveEntry_of_live hlive hdots)
    unfold Fits at hfits
    rw [if_pos hisDir] at hfits
    obtain ⟨-, rfl⟩ | ⟨-, hchain⟩ := howns
    · exact hfits rfl
    · rw [← hzero] at hchain
      exact not_chain_zero hchain
  | @sub c refs ref hdir' hrefs hmem hdots hisDir ih =>
    obtain ⟨hdir, -⟩ := ih
    have hne := h.ne_of_entry hdir hrefs hmem
    have hmem' := (h.edit.mem_ne hdir hrefs hne).mp hmem
    rw [V.setSlot_ne hne] at hdots hisDir ⊢
    refine ⟨.sub hdir hrefs hmem' hdots hisDir, ?_⟩
    rintro ⟨hlive₀, hdots₀, hisDir₀, heq⟩
    -- two entries with one first cluster
    have hentry : g.LiveEntry V ref := ⟨c, refs, hdir, hrefs, hmem', hdots⟩
    have hentry₀ := h.liveEntry_of_live hlive₀ hdots₀
    obtain ⟨cs, howns, hfits⟩ := hN.owns ref hentry
    unfold Fits at hfits
    rw [if_pos hisDir] at hfits
    have howns₀ : g.Owns V (V.slot ref₀) cs := by
      unfold Owns
      rw [← heq]
      exact howns
    obtain ⟨-, rfl⟩ | ⟨hcs, hchain⟩ := howns
    · exact hfits rfl
    · exact hN.disjoint ref ref₀ cs cs hentry hentry₀ (.inr ⟨hcs, hchain⟩) howns₀ hne
        (hchain.head_mem hcs) (hchain.head_mem hcs)

/-- One live entry less. -/
theorem liveEntry_iff :
    g.LiveEntry (V.setSlot ref₀ e) r ↔ g.LiveEntry V r ∧ r ≠ ref₀ := by
  constructor
  · rintro ⟨c, refs, hdir', hrefs, hmem, hdots⟩
    obtain ⟨hdir, -⟩ := h.liveDir_back hdir'
    have hne := h.ne_of_entry hdir hrefs hmem
    rw [V.setSlot_ne hne] at hdots
    have hmem' := (h.edit.mem_ne hdir hrefs hne).mp hmem
    exact ⟨⟨c, refs, hdir, hrefs, hmem', hdots⟩, hne⟩
  · rintro ⟨⟨c, refs, hdir, hrefs, hmem, hdots⟩, hne⟩
    refine ⟨c, refs, h.liveDir hdir (h.not_gone_of_entry hrefs hmem hdots), hrefs, ?_, ?_⟩
    · exact (h.edit.mem_ne hdir hrefs hne).mpr hmem
    · rwa [V.setSlot_ne hne]

/-- Removing an entry that nothing hangs from keeps the volume sound. -/
theorem after : g.Neat (V.setSlot ref₀ e) where
  owns := by
    intro r hr
    obtain ⟨hlive, hne⟩ := h.liveEntry_iff.mp hr
    rw [V.setSlot_ne hne]
    exact h.neat.owns r hlive
  disjoint := by
    intro r r' cs cs' hr hr' howns howns' hne
    obtain ⟨hlive, hr₀⟩ := h.liveEntry_iff.mp hr
    obtain ⟨hlive', hr₀'⟩ := h.liveEntry_iff.mp hr'
    rw [V.setSlot_ne hr₀] at howns
    rw [V.setSlot_ne hr₀'] at howns'
    exact h.neat.disjoint r r' cs cs' hlive hlive' howns howns' hne
  tidy := by
    intro c refs hdir' hrefs
    exact h.edit.tidy (h.liveDir_back hdir').1 hrefs

/-- And its names distinct. -/
theorem distinct (hD : g.Distinct V) : g.Distinct (V.setSlot ref₀ e) := by
  intro c refs r r' hdir' hrefs hr hr' hname
  obtain ⟨hdir, -⟩ := h.liveDir_back hdir'
  have hne := h.ne_of_entry hdir hrefs hr
  have hne' := h.ne_of_entry hdir hrefs hr'
  rw [V.setSlot_ne hne, V.setSlot_ne hne'] at hname
  have hmem := (h.edit.mem_ne hdir hrefs hne).mp hr
  have hmem' := (h.edit.mem_ne hdir hrefs hne').mp hr'
  exact hD c refs r r' hdir hrefs hmem hmem' hname

/-- The other entries keep their clusters. -/
theorem owned_back (hx : g.Owned (V.setSlot ref₀ e) x) :
    ∃ r cs, r ≠ ref₀ ∧ g.LiveEntry V r ∧ g.Owns V (V.slot r) cs ∧ x ∈ cs := by
  obtain ⟨r, cs, hr, howns, hmem⟩ := hx
  obtain ⟨hlive, hne⟩ := h.liveEntry_iff.mp hr
  rw [V.setSlot_ne hne] at howns
  exact ⟨r, cs, hne, hlive, howns, hmem⟩

/-- The clusters of the entry are nobody's. -/
theorem not_owned {cs : List Nat} (hlive : (V.slot ref₀).live = true)
    (hdots : (V.slot ref₀).dots = false) (howns : g.Owns V (V.slot ref₀) cs) (hx : x ∈ cs) :
    ¬ g.Owned (V.setSlot ref₀ e) x := by
  intro howned
  obtain ⟨r, cs', hne, hr, howns', hx'⟩ := h.owned_back howned
  exact h.neat.disjoint r ref₀ cs' cs hr (h.liveEntry_of_live hlive hdots) howns' howns hne hx' hx

end Removal

/-! ## Putting an entry in -/

variable (g) in
/-- An entry comes to a place that holds none. Unless it is `.` or `..` it brings a chain
that nobody owns; a new directory has nothing in it. -/
structure Insertion (V : Volume) (c₀ : Nat) (refs₀ : List EntryRef) (ref₀ : EntryRef) (e : Slot)
    (cs₀ : List Nat) : Prop extends Place g V c₀ refs₀ ref₀ where
  neat : g.Neat V
  vacant : (V.slot ref₀).live = false
  live : e.live = true
  owns : e.dots = false → g.Owns V e cs₀
  fits : e.dots = false → g.Fits e cs₀
  unowned : ∀ x ∈ cs₀, ¬ g.Owned V x
  empty : e.isDir = true → ∀ r ∈ g.chainRefs cs₀, (V.slot r).first = FAT12_ENTRY_FREE

namespace Insertion

variable {cs₀ : List Nat} (h : g.Insertion V c₀ refs₀ ref₀ e cs₀)

include h

theorem edit : g.Edit V c₀ refs₀ ref₀ e := by
  have hlive := h.live
  simp only [Slot.live, decide_eq_true_eq] at hlive
  exact ⟨h.toPlace, h.neat, hlive.1⟩

theorem ne_of_entry (hr : r ∈ V.entries refs) : r ≠ ref₀ := by
  rintro rfl
  have hlive := (Volume.mem_of_entries hr).2
  rw [h.vacant] at hlive
  cases hlive

/-- A new entry hides no directory. -/
theorem liveDir (hdir : g.LiveDir V c) : g.LiveDir (V.setSlot ref₀ e) c := by
  induction hdir with
  | root => exact .root
  | @sub c refs ref hdir hrefs hmem hdots hisDir ih =>
    have hne := h.ne_of_entry hmem
    have hslot := V.setSlot_ne hne e
    rw [← hslot]
    apply LiveDir.sub ih hrefs
    · exact (h.edit.mem_ne hdir hrefs hne).mpr hmem
    · rwa [hslot]
    · rwa [hslot]

section

variable (hdots : e.dots = false) (hisDir : e.isDir = true) (hrefs : g.DirRefs V e.cluster refs)

include hdots hisDir hrefs

/-- The slots of the new directory: they are free and stay so. -/
theorem new_free :
    ∀ r ∈ refs, ((V.setSlot ref₀ e).slot r).first = FAT12_ENTRY_FREE := by
  have hfits := h.fits hdots
  unfold Fits at hfits
  rw [if_pos hisDir] at hfits
  obtain ⟨-, hnil⟩ | ⟨-, hchain⟩ := h.owns hdots
  · exact absurd hnil hfits
  have hrefs' : refs = g.chainRefs cs₀ := hrefs.unique (.inr ⟨cs₀, hfits, hchain, rfl⟩)
  rw [hrefs']
  intro r hr
  have hne : r ≠ ref₀ := by
    rintro rfl
    obtain ⟨x, hx, hlba⟩ := mem_chainRefs hr
    exact h.unowned x hx (h.neat.owned_of_inDir h.toPlace.inDir (hchain.inRange hx) hlba)
  rw [V.setSlot_ne hne]
  exact h.empty hisDir r hr

theorem new_entries (hr : r ∈ (V.setSlot ref₀ e).entries refs) : False := by
  obtain ⟨hmem, hlive⟩ := Volume.mem_of_entries hr
  have hfree := h.new_free hdots hisDir hrefs r hmem
  simp [Slot.live, hfree] at hlive

end

/-- The only new directory is the one it is the entry of. -/
theorem liveDir_back (hdir : g.LiveDir (V.setSlot ref₀ e) c) :
    g.LiveDir V c ∨ (e.dots = false ∧ e.isDir = true ∧ c = e.cluster) := by
  induction hdir with
  | root => exact .inl .root
  | @sub c refs ref hdir' hrefs hmem hdots hisDir ih =>
    obtain hdir | ⟨hdots₀, hisDir₀, rfl⟩ := ih
    · by_cases hne : ref = ref₀
      · simp_all
      rw [V.setSlot_ne hne] at hdots hisDir ⊢
      have hmem' := (h.edit.mem_ne hdir hrefs hne).mp hmem
      exact .inl (.sub hdir hrefs hmem' hdots hisDir)
    · exact (h.new_entries hdots₀ hisDir₀ hrefs hmem).elim

/-- One live entry more. -/
theorem liveEntry_iff :
    g.LiveEntry (V.setSlot ref₀ e) r ↔ g.LiveEntry V r ∨ (r = ref₀ ∧ e.dots = false) := by
  constructor
  · rintro ⟨c, refs, hdir', hrefs, hmem, hdots⟩
    obtain hdir | ⟨hdots₀, hisDir₀, rfl⟩ := h.liveDir_back hdir'
    · by_cases hne : r = ref₀
      · simp_all
      rw [V.setSlot_ne hne] at hdots
      have hmem' := (h.edit.mem_ne hdir hrefs hne).mp hmem
      exact .inl ⟨c, refs, hdir, hrefs, hmem', hdots⟩
    · exact (h.new_entries hdots₀ hisDir₀ hrefs hmem).elim
  · rintro (⟨c, refs, hdir, hrefs, hmem, hdots⟩ | ⟨rfl, hdots⟩)
    · have hne := h.ne_of_entry hmem
      refine ⟨c, refs, h.liveDir hdir, hrefs, ?_, ?_⟩
      · exact (h.edit.mem_ne hdir hrefs hne).mpr hmem
      · rwa [V.setSlot_ne hne]
    · refine ⟨c₀, refs₀, h.liveDir h.dir, h.slots, ?_, ?_⟩
      · rw [h.edit.mem_iff h.dir h.slots, Volume.setSlot_self]
        exact ⟨h.usable.mem, h.live⟩
      · rwa [Volume.setSlot_self]

theorem ne_of_live (hr : g.LiveEntry V r) : r ≠ ref₀ := by
  obtain ⟨c, refs, -, -, hmem, -⟩ := hr
  exact h.ne_of_entry hmem

/-- Adding an entry with a chain of its own keeps the volume sound. -/
theorem after : g.Neat (V.setSlot ref₀ e) where
  owns := by
    intro r hr
    obtain hlive | ⟨rfl, hdots⟩ := h.liveEntry_iff.mp hr
    · rw [V.setSlot_ne (h.ne_of_live hlive)]
      exact h.neat.owns r hlive
    · rw [Volume.setSlot_self]
      exact ⟨cs₀, h.owns hdots, h.fits hdots⟩
  disjoint := by
    intro r r' cs cs' hr hr' howns howns' hne
    -- the chain of the new entry is met by no other
    have hnew : ∀ {r cs}, g.LiveEntry V r → g.Owns V (V.slot r) cs → cs.Disjoint cs₀ := by
      intro r cs hlive howns x hx hx₀
      exact h.unowned x hx₀ ⟨r, cs, hlive, howns, hx⟩
    obtain hlive | ⟨rfl, hdots⟩ := h.liveEntry_iff.mp hr
    · rw [V.setSlot_ne (h.ne_of_live hlive)] at howns
      obtain hlive' | ⟨rfl, hdots⟩ := h.liveEntry_iff.mp hr'
      · rw [V.setSlot_ne (h.ne_of_live hlive')] at howns'
        exact h.neat.disjoint r r' cs cs' hlive hlive' howns howns' hne
      rw [Volume.setSlot_self] at howns'
      rw [show cs' = cs₀ from Owns.unique howns' (h.owns hdots)]
      exact hnew hlive howns
    · rw [Volume.setSlot_self] at howns
      rw [show cs = cs₀ from Owns.unique howns (h.owns hdots)]
      obtain hlive' | ⟨rfl, -⟩ := h.liveEntry_iff.mp hr'
      · rw [V.setSlot_ne (h.ne_of_live hlive')] at howns'
        exact (hnew hlive' howns').symm
      · exact absurd rfl hne
  tidy := by
    intro c refs hdir' hrefs
    obtain hdir | ⟨hdots₀, hisDir₀, rfl⟩ := h.liveDir_back hdir'
    · exact h.edit.tidy hdir hrefs
    apply List.pairwise_of_forall_mem_list
    intro r hr r' hr' _
    exact h.new_free hdots₀ hisDir₀ hrefs r' hr'

/-- A name that is new in its directory. -/
theorem distinct (hD : g.Distinct V) (hfresh : ∀ r ∈ V.entries refs₀, (V.slot r).name ≠ e.name) :
    g.Distinct (V.setSlot ref₀ e) := by
  intro c refs r r' hdir' hrefs hr hr' hname
  obtain hdir | ⟨hdots₀, hisDir₀, rfl⟩ := h.liveDir_back hdir'
  swap
  · exact (h.new_entries hdots₀ hisDir₀ hrefs hr).elim
  -- in its own directory the new name meets the old ones
  have hnew : ∀ {r}, ref₀ ∈ refs → r ∈ (V.setSlot ref₀ e).entries refs → r ≠ ref₀ →
      (V.slot r).name ≠ e.name := by
    intro r hmem hr hne
    obtain rfl := h.neat.dir_unique hdir h.dir hrefs h.slots hmem h.usable.mem
    obtain rfl := hrefs.unique h.slots
    exact hfresh r ((h.edit.mem_ne hdir hrefs hne).mp hr)
  by_cases hne : r = ref₀
  · grind [Volume.setSlot_self, V.setSlot_ne, Volume.mem_of_entries]
  by_cases hne' : r' = ref₀
  · grind [Volume.setSlot_self, V.setSlot_ne, Volume.mem_of_entries]
  rw [V.setSlot_ne hne, V.setSlot_ne hne'] at hname
  have hmem := (h.edit.mem_ne hdir hrefs hne).mp hr
  have hmem' := (h.edit.mem_ne hdir hrefs hne').mp hr'
  exact hD c refs r r' hdir hrefs hmem hmem' hname

/-- The clusters of the new entry are those of its chain. -/
theorem owned_iff :
    g.Owned (V.setSlot ref₀ e) x ↔ g.Owned V x ∨ (e.dots = false ∧ x ∈ cs₀) := by
  constructor
  · rintro ⟨r, cs, hr, howns, hx⟩
    obtain hlive | ⟨rfl, hdots⟩ := h.liveEntry_iff.mp hr
    · rw [V.setSlot_ne (h.ne_of_live hlive)] at howns
      exact .inl ⟨r, cs, hlive, howns, hx⟩
    rw [Volume.setSlot_self] at howns
    rw [show cs = cs₀ from Owns.unique howns (h.owns hdots)] at hx
    exact .inr ⟨hdots, hx⟩
  · rintro (⟨r, cs, hlive, howns, hx⟩ | ⟨hdots, hx⟩)
    · refine ⟨r, cs, h.liveEntry_iff.mpr (.inl hlive), ?_, hx⟩
      rw [V.setSlot_ne (h.ne_of_live hlive)]
      exact howns
    · refine ⟨ref₀, cs₀, h.liveEntry_iff.mpr (.inr ⟨rfl, hdots⟩), ?_, hx⟩
      rw [Volume.setSlot_self]
      exact h.owns hdots

end Insertion

end System1.Fat12.Geometry
