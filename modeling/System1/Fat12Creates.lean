/-
Making a directory: `fat12_core_create_dir_on_device`.

The new cluster is taken before anything points to it, and it is cleared before the entry
in the parent is written. So at every moment the entry, if it is there, leads to a
directory whose slots are free but for `.` and `..`, which come last. A device that stops
the driver leaves a directory without them, or a cluster that nobody owns.

A name can start with the byte that marks a deleted slot. Then the entry is a deleted slot
from the start: the directory is not there, and its cluster is lost. Such a name counts as
`sloppy` here, as a device that fails does.
-/
import System1.Fat12Removes

set_option autoImplicit false

namespace System1.Fat12

open System1.Lib List

/-- The entry of a directory. -/
def dirEntry (name83 : Name83) (cluster : Nat) : Slot :=
  fat12_image_write_dir_entry name83 FAT12_ATTR_DIRECTORY cluster 0

theorem dirEntry_isDir (name83 : Name83) (cluster : Nat) :
    (dirEntry name83 cluster).isDir = true := by
  unfold dirEntry
  rw [image_isDir]
  decide

theorem dirEntry_name (name83 : Name83) (cluster : Nat) : (dirEntry name83 cluster).name = name83 :=
  image_name ..

theorem dirEntry_clip (name83 : Name83) (cluster : Nat) :
    (dirEntry name83 cluster).clip = dirEntry name83 cluster := image_clip ..

namespace Geometry

variable {g : Geometry} {faults : Prop} {d d' : Disk} {fuel : Nat}

/-! ## A cluster on its own -/

theorem Taken.chain {c : Nat} (h : g.Taken c d d') (hc : g.InRange c) :
    g.Chain (g.view d').fat c [c] := by
  refine .cons hc (.nil ?_)
  rw [h.eoc]
  decide

theorem InRange.dirEntry_cluster {c : Nat} (hc : g.InRange c) (name83 : Name83) :
    (dirEntry name83 c).cluster = c := by
  have hlt := hc.lt_4096
  exact image_cluster name83 FAT12_ATTR_DIRECTORY (by omega) 0

theorem InRange.lba_eq {c : Nat} (hc : g.InRange c) :
    u32 (fat12_cluster_to_lba g.b c + 0) = fat12_cluster_to_lba g.b c := by
  have h2 := hc.1
  grind [fat12_cluster_to_lba, u32]

theorem chainRefs_one (c : Nat) : g.chainRefs [c] = refsOf (clusterLbas g.b c) := by
  unfold chainRefs
  rw [flatMap_singleton]

/-- The places of `.` and `..` are the first two of a cluster. -/
theorem chainRefs_head {c : Nat} (hc : g.InRange c) : ∃ rest, g.chainRefs [c] =
    ⟨fat12_cluster_to_lba g.b c, 0⟩ :: ⟨fat12_cluster_to_lba g.b c, 32⟩ :: rest := by
  obtain ⟨n, hn⟩ := Nat.exists_eq_succ_of_ne_zero g.b.spc_pos.ne'
  rw [chainRefs_one, clusterLbas, hn, lbaRange_succ, hc.lba_eq]
  exact ⟨_, rfl⟩

theorem Taken.slots_free {c : Nat} (h : g.Taken c d d') {r : EntryRef} (hr : r ∈ g.chainRefs [c]) :
    (g.view d').slot r = fun _ => 0 := by
  rw [chainRefs_one] at hr
  have hzero := h.zero r.lba (mem_refsOf.mp hr).1
  grind [view, Slot.clip, slotAt]

/-- A slot of a cluster is in its sectors only. -/
theorem onlyIn_put {c : Nat} {ref : EntryRef} (hlba : ref.lba ∈ clusterLbas g.b c) (e : Slot) :
    g.OnlyIn c d (putEntry d ref e) := by
  intro lba hne
  apply putEntry_other
  rintro rfl
  exact hne hlba

theorem view_slot_clip (ref : EntryRef) : ((g.view d).slot ref).clip = (g.view d).slot ref := by
  grind [Slot.clip, view]

/-- The mark for a place that is about to be used. -/
theorem clip_mark (ref : EntryRef) :
    ((g.view d).slot ref).asDeleted.clip = ((g.view d).slot ref).asDeleted := by
  rw [clip_asDeleted, view_slot_clip]

/-! ## The entry in the parent -/

section

variable {c₀ c : Nat} {refs₀ : List EntryRef} {ref₀ : EntryRef} {leaf83 : Name83}

variable (g) in
/-- A directory in one cluster that has nothing in it yet. -/
structure Blank (d : Disk) (c : Nat) : Prop where
  neat : g.Neat (g.view d)
  dir : g.LiveDir (g.view d) c
  chain : g.Chain (g.view d).fat c [c]
  free : ∀ r ∈ g.chainRefs [c], ((g.view d).slot r).first = FAT12_ENTRY_FREE

section Enter

variable (hN : g.Neat (g.view d)) (hP : g.Place (g.view d) c₀ refs₀ ref₀)
  (hdead : ((g.view d).slot ref₀).live = false) (hc : g.InRange c)
  (hfree : (g.view d).fat c = FAT12_CLUSTER_FREE) (htaken : g.Taken c d d')

include hN hP hdead hc hfree htaken

omit htaken in
theorem unowned_mark : ∀ x ∈ ({c} : Set Nat),
    g.InRange x ∧ ¬ g.Owned ((g.view d).setSlot ref₀ ((g.view d).slot ref₀).asDeleted) x := by
  have hR := hP.removal hN hdead (asDeleted_first ((g.view d).slot ref₀))
  rintro x rfl
  refine ⟨hc, fun howned => ?_⟩
  obtain ⟨r, cs, -, hr, howns, hx⟩ := hR.owned_back howned
  exact Owned.ne_free ⟨r, cs, hr, howns, hx⟩ hfree

variable (hzero : leaf83 0 ≠ FAT12_ENTRY_FREE) (hdel : leaf83 0 ≠ FAT12_ENTRY_DELETED)
  (hdot : leaf83 0 ≠ DOT)

include hzero hdel hdot

omit hdot in
/-- The entry of the new directory may be inserted. -/
theorem enter_insertion : g.Insertion
    ((g.view d').setSlot ref₀ ((g.view d).slot ref₀).asDeleted) c₀ refs₀ ref₀ (dirEntry leaf83 c)
    [c] := by
  have hR := hP.removal hN hdead (asDeleted_first ((g.view d).slot ref₀))
  have hcluster := hc.dirEntry_cluster leaf83
  have hun := unowned_mark hN hP hdead hc hfree
  apply insertion_of hR
    (htaken.touched.agree_put hP.inDir.isRef (clip_mark ref₀) hR.after.toSound hun)
  · exact image_live leaf83 (.inr rfl) c 0 hzero hdel
  · refine .inr ⟨by simp, ?_⟩
    rw [hcluster]
    exact htaken.chain hc
  · unfold Fits
    rw [if_pos (dirEntry_isDir leaf83 c)]
    simp
  · exact fun x hx => (hun x (mem_singleton.mp hx)).2
  · intro _ r hr
    rw [htaken.slots_free hr]
    rfl

/-- With the entry written the directory is there, and nothing else has changed. -/
theorem after_enter {sloppy : Prop}
    (hfresh : sloppy ∨ ∀ r ∈ (g.view d).entries refs₀, ((g.view d).slot r).name ≠ leaf83) :
    g.After sloppy (fun _ => False) d (putEntry d' ref₀ (dirEntry leaf83 c)) := by
  have hR := hP.removal hN hdead (asDeleted_first ((g.view d).slot ref₀))
  have hI := enter_insertion hN hP hdead hc hfree htaken hzero hdel
  have hname := dirEntry_name leaf83 c
  have hnot : ¬ g.LiveEntry (g.view d) ref₀ := not_liveEntry hdead
  have hafter : g.After sloppy (· = ref₀) d (putEntry d' ref₀ (dirEntry leaf83 c)) := by
    apply after_put hR (clip_mark ref₀) htaken.touched (unowned_mark hN hP hdead hc hfree) hI
    · exact dirEntry_clip leaf83 c
    · apply not_dots_of_name
      rw [hname]
      exact hdot
    · refine hfresh.imp id fun hfresh => ⟨?_, ?_, htaken.mirrored⟩
      · intro x hx hne
        rw [htaken.touched.view_fat (show x ∉ ({c} : Set Nat) by simpa using hx)] at hne
        exact ⟨hne, fun _ hlive => absurd hlive hnot⟩
      · intro r hr _
        rw [hname]
        exact hfresh r hr
  exact hafter.mono id fun r hlive heq => hnot (heq ▸ hlive)

/-- Its cluster is blank. -/
theorem blank_enter : g.Blank (putEntry d' ref₀ (dirEntry leaf83 c)) c := by
  have href : g.IsRef ref₀ := hP.inDir.isRef
  have hI := enter_insertion hN hP hdead hc hfree htaken hzero hdel
  have hview : g.view (putEntry d' ref₀ (dirEntry leaf83 c)) =
      ((g.view d').setSlot ref₀ ((g.view d).slot ref₀).asDeleted).setSlot ref₀
        (dirEntry leaf83 c) := by
    rw [view_putEntry href, Volume.setSlot_setSlot, dirEntry_clip]
  have hcluster := hc.dirEntry_cluster leaf83
  have hdots : (dirEntry leaf83 c).dots = false := by
    apply not_dots_of_name
    rw [dirEntry_name]
    exact hdot
  constructor
  · rw [hview]
    exact hI.after
  · rw [hview]
    have hself := Volume.setSlot_self ((g.view d').setSlot ref₀ ((g.view d).slot ref₀).asDeleted)
      ref₀ (dirEntry leaf83 c)
    have hdir : g.LiveDir _ _ := LiveDir.sub (hI.liveDir hI.dir) hI.slots
      ((hI.edit.mem_iff hI.dir hI.slots).mpr
        ⟨hI.usable.mem, by rw [hself]; exact hI.live⟩)
      (by rw [hself]; exact hdots) (by rw [hself]; exact dirEntry_isDir leaf83 c)
    rw [hself, hcluster] at hdir
    exact hdir
  · rw [hview]
    exact htaken.chain hc
  · intro r hr
    rw [hview]
    refine hI.new_free hdots (dirEntry_isDir leaf83 c) (.inr ⟨[c], by simp, ?_, rfl⟩) r hr
    rw [hcluster]
    exact htaken.chain hc

end Enter

end

/-! ## `.` and `..` -/

section

variable {c : Nat}

/-- `.` or `..` goes to a place of a directory whose other entries have other names. -/
theorem dots_insertion {refs : List EntryRef} {ref : EntryRef} {name83 : Name83} (cluster : Nat)
    (hname : name83 = dot83 ∨ name83 = dotdot83) (hN : g.Neat (g.view d))
    (hP : g.Place (g.view d) c refs ref) (hfree : ((g.view d).slot ref).first = FAT12_ENTRY_FREE) :
    g.Insertion (g.view d) c refs ref (dirEntry name83 cluster) [] := by
  have h0 : name83 0 = DOT := by
    obtain rfl | rfl := hname
    · decide
    · decide
  have hdots : (dirEntry name83 cluster).dots = true := by
    unfold Slot.dots
    rw [dirEntry_name]
    simpa using hname
  refine ⟨hP, hN, by simp [Slot.live, hfree], ?_, ?_, ?_, by simp, ?_⟩
  · apply image_live name83 (.inr rfl) cluster 0
    · rw [h0]
      decide
    · rw [h0]
      decide
  · intro h
    rw [hdots] at h
    cases h
  · intro h
    rw [hdots] at h
    cases h
  · intro _ r hr
    cases hr

/-- `.` and `..` are written to a blank cluster, and are no entries. -/
theorem Blank.after_dot (sloppy : Prop) (named : EntryRef → Prop) (h : g.Blank d c)
    {r₀ r₁ : EntryRef} {rest : List EntryRef} (hrest : g.chainRefs [c] = r₀ :: r₁ :: rest)
    (hne : r₁ ≠ r₀) (cluster parent : Nat) :
    g.After sloppy named d (putEntry d r₀ (dirEntry dot83 cluster)) ∧
    g.After sloppy named d
      (putEntry (putEntry d r₀ (dirEntry dot83 cluster)) r₁ (dirEntry dotdot83 parent)) := by
  have hslots : g.DirRefs (g.view d) c (g.chainRefs [c]) := .inr ⟨[c], by simp, h.chain, rfl⟩
  have hfirst : r₀ ∈ g.chainRefs [c] := by simp [hrest]
  have hsecond : r₁ ∈ g.chainRefs [c] := by simp [hrest]
  have hnone : (g.view d).entries (g.chainRefs [c]) = [] := by
    apply eq_nil_iff_forall_not_mem.mpr
    intro r hr
    obtain ⟨hmem, hlive⟩ := Volume.mem_of_entries hr
    simp [Slot.live, h.free r hmem] at hlive
  have hI := dots_insertion cluster (.inl rfl) h.neat
    ⟨h.dir, hslots, [], _, hrest, fun r hr => by cases hr⟩ (h.free _ hfirst)
  have hdot : g.After sloppy named d _ := after_dots hI (dirEntry_clip dot83 cluster) fun r hr => by
    rw [hnone] at hr
    cases hr
  refine ⟨hdot, hdot.trans ?_ fun r hn _ => hn⟩
  -- the second slot, behind the first
  have hview : g.view (putEntry d r₀ (dirEntry dot83 cluster)) =
      (g.view d).setSlot r₀ (dirEntry dot83 cluster) := by
    rw [view_putEntry (hslots.isRef hfirst), dirEntry_clip]
  have hother : ∀ r ∈ g.chainRefs [c], r ≠ r₀ →
      ((g.view (putEntry d r₀ (dirEntry dot83 cluster))).slot r).first = FAT12_ENTRY_FREE := by
    intro r hr hne
    rw [hview, Volume.setSlot_ne _ hne]
    exact h.free r hr
  have hP : g.Place (g.view (putEntry d r₀ (dirEntry dot83 cluster))) c (g.chainRefs [c]) r₁ := by
    refine ⟨?_, ?_, [r₀], rest, hrest, ?_⟩
    · rw [hview]
      exact hI.liveDir h.dir
    · rw [hview]
      exact hslots
    · intro r hr
      obtain rfl := mem_singleton.mp hr
      rw [hview, Volume.setSlot_self]
      exact hI.edit.ne_free
  apply after_dots (dots_insertion parent (.inr rfl) hdot.neat hP (hother _ hsecond hne))
    (dirEntry_clip dotdot83 parent)
  intro r hr
  obtain ⟨hmem, hlive⟩ := Volume.mem_of_entries hr
  by_cases heq : r = r₀
  · rw [heq, hview, Volume.setSlot_self, dirEntry_name, dirEntry_name]
    decide
  · simp [Slot.live, hother r hmem heq] at hlive

end

/-! ## A name that is taken for a deleted one -/

/-- A place that holds no entry is marked with bytes that are none either. -/
theorem after_mark {sloppy : Prop} {c₀ : Nat} {refs₀ : List EntryRef} {ref₀ : EntryRef} {e : Slot}
    (hR : g.Removal (g.view d) c₀ refs₀ ref₀ e) (hdead : ((g.view d).slot ref₀).live = false)
    (hclip : e.clip = e) : g.After sloppy (fun _ => False) d (putEntry d ref₀ e) := by
  have hdir := hR.toPlace.inDir
  have hkept : ∀ r, g.LiveEntry (g.view d) r →
      r ≠ ref₀ ∧ g.LiveEntry ((g.view d).setSlot ref₀ e) r := by
    intro r hlive
    have hne : r ≠ ref₀ := by
      rintro rfl
      exact not_liveEntry hdead hlive
    exact ⟨hne, hR.liveEntry_iff.mpr ⟨hlive, hne⟩⟩
  refine after_slot hR.neat hdir (by rw [view_putEntry hdir.isRef, hclip]) hR.after
    (fun r hlive _ => hkept r hlive) (.inr ⟨?_, hR.distinct⟩)
  rintro x ⟨hin, hused, howned⟩
  refine ⟨hin, hused, fun ⟨r, cs, hlive, howns, hx⟩ => howned ?_⟩
  obtain ⟨hne, hlive'⟩ := hkept r hlive
  refine ⟨r, cs, hlive', ?_, hx⟩
  rw [Volume.setSlot_ne _ hne]
  exact howns

section

variable {c₀ c : Nat} {refs₀ : List EntryRef} {ref₀ : EntryRef} {leaf83 : Name83}

/-- The entry is written and nobody sees it, nor what goes into its cluster. -/
theorem after_lost {sloppy : Prop} (hs : sloppy) (hN : g.Neat (g.view d))
    (hP : g.Place (g.view d) c₀ refs₀ ref₀) (hdead : ((g.view d).slot ref₀).live = false)
    (hc : g.InRange c) (hfree : (g.view d).fat c = FAT12_CLUSTER_FREE) (htaken : g.Taken c d d')
    (hdel : leaf83 0 = FAT12_ENTRY_DELETED) {d'' : Disk}
    (honly : g.OnlyIn c (putEntry d' ref₀ (dirEntry leaf83 c)) d'') :
    g.After sloppy (fun _ => False) d d'' := by
  have hun := freeIn_unowned (show c ∈ g.FreeIn d from ⟨hc, hfree⟩)
  have hA : g.Agree (g.view d) (g.view d') := by
    refine htaken.touched.agree hN.toSound ?_ (.refl _)
    rintro x rfl
    exact hun
  have htake : g.After sloppy (fun _ => False) d d' := by
    refine after_unseen hN htaken.touched ?_ (.inl hs)
    rintro x rfl
    exact hun
  have hP' := hP.agree hN.toSound hA
  have hdead' : ((g.view d').slot ref₀).live = false := by
    rw [hA.slots ref₀ hP.inDir]
    exact hdead
  have hR := hP'.removal htake.neat hdead' (show (dirEntry leaf83 c).first = _ from hdel)
  have hmark : g.After sloppy (fun _ => False) d' _ := after_mark hR hdead' (dirEntry_clip leaf83 c)
  refine (htake.trans hmark fun _ hn _ => hn).trans ?_ fun _ hn _ => hn
  refine after_unseen hmark.neat (honly.touched hc) ?_ (.inl hs)
  rintro x rfl
  refine ⟨hc, fun howned => ?_⟩
  rw [view_putEntry hP.inDir.isRef, dirEntry_clip] at howned
  obtain ⟨r, cs, -, hlive, howns, hx⟩ := hR.owned_back howned
  exact hun.2 (hA.owned_back hN.toSound ⟨r, cs, hlive, howns, hx⟩)

end

/-! ## The operation -/

section

variable {c₀ : Nat} {refs₀ : List EntryRef} {leaf83 : Name83} {sloppy : Prop}

theorem OnlyIn.refl (c : Nat) (d : Disk) : g.OnlyIn c d d := fun _ _ => rfl

theorem OnlyIn.trans {c : Nat} {d'' : Disk} (h : g.OnlyIn c d d') (h' : g.OnlyIn c d' d'') :
    g.OnlyIn c d d'' := fun lba hlba => (h' lba hlba).trans (h lba hlba)

/-- The two entries inside, once the one in the parent is written. -/
theorem does_dots {c parent : Nat} {d₀ : Disk} (hc : g.InRange c) {r₀ r₁ : EntryRef}
    {rest : List EntryRef} (hrest : g.chainRefs [c] = r₀ :: r₁ :: rest)
    (hafter : ∀ d'', d'' = d ∨ d'' = putEntry d r₀ (dirEntry dot83 c) ∨
        d'' = putEntry (putEntry d r₀ (dirEntry dot83 c)) r₁ (dirEntry dotdot83 parent) →
      g.After sloppy (fun _ => False) d₀ d'') :
    Does faults (do
        fat12_dev_write_entry r₀ dot83 FAT12_ATTR_DIRECTORY c 0
        fat12_dev_write_entry r₁ dotdot83 FAT12_ATTR_DIRECTORY parent 0)
      d (fun _ d' => g.After sloppy (fun _ => False) d₀ d')
      (fun _ d' => g.After sloppy (fun _ => False) d₀ d') := by
  have hisRef : ∀ r ∈ g.chainRefs [c], g.IsRef r := by
    rw [chainRefs_one]
    exact fun r => hc.isRef
  apply (does_write_entry (hisRef r₀ (by simp [hrest])) dot83 FAT12_ATTR_DIRECTORY c 0).bind
  · rintro _ _ rfl
    apply (does_write_entry (hisRef r₁ (by simp [hrest])) dotdot83 FAT12_ATTR_DIRECTORY parent
      0).mono
    · rintro _ _ rfl
      exact hafter _ (.inr (.inr rfl))
    · rintro _ _ ⟨-, rfl⟩
      exact hafter _ (.inr (.inl rfl))
  · rintro _ _ ⟨-, rfl⟩
    exact hafter _ (.inl rfl)

/-- Creating a directory: a cluster, the entry in the parent, `.` and `..`. When the entry
cannot be written the cluster is given back. -/
theorem does_createDir (hN : g.Neat (g.view d)) (hdir : g.LiveDir (g.view d) c₀)
    (hrefs : g.DirRefs (g.view d) c₀ refs₀) (hfuel : 4096 ≤ fuel)
    (hzero : leaf83 0 ≠ FAT12_ENTRY_FREE) (hdot : leaf83 0 ≠ DOT) (hfaults : faults → sloppy)
    (hdel : leaf83 0 = FAT12_ENTRY_DELETED → sloppy)
    (hfresh : sloppy ∨ ∀ r ∈ (g.view d).entries refs₀, ((g.view d).slot r).name ≠ leaf83) :
    Does faults (createDir g.dev fuel g.b c₀ leaf83) d
      (fun _ d' => g.After sloppy (fun _ => False) d d')
      (fun _ d' => g.After sloppy (fun _ => False) d d') := by
  have hrefl : g.After sloppy (fun _ => False) d d := .refl hN
  have hvac : Reads faults False (fat12_dev_find_free_entry fuel g.b c₀) d _ :=
    reads_vacancy hrefs hfuel
  refine .of_reads_bind hvac ?_ fun _ _ => hrefl
  cases hfound : (g.view d).vacancy refs₀ with
  | none => exact hrefl
  | some ref₀ =>
  obtain ⟨husable, hdead⟩ := Volume.usable_of_vacancy hfound
  have hP : g.Place (g.view d) c₀ refs₀ ref₀ := ⟨hdir, hrefs, husable⟩
  apply Does.bind does_alloc
  swap
  · exact fun _ _ h => h.elim
  rintro c d₁ halloc
  obtain ⟨rfl, rfl⟩ | ⟨rfl, hf, x, hx, hfree, htouched⟩ | ⟨hc, hfree, htaken⟩ := halloc
  · rw [if_pos rfl]
    exact .fail hrefl
  · rw [if_pos rfl]
    refine .fail (after_unseen hN htouched ?_ (.inl (hfaults hf)))
    rintro y rfl
    exact freeIn_unowned ⟨hx, hfree⟩
  have hne : c ≠ 0 := by
    have h2 := hc.1
    omega
  rw [if_neg hne]
  have hun := freeIn_unowned (show c ∈ g.FreeIn d from ⟨hc, hfree⟩)
  apply Does.attempt_bind
  apply (does_write_entry hP.inDir.isRef leaf83 FAT12_ATTR_DIRECTORY c 0).mono
  · -- the entry is there, or taken for a deleted one
    rintro _ _ rfl
    obtain ⟨rest, hrest⟩ := @chainRefs_head g c hc
    apply does_dots hc hrest
    intro d'' hcases
    by_cases hE5 : leaf83 0 = FAT12_ENTRY_DELETED
    · have hin : ∀ r ∈ g.chainRefs [c], r.lba ∈ clusterLbas g.b c := by
        rw [chainRefs_one]
        exact fun r hr => (mem_refsOf.mp hr).1
      rw [hrest] at hin
      refine after_lost (hdel hE5) hN hP hdead hc hfree htaken hE5 ?_
      obtain rfl | rfl | rfl := hcases
      · exact .refl c _
      · exact onlyIn_put (hin _ (by simp)) _
      · exact (onlyIn_put (hin _ (by simp)) _).trans (onlyIn_put (hin _ (by simp)) _)
    · have henter := after_enter hN hP hdead hc hfree htaken hzero hE5 hdot hfresh
      have hblank := blank_enter hN hP hdead hc hfree htaken hzero hE5 hdot
      obtain ⟨hone, htwo⟩ := hblank.after_dot sloppy (fun _ => False) hrest (by simp) c c₀
      obtain rfl | rfl | rfl := hcases
      · exact henter
      · exact henter.trans hone fun _ hn _ => hn
      · exact henter.trans htwo fun _ hn _ => hn
  · -- the entry could not be written, and the cluster is given back if that works
    rintro _ d₁ ⟨hf, rfl⟩
    have hback : ∀ d', g.Touched {x | x ∈ [c]} d₁ d' → g.After sloppy (fun _ => False) d d' := by
      intro d' htouched
      have hone : {x | x ∈ [c]} ⊆ ({c} : Set Nat) := fun x hx => mem_singleton.mp hx
      refine after_unseen hN (htaken.touched.trans (htouched.mono hone)) ?_ (.inl (hfaults hf))
      rintro x rfl
      exact hun
    apply Does.attempt_bind
    apply (does_free_chain (htaken.chain hc) (by simp; omega)).mono
    · exact fun _ d' hfreed => .fail (hback d' (Freed.touched hfreed))
    · exact fun _ d' h => .fail (hback d' h.2)

variable (g) in
/-- The path is accepted, and its last name is stored with the mark of a deleted slot. -/
def Unseen (V : Volume) (make83 : List UInt8 → Except FsErr Name83) (path : CString) : Prop :=
  ∃ c leaf83, g.Parent V make83 path c leaf83 ∧ leaf83 ⟨0, by decide⟩ = FAT12_ENTRY_DELETED

/-- `mkdir` on a device, from the path on. -/
theorem does_create_dir (hboot : fat12_parse_bpb (d 0) = .ok g.b) (hW : g.Wf (g.view d))
    (hfuel : 4096 ≤ fuel) (path : CString) :
    Does faults (fat12_core_create_dir_on_device g.dev fuel path) d
      (fun _ d' => g.After (faults ∨ g.Unseen (g.view d) fat12_make_83_dir_name path)
        (fun _ => False) d d')
      (fun _ d' => g.After (faults ∨ g.Unseen (g.view d) fat12_make_83_dir_name path)
        (fun _ => False) d d') := by
  have hrefl : ∀ sloppy, g.After sloppy (fun _ => False) d d := fun _ => .refl hW.toNeat
  apply does_withParent hboot hW hfuel (fun _ => hrefl _)
  intro c leaf83 hparent
  obtain ⟨refs, hrefs⟩ := hW.dirRefs hparent.liveDir
  apply does_find_attempt hrefs hfuel
  · intro r _
    dsimp only
    split
    · exact .done (hrefl _)
    · exact .fail (hrefl _)
  · intro hfresh
    exact does_createDir hW.toNeat hparent.liveDir hrefs hfuel (hparent.leaf_ne_zero encodes_dir)
      (hparent.leaf_ne_dot encodes_dir) .inl (fun h => .inr ⟨c, leaf83, hparent, h⟩)
      (hfresh.imp .inl fun hnone r hr => Volume.ne_of_lookup hnone hr)
  · intro rc hrc
    cases rc with
    | NOT_FOUND => exact absurd rfl hrc
    | _ => exact .fail (hrefl _)

end

end Geometry

end System1.Fat12
