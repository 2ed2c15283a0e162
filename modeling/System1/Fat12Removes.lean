/-
Removing files and directories: `fat12_core_unlink_on_device` and `fat12_rmdir`.

Both mark the entry first and free the clusters after that. So a device that stops them
between the two leaves clusters that nobody owns, and nothing worse; the order is what the
proofs rest on. `fat12_rmdir` decides for itself whether a directory is empty, by the first
two bytes of its names. It can be wrong, and then takes a directory away that still holds
something: `Deceptive` is where that happens.
-/
import System1.Fat12Ops

set_option autoImplicit false

namespace System1.Fat12.Geometry

open System1.Lib

variable {g : Geometry} {faults : Prop} {d : Disk} {fuel : Nat}

/-! ## The entry that is found -/

section

variable {c : Nat} {refs : List EntryRef} (hrefs : g.DirRefs (g.view d) c refs)
  (hfuel : 4096 ≤ fuel)

include hrefs hfuel

/-- A lookup in a directory and what follows it. -/
theorem does_find {α : Type} {f : Found → Io α} {leaf83 : Name83} {ok : α → Disk → Prop}
    {bad : FsErr → Disk → Prop} (hbad : ∀ rc, bad rc d)
    (hsome : ∀ r, (g.view d).lookup refs leaf83 = some r →
      Does faults (f ((g.view d).found r)) d ok bad) :
    Does faults (fat12_dev_find_entry fuel g.b c leaf83 >>= f) d ok bad := by
  have hreads : Reads faults False (fat12_dev_find_entry fuel g.b c leaf83) d _ :=
    reads_find hrefs hfuel leaf83
  refine .of_reads_bind hreads ?_ fun _ => hbad
  cases hlookup : (g.view d).lookup refs leaf83 with
  | none => exact hbad _
  | some r => exact hsome r hlookup

/-- A lookup whose failure is looked at. A device that fails may fail with any code, the one
for an entry that is not there included. -/
theorem does_find_attempt {α : Type} {f : Except FsErr Found → Io α} {leaf83 : Name83}
    {ok : α → Disk → Prop} {bad : FsErr → Disk → Prop}
    (hsome : ∀ r, (g.view d).lookup refs leaf83 = some r →
      Does faults (f (.ok ((g.view d).found r))) d ok bad)
    (hnone : faults ∨ (g.view d).lookup refs leaf83 = none →
      Does faults (f (.error .NOT_FOUND)) d ok bad)
    (hfails : ∀ rc, rc ≠ .NOT_FOUND → Does faults (f (.error rc)) d ok bad) :
    Does faults ((fat12_dev_find_entry fuel g.b c leaf83).attempt >>= f) d ok bad := by
  have hreads : Reads faults False (fat12_dev_find_entry fuel g.b c leaf83) d _ :=
    reads_find hrefs hfuel leaf83
  refine .attempt_bind (.of_reads hreads ?_ fun hf rc => ?_)
  · cases hlookup : (g.view d).lookup refs leaf83 with
    | none => exact hnone (.inr hlookup)
    | some r => exact hsome r hlookup
  · grind

end

section

variable {V : Volume} {make83 : List UInt8 → Except FsErr Name83} {path : CString} {c : Nat}
  {leaf83 : Name83} {refs : List EntryRef} {ref : EntryRef}

/-- The entry a path names is a live one in its place. -/
theorem Parent.entry (h : g.Parent V make83 path c leaf83) (hmake : Encodes make83)
    (hrefs : g.DirRefs V c refs) (hlookup : V.lookup refs leaf83 = some ref) :
    g.Place V c refs ref ∧ (V.slot ref).live = true ∧ (V.slot ref).dots = false ∧
      g.LiveEntry V ref := by
  have hmem := (Volume.mem_of_lookup hlookup).1
  have hdots := not_dots_of_lookup (h.leaf_ne_dot hmake) hlookup
  exact ⟨⟨h.liveDir, hrefs, Volume.usable_of_entries hmem⟩, (Volume.mem_of_entries hmem).2, hdots,
    ⟨c, refs, h.liveDir, hrefs, hmem, hdots⟩⟩

end

/-! ## The entry goes, then its chain -/

/-- The common end of both operations. Where it succeeds the slot is dead. -/
theorem does_delete {c₀ : Nat} {refs₀ : List EntryRef} {ref₀ : EntryRef} {cs : List Nat}
    (hR : g.Removal (g.view d) c₀ refs₀ ref₀ ((g.view d).slot ref₀).asDeleted)
    (hlive : ((g.view d).slot ref₀).live = true) (hdots : ((g.view d).slot ref₀).dots = false)
    (howns : g.Owns (g.view d) ((g.view d).slot ref₀) cs) (hfuel : 4096 ≤ fuel) :
    Does faults (do
        deleteEntry ref₀
        if ((g.view d).slot ref₀).cluster ≠ 0 then
          fat12_dev_free_cluster_chain g.b fuel ((g.view d).slot ref₀).cluster) d
      (fun _ d' => g.After faults (· = ref₀) d d' ∧ ((g.view d').slot ref₀).live = false)
      (fun _ d' => g.After faults (· = ref₀) d d') := by
  have href : g.IsRef ref₀ := hR.toPlace.inDir.isRef
  apply (does_deleteEntry ref₀).bind
  · rintro _ _ rfl
    -- the entry is gone, and nobody else has the clusters
    obtain ⟨hzero, rfl⟩ | ⟨hne, hchain⟩ := howns
    · rw [if_neg (not_not.mpr hzero)]
      exact .done (after_remove hR hlive hdots (.inl ⟨hzero, rfl⟩) (.refl _ _)
        (.inr ⟨fun _ hx => (by cases hx), fun hm => hm⟩))
    have hcluster : ((g.view d).slot ref₀).cluster ≠ 0 := by grind [not_chain_zero]
    rw [if_pos hcluster]
    have hchain' : g.Chain (g.view (putEntry d ref₀
        (slotAt (d ref₀.lba) ref₀.offset).asDeleted)).fat ((g.view d).slot ref₀).cluster cs := by
      rw [view_delete href]
      exact hchain
    have hlen : cs.length < fuel := by
      have := hchain.length_le
      omega
    apply (does_free_chain hchain' hlen).mono
    · intro _ d' hfreed
      exact after_remove hR hlive hdots (.inr ⟨hne, hchain⟩) hfreed.touched
        (.inr ⟨hfreed.free, hfreed.mirrored⟩)
    · rintro _ d' ⟨hfaults, htouched⟩
      exact (after_remove hR hlive hdots (.inr ⟨hne, hchain⟩) htouched (.inl hfaults)).1
  · rintro _ _ ⟨-, rfl⟩
    exact .refl hR.neat

/-- `unlink` takes the entry away that the path names, and its clusters. -/
theorem does_unlink (hboot : fat12_parse_bpb (d 0) = .ok g.b) (hW : g.Wf (g.view d))
    (hfuel : 4096 ≤ fuel) (path : CString) :
    Does faults (fat12_core_unlink_on_device fuel path) d
      (fun _ d' => g.After faults (g.Names (g.view d) fat12_make_83_file_name path) d d' ∧
        ∃ ref, g.Names (g.view d) fat12_make_83_file_name path ref ∧
          ((g.view d').slot ref).live = false)
      (fun _ d' => g.After faults (g.Names (g.view d) fat12_make_83_file_name path) d d') := by
  have hrefl : ∀ named, g.After faults named d d := fun _ => .refl hW.toNeat
  apply does_withParent hboot hW hfuel (fun _ => hrefl _)
  intro c leaf83 hparent
  obtain ⟨refs, hrefs⟩ := hW.dirRefs hparent.liveDir
  apply does_find hrefs hfuel (fun _ => hrefl _)
  intro ref hlookup
  by_cases hfile : ((g.view d).slot ref).isDir = false
  · rw [if_neg (not_not.mpr ((isDir_iff _ ref).mpr hfile))]
    obtain ⟨hplace, hlive, hdots, hentry⟩ := hparent.entry encodes_file hrefs hlookup
    obtain ⟨cs, howns, -⟩ := hW.owns ref hentry
    have hR : g.Removal (g.view d) c refs ref ((g.view d).slot ref).asDeleted :=
      ⟨hplace, hW.toNeat, asDeleted_first _,
        fun _ _ hisDir => by rw [hfile] at hisDir; cases hisDir⟩
    have hnamed : ∀ r, r = ref → g.Names (g.view d) fat12_make_83_file_name path r := by
      rintro r rfl
      exact ⟨c, leaf83, refs, hparent, hrefs, hlookup⟩
    exact (does_delete hR hlive hdots howns hfuel).mono
      (fun _ _ h => ⟨h.1.mono id fun r _ => hnamed r, ref, hnamed ref rfl, h.2⟩)
      (fun _ _ h => h.mono id fun r _ => hnamed r)
  · rw [if_pos (fun h => hfile ((isDir_iff _ ref).mp h))]
    exact .fail (hrefl _)

/-! ## Directories -/

variable (g) in
/-- The directory holds an entry, and `fat12_rmdir` takes all it holds for `.` and `..`. -/
def Deceptive (V : Volume) (c : Nat) : Prop :=
  ∃ refs, g.DirRefs V c refs ∧ ¬ V.Blocked refs ∧ ∃ r ∈ V.entries refs, (V.slot r).dots = false

theorem hollow_of_not_deceptive {V : Volume} {c : Nat} {refs : List EntryRef}
    (hrefs : g.DirRefs V c refs) (hclear : ¬ V.Blocked refs) (h : ¬ g.Deceptive V c) :
    g.Hollow V c := by
  intro refs' hrefs' r hr
  obtain rfl := hrefs.unique hrefs'
  by_contra hdots
  exact h ⟨refs, hrefs, hclear, r, hr, by simpa using hdots⟩

variable (g) in
/-- `fat12_rmdir` gets as far as looking into the directory that the path names, and
misjudges it. -/
def Misjudged (V : Volume) (cwd path : CString) : Prop :=
  g.dev.write = true ∧ path.bytes ≠ [SLASH] ∧ path.bytes ≠ cwd.bytes ∧
    ∃ ref, g.Names V fat12_make_83_dir_name path ref ∧ (V.slot ref).isDir = true ∧
      g.Deceptive V (V.slot ref).cluster

/-- `rmdir` does the same to an empty directory, if it does not misjudge it. -/
theorem does_rmdir (hboot : fat12_parse_bpb (d 0) = .ok g.b) (hW : g.Wf (g.view d))
    (hfuel : 4096 ≤ fuel) (cwd path : CString) (hjudged : ¬ g.Misjudged (g.view d) cwd path) :
    Does faults (fat12_rmdir g.dev fuel cwd path) d
      (fun _ d' => g.After faults (g.Names (g.view d) fat12_make_83_dir_name path) d d')
      (fun _ d' => g.After faults (g.Names (g.view d) fat12_make_83_dir_name path) d d') := by
  have hrefl : ∀ named, g.After faults named d d := fun _ => .refl hW.toNeat
  unfold fat12_rmdir
  split
  · exact .fail (hrefl _)
  next hwrite =>
  split
  · exact .fail (hrefl _)
  next hpath =>
  push Not at hpath
  apply does_withParent hboot hW hfuel (fun _ => hrefl _)
  intro c leaf83 hparent
  obtain ⟨refs, hrefs⟩ := hW.dirRefs hparent.liveDir
  apply does_find hrefs hfuel (fun _ => hrefl _)
  intro ref hlookup
  split
  · exact .fail (hrefl _)
  next hdir =>
  push Not at hdir
  obtain ⟨hplace, hlive, hdots, hentry⟩ := hparent.entry encodes_dir hrefs hlookup
  have hisDir : ((g.view d).slot ref).isDir = true := by grind [isDir_iff]
  -- the directory and its clusters
  obtain ⟨cs, howns, -⟩ := hW.owns ref hentry
  obtain ⟨hzero, -⟩ | ⟨hne, hchain⟩ := id howns
  · have h2 : 2 ≤ ((g.view d).slot ref).cluster := hdir.2
    omega
  have hslots : g.DirRefs (g.view d) ((g.view d).slot ref).cluster (g.chainRefs cs) :=
    .inr ⟨cs, hne, hchain, rfl⟩
  have hlivedir : g.LiveDir (g.view d) ((g.view d).slot ref).cluster :=
    .sub hparent.liveDir hrefs (Volume.mem_of_lookup hlookup).1 hdots hisDir
  obtain ⟨hclear, hblocked⟩ := @tests_emptyChain g faults False d _ 4096 _ hchain
    (by have := hchain.length_le; omega) (hW.tidy _ _ hlivedir hslots)
  by_cases hblock : (g.view d).Blocked (g.chainRefs cs)
  · exact .of_reads_bind (hblocked hblock) (hrefl _) fun _ _ => hrefl _
  refine .of_reads_bind (hclear hblock) ?_ fun _ _ => hrefl _
  have hnamed : g.Names (g.view d) fat12_make_83_dir_name path ref :=
    ⟨c, leaf83, refs, hparent, hrefs, hlookup⟩
  have hhollow : g.Hollow (g.view d) ((g.view d).slot ref).cluster := by
    apply hollow_of_not_deceptive hslots hblock
    exact fun hdec => hjudged ⟨by simpa using hwrite, hpath.1, hpath.2, ref, hnamed, hisDir, hdec⟩
  have hR : g.Removal (g.view d) c refs ref ((g.view d).slot ref).asDeleted :=
    ⟨hplace, hW.toNeat, asDeleted_first _, fun _ _ _ => hhollow⟩
  have hdelete : Does faults _ d _ _ := does_delete hR hlive hdots howns hfuel
  have hcluster : ((g.view d).slot ref).cluster ≠ 0 := by
    have h2 : 2 ≤ ((g.view d).slot ref).cluster := hdir.2
    omega
  rw [if_pos hcluster] at hdelete
  have hsub : ∀ r, r = ref → g.Names (g.view d) fat12_make_83_dir_name path r := by
    rintro r rfl
    exact hnamed
  exact hdelete.mono (fun _ _ h => h.1.mono id fun r _ => hsub r)
    (fun _ _ h => h.mono id fun r _ => hsub r)

end System1.Fat12.Geometry
