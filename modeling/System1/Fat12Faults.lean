/-
Operations on a FAT12 volume whose device fails.

Any request may fail, a failed write leaves its sector as it was, and so an operation may
stop anywhere. Three of the four operations are written in an order that takes this: an
entry is taken away before its clusters are freed, and clusters are filled before an entry
points to them. At worst clusters are lost.

`fat12_core_write_file_on_device` frees the clusters of the old file first, while the entry
still points to them. If the device stops there, a live entry has a chain of free clusters,
which the next file will be given. This can happen whenever a file with clusters is
overwritten and in no other case.

A condition is shown to be necessary by following the operation on a device that works up to
some point: what is promised for every device is promised of what is left to do there
(`Does.after_run`).
-/
import System1.Fat12Runs

set_option autoImplicit false

namespace System1.Fat12

open System1.Lib

/-! ## Following an operation -/

/-- A device that has stopped. -/
def dead (d : Disk) : (r : Req) → Resp r × Disk
  | .read _ => ((Except.error .INVALID : Except FsErr Sector), d)
  | .write _ _ => ((Except.error .INVALID : Except FsErr Unit), d)

theorem dead_serves (torn : Prop) (d : Disk) (r : Req) :
    Serves True torn d r (dead d r).1 (dead d r).2 := by
  cases r with
  | read lba => exact .readFails trivial d lba _
  | write lba data => exact .writeFails trivial d lba data _

theorem dead_state (d : Disk) (r : Req) : (dead d r).2 = d := by
  cases r with
  | read lba => rfl
  | write lba data => rfl

section

variable {α β : Type} {faults : Prop} {p : Io α} {f : α → Io β} {d d' : Disk}
  {ok : β → Disk → Prop} {bad : FsErr → Disk → Prop}

/-- The first part has gone well. -/
theorem Does.after_run {a : α} (h : Does faults (p >>= f) d ok bad)
    (hrun : p.run perfect d = (.done a, d')) : Does faults (f a) d' ok bad :=
  Prog.wp_of_bind perfect (perfect_serves faults False) h hrun

theorem Does.after_reads {a : α} (h : Does faults (p >>= f) d ok bad)
    (hp : Reads False False p d (.done a)) : Does faults (f a) d ok bad := h.after_run hp.run

theorem Does.after_does {okp : α → Disk → Prop} (h : Does faults (p >>= f) d ok bad)
    (hp : Does False p d okp fun _ _ => False) :
    ∃ a d', okp a d' ∧ Does faults (f a) d' ok bad := by
  obtain ⟨a, d', hrun, hokp⟩ := hp.returns
  exact ⟨a, d', hokp, h.after_run hrun⟩

theorem Does.meets {p : Io β} {okp : β → Disk → Prop} (h : Does faults p d ok bad)
    (hp : Does False p d okp fun _ _ => False) : ∃ a d', okp a d' ∧ ok a d' := by
  obtain ⟨a, d', hrun, hokp⟩ := hp.returns
  have hok := Prog.wp_run perfect (perfect_serves faults False) h
  rw [hrun] at hok
  exact ⟨a, d', hokp, hok⟩

/-- The device stops before the operation has done anything. -/
theorem Does.stopped {p : Io β} (h : Does True p d ok bad) :
    (∃ a, ok a d) ∨ ∃ rc, bad rc d := by
  have hrun := Prog.wp_run dead (dead_serves False) h
  rw [Prog.run_state dead_state] at hrun
  generalize (p.run dead d).1 = o at hrun
  cases o with
  | done a => exact .inl ⟨a, hrun⟩
  | fail rc => exact .inr ⟨rc, hrun⟩
  | spin => exact hrun.elim

end

namespace Geometry

variable {g : Geometry} {faults : Prop} {d d' : Disk} {fuel : Nat}

section

variable {α : Type} {make83 : List UInt8 → Except FsErr Name83} {path : CString} {c : Nat}
  {leaf83 : Name83} {refs : List EntryRef} {ref : EntryRef} {ok : α → Disk → Prop}
  {bad : FsErr → Disk → Prop}

/-- The operation has found the directory of its path. -/
theorem after_parent {k : Bpb → Nat → Name83 → Io α} (hboot : fat12_parse_bpb (d 0) = .ok g.b)
    (hW : g.Wf (g.view d)) (hfuel : 4096 ≤ fuel)
    (hparent : g.Parent (g.view d) make83 path c leaf83)
    (h : Does faults (withParent fuel make83 path k) d ok bad) :
    Does faults (k g.b c leaf83) d ok bad := by
  rw [withParent_eq] at h
  obtain ⟨⟨_, c', leaf83'⟩, ⟨rfl, hparent'⟩, hreads⟩ | ⟨hno, -⟩ :=
    decides_parent False False make83 path hboot hW hfuel
  · obtain ⟨rfl, rfl⟩ := hparent.unique hparent'
    exact h.after_reads hreads
  · exact (hno (g.b, c, leaf83) ⟨rfl, hparent⟩).elim

theorem reads_found (hrefs : g.DirRefs (g.view d) c refs) (hfuel : 4096 ≤ fuel)
    (hlookup : (g.view d).lookup refs leaf83 = some ref) :
    Reads False False (fat12_dev_find_entry fuel g.b c leaf83) d
      (.done ((g.view d).found ref)) := by
  have hreads := @reads_find g False False d c fuel refs hrefs hfuel leaf83
  rw [hlookup] at hreads
  exact hreads

end

/-! ## A directory that goes with what is in it -/

/-- A directory is not in itself. -/
theorem Sound.not_inside {V : Volume} (hS : g.Sound V) {c : Nat} {refs refs' : List EntryRef}
    {ref : EntryRef} (hdir : g.LiveDir V c) (hrefs : g.DirRefs V c refs)
    (hmem : ref ∈ V.entries refs) (hdots : (V.slot ref).dots = false)
    (hisDir : (V.slot ref).isDir = true) (hrefs' : g.DirRefs V (V.slot ref).cluster refs') :
    ref ∉ refs' := by
  intro hself
  have hlive : g.LiveEntry V ref := ⟨c, refs, hdir, hrefs, hmem, hdots⟩
  have hown : g.LiveDir V (V.slot ref).cluster := .sub hdir hrefs hmem hdots hisDir
  obtain ⟨cs, howns, hfits⟩ := hS.owns ref hlive
  rw [Fits, if_pos hisDir] at hfits
  obtain ⟨-, rfl⟩ | ⟨-, hchain⟩ := id howns
  · exact hfits rfl
  -- a way to it from the root would have to go through it
  have hne : ∀ c', g.LiveDir V c' → c' ≠ (V.slot ref).cluster := by
    intro c' hdir'
    induction hdir' with
    | root => grind [not_chain_zero]
    | @sub c₂ refs₂ ref₂ hdir₂ hrefs₂ hmem₂ hdots₂ hisDir₂ ih =>
      intro hcluster
      have hlive₂ : g.LiveEntry V ref₂ := ⟨c₂, refs₂, hdir₂, hrefs₂, hmem₂, hdots₂⟩
      have howns₂ : g.Owns V (V.slot ref₂) cs := .inr ⟨hfits, hcluster ▸ hchain⟩
      by_cases hsame : ref₂ = ref
      · subst hsame
        exact ih (hS.dir_unique hdir₂ hown hrefs₂ hrefs' (Volume.mem_of_entries hmem₂).1 hself)
      · obtain ⟨x, hx⟩ := List.exists_mem_of_ne_nil cs hfits
        exact hS.disjoint ref₂ ref cs cs hlive₂ hlive howns₂ howns hsame hx hx
  exact hne _ hown rfl

/-- What was in a directory is gone when the clusters of the directory are free. -/
theorem not_liveEntry_of_free {V : Volume} {cs : List Nat} {r : EntryRef}
    (hcs : ∀ x ∈ cs, g.InRange x) (hr : r ∈ g.chainRefs cs)
    (hfree : ∀ x ∈ cs, V.fat x = FAT12_CLUSTER_FREE) : ¬ g.LiveEntry V r := by
  rintro ⟨c, refs, -, hrefs, hmem, -⟩
  have hmem := (Volume.mem_of_entries hmem).1
  obtain ⟨x, hx, hlba⟩ := mem_chainRefs hr
  obtain ⟨-, rfl⟩ | ⟨cs', -, hchain, rfl⟩ := hrefs
  · have := data_lba_le_of_mem (hcs x hx) hlba
    have := (mem_rootLbas.mp (mem_refsOf.mp hmem).1).2
    omega
  obtain ⟨x', hx', hlba'⟩ := mem_chainRefs hmem
  obtain rfl := clusterLbas_inj (hcs x hx) (hchain.inRange hx') hlba hlba'
  exact hchain.ne_free hx' (hfree x hx)

/-- A directory that is misjudged is removed, with an entry in it that the path does not
name. -/
theorem rmdir_misjudged (h : g.WellFormed d) (hfuel : 4096 ≤ fuel) {cwd path : CString}
    {ok : Unit → Disk → Prop} {bad : FsErr → Disk → Prop}
    (hmis : g.Misjudged (g.view d) cwd path)
    (hdoes : Does faults (fat12_rmdir g.dev fuel cwd path) d ok bad) :
    ∃ r d', ok () d' ∧ g.LiveEntry (g.view d) r ∧ ¬ g.LiveEntry (g.view d') r ∧
      ¬ g.Names (g.view d) fat12_make_83_dir_name path r := by
  obtain ⟨hwrite, hroot, hcwd, ref, hnames, hisDir, refs', hrefs', hclear, r, hr, hrdots⟩ := hmis
  obtain ⟨c, leaf83, refs, hparent, hrefs, hlookup⟩ := id hnames
  obtain ⟨hplace, hlive, hdots, hentry⟩ := hparent.entry encodes_dir hrefs hlookup
  have hmem := (Volume.mem_of_lookup hlookup).1
  have hdir : g.LiveDir (g.view d) ((g.view d).slot ref).cluster :=
    .sub hparent.liveDir hrefs hmem hdots hisDir
  obtain ⟨cs, howns, hfits⟩ := h.wf.owns ref hentry
  rw [Fits, if_pos hisDir] at hfits
  obtain ⟨-, rfl⟩ | ⟨-, hchain⟩ := id howns
  · exact (hfits rfl).elim
  obtain rfl : refs' = g.chainRefs cs := hrefs'.unique (.inr ⟨cs, hfits, hchain, rfl⟩)
  have hlen := hchain.length_le
  have h2 : 2 ≤ ((g.view d).slot ref).cluster := (hchain.inRange (hchain.head_mem hfits)).1
  -- up to the first write
  rw [fat12_rmdir, if_neg (by simp [hwrite]), if_neg (by simp [hroot, hcwd])] at hdoes
  have hdoes := after_parent h.boot h.wf hfuel hparent hdoes
  have hdoes := hdoes.after_reads (reads_found hrefs hfuel hlookup)
  have hattr : ¬ (((g.view d).found ref).attr &&& FAT12_ATTR_DIRECTORY = 0 ∨
      ((g.view d).found ref).cluster < 2) := by
    rintro (hattr | hlow)
    · rw [(isDir_iff _ ref).mp hattr] at hisDir
      cases hisDir
    · have : ((g.view d).slot ref).cluster < 2 := hlow
      omega
  rw [if_neg hattr] at hdoes
  have hdoes := hdoes.after_reads ((tests_emptyChain hchain (by omega)
    (h.wf.tidy _ _ hdir hrefs')).1 hclear)
  -- the entry and then its clusters
  obtain ⟨_, d₁, rfl, hdoes⟩ := hdoes.after_does
    ((does_deleteEntry ref).mono (fun _ _ hok => hok) fun _ _ hbad => hbad.1)
  have hfreed : Does False (fat12_dev_free_cluster_chain g.b fuel ((g.view d).slot ref).cluster)
      (putEntry d ref (slotAt (d ref.lba) ref.offset).asDeleted)
      (fun _ d' => ∀ x ∈ cs, (g.view d').fat x = FAT12_CLUSTER_FREE) fun _ _ => False := by
    have hchain' : g.Chain (g.view (putEntry d ref
        (slotAt (d ref.lba) ref.offset).asDeleted)).fat ((g.view d).slot ref).cluster cs := by
      rw [view_delete hplace.inDir.isRef]
      exact hchain
    exact (does_free_chain hchain' (by omega)).mono (fun _ _ hf => hf.free) fun _ _ hbad => hbad.1
  obtain ⟨_, d', hfree, hok⟩ := hdoes.meets hfreed
  refine ⟨r, d', hok, ⟨_, _, hdir, hrefs', hr, hrdots⟩,
    not_liveEntry_of_free (fun x hx => hchain.inRange hx) (Volume.mem_of_entries hr).1 hfree, ?_⟩
  intro hnames'
  obtain rfl := hnames.unique hnames'
  exact h.wf.not_inside hparent.liveDir hrefs hmem hdots hisDir hrefs' (Volume.mem_of_entries hr).1

variable (g) in
/-- What an operation owes the volume wherever it stops: the chain of every live entry is
whole and has no free cluster, no cluster is in two chains, and the entries that are not
named have not changed. -/
structure Safe (named : EntryRef → Prop) (d d' : Disk) : Prop where
  owns : ∀ ref, g.LiveEntry (g.view d') ref → ∃ cs, g.Owns (g.view d') ((g.view d').slot ref) cs ∧
    ∀ x ∈ cs, (g.view d').fat x ≠ FAT12_CLUSTER_FREE
  disjoint : ∀ ref ref' cs cs', g.LiveEntry (g.view d') ref → g.LiveEntry (g.view d') ref' →
    g.Owns (g.view d') ((g.view d').slot ref) cs → g.Owns (g.view d') ((g.view d').slot ref') cs' →
    ref ≠ ref' → cs.Disjoint cs'
  kept : ∀ ref, g.LiveEntry (g.view d) ref → ¬ named ref → g.Same (g.view d) (g.view d') ref

theorem After.safe {sloppy : Prop} {named : EntryRef → Prop} (h : g.After sloppy named d d') :
    g.Safe named d d' := by
  refine ⟨fun ref hlive => ?_, h.neat.disjoint, h.kept⟩
  obtain ⟨cs, howns, -⟩ := h.neat.owns ref hlive
  exact ⟨cs, howns, fun x hx => Owned.ne_free ⟨ref, cs, hlive, howns, hx⟩⟩

/-- `create_dir`, `unlink` and `rmdir` are safe wherever a failing device stops them, if and
only if no directory is misjudged. -/
theorem safe_iff_judged (h : g.WellFormed d) (hfuel : 4096 ≤ fuel) (op : Op)
    (hop : ∀ path data, op ≠ .write_file path data) :
    Does True (op.prog g.dev fuel) d
        (fun _ d' => g.Safe (g.Names (g.view d) op.make83 op.path) d d')
        (fun _ d' => g.Safe (g.Names (g.view d) op.make83 op.path) d d') ↔
      ¬ g.Misjudges (g.view d) op := by
  constructor
  · intro hdoes hmis
    cases op with
    | rmdir cwd path =>
      obtain ⟨r, d', hsafe, hlive, hgone, hnot⟩ := rmdir_misjudged h hfuel hmis hdoes
      exact hgone (hsafe.kept r hlive hnot).1
    | create_dir | write_file | unlink => exact hmis
  · intro hjudged
    have hsafe : ¬ g.Overwriting (g.view d) op := by
      cases op with
      | write_file path data => exact (hop path data rfl).elim
      | create_dir | unlink | rmdir => exact id
    exact (does_op h hfuel hjudged fun _ => hsafe).mono (fun _ _ ha => ha.safe)
      fun _ _ ha => ha.safe

end Geometry

theorem removeF_safe :
    Does True (removeF.prog trap.dev 4096) trapDisk
      (fun _ d' => trap.Safe (trap.Names (trap.view trapDisk) removeF.make83 removeF.path)
        trapDisk d')
      (fun _ d' => trap.Safe (trap.Names (trap.view trapDisk) removeF.make83 removeF.path)
        trapDisk d') :=
  (Geometry.safe_iff_judged trap_wf (Nat.le_refl _) removeF (by rintro _ _ ⟨⟩)).mpr id

/-- The entry `..X` is lost, and with no failure of the device at all. -/
theorem springTrap_not_safe :
    trap.WellFormed trapDisk ∧
      ¬ Does False (springTrap.prog trap.dev 4096) trapDisk
        (fun _ d' => trap.Safe (trap.Names (trap.view trapDisk) springTrap.make83 springTrap.path)
          trapDisk d')
        (fun _ d' => trap.Safe (trap.Names (trap.view trapDisk) springTrap.make83 springTrap.path)
          trapDisk d') := by
  refine ⟨trap_wf, fun hdoes => ?_⟩
  obtain ⟨r, d', hsafe, hlive, hgone, hnot⟩ :=
    Geometry.rmdir_misjudged trap_wf (Nat.le_refl _) trap_misjudged hdoes
  exact hgone (hsafe.kept r hlive hnot).1

namespace Geometry

/-! ## A file that is overwritten -/

variable {g : Geometry} {faults : Prop} {d d' : Disk} {fuel : Nat}

section

variable {ref : EntryRef} {cs : List Nat} (hS : g.Sound (g.view d))
  (hlive : g.LiveEntry (g.view d) ref) (hfile : ((g.view d).slot ref).isDir = false)
  (howns : g.Owns (g.view d) ((g.view d).slot ref) cs) (htouched : g.Touched {x | x ∈ cs} d d')

include hS hlive hfile howns htouched

/-- What happens to the clusters of a file does not show in a directory. -/
theorem Touched.dirRefs_file {c : Nat} {refs : List EntryRef} (hdir : g.LiveDir (g.view d) c)
    (hrefs : g.DirRefs (g.view d) c refs) :
    g.DirRefs (g.view d') c refs ∧ ∀ r ∈ refs, (g.view d').slot r = (g.view d).slot r := by
  constructor
  · obtain hroot | ⟨cs', hne, hchain, rfl⟩ := hrefs
    · exact .inl hroot
    obtain ⟨ref', hlive', hisDir, -, howns'⟩ := hS.dir_owned hdir hchain
    have hdiff : ref' ≠ ref := by
      rintro rfl
      rw [hfile] at hisDir
      cases hisDir
    have hdisjoint := hS.disjoint ref' ref cs' cs hlive' hlive howns' howns hdiff
    exact .inr ⟨cs', hne, hchain.congr fun x hx => htouched.view_fat (hdisjoint hx), rfl⟩
  · intro r hr
    exact htouched.view_slot fun x hx =>
      hS.file_lba_ne ⟨c, refs, hdir, hrefs, hr⟩ hlive hfile howns hx

/-- A change within a file leaves every directory live. -/
theorem Touched.liveDir_file {c : Nat} (hdir : g.LiveDir (g.view d) c) :
    g.LiveDir (g.view d') c := by
  induction hdir with
  | root => exact .root
  | @sub c refs r hdir hrefs hmem hdots hisDir ih =>
    obtain ⟨hrefs', hslots⟩ := htouched.dirRefs_file hS hlive hfile howns hdir hrefs
    have hslot := hslots r (Volume.mem_of_entries hmem).1
    rw [← Volume.entries_congr hslots] at hmem
    rw [← hslot] at hdots hisDir ⊢
    exact .sub ih hrefs' hmem hdots hisDir

/-- A file whose clusters are freed while its entry is there. -/
theorem not_sound_of_freed (hne : cs ≠ [])
    (hfree : ∀ x ∈ cs, (g.view d').fat x = FAT12_CLUSTER_FREE) :
    ¬ g.Sound (g.view d') := by
  intro hS'
  obtain ⟨c, refs, hdir, hrefs, hmem, hdots⟩ := id hlive
  obtain ⟨hrefs', hslots⟩ := htouched.dirRefs_file hS hlive hfile howns hdir hrefs
  have hslot := hslots ref (Volume.mem_of_entries hmem).1
  obtain ⟨cs', howns', -⟩ := hS'.owns ref ⟨c, refs,
    htouched.liveDir_file hS hlive hfile howns hdir, hrefs',
    by rwa [Volume.entries_congr hslots], by rwa [hslot]⟩
  rw [hslot] at howns'
  obtain ⟨-, hnil⟩ | ⟨-, hchain⟩ := howns
  · exact hne hnil
  obtain ⟨hzero, -⟩ | ⟨hne', hchain'⟩ := howns'
  · rw [hzero] at hchain
    exact not_chain_zero hchain
  · exact hchain'.ne_free (hchain'.head_mem hne') (hfree _ (hchain.head_mem hne))

end

/-- The device stops when the clusters of the old file have been freed. -/
theorem write_file_stopped (h : g.WellFormed d) (hfuel : 4096 ≤ fuel) {path : CString}
    {data : List UInt8} {ok : Unit → Disk → Prop} {bad : FsErr → Disk → Prop}
    (hover : g.Overwrites (g.view d) path)
    (hdoes : Does True (fat12_core_write_file_on_device g.dev fuel path data) d ok bad) :
    ∃ d', ((∃ a, ok a d') ∨ ∃ rc, bad rc d') ∧ ¬ g.Sound (g.view d') := by
  obtain ⟨ref, ⟨c, leaf83, refs, hparent, hrefs, hlookup⟩, hfile, hcluster⟩ := hover
  obtain ⟨-, -, -, hentry⟩ := hparent.entry encodes_file hrefs hlookup
  obtain ⟨cs, howns, -⟩ := h.wf.owns ref hentry
  obtain ⟨hzero, -⟩ | ⟨hne, hchain⟩ := id howns
  · exact (hcluster hzero).elim
  have hlen := hchain.length_le
  have hdoes := after_parent h.boot h.wf hfuel hparent hdoes
  have hdoes := hdoes.after_reads (reads_found hrefs hfuel hlookup).attempt
  have hattr : ¬ ((g.view d).found ref).attr &&& FAT12_ATTR_DIRECTORY ≠ 0 :=
    not_not.mpr ((isDir_iff _ ref).mpr hfile)
  have hfound : ((g.view d).found ref).cluster ≠ 0 := hcluster
  simp only [if_neg hattr, if_pos hfound] at hdoes
  obtain ⟨_, d', hfreed, hdoes⟩ := hdoes.after_does ((does_free_chain hchain (by omega)).mono
    (fun _ _ hf => hf) fun _ _ hbad => hbad.1)
  exact ⟨d', hdoes.stopped,
    not_sound_of_freed h.wf.toSound hentry hfile howns hfreed.touched hne hfreed.free⟩

/-- `write_file` leaves a sound volume wherever a failing device stops it, if and only if it
does not overwrite a file that has clusters. -/
theorem sound_iff_not_overwrites (h : g.WellFormed d) (hfuel : 4096 ≤ fuel) (path : CString)
    (data : List UInt8) :
    Does True (fat12_core_write_file_on_device g.dev fuel path data) d
        (fun _ d' => g.Sound (g.view d')) (fun _ d' => g.Sound (g.view d')) ↔
      ¬ g.Overwrites (g.view d) path := by
  constructor
  · grind [write_file_stopped]
  · intro hsafe
    exact (does_write_file h.boot h.wf hfuel path data fun _ => hsafe).mono
      (fun _ _ ha => ha.1.neat.toSound) fun _ _ ha => ha.neat.toSound

end Geometry

/-- A new file, and a file that is overwritten. -/
theorem write_new_sound :
    Does True (fat12_core_write_file_on_device trap.dev 4096 (.cut [SLASH, 0x47]) [1]) trapDisk
      (fun _ d' => trap.Sound (trap.view d')) (fun _ d' => trap.Sound (trap.view d')) := by
  refine (Geometry.sound_iff_not_overwrites trap_wf (Nat.le_refl _) _ _).mpr ?_
  rintro ⟨ref, ⟨c, leaf83, refs, hparent, hrefs, hlookup⟩, -, -⟩
  obtain ⟨rfl, rfl⟩ := hparent.unique
    (@trap_parent fat12_make_83_file_name _ [0x47] (by decide) (by decide +kernel))
  obtain rfl := hrefs.unique (.inl ⟨rfl, rfl⟩)
  have hnone : (trap.view trapDisk).lookup trap.rootRefs (named [0x47]) = none := by decide +kernel
  rw [hnone] at hlookup
  cases hlookup

/-- A fault while a file is written over leaves its entry with a freed chain. -/
theorem write_over_not_sound :
    trap.WellFormed trapDisk ∧
      ¬ Does True (fat12_core_write_file_on_device trap.dev 4096 (.cut [SLASH, 0x46]) [1]) trapDisk
        (fun _ d' => trap.Sound (trap.view d')) (fun _ d' => trap.Sound (trap.view d')) := by
  refine ⟨trap_wf, fun hdoes => ?_⟩
  obtain ⟨d', ⟨_, hsound⟩ | ⟨_, hsound⟩, hnot⟩ :=
    Geometry.write_file_stopped trap_wf (Nat.le_refl _) trap_overwrites hdoes
  · exact hnot hsound
  · exact hnot hsound

end System1.Fat12
