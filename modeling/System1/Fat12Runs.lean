/-
Sequences of operations on a well-formed FAT12 volume.

A device that does not fail keeps a volume well-formed through any number of operations,
whatever each of them returns, and no cluster is lost on the way. One operation needs a
condition: `fat12_rmdir` judges a directory by the first two bytes of its names, and takes
one away that holds an entry such as `..X`. The entry goes with the directory, and its
clusters stay allocated for nobody (`trap_leaks`).

Each operation has been dealt with on its own, for every disk it can start from. What is
left here is one step and the induction along a run.
-/
import System1.Fat12Writes

set_option autoImplicit false

namespace System1.Fat12

open System1.Lib

/-! ## Operations -/

/-- An operation with its arguments. The driver's current directory is an argument of
`fat12_rmdir`. -/
inductive Op where
  | create_dir (path : CString)
  | write_file (path : CString) (data : List UInt8)
  | unlink (path : CString)
  | rmdir (cwd path : CString)

def Op.path : Op → CString
  | .create_dir path => path
  | .write_file path _ => path
  | .unlink path => path
  | .rmdir _ path => path

/-- How the operation stores the last name of its path. -/
def Op.make83 : Op → List UInt8 → Except FsErr Name83
  | .create_dir _ => fat12_make_83_dir_name
  | .write_file _ _ => fat12_make_83_file_name
  | .unlink _ => fat12_make_83_file_name
  | .rmdir _ _ => fat12_make_83_dir_name

def Op.prog (dev : BlockDevice) (fuel : Nat) : Op → Io Unit
  | .create_dir path => fat12_core_create_dir_on_device dev fuel path
  | .write_file path data => fat12_core_write_file_on_device dev fuel path data
  | .unlink path => fat12_core_unlink_on_device fuel path
  | .rmdir cwd path => fat12_rmdir dev fuel cwd path

theorem Op.encodes (op : Op) : Encodes op.make83 := by
  cases op with
  | create_dir path => exact encodes_dir
  | write_file path data => exact encodes_file
  | unlink path => exact encodes_file
  | rmdir cwd path => exact encodes_dir

/-- The last component of the path does not start with the mark of a deleted slot. -/
def Op.Plain (op : Op) : Prop :=
  (op.path.bytes.rtakeWhile (· ≠ SLASH)).head? ≠ some FAT12_ENTRY_DELETED

instance (op : Op) : Decidable op.Plain := inferInstanceAs (Decidable (_ ≠ _))

namespace Geometry

variable {g : Geometry} {d d' : Disk} {fuel : Nat}

/-- Then its stored name does not either. -/
theorem not_unseen {op : Op} (h : op.Plain) (V : Volume) : ¬ g.Unseen V op.make83 op.path := by
  rintro ⟨c, leaf83, ⟨parts, hsplit, hleaf, -⟩, hE5⟩
  obtain ⟨a, rest, hname, -, hfirst⟩ := op.encodes parts.2 leaf83 hleaf
  have hE5 : leaf83 0 = FAT12_ENTRY_DELETED := hE5
  rw [hfirst, upper_eq_deleted] at hE5
  apply h
  rw [← (split_parts hsplit).2, hname, hE5]
  rfl

/-! ## One operation -/

variable (g) in
/-- A well-formed volume on a disk: its boot sector, equal copies of the table, and a tree in
order. -/
structure WellFormed (d : Disk) : Prop where
  boot : fat12_parse_bpb (d 0) = .ok g.b
  mirrored : g.Mirrored d
  wf : g.Wf (g.view d)

variable (g) in
/-- The operation is a removal of a directory that `fat12_rmdir` misjudges. -/
def Misjudges (V : Volume) : Op → Prop
  | .rmdir cwd path => g.Misjudged V cwd path
  | _ => False

variable (g) in
/-- The operation overwrites a file that has clusters. -/
def Overwriting (V : Volume) : Op → Prop
  | .write_file path _ => g.Overwrites V path
  | _ => False

/-- What every operation does on a device that may fail. -/
theorem does_op {faults : Prop} (h : g.WellFormed d) (hfuel : 4096 ≤ fuel) {op : Op}
    (hjudged : ¬ g.Misjudges (g.view d) op) (hsafe : faults → ¬ g.Overwriting (g.view d) op) :
    Does faults (op.prog g.dev fuel) d
      (fun _ d' => g.After (faults ∨ g.Unseen (g.view d) op.make83 op.path)
        (g.Names (g.view d) op.make83 op.path) d d')
      (fun _ d' => g.After (faults ∨ g.Unseen (g.view d) op.make83 op.path)
        (g.Names (g.view d) op.make83 op.path) d d') := by
  cases op with
  | create_dir path =>
    apply (does_create_dir h.boot h.wf hfuel path).mono
    · exact fun _ _ hafter => hafter.mono id fun _ _ hn => hn.elim
    · exact fun _ _ hafter => hafter.mono id fun _ _ hn => hn.elim
  | write_file path data =>
    exact (does_write_file h.boot h.wf hfuel path data hsafe).mono (fun _ _ hok => hok.1)
      fun _ _ hbad => hbad
  | unlink path =>
    apply (does_unlink h.boot h.wf hfuel path).mono
    · exact fun _ _ hok => hok.1.mono .inl fun _ _ hn => hn
    · exact fun _ _ hafter => hafter.mono .inl fun _ _ hn => hn
  | rmdir cwd path =>
    apply (does_rmdir h.boot h.wf hfuel cwd path hjudged).mono
    · exact fun _ _ hafter => hafter.mono .inl fun _ _ hn => hn
    · exact fun _ _ hafter => hafter.mono .inl fun _ _ hn => hn

/-! ## Runs -/

variable (g fuel) in
/-- The disk after an operation on a device that does not fail. -/
def exec (d : Disk) (op : Op) : Disk := ((op.prog g.dev fuel).run perfect d).2

/-- One operation: the volume is well-formed again and has no new leak. -/
theorem exec_wellFormed (h : g.WellFormed d) (hfuel : 4096 ≤ fuel) {op : Op} (hplain : op.Plain)
    (hjudged : ¬ g.Misjudges (g.view d) op) :
    ((op.prog g.dev fuel).run perfect d).1 ≠ .spin ∧ g.WellFormed (g.exec fuel d op) ∧
      ∀ x, g.Leak (g.view (g.exec fuel d op)) x → g.Leak (g.view d) x := by
  have hrun := (does_op h hfuel hjudged (fun hf : False => hf.elim)).run
  have hafter : ∀ d', g.After (False ∨ g.Unseen (g.view d) op.make83 op.path)
      (g.Names (g.view d) op.make83 op.path) d d' →
      g.WellFormed d' ∧ ∀ x, g.Leak (g.view d') x → g.Leak (g.view d) x := by
    intro d' hafter
    obtain hsloppy | ⟨hleak, hnames, hmirror⟩ := hafter.tables
    · exact (hsloppy.elim id (not_unseen hplain _)).elim
    refine ⟨⟨?_, hmirror h.mirrored, hafter.neat, hnames h.wf.names⟩, hleak⟩
    rw [hafter.boot]
    exact h.boot
  unfold exec
  generalize (op.prog g.dev fuel).run perfect d = r at hrun
  obtain ⟨o, d'⟩ := r
  cases o with
  | done a => exact ⟨by simp, hafter d' hrun⟩
  | fail rc => exact ⟨by simp, hafter d' hrun⟩
  | spin => exact hrun.elim

variable (g fuel) in
/-- No operation of the run, at the disk it starts from, misjudges a directory. -/
def Judicious : Disk → List Op → Prop
  | _, [] => True
  | d, op :: ops => ¬ g.Misjudges (g.view d) op ∧ Judicious (g.exec fuel d op) ops

variable (g fuel) in
/-- Every call of the run returns. -/
def Returns : Disk → List Op → Prop
  | _, [] => True
  | d, op :: ops => ((op.prog g.dev fuel).run perfect d).1 ≠ .spin ∧ Returns (g.exec fuel d op) ops

/-- A well-formed volume stays well-formed through every sequence of operations, each of
which returns, and no cluster is lost. -/
theorem volume_stays_wf (h : g.WellFormed d) (hfuel : 4096 ≤ fuel) {ops : List Op}
    (hplain : ∀ op ∈ ops, op.Plain) (hops : g.Judicious fuel d ops) :
    g.Returns fuel d ops ∧ g.WellFormed (ops.foldl (g.exec fuel) d) ∧
      ∀ x, g.Leak (g.view (ops.foldl (g.exec fuel) d)) x → g.Leak (g.view d) x := by
  induction ops generalizing d with
  | nil => exact ⟨trivial, h, fun _ hx => hx⟩
  | cons op ops ih =>
    obtain ⟨hjudged, hops⟩ := hops
    obtain ⟨hreturns, hwf, hleak⟩ :=
      exec_wellFormed h hfuel (hplain op List.mem_cons_self) hjudged
    obtain ⟨hrest, hwf', hleak'⟩ :=
      ih hwf (fun op' hop' => hplain op' (List.mem_cons_of_mem op hop')) hops
    exact ⟨⟨hreturns, hrest⟩, hwf', fun x hx => hleak x (hleak' x hx)⟩

/-- One operation of a run, where `rmdir` judges right. -/
theorem exec_after (h : g.WellFormed d) (hfuel : 4096 ≤ fuel) {op : Op} (hplain : op.Plain)
    (hjudged : ¬ g.Misjudges (g.view d) op) :
    g.After False (g.Names (g.view d) op.make83 op.path) d (g.exec fuel d op) := by
  have hrun := (does_op h hfuel hjudged (fun hf : False => hf.elim)).run
  rw [show (False ∨ g.Unseen (g.view d) op.make83 op.path) = False by
    simp [not_unseen hplain]] at hrun
  unfold exec
  generalize (op.prog g.dev fuel).run perfect d = r at hrun
  obtain ⟨o, d'⟩ := r
  cases o with
  | done | fail => exact hrun
  | spin => exact hrun.elim

variable (g fuel) in
/-- No operation of the run names the entry. -/
def Spares : Disk → List Op → EntryRef → Prop
  | _, [], _ => True
  | d, op :: ops, r =>
    ¬ g.Names (g.view d) op.make83 op.path r ∧ Spares (g.exec fuel d op) ops r

/-- Through a whole run, what no operation names keeps its entry, its chain and its bytes. -/
theorem spared_kept (h : g.WellFormed d) (hfuel : 4096 ≤ fuel) {ops : List Op}
    (hplain : ∀ op ∈ ops, op.Plain) (hops : g.Judicious fuel d ops) :
    g.After False (fun r => ¬ g.Spares fuel d ops r) d (ops.foldl (g.exec fuel) d) := by
  induction ops generalizing d with
  | nil => exact After.refl h.wf.toNeat
  | cons op ops ih =>
    have hop := hplain op List.mem_cons_self
    have hrest := ih (exec_wellFormed h hfuel hop hops.1).2.1
      (fun op' hop' => hplain op' (List.mem_cons_of_mem op hop')) hops.2
    have hfirst := exec_after h hfuel hop hops.1
    exact (hfirst.mono id fun _ _ hn hs => hs.1 hn).trans hrest fun _ hn _ hs => hn hs.2

/-! ## A directory that is misjudged -/

section

variable {V : Volume} {dirs : List Nat} {slots : Nat → List EntryRef} (hroot : 0 ∈ dirs)
  (hslots : ∀ c ∈ dirs, g.DirRefs V c (slots c))

include hroot hslots

section

variable
  (hsub : ∀ c ∈ dirs, ∀ r ∈ V.entries (slots c), (V.slot r).dots = false →
    (V.slot r).isDir = true → (V.slot r).cluster ∈ dirs)

include hsub

theorem LiveDir.mem_of_lists {c : Nat} (h : g.LiveDir V c) :
    c ∈ dirs := by
  induction h with
  | root => exact hroot
  | @sub c refs ref _ hrefs hmem hdots hisDir ih =>
    obtain rfl := hrefs.unique (hslots c ih)
    exact hsub c ih ref hmem hdots hisDir

/-- When every directory has been listed, so has every entry. -/
theorem LiveEntry.mem_of_lists {ref : EntryRef} (h : g.LiveEntry V ref) :
    ∃ c ∈ dirs, ref ∈ V.entries (slots c) ∧ (V.slot ref).dots = false := by
  obtain ⟨c, refs, hdir, hrefs, hmem, hdots⟩ := h
  have hc := hdir.mem_of_lists hroot hslots hsub
  obtain rfl := hrefs.unique (hslots c hc)
  exact ⟨c, hc, hmem, hdots⟩

end

/-- A volume whose directories have been listed, with the chains of their entries, is
well-formed if the lists are in order. -/
theorem wf_of_lists {own : EntryRef → List Nat}
    (hsub : ∀ c ∈ dirs, ∀ r ∈ V.entries (slots c), (V.slot r).dots = false →
      (V.slot r).isDir = true → (V.slot r).cluster ∈ dirs)
    (howns : ∀ c ∈ dirs, ∀ r ∈ V.entries (slots c), (V.slot r).dots = false →
      g.Owns V (V.slot r) (own r) ∧ g.Fits (V.slot r) (own r))
    (hdisjoint : ∀ c ∈ dirs, ∀ r ∈ V.entries (slots c), ∀ c' ∈ dirs, ∀ r' ∈ V.entries (slots c'),
      (V.slot r).dots = false → (V.slot r').dots = false → r ≠ r' → (own r).Disjoint (own r'))
    (htidy : ∀ c ∈ dirs, V.Tidy (slots c))
    (hnames : ∀ c ∈ dirs, ∀ r ∈ V.entries (slots c), ∀ r' ∈ V.entries (slots c),
      (V.slot r).name = (V.slot r').name → r = r') :
    g.Wf V := by
  refine ⟨⟨⟨?_, ?_⟩, ?_⟩, ?_⟩
  · intro ref hlive
    obtain ⟨c, hc, hmem, hdots⟩ := hlive.mem_of_lists hroot hslots hsub
    exact ⟨own ref, howns c hc ref hmem hdots⟩
  · intro ref ref' cs cs' hlive hlive' hcs hcs' hne
    obtain ⟨c, hc, hmem, hdots⟩ := hlive.mem_of_lists hroot hslots hsub
    obtain ⟨c', hc', hmem', hdots'⟩ := hlive'.mem_of_lists hroot hslots hsub
    rw [hcs.unique (howns c hc ref hmem hdots).1, hcs'.unique (howns c' hc' ref' hmem' hdots').1]
    exact hdisjoint c hc ref hmem c' hc' ref' hmem' hdots hdots' hne
  · intro c refs hdir hrefs
    have hc := hdir.mem_of_lists hroot hslots hsub
    obtain rfl := hrefs.unique (hslots c hc)
    exact htidy c hc
  · intro c refs ref ref' hdir hrefs hmem hmem' hname
    have hc := hdir.mem_of_lists hroot hslots hsub
    obtain rfl := hrefs.unique (hslots c hc)
    exact hnames c hc ref hmem ref' hmem' hname

end

end Geometry

/-- A device with room for four clusters. -/
def trapDevice : BlockDevice := ⟨true, true, 512, 7, by decide⟩

def trap : Geometry := ⟨smallBpb, trapDevice, by decide +kernel, by decide +kernel⟩

/-- The stored name that starts with the given bytes. -/
def named (bytes : List UInt8) : Name83 := fun i => bytes.getD i SPACE

/-- The root has a directory `D` and a file `F`. In `D` there is a file of the given name. -/
def treeDisk (inner : Name83) : Disk := fun lba j =>
  if lba = 0 then smallBoot j
  else if lba = 1 then ([0xF8, 0xFF, 0xFF, 0xFF, 0xFF, 0xFF, 0xFF, 0x0F] : List UInt8).getD j 0
  else if lba = 2 then
    if j < 32 then dirEntry (named [0x44]) 2 j
    else if j < 64 then fileEntry (named [0x46]) 4 1 (j - 32)
    else 0
  else if lba = 3 then
    if j < 32 then dirEntry dot83 2 j
    else if j < 64 then dirEntry dotdot83 0 (j - 32)
    else if j < 96 then fileEntry inner 3 1 (j - 64)
    else 0
  else 0

/-- The file in `D` is `..X`. -/
def trapDisk : Disk := treeDisk (named [0x2E, 0x2E, 0x58])

/-- The file in `D` is `G`. -/
def plainDisk : Disk := treeDisk (named [0x47])

/-- The slots of the two directories, and the entries. -/
def trapSlots (c : Nat) : List EntryRef := if c = 0 then trap.rootRefs else trap.chainRefs [2]

def trapEntries : List EntryRef := [⟨2, 0⟩, ⟨2, 32⟩, ⟨3, 64⟩]

instance (V : Volume) (refs : List EntryRef) : Decidable (V.Tidy refs) :=
  inferInstanceAs (Decidable (List.Pairwise _ _))

instance (g : Geometry) (e : Slot) (cs : List Nat) : Decidable (g.Fits e cs) :=
  inferInstanceAs (Decidable (if e.isDir then cs ≠ [] else
    cs.length = (e.size + g.clusterBytes - 1) / g.clusterBytes))

section

variable {d : Disk} (hd : d ∈ [trapDisk, plainDisk])

include hd

theorem trap_live : ∀ c ∈ [0, 2], ∀ r ∈ (trap.view d).entries (trapSlots c),
    ((trap.view d).slot r).dots = false → r ∈ trapEntries := by
  revert d
  decide +kernel

theorem trap_entry : ∀ r ∈ trapEntries, ((trap.view d).slot r).cluster ∈ [2, 3, 4] ∧
    trap.Fits ((trap.view d).slot r) [((trap.view d).slot r).cluster] ∧
    (((trap.view d).slot r).isDir = true → ((trap.view d).slot r).cluster = 2) := by
  revert d
  decide +kernel

theorem trap_apart : ∀ r ∈ trapEntries, ∀ r' ∈ trapEntries, r ≠ r' →
    ((trap.view d).slot r).cluster ≠ ((trap.view d).slot r').cluster := by
  revert d
  decide +kernel

theorem trap_ordered : ∀ c ∈ [0, 2], (trap.view d).Tidy (trapSlots c) ∧
    ∀ r ∈ (trap.view d).entries (trapSlots c), ∀ r' ∈ (trap.view d).entries (trapSlots c),
      ((trap.view d).slot r).name = ((trap.view d).slot r').name → r = r' := by
  revert d
  decide +kernel

theorem trap_chain {c : Nat} (h : c ∈ [2, 3, 4]) : trap.Chain (trap.view d).fat c [c] := by
  have hends : ∀ d ∈ [trapDisk, plainDisk], ∀ c ∈ [2, 3, 4],
      trap.InRange c ∧ CHAIN_END ≤ (trap.view d).fat c := by
    decide +kernel
  exact .cons (hends d hd c h).1 (.nil (hends d hd c h).2)

theorem trap_slots : ∀ c ∈ [0, 2], trap.DirRefs (trap.view d) c (trapSlots c) := by
  intro c hc
  obtain rfl | hc := List.mem_cons.mp hc
  · exact .inl ⟨rfl, rfl⟩
  · obtain rfl := List.mem_singleton.mp hc
    exact .inr ⟨[2], by simp, trap_chain hd (by simp), rfl⟩

theorem trap_owns {r : EntryRef} (h : r ∈ trapEntries) :
    trap.Owns (trap.view d) ((trap.view d).slot r) [((trap.view d).slot r).cluster] :=
  .inr ⟨by simp, trap_chain hd (trap_entry hd r h).1⟩

/-- The sample volume has a tree. -/
theorem trap_tree : trap.Wf (trap.view d) := by
  apply @Geometry.wf_of_lists trap (trap.view d) [0, 2] trapSlots (by decide) (trap_slots hd)
    fun r => [((trap.view d).slot r).cluster]
  · grind [trap_entry, trap_live]
  · grind [trap_live, trap_owns, trap_entry]
  · intro c hc r hr c' hc' r' hr' hdots hdots' hne
    have hlive := trap_live hd c hc r hr hdots
    simpa using Ne.symm (trap_apart hd r hlive r' (trap_live hd c' hc' r' hr' hdots') hne)
  · exact fun c hc => (trap_ordered hd c hc).1
  · exact fun c hc => (trap_ordered hd c hc).2

end

/-- There is one copy of the table. -/
theorem trap_mirrored (d : Disk) : trap.Mirrored d := by
  intro i hi n _
  have hcount : trap.b.fat_count = 1 := by decide +kernel
  obtain rfl : i = 0 := by omega
  rfl

theorem trap_wf : trap.WellFormed trapDisk :=
  ⟨smallBoot_parsed, trap_mirrored _, trap_tree (.head _)⟩

/-- `rm /F`. -/
def removeF : Op := .unlink (.cut [SLASH, 0x46])

/-- Two removals keep the sample volume well formed. -/
theorem trap_stays_wf :
    trap.WellFormed trapDisk ∧ (∀ op ∈ [removeF, removeF], op.Plain) ∧
      trap.Judicious 4096 trapDisk [removeF, removeF] ∧
      trap.Returns 4096 trapDisk [removeF, removeF] ∧
      trap.WellFormed ([removeF, removeF].foldl (trap.exec 4096) trapDisk) := by
  have hplain : ∀ op ∈ [removeF, removeF], op.Plain := by decide
  have hjudicious : trap.Judicious 4096 trapDisk [removeF, removeF] := ⟨id, id, trivial⟩
  obtain ⟨hreturns, hwf, -⟩ := Geometry.volume_stays_wf trap_wf (Nat.le_refl _) hplain hjudicious
  exact ⟨trap_wf, hplain, hjudicious, hreturns, hwf⟩

theorem trap_spared :
    trap.After False (fun r => ¬ trap.Spares 4096 trapDisk [removeF, removeF] r) trapDisk
      ([removeF, removeF].foldl (trap.exec 4096) trapDisk) :=
  Geometry.spared_kept trap_wf (Nat.le_refl _) (by decide) ⟨id, id, trivial⟩

/-- `rmdir /D`. -/
def springTrap : Op := .rmdir (.cut [SLASH]) (.cut [SLASH, 0x44])

/-- The directory goes with the file in it, and the cluster of the file is lost. -/
theorem trap_leaks :
    trap.WellFormed trapDisk ∧ springTrap.Plain ∧
      ((springTrap.prog trap.dev 4096).run perfect trapDisk).1 = .done () ∧
      trap.Leak (trap.view (trap.exec 4096 trapDisk springTrap)) 3 ∧
      ¬ trap.Leak (trap.view trapDisk) 3 := by
  have hdone : (springTrap.prog trap.dev 4096).run perfect trapDisk =
      (.done (), trap.exec 4096 trapDisk springTrap) := by
    apply Prod.ext
    · decide +kernel
    · rfl
  have hlost : trap.InRange 3 ∧
      (trap.view (trap.exec 4096 trapDisk springTrap)).fat 3 ≠ FAT12_CLUSTER_FREE := by
    decide +kernel
  have hlast : ∀ r ∈ (trap.view (trap.exec 4096 trapDisk springTrap)).entries trap.rootRefs,
      ((trap.view (trap.exec 4096 trapDisk springTrap)).slot r).isDir = false ∧
      ((trap.view (trap.exec 4096 trapDisk springTrap)).slot r).cluster = 4 ∧
      CHAIN_END ≤ (trap.view (trap.exec 4096 trapDisk springTrap)).fat 4 := by
    decide +kernel
  have howner : trap.LiveEntry (trap.view trapDisk) ⟨3, 64⟩ := by
    have hD : trap.LiveDir (trap.view trapDisk) ((trap.view trapDisk).slot ⟨2, 0⟩).cluster :=
      .sub .root (.inl ⟨rfl, rfl⟩) (by decide +kernel) (by decide +kernel) (by decide +kernel)
    have hcluster : ((trap.view trapDisk).slot ⟨2, 0⟩).cluster = 2 := by decide +kernel
    rw [hcluster] at hD
    exact ⟨2, _, hD, trap_slots (.head _) 2 (by simp), by decide +kernel, by decide +kernel⟩
  refine ⟨trap_wf, by decide, by rw [hdone], ⟨hlost.1, hlost.2, ?_⟩, ?_⟩
  · -- only the root is left, and of its entries `F`, which has cluster 4
    generalize trap.view (trap.exec 4096 trapDisk springTrap) = V at *
    rintro ⟨ref, cs, hlive, howns, h3⟩
    obtain ⟨c, -, hmem, -⟩ := @Geometry.LiveEntry.mem_of_lists trap V [0] (fun _ => trap.rootRefs)
      (by simp) (by simp [Geometry.DirRefs])
        (fun c _ r hr _ hisDir => by simp [hlast r hr] at hisDir)
      ref hlive
    obtain ⟨-, hcluster, hend⟩ := hlast ref hmem
    have hfour : trap.Owns V (V.slot ref) [4] :=
      .inr ⟨by simp, by rw [hcluster]; exact .cons (by decide +kernel) (.nil hend)⟩
    rw [howns.unique hfour] at h3
    simp at h3
  · rintro ⟨-, -, hfree⟩
    exact hfree ⟨⟨3, 64⟩, _, howner, trap_owns (.head _) (by decide), by decide +kernel⟩

section

variable {make83 : List UInt8 → Except FsErr Name83} {path : CString} {leaf : List UInt8}
  (hsplit : fat12_split_create_path path.bytes = .ok ([SLASH], leaf))
  (hleaf : (make83 leaf).toOption = some (named leaf))

include hsplit hleaf

/-- A path of one component. -/
theorem trap_parent : trap.Parent (trap.view trapDisk) make83 path 0 (named leaf) := by
  refine ⟨_, hsplit, ?_, .nil⟩
  generalize make83 leaf = r at hleaf
  cases r with
  | error rc => cases hleaf
  | ok name83 => exact congrArg Except.ok (Option.some.inj hleaf)

theorem trap_names {ref : EntryRef}
    (hlookup : (trap.view trapDisk).lookup trap.rootRefs (named leaf) = some ref) :
    trap.Names (trap.view trapDisk) make83 path ref :=
  ⟨0, named leaf, trap.rootRefs, trap_parent hsplit hleaf, .inl ⟨rfl, rfl⟩, hlookup⟩

end

/-- `rmdir` takes the directory `/D` for an empty one. -/
theorem trap_misjudged :
    trap.Misjudged (trap.view trapDisk) (.cut [SLASH]) (.cut [SLASH, 0x44]) := by
  have hnames : trap.Names (trap.view trapDisk) fat12_make_83_dir_name (.cut [SLASH, 0x44])
      ⟨2, 0⟩ :=
    @trap_names _ _ [0x44] (by decide) (by decide +kernel) _ (by decide +kernel)
  refine ⟨rfl, by decide, by decide, ⟨2, 0⟩, hnames, by decide +kernel, ?_⟩
  have hcluster : ((trap.view trapDisk).slot ⟨2, 0⟩).cluster = 2 := by decide +kernel
  rw [hcluster]
  refine ⟨_, trap_slots (.head _) 2 (by simp), ?_, ⟨3, 64⟩, by decide +kernel, by decide +kernel⟩
  unfold Volume.Blocked
  decide +kernel

theorem trap_overwrites : trap.Overwrites (trap.view trapDisk) (.cut [SLASH, 0x46]) :=
  ⟨⟨2, 32⟩, @trap_names _ _ [0x46] (by decide) (by decide +kernel) _ (by decide +kernel),
    by decide +kernel, by decide +kernel⟩

end System1.Fat12
