/-
Whether the walks over a directory come to an end.

The walks follow the links of the table and nothing stops them but what they meet: a slot
they are looking for, the end of the directory, or a link that ends the chain. (The walk of
`fat12_rmdir` counts its clusters and gives up after 4096; these do not.) In a chain that
leads back into itself there may be nothing of that, and then the walk never ends. So the
condition under which a walk ends is about what is on the way: `ScanEnds`. For each of the
four walks it is exact, on a device with any number of sectors; one that the device does not
have ends the walk as well, with a failure in a directory and as the end of the chain in the
table.

A listing is a walk that is bounded in one more way. It gives up when its caller's array is
full, so a directory that goes in a circle ends it too, unless there is nothing to list in
the circle.
-/
import System1.Fat12Reads
import System1.VfsLinks
import System1.Lib.Fuel

set_option autoImplicit false

namespace System1.Fat12

open System1.Lib System1.Lib.Fuel System1.Vfs List

/-! ## Listing a directory -/

def FAT12_NAME_SLOTS : Nat := 32

/-- A slot in the eyes of `fat12_list_dir`: the long name under assembly and the entries so
far. At the end of the directory, or when there is no room, it stops with the return code
(`none` is `FS_OK`) and these entries. -/
def listVisit (cap : Nat) (s : Lfn × List DirEnt) (_ : EntryRef) (e : Slot) :
    Step (Lfn × List DirEnt) (Option FsErr × List DirEnt) :=
  if e.first = FAT12_ENTRY_FREE then .stop (none, s.2)
  else if e.first = FAT12_ENTRY_DELETED then .next (none, s.2)
  else if e.attr = FAT12_ATTR_LONG_NAME then .next (fat12_lfn_read_entry s.1 e, s.2)
  else if e.attr &&& FAT12_ATTR_VOLUME_ID ≠ 0 then .next (none, s.2)
  else if s.2.length ≥ cap ∨ s.2.length ≥ FAT12_NAME_SLOTS then .stop (some .NO_SPACE, s.2)
  else .next (none, s.2 ++ [⟨fat12_copy_display_name e s.1, if e.isDir then .DIR else .FILE⟩])

section Mounted

variable (fuel : Nat) (b : Bpb)

/-- The directory that is listed: the current one if no path is given. -/
def listTarget (cwd_cluster : Nat) (path : Option CString) : Io Nat :=
  match path with
  | none => return cwd_cluster
  | some path =>
    if path.bytes = [] ∨ path.bytes = dotName then return cwd_cluster
    else do
      let info ← fat12_resolve_path_info fuel b cwd_cluster path.bytes
      if info.is_dir = false then .fail .NOT_DIR else return info.cluster

/-- The walk over the slots of the directory. -/
def listSlots (cap target_cluster : Nat) : Io (Option FsErr × List DirEnt) := do
  match ← scanDir (listVisit cap) b (fat12_get_next_cluster b) fuel target_cluster (none, []) with
  | .next s => return (none, s.2)
  | .stop r => return r

def fat12_list_dir (cwd_cluster : Nat) (path : Option CString) (cap : Nat) :
    Io (Option FsErr × List DirEnt) := do
  let target_cluster ← listTarget fuel b cwd_cluster path
  listSlots fuel b cap target_cluster

end Mounted

/-! ## What stops a walk -/

/-- What a walk looks for: the slots that stop it, by what it remembers of those before. -/
structure Search (τ : Type) where
  after : τ → Slot → τ
  stops : τ → Slot → Prop

namespace Search

variable {σ τ α : Type} (w : Search τ) (sector_count : Nat) (d : Disk)

/-- What is remembered behind some slots. -/
def past (t : τ) (slots : List (EntryRef × Slot)) : τ := slots.foldl (fun t x => w.after t x.2) t

/-- One of the slots stops the walk. -/
def Meets : τ → List (EntryRef × Slot) → Prop
  | _, [] => False
  | t, x :: rest => w.stops t x.2 ∨ Meets (w.after t x.2) rest

/-- One of the sectors has a slot that stops the walk, or the device does not have it. -/
def Stopped : τ → List Nat → Prop
  | _, [] => False
  | t, lba :: rest =>
    ¬ HasSector sector_count lba ∨ w.Meets t (sectorSlots lba (d lba)) ∨
      Stopped (w.past t (sectorSlots lba (d lba))) rest

/-- The walk that a visit makes of its slots; of the state of the visit, `abs` is what
matters. -/
def Guides (visit : σ → EntryRef → Slot → Step σ α) (abs : σ → τ) : Prop :=
  ∀ s r e, (w.stops (abs s) e ∧ ∃ a, visit s r e = .stop a) ∨
    ¬ w.stops (abs s) e ∧ ∃ s', visit s r e = .next s' ∧ abs s' = w.after (abs s) e

/-- A scan for entries stops at a free slot, steps over a slot without an entry, and of the
entries it stops at those with `Q`. -/
def entries (after : τ → Slot → τ) (Q : τ → Slot → Prop) : Search τ where
  after := after
  stops t e := e.first = FAT12_ENTRY_FREE ∨ e.skipped = false ∧ Q t e

/-- What a search over entries has to do at a slot: stop at a free one, pass the skipped,
and decide at the others. -/
theorem guides_entries {visit : σ → EntryRef → Slot → Step σ α} {abs : σ → τ}
    {after : τ → Slot → τ} {Q : τ → Slot → Prop} [∀ t e, Decidable (Q t e)]
    (hfree : ∀ s r e, e.first = FAT12_ENTRY_FREE → ∃ a, visit s r e = .stop a)
    (hskip : ∀ s r e, e.first ≠ FAT12_ENTRY_FREE → e.skipped = true →
      ∃ s', visit s r e = .next s' ∧ abs s' = after (abs s) e)
    (hlive : ∀ s r e, e.first ≠ FAT12_ENTRY_FREE → e.skipped = false →
      ∃ a s', visit s r e = (if Q (abs s) e then .stop a else .next s') ∧
        abs s' = after (abs s) e) :
    (entries after Q).Guides visit abs := by
  intro s r e
  by_cases hf : e.first = FAT12_ENTRY_FREE
  · exact .inl ⟨.inl hf, hfree s r e hf⟩
  cases hs : e.skipped with
  | true => exact .inr ⟨by simp [entries, hf, hs], hskip s r e hf hs⟩
  | false =>
    obtain ⟨a, s', hvisit, habs⟩ := hlive s r e hf hs
    by_cases hq : Q (abs s) e
    · exact .inl ⟨.inr ⟨hs, hq⟩, a, hvisit.trans (if_pos hq)⟩
    · exact .inr ⟨by simp [entries, hf, hq], s', hvisit.trans (if_neg hq), habs⟩

variable {w} {visit : σ → EntryRef → Slot → Step σ α} {abs : σ → τ} (hw : w.Guides visit abs)

include hw

/-- A scan of slots stops where the search does. -/
theorem Guides.scanSlots (slots : List (EntryRef × Slot)) (s : σ) :
    (w.Meets (abs s) slots ∧ ∃ a, scanSlots visit slots s = .stop a) ∨
      ¬ w.Meets (abs s) slots ∧
        ∃ s', scanSlots visit slots s = .next s' ∧ abs s' = w.past (abs s) slots := by
  induction slots generalizing s with
  | nil => exact .inr ⟨id, s, rfl, rfl⟩
  | cons x rest ih =>
    obtain ⟨r, e⟩ := x
    unfold Fat12.scanSlots Meets
    obtain ⟨hstops, a, ha⟩ | ⟨hgoes, s', hnext, habs⟩ := hw s r e
    · rw [ha]
      exact .inl ⟨.inl hstops, a, rfl⟩
    · rw [hnext, or_iff_right hgoes, ← habs]
      obtain hrest | ⟨hgoes', s'', hrest, habs'⟩ := ih s'
      · exact .inl hrest
      · exact .inr ⟨hgoes', s'', hrest, by rw [habs', habs]; rfl⟩

/-- A walk over some sectors is stopped, with a result or a failure, or passes them all. -/
theorem Guides.scanSectors (base count idx : Nat) (s : σ) :
    (w.Stopped sector_count d (abs s) (lbaRange base count idx) ∧
      ∃ o, (scanSectors visit base count idx s).run (sized sector_count) d = (o, d) ∧
        o ≠ .spin ∧ ∀ s', o ≠ .done (.next s')) ∨
    ¬ w.Stopped sector_count d (abs s) (lbaRange base count idx) ∧
      ∃ s', (scanSectors visit base count idx s).run (sized sector_count) d =
          (.done (.next s'), d) ∧
        abs s' = w.past (abs s) (slotsOf d (lbaRange base count idx)) := by
  induction count generalizing idx s with
  | zero => exact .inr ⟨id, s, rfl, rfl⟩
  | succ count ih =>
    rw [lbaRange_succ]
    unfold Fat12.scanSectors Stopped
    obtain ⟨hhas, hread⟩ | ⟨hhas, hread⟩ := run_block_read sector_count d (u32 (base + idx))
    swap
    · rw [Prog.run_bind_fail _ hread]
      exact .inl ⟨.inl hhas, _, rfl, by simp, by simp⟩
    rw [Prog.run_bind_done _ hread, or_iff_right (not_not.mpr hhas)]
    obtain ⟨hmeets, a, ha⟩ | ⟨hpasses, s', hs, habs⟩ :=
      hw.scanSlots (sectorSlots (u32 (base + idx)) (d (u32 (base + idx)))) s
    · rw [ha]
      exact .inl ⟨.inl hmeets, _, rfl, by simp, by simp⟩
    rw [hs, or_iff_right hpasses, ← habs]
    obtain hrest | ⟨hgoes, s'', hrun, habs'⟩ := ih (idx + 1) s'
    · exact .inl hrest
    · refine .inr ⟨hgoes, s'', hrun, ?_⟩
      rw [habs', habs]
      exact foldl_append.symm

end Search

/-! ## Where a walk ends -/

section

variable {τ : Type} (b : Bpb) (sector_count : Nat) (d : Disk)

/-- The walk ends that comes to the cluster `c` and remembers `t`: the chain is at its end,
or something in the cluster stops the walk, or it ends behind the link. A link that is in a
part of the table that the device does not have ends the chain. -/
inductive ChainEnds (w : Search τ) : τ → Nat → Prop
  | out {t : τ} {c : Nat} : CHAIN_END ≤ c → ChainEnds w t c
  | here {t : τ} {c : Nat} : w.Stopped sector_count d t (clusterLbas b c) → ChainEnds w t c
  | link {t : τ} {c : Nat} :
    ChainEnds w (w.past t (slotsOf d (clusterLbas b c))) (nextCluster b sector_count d c) →
      ChainEnds w t c

/-- The walk over the directory that starts at `c` ends. The root is not a chain. -/
def ScanEnds (w : Search τ) (t : τ) (c : Nat) : Prop := c = 0 ∨ ChainEnds b sector_count d w t c

/-- How the walks go from cluster to cluster: `fat12_get_next_cluster` ends the chain where
the table cannot be read, and `fat12_dev_get_fat_entry` fails there. -/
def Links (next_cluster : Nat → Io Nat) : Prop :=
  ∀ c, (next_cluster c).run (sized sector_count) d = (.done (nextCluster b sector_count d c), d) ∨
    (next_cluster c).run (sized sector_count) d = (.fail .INVALID, d) ∧
      CHAIN_END ≤ nextCluster b sector_count d c

theorem links_get_next : Links b sector_count d (fat12_get_next_cluster b) :=
  fun c => .inl (run_get_next b sector_count d c)

/-- The read gives the next cluster, or fails where the chain ends anyway. -/
theorem links_get_fat : Links b sector_count d (fat12_dev_get_fat_entry b) := by
  intro c
  unfold nextCluster fat12_get_next_cluster
  rw [Prog.run_bind, Prog.run_attempt]
  obtain ⟨value, hget⟩ | hget := run_get_fat b sector_count d c
  · rw [hget]
    exact .inl rfl
  · rw [hget]
    exact .inr ⟨rfl, (by decide : CHAIN_END ≤ 0xFFF)⟩

end

section Scan

variable {σ τ α : Type} {b : Bpb} {sector_count : Nat} {d : Disk}
  {visit : σ → EntryRef → Slot → Step σ α} {next_cluster : Nat → Io Nat}

section

variable {w : Search τ} {abs : σ → τ} (hw : w.Guides visit abs)
  (hnext : Links b sector_count d next_cluster)

include hw hnext

/-- One cluster of a walk. It ends here, whatever the fuel is, or it goes on behind the
link. -/
theorem scanChain_step (c : Nat) (s : σ) :
    let run n := (scanChain visit b next_cluster n c s).run (sized sector_count) d
    let ends := ∀ n, (run (n + 1)).1 ≠ .spin
    let stopped := CHAIN_END ≤ c ∨ w.Stopped sector_count d (abs s) (clusterLbas b c)
    stopped ∧ ends ∨ ¬ stopped ∧ (CHAIN_END ≤ nextCluster b sector_count d c ∧ ends ∨
      ∃ s', abs s' = w.past (abs s) (slotsOf d (clusterLbas b c)) ∧
        ∀ n, run (n + 1) = (scanChain visit b next_cluster n (nextCluster b sector_count d c)
          s').run (sized sector_count) d) := by
  intro run ends stopped
  by_cases hc : c < CHAIN_END
  swap
  · refine .inl ⟨.inl (Nat.le_of_not_lt hc), fun n => ?_⟩
    have hrun : run (n + 1) = (.done (.next s), d) := by
      dsimp only [run]
      rw [scanChain, if_neg hc]
      rfl
    rw [hrun]
    exact nofun
  have hrun : ∀ n, run (n + 1) = Prog.run (sized sector_count) (_ >>= _) d := fun n =>
    congrArg (Prog.run _ · d) (if_pos hc)
  obtain ⟨hstopped, o, hscan, hspin, hnot⟩ | ⟨hgoes, s', hscan, habs⟩ :=
    hw.scanSectors sector_count d (fat12_cluster_to_lba b c) b.sectors_per_cluster 0 s
  · refine .inl ⟨.inr hstopped, fun n => ?_⟩
    rw [hrun, Prog.run_bind, hscan]
    match o with
    | .done (.stop a) => exact nofun
    | .done (.next s') => exact absurd rfl (hnot s')
    | .fail rc => exact nofun
    | .spin => exact absurd rfl hspin
  refine .inr ⟨not_or.mpr ⟨Nat.not_le.mpr hc, hgoes⟩, ?_⟩
  have hlink : ∀ n, run (n + 1) = Prog.run (sized sector_count) (next_cluster c >>= _) d := fun n =>
    (hrun n).trans (Prog.run_bind_done _ hscan _)
  obtain hnext | ⟨hnext, hend⟩ := hnext c
  · exact .inr ⟨s', habs, fun n => (hlink n).trans (Prog.run_bind_done _ hnext _)⟩
  · refine .inl ⟨hend, fun n => ?_⟩
    rw [hlink, Prog.run_bind_fail _ hnext]
    exact nofun

/-- A scan of a chain comes to an end exactly if the chain is left or the search stops. -/
theorem halts_scanChain (c : Nat) (s : σ) :
    Halts (sized sector_count) (fun n => scanChain visit b next_cluster n c s) d ↔
      ChainEnds b sector_count d w (abs s) c := by
  have hstep := scanChain_step hw hnext
  constructor
  · rintro ⟨n, hn⟩
    induction n generalizing c s with
    | zero => exact absurd rfl hn
    | succ n ih =>
      obtain ⟨hout | hhere, -⟩ | ⟨-, ⟨hend, -⟩ | ⟨s', habs, hrun⟩⟩ := hstep c s
      · exact .out hout
      · exact .here hhere
      · exact .link (.out hend)
      · have hn' := ne_of_eq_of_ne (congrArg Prod.fst (hrun n)).symm hn
        exact .link (habs ▸ ih _ s' hn')
  · intro h
    have hstopped : ∀ {c s}, (CHAIN_END ≤ c ∨ w.Stopped sector_count d (abs s) (clusterLbas b c)) →
        Halts (sized sector_count) (fun n => scanChain visit b next_cluster n c s) d := by
      intro c s hstopped
      obtain ⟨-, hends⟩ | ⟨hgoes, -⟩ := hstep c s
      · exact ⟨1, hends 0⟩
      · exact absurd hstopped hgoes
    generalize ht : abs s = t at h
    induction h generalizing s with
    | out hend => exact hstopped (.inl hend)
    | here hhere => exact hstopped (.inr (ht ▸ hhere))
    | link _ ih =>
      subst ht
      obtain ⟨-, hends⟩ | ⟨-, ⟨-, hends⟩ | ⟨s', habs, hrun⟩⟩ := hstep _ s
      · exact ⟨1, hends 0⟩
      · exact ⟨1, hends 0⟩
      · obtain ⟨n, hn⟩ := ih s' habs
        exact ⟨n + 1, ne_of_eq_of_ne (congrArg Prod.fst (hrun n)) hn⟩

/-- The root directory ends; another is a chain. -/
theorem halts_scanDir (c : Nat) (s : σ) :
    Halts (sized sector_count) (fun n => scanDir visit b next_cluster n c s) d ↔
      ScanEnds b sector_count d w (abs s) c := by
  unfold scanDir ScanEnds
  rw [halts_ite]
  by_cases hc : c = 0
  · rw [if_pos hc]
    refine iff_of_true ⟨0, ?_⟩ (.inl hc)
    obtain ⟨-, o, hrun, hspin, -⟩ | ⟨-, s', hrun, -⟩ :=
      hw.scanSectors sector_count d b.root_dir_lba b.root_dir_sectors 0 s
    · rwa [hrun]
    · rw [hrun]
      exact nofun
  · rw [if_neg hc, or_iff_right hc]
    exact halts_scanChain hw hnext c s

end

/-- More fuel changes nothing in a scan that has ended. -/
theorem steady_scanDir {H : Disk → (r : Req) → Resp r × Disk} {c : Nat} {s : σ} {d : Disk} :
    Steady H (fun n => scanDir visit b next_cluster n c s) d := by
  have hchain : ∀ n m c s d, n ≤ m → Extends H (scanChain visit b next_cluster n c s)
      (scanChain visit b next_cluster m c s) d := by
    intro n
    induction n with
    | zero => exact fun m c s d _ hends => absurd rfl hends
    | succ n ih =>
      intro m c s d hnm
      obtain ⟨m, rfl⟩ : ∃ k, m = k + 1 := ⟨m - 1, by omega⟩
      unfold scanChain
      split
      · refine (Extends.refl _ _).bind fun step d' _ => ?_
        cases step with
        | next s => exact (Extends.refl _ _).bind fun c d'' _ => ih m c s d'' (by omega)
        | stop a => exact Extends.refl _ _
      · exact Extends.refl _ _
  exact steady_ite (steady_const _) fun n m => hchain n m c s d

end Scan

/-! ## The four walks -/

/-- The long name under assembly behind a slot. -/
def lfnNext (lfn : Lfn) (e : Slot) : Lfn := if e.skipped then lfnAfter lfn e else none

/-- `fat12_find_entry_in_dir` looks for an entry that is shown under the name, and remembers
the long name before a slot. -/
def findName (name : List UInt8) : Search Lfn :=
  .entries lfnNext fun lfn e => shows lfn e name = true

/-- `fat12_dev_find_entry` looks for the stored name. -/
def findEntry (name83 : Name83) : Search Unit := .entries (fun _ _ => ()) fun _ e => e.name = name83

/-- `fat12_dev_find_free_entry` looks for a slot that can be used. -/
def findFree : Search Unit where
  after _ _ := ()
  stops _ e := e.first = FAT12_ENTRY_FREE ∨ e.first = FAT12_ENTRY_DELETED

/-- `fat12_list_dir` stops at an entry for which there is no room, and remembers the number of
entries. -/
def listEntries (cap : Nat) : Search Nat :=
  .entries (fun k e => if e.skipped then k else k + 1) fun k _ => min cap FAT12_NAME_SLOTS ≤ k

section

variable {b : Bpb} {sector_count : Nat} {d : Disk}

theorem ofExcept_ends {α : Type} (r : Except FsErr α) (d : Disk) :
    ((Prog.ofExcept r : Io α).run (sized sector_count) d).1 ≠ .spin := by
  cases r with
  | ok a => exact nofun
  | error rc => exact nofun

/-- When the lookup of the write path returns. -/
theorem halts_dev_find_entry (c : Nat) (name83 : Name83) :
    Halts (sized sector_count) (fun n => fat12_dev_find_entry n b c name83) d ↔
      ScanEnds b sector_count d (findEntry name83) () c := by
  have hw : (findEntry name83).Guides (findEntryVisit name83) id := Search.guides_entries
    (fun _ r e h => ⟨_, findEntryVisit_free h⟩)
    (fun _ r e hf hs => ⟨_, findEntryVisit_skipped hf hs, rfl⟩)
    (fun _ r e hf hs => ⟨_, _, by simpa [stores] using findEntryVisit_live hf hs, rfl⟩)
  unfold fat12_dev_find_entry
  rw [halts_then]
  · exact halts_scanDir hw (links_get_fat b sector_count d) c ()
  · rintro (⟨⟨⟩⟩ | r) d'
    · exact ofExcept_ends (.error .NOT_FOUND) d'
    · exact ofExcept_ends r d'

/-- When the search for a free slot returns. -/
theorem halts_dev_find_free_entry (c : Nat) :
    Halts (sized sector_count) (fun n => fat12_dev_find_free_entry n b c) d ↔
      ScanEnds b sector_count d findFree () c := by
  have hw : findFree.Guides findFreeVisit id := by
    intro s r e
    by_cases h : e.first = FAT12_ENTRY_FREE ∨ e.first = FAT12_ENTRY_DELETED
    · exact .inl ⟨h, _, if_pos h⟩
    · exact .inr ⟨h, (), if_neg h, rfl⟩
  unfold fat12_dev_find_free_entry
  rw [halts_then]
  · exact halts_scanDir hw (links_get_fat b sector_count d) c ()
  · rintro (⟨⟨⟩⟩ | r) d'
    · exact nofun
    · exact nofun

/-- When the lookup of the read path returns. -/
theorem halts_find_entry_in_dir (c : Nat) (name : List UInt8) :
    Halts (sized sector_count) (fun n => fat12_find_entry_in_dir n b c name) d ↔
      ScanEnds b sector_count d (findName name) none c := by
  have hw : (findName name).Guides (findNameVisit name) id := Search.guides_entries
    (fun lfn r e h => ⟨_, findNameVisit_free h⟩)
    (fun lfn r e hf hs => ⟨_, findNameVisit_skipped hf hs, (if_pos hs).symm⟩)
    (fun lfn r e hf hs => ⟨_, _, findNameVisit_live hf hs, (if_neg (by simp [hs])).symm⟩)
  unfold fat12_find_entry_in_dir
  rw [halts_then]
  · exact halts_scanDir hw (links_get_next b sector_count d) c none
  · rintro (s | r) d'
    · exact nofun
    · exact ofExcept_ends r d'

section

variable {cap : Nat} {s : Lfn × List DirEnt} {r : EntryRef} {e : Slot}
  (hfree : e.first ≠ FAT12_ENTRY_FREE)

include hfree

theorem listVisit_skipped (h : e.skipped = true) :
    listVisit cap s r e = .next (lfnAfter s.1 e, s.2) := by
  grind [listVisit, lfnAfter, Slot.skipped]

theorem listVisit_live (h : e.skipped = false) :
    listVisit cap s r e =
      if min cap FAT12_NAME_SLOTS ≤ s.2.length then .stop (some .NO_SPACE, s.2)
      else .next (none, s.2 ++
        [⟨fat12_copy_display_name e s.1, if e.isDir then .DIR else .FILE⟩]) := by
  unfold listVisit
  simp_all [decide_eq_false_iff_not, ne_eq, ge_iff_le, Slot.skipped]

end

/-- When a listing returns. -/
theorem halts_listSlots (cap c : Nat) :
    Halts (sized sector_count) (fun n => listSlots n b cap c) d ↔
      ScanEnds b sector_count d (listEntries cap) 0 c := by
  have hw : (listEntries cap).Guides (listVisit cap) (fun s => s.2.length) := Search.guides_entries
    (fun s r e h => ⟨_, if_pos h⟩)
    (fun s r e hf hs => ⟨_, listVisit_skipped hf hs, (if_pos hs).symm⟩)
    (fun s r e hf hs => ⟨_, _, listVisit_live hf hs, by simp [hs]⟩)
  unfold listSlots
  rw [halts_then]
  · exact halts_scanDir hw (links_get_next b sector_count d) c (none, [])
  · rintro (s | r) d'
    · exact nofun
    · exact nofun

end

/-! ## Paths -/

section

variable (b : Bpb) (sector_count : Nat) (d : Disk)

/-- Every directory that the path leads through can be searched to the end. -/
def PathEnds : List (List UInt8) → PathInfo → Prop
  | [], _ => True
  | component :: rest, info =>
    component.length < FS_NAME_CAP →
      if component = dotName ∨ (component = dotdotName ∧ info.cluster = 0) then PathEnds rest info
      else
        ScanEnds b sector_count d (findName component) none info.cluster ∧
          ∀ n found, (fat12_find_entry_in_dir n b info.cluster component).run
              (sized sector_count) d = (.done found, d) →
            (rest = [] ∨ found.attr &&& FAT12_ATTR_DIRECTORY ≠ 0) →
              PathEnds rest ⟨found.cluster, found.attr &&& FAT12_ATTR_DIRECTORY ≠ 0, found.size⟩

/-- So it is for the path of a listing, if there is one to be followed. -/
def TargetEnds (cwd_cluster : Nat) : Option CString → Prop
  | none => True
  | some path => path.bytes ≠ [] → path.bytes ≠ dotName →
    PathEnds b sector_count d (components path.bytes)
      ⟨if path.bytes.head? = some SLASH then 0 else cwd_cluster, true, 0⟩

/-- The path can be followed to the end, and so can the directory it leads to. -/
def ListEnds (cwd_cluster : Nat) (path : Option CString) (cap : Nat) : Prop :=
  TargetEnds b sector_count d cwd_cluster path ∧
  ∀ n target_cluster, (listTarget n b cwd_cluster path).run (sized sector_count) d =
      (.done target_cluster, d) →
    ScanEnds b sector_count d (listEntries cap) 0 target_cluster

variable {b sector_count d}

/-- What follows a routine that only reads finds the disk as it was. -/
theorem looks_done {α : Type} {p : Nat → Io α} (hp : ∀ n, Looks (p n))
    {P : α → Disk → Prop} :
    (∀ n a d', (p n).run (sized sector_count) d = (.done a, d') → P a d') ↔
      ∀ n a, (p n).run (sized sector_count) d = (.done a, d) → P a d := by
  constructor
  · exact fun h n a => h n a d
  · intro h n a d' hrun
    obtain rfl : d = d' := by rw [← (hp n).run sector_count d, hrun]
    exact h n a hrun

theorem steady_find_entry_in_dir (c : Nat) (name : List UInt8) :
    Steady (sized sector_count) (fun n => fat12_find_entry_in_dir n b c name) d :=
  steady_scanDir.bind fun _ _ _ _ => steady_const _

theorem steady_listSlots {cap c : Nat} :
    Steady (sized sector_count) (fun n => listSlots n b cap c) d :=
  steady_scanDir.bind fun _ _ _ _ => steady_const _

/-- More fuel does not change what the component loop finds. -/
theorem steady_resolvePathLoop (path : List (List UInt8)) (info : PathInfo) (d : Disk) :
    Steady (sized sector_count) (fun n => resolvePathLoop n b path info) d := by
  induction path generalizing info d with
  | nil => exact steady_const _
  | cons component rest ih =>
    unfold resolvePathLoop
    refine steady_ite (steady_const _) (steady_ite (ih info d) ?_)
    exact (steady_find_entry_in_dir _ _).bind fun n found d' _ =>
      steady_ite (steady_const _) (ih _ d')

/-- The walk down a path returns if each of its lookups does. -/
theorem halts_resolvePathLoop (path : List (List UInt8)) (info : PathInfo) :
    Halts (sized sector_count) (fun n => resolvePathLoop n b path info) d ↔
      PathEnds b sector_count d path info := by
  induction path generalizing info with
  | nil => exact iff_of_true ⟨0, nofun⟩ trivial
  | cons component rest ih =>
    unfold resolvePathLoop PathEnds
    rw [halts_ite, halts_ite, halts_bind (steady_find_entry_in_dir info.cluster component),
      looks_done fun n => looks_find_name n b _ _, halts_find_entry_in_dir]
    · simp only [halts_ite, halts_fail, ih, if_true_left, ge_iff_le, not_le, not_and_or, ne_eq,
        not_not]
    · exact fun n found d' _ => steady_ite (steady_const _) (steady_resolvePathLoop rest _ d')

section Target

variable {cwd_cluster : Nat} {path : Option CString}

theorem looks_listTarget (n : Nat) : Looks (listTarget n b cwd_cluster path) := by
  unfold listTarget
  split
  · trivial
  split
  · trivial
  · refine (looks_resolve_path n b _ _).bind fun info => ?_
    split <;> trivial

theorem steady_listTarget :
    Steady (sized sector_count) (fun n => listTarget n b cwd_cluster path) d := by
  unfold listTarget fat12_resolve_path_info
  cases path with
  | none => exact steady_const _
  | some path =>
    refine steady_ite (steady_const _) (Steady.bind ?_ fun _ _ _ _ => steady_const _)
    exact steady_ite (steady_const _) (steady_resolvePathLoop _ _ d)

/-- The directory to list is found if the walk to it ends. -/
theorem halts_listTarget :
    Halts (sized sector_count) (fun n => listTarget n b cwd_cluster path) d ↔
      TargetEnds b sector_count d cwd_cluster path := by
  unfold listTarget fat12_resolve_path_info TargetEnds
  cases path with
  | none => exact iff_of_true ⟨0, nofun⟩ trivial
  | some path =>
    have hhere : Halts (sized sector_count) (fun _ => (pure cwd_cluster : Io Nat)) d := ⟨0, nofun⟩
    rw [halts_ite, halts_then, halts_ite, halts_resolvePathLoop]
    · grind
    · intro info d'
      split <;> exact nofun

end Target

/-- Each of the four walks ends exactly if the links lead out of the directory or something
on the way stops it; nothing bounds a walk over links that go round. -/
theorem scans_end_iff (b : Bpb) (sector_count : Nat) (d : Disk) :
    (∀ c name, Halts (sized sector_count) (fun n => fat12_find_entry_in_dir n b c name) d ↔
      ScanEnds b sector_count d (findName name) none c) ∧
    (∀ c name83, Halts (sized sector_count) (fun n => fat12_dev_find_entry n b c name83) d ↔
      ScanEnds b sector_count d (findEntry name83) () c) ∧
    (∀ c, Halts (sized sector_count) (fun n => fat12_dev_find_free_entry n b c) d ↔
      ScanEnds b sector_count d findFree () c) ∧
    ∀ cwd_cluster path cap,
      Halts (sized sector_count) (fun n => fat12_list_dir n b cwd_cluster path cap) d ↔
        ListEnds b sector_count d cwd_cluster path cap := by
  refine ⟨halts_find_entry_in_dir, halts_dev_find_entry, halts_dev_find_free_entry, ?_⟩
  intro cwd_cluster path cap
  unfold fat12_list_dir
  rw [halts_bind steady_listTarget, looks_done looks_listTarget, halts_listTarget]
  · simp only [halts_listSlots]
    rfl
  · exact fun _ c d' _ => steady_listSlots

end

/-- A directory whose one cluster leads back to itself and is full of volume labels. -/
def ringDisk : Disk := fun lba j =>
  if lba = 0 then smallBoot j
  else if lba = 1 then if j = 3 then 2 else 0
  else if lba = 3 then if j % 32 = 0 then 0x41 else if j % 32 = 11 then 0x08 else 0
  else 0

theorem ringDisk_link : nextCluster smallBpb 20 ringDisk 2 = 2 := by decide +kernel

theorem ringDisk_slots {x : EntryRef × Slot} (h : x ∈ sectorSlots 3 (ringDisk 3)) :
    x.2.first = 0x41 ∧ x.2.skipped = true := by
  obtain ⟨i, hi, rfl⟩ := mem_map.mp h
  have hfirst : slotAt (ringDisk 3) (i * 32) 0 = 0x41 := if_pos (by omega)
  have hattr : slotAt (ringDisk 3) (i * 32) 11 = 0x08 :=
    (if_neg (by omega)).trans (if_pos (by omega))
  exact ⟨hfirst, by simp [Slot.skipped, Slot.attr, hattr, FAT12_ATTR_VOLUME_ID]⟩

/-- A search that does not stop at the entries of the ring goes round for ever. -/
theorem ringDisk_never {τ : Type} {w : Search τ}
    (hw : ∀ t e, e.first = 0x41 → e.skipped = true → ¬ w.stops t e) (t : τ) :
    ¬ ScanEnds smallBpb 20 ringDisk w t 2 := by
  have hmeets : ∀ slots ⊆ sectorSlots 3 (ringDisk 3), ∀ t, ¬ w.Meets t slots := by
    intro slots
    induction slots with
    | nil => exact fun _ _ => id
    | cons x rest ih =>
      rintro hsub t (hstops | hrest)
      · grind [ringDisk_slots, mem_cons_self]
      · exact ih (subset_of_cons_subset hsub) _ hrest
  have hstopped : ∀ t, ¬ w.Stopped 20 ringDisk t (clusterLbas smallBpb 2) := by
    intro t
    rw [show clusterLbas smallBpb 2 = [3] by decide]
    rintro (hno | hslot | hrest)
    · exact hno (.inr (by decide))
    · exact hmeets _ (fun _ => id) t hslot
    · exact hrest
  rintro (h | h)
  · cases h
  · generalize hc : 2 = c at h
    induction h with
    | out hend =>
      subst hc
      revert hend
      decide
    | here hhere =>
      subst hc
      exact hstopped _ hhere
    | link _ ih =>
      subst hc
      exact ih ringDisk_link.symm

/-- On a device of twenty sectors that never fails, none of the four walks ends. -/
theorem ring_never_left :
    fat12_parse_bpb (ringDisk 0) = .ok smallBpb ∧
    ¬ Halts (sized 20) (fun n => fat12_find_entry_in_dir n smallBpb 2 (asciiBytes "A")) ringDisk ∧
    ¬ Halts (sized 20) (fun n => fat12_dev_find_entry n smallBpb 2 fun _ => 0x41) ringDisk ∧
    ¬ Halts (sized 20) (fun n => fat12_dev_find_free_entry n smallBpb 2) ringDisk ∧
    ¬ Halts (sized 20) (fun n => fat12_list_dir n smallBpb 2 none 16) ringDisk := by
  have hlive : ∀ (P : Prop) (e : Slot), e.first = 0x41 → e.skipped = true →
      ¬ (e.first = FAT12_ENTRY_FREE ∨ e.skipped = false ∧ P) := by
    intro P e hfirst hskip
    simp [hfirst, hskip, FAT12_ENTRY_FREE]
  rw [halts_find_entry_in_dir, halts_dev_find_entry, halts_dev_find_free_entry]
  refine ⟨smallBoot_parsed, ringDisk_never (fun t e => hlive _ e) _,
    ringDisk_never (fun t e => hlive _ e) _, ringDisk_never (fun t e hfirst _ => ?_) _, ?_⟩
  · simp [findFree, hfirst, FAT12_ENTRY_FREE, FAT12_ENTRY_DELETED]
  · -- without a path it is the listing of the directory itself
    show ¬ Halts (sized 20) (fun n => listSlots n smallBpb 16 2) ringDisk
    rw [halts_listSlots]
    exact ringDisk_never (fun t e => hlive _ e) _

end System1.Fat12
