/-
What a path reads, before and after a write.

`fat12_read_file` and `fat12_stat` find an entry by the name a listing shows, and
`fat12_core_write_file_on_device` by the eleven bytes it stores. On a well-formed volume
without long names the first lookup is a function of the entries as well (`Volume.shown`),
and what a path leads to from directory to directory is a relation (`Leads`), beside
`Resolves` and `Names` of the writing side.

A write puts one file to one place and leaves the rest of the tree alone (`Filed`). So a
path that leads to another file leads there afterwards, and that file has the same bytes;
and the path of the file leads to the new one, provided that both lookups agree along the
path beforehand (`Alike`). They do not always: a stored name in small letters is shown like
its counterpart in capitals, and then a write makes a second file behind the one that is
read.
-/
import System1.Fat12Faults
import System1.Fat12Reads
import Mathlib.Data.List.Find

set_option autoImplicit false

namespace System1.Fat12

open System1.Lib List

/-! ## The entry that is shown -/

/-- The entry that is shown under a name. -/
def Volume.shown (V : Volume) (refs : List EntryRef) (name : List UInt8) : Option EntryRef :=
  (V.entries refs).find? fun r => shows none (V.slot r) name

variable {name : List UInt8}

variable {V : Volume} {refs : List EntryRef} {ref : EntryRef}

theorem Volume.mem_of_shown (h : V.shown refs name = some ref) :
    ref ∈ V.entries refs ∧ shows none (V.slot ref) name = true :=
  ⟨mem_of_find?_eq_some h, find?_some (p := fun r => shows none (V.slot r) name) h⟩

/-- What `fat12_find_entry_in_dir` reports of it. -/
def Volume.entryAt (V : Volume) (ref : EntryRef) : Entry :=
  ⟨(V.slot ref).cluster, (V.slot ref).attr, (V.slot ref).size, ref⟩

variable {c : Nat}

variable {path : List (List UInt8)}

namespace Geometry

variable {g : Geometry} {torn : Prop} {d d' : Disk} {fuel : Nat}

variable (g) in
/-- There is no part of a long name in a live directory. -/
def NoLong (V : Volume) : Prop :=
  ∀ c refs, g.LiveDir V c → g.DirRefs V c refs → ∀ r ∈ refs,
    (V.slot r).first ≠ FAT12_ENTRY_FREE → (V.slot r).first ≠ FAT12_ENTRY_DELETED →
      (V.slot r).attr ≠ FAT12_ATTR_LONG_NAME

/-- The lookup of the read path finds the first entry that is shown under the name. -/
theorem reads_find_name (hlong : g.NoLong (g.view d)) (hdir : g.LiveDir (g.view d) c)
    (hrefs : g.DirRefs (g.view d) c refs) (hfuel : 4096 ≤ fuel) (name : List UInt8) :
    Reads False torn (fat12_find_entry_in_dir fuel g.b c name) d
      (((g.view d).shown refs name).elim (.fail .NOT_FOUND)
        fun r => .done ((g.view d).entryAt r)) := by
  have h : Reads False torn (fat12_find_entry_in_dir fuel g.b c name) d _ :=
    reads_find_entry_in_dir fuel g.b d c name
  rw [dirView_eq hrefs hfuel] at h
  have hscan : lookupOutcome (scanSlots (findNameVisit name) (slotsAt d refs) none) true =
      ((g.view d).shown refs name).elim (.fail .NOT_FOUND) fun r =>
        .done ((g.view d).entryAt r) := by
    refine scan_first (fun _ => hrefs.isRef) (fun e => shows none e name)
      (fun r e => (⟨e.cluster, e.attr, e.size, r⟩ : Entry)) ?_ ?_ ?_
    · exact fun _ _ => findNameVisit_free
    · intro r hr e hslot hstop hover
      rw [findNameVisit_skipped hstop hover]
      have hattr := hlong c refs hdir hrefs r hr
      rw [← hslot] at hattr
      unfold lfnAfter
      by_cases hdel : e.first = FAT12_ENTRY_DELETED
      · rw [if_pos hdel]
      · rw [if_neg hdel, if_neg (show e.attr ≠ _ from hattr hstop hdel)]
    · exact fun r e hstop hover => findNameVisit_live hstop hover
  rwa [hscan] at h

/-! ## Where a path leads -/

variable (g) in
/-- The entry that components lead to from the directory `c`, as it is read. -/
inductive Leads (V : Volume) : List (List UInt8) → Nat → EntryRef → Prop
  | last {name : List UInt8} {c : Nat} {refs : List EntryRef} {ref : EntryRef}
      (hlen : name.length < FS_NAME_CAP) (hname : name ≠ dotName ∧ name ≠ dotdotName)
      (hrefs : g.DirRefs V c refs) (hshown : V.shown refs name = some ref)
      (hdots : (V.slot ref).dots = false) : Leads V [name] c ref
  | cons {name : List UInt8} {rest : List (List UInt8)} {c : Nat} {refs : List EntryRef}
      {ref ref' : EntryRef} (hlen : name.length < FS_NAME_CAP)
      (hname : name ≠ dotName ∧ name ≠ dotdotName) (hrefs : g.DirRefs V c refs)
      (hshown : V.shown refs name = some ref) (hdots : (V.slot ref).dots = false)
      (hisDir : (V.slot ref).isDir = true) (hrest : Leads V rest (V.slot ref).cluster ref') :
      Leads V (name :: rest) c ref'

theorem Leads.liveEntry (h : g.Leads V path c ref) (hdir : g.LiveDir V c) : g.LiveEntry V ref := by
  induction h with
  | last _ _ hrefs hshown hdots => exact ⟨_, _, hdir, hrefs, (Volume.mem_of_shown hshown).1, hdots⟩
  | cons _ _ hrefs hshown hdots hisDir _ ih =>
    exact ih (.sub hdir hrefs (Volume.mem_of_shown hshown).1 hdots hisDir)

/-- What a path is reported to name. -/
def infoAt (V : Volume) (ref : EntryRef) : PathInfo :=
  ⟨(V.slot ref).cluster, (V.slot ref).isDir, (V.slot ref).size⟩

/-- Where a path leads, the walk of the read path ends. -/
theorem Leads.reads {info : PathInfo} (h : g.Leads (g.view d) path c ref)
    (hlong : g.NoLong (g.view d)) (hfuel : 4096 ≤ fuel) (hdir : g.LiveDir (g.view d) c)
    (hinfo : info.cluster = c) :
    Reads False torn (resolvePathLoop fuel g.b path info) d (.done (infoAt (g.view d) ref)) := by
  induction h generalizing info with
  | @last name c refs ref hlen hname hrefs hshown hdots =>
    have hfind : Reads False torn _ d _ := reads_find_name hlong hdir hrefs hfuel name
    rw [hshown] at hfind
    unfold resolvePathLoop
    rw [if_neg (by omega), if_neg (by simp [hname.1, hname.2]), hinfo]
    refine hfind.bind ?_
    rw [if_neg (by simp)]
    exact .done _ d
  | @cons name rest c refs ref ref' hlen hname hrefs hshown hdots hisDir hrest ih =>
    have hfind : Reads False torn _ d _ := reads_find_name hlong hdir hrefs hfuel name
    rw [hshown] at hfind
    unfold resolvePathLoop
    rw [if_neg (by omega), if_neg (by simp [hname.1, hname.2]), hinfo]
    refine hfind.bind ?_
    have hattr : ((g.view d).entryAt ref).attr &&& FAT12_ATTR_DIRECTORY ≠ 0 := fun h0 => by
      rw [(isDir_iff _ ref).mp h0] at hisDir
      cases hisDir
    rw [if_neg fun h0 => hattr h0.2]
    exact ih (.sub hdir hrefs (Volume.mem_of_shown hshown).1 hdots hisDir) rfl

/-! ## The bytes of a file -/

variable (g) in
/-- The first bytes of a chain. -/
def fileBytes (d : Disk) (cs : List Nat) (size : Nat) : List UInt8 :=
  (range size).map (g.fileByte d cs)

end Geometry

theorem sized_zero : sized 0 = perfect := by
  funext d r
  cases r with
  | read lba => rfl
  | write lba data => rfl

variable {e : Slot}

variable {cs : List Nat}

namespace Geometry

variable {g : Geometry} {torn : Prop} {d d' : Disk} {fuel : Nat}

theorem nextCluster_eq (hc : c < g.count + 2) :
    nextCluster g.b 0 d c = (g.view d).fat c := by
  have hread : Reads False False (fat12_get_next_cluster g.b c) d _ := reads_get_next g.b d c
  unfold nextCluster
  rw [sized_zero, hread.run, fatEntry_eq hc]

/-- The walk by number and the chain agree. -/
theorem clusterAt_chain {k : Nat} (h : g.Chain (g.view d).fat c cs) (hk : k < cs.length) :
    clusterAt g.b 0 d c k = cs.getD k 0 := by
  induction k generalizing c cs with
  | zero =>
    cases h with
    | nil => simp at hk
    | cons hc hs => rfl
  | succ k ih =>
    cases h with
    | nil => simp at hk
    | @cons _ cs hc hs =>
      have hnext := ih hs (by simpa using hk)
      unfold clusterAt at hnext ⊢
      rw [Function.iterate_succ_apply, nextCluster_eq hc.lt, hnext]
      rfl

/-- All of a chain can be read. -/
theorem byteAt_chain {p : Nat} (h : g.Chain (g.view d).fat c cs)
    (hp : p < cs.length * g.clusterBytes) :
    Readable g.b 0 d c p ∧ byteAt g.b 0 d c p = g.fileByte d cs p := by
  have hbytes : g.b.cluster_bytes = g.clusterBytes := Nat.mul_comm ..
  have hdiv : p / g.clusterBytes < cs.length := by
    rw [Nat.div_lt_iff_lt_mul clusterBytes_pos]
    exact hp
  have hcell : ∀ k < cs.length, g.InRange (cs.getD k 0) := by
    intro k hk
    rw [getD_eq_getElem _ _ hk]
    exact h.inRange (getElem_mem hk)
  constructor
  · refine ⟨fun k hk => ?_, .inl rfl⟩
    rw [hbytes] at hk
    rw [clusterAt_chain h (by omega)]
    exact ⟨(hcell k (by omega)).1, (hcell k (by omega)).lt_chain_end⟩
  · have hi : p % g.clusterBytes / 512 < g.b.sectors_per_cluster := by
      rw [Nat.div_lt_iff_lt_mul (by decide), Nat.mul_comm]
      exact Nat.mod_lt _ clusterBytes_pos
    have hsector := (hcell _ hdiv).sector_eq hi
    rw [Nat.zero_add] at hsector
    unfold byteAt sectorAt fileByte fileLba
    rw [hbytes, clusterAt_chain h hdiv, hsector]

/-- A file has room for its bytes. -/
theorem Fits.size_le (hfits : g.Fits e cs) (hfile : e.isDir = false) :
    e.size ≤ cs.length * g.clusterBytes := by
  rw [Fits, hfile, if_neg (by decide)] at hfits
  rw [hfits]
  have hpos : 0 < g.clusterBytes := clusterBytes_pos
  have := Nat.lt_div_mul_add (a := e.size + g.clusterBytes - 1) hpos
  omega

/-- Reading the clusters of a chain gives the bytes of the file. -/
theorem run_readChain (howns : g.Owns (g.view d) e cs) (hfits : g.Fits e cs)
    (hfile : e.isDir = false) :
    (readClusters g.b e.size e.size e.cluster 0 []).run perfect d =
      (.done (g.fileBytes d cs e.size), d) := by
  have hsize := Fits.size_le hfits hfile
  have hbyte : ∀ p < e.size, Readable g.b 0 d e.cluster p ∧
      byteAt g.b 0 d e.cluster p = g.fileByte d cs p := by
    intro p hp
    obtain ⟨-, rfl⟩ | ⟨-, hchain⟩ := howns
    · simp at hsize
      omega
    · exact byteAt_chain hchain (by omega)
  have hrun := @run_readClusters g.b 0 d e.size e.size e.cluster 0 [] (by simp)
    g.b.cluster_bytes_pos
  simp only [length_nil, Nat.sub_zero, Nat.zero_add, nil_append, sized_zero] at hrun
  obtain ⟨-, hrun⟩ | ⟨⟨i, hi, hnot⟩, -⟩ := hrun
  · rw [hrun]
    refine Prod.ext (congrArg Outcome.done (map_congr_left fun p hp => ?_)) rfl
    exact (hbyte p (mem_range.mp hp)).2
  · exact absurd (hbyte i hi).1 hnot

section

variable {path : List UInt8} {cwd : Nat} {ref : EntryRef} {cs : List Nat}
  (h : g.Leads (g.view d) (components path) 0 ref) (habs : path.head? = some SLASH)
  (hlong : g.NoLong (g.view d)) (hfuel : 4096 ≤ fuel)

include h habs hlong hfuel

/-- A path that leads to an entry is resolved to that entry. -/
theorem Leads.resolved :
    Reads False torn (fat12_resolve_path_info fuel g.b cwd path) d
      (.done (infoAt (g.view d) ref)) := by
  have hne : path ≠ [] := by
    rintro rfl
    cases habs
  unfold fat12_resolve_path_info
  rw [if_neg hne, if_pos habs]
  exact h.reads hlong hfuel .root rfl

/-- What `stat` returns where a path leads. -/
theorem Leads.run_stat :
    (fat12_stat fuel g.b cwd path).run perfect d =
      (.done ⟨if ((g.view d).slot ref).isDir then FS_MODE_DIR else FS_MODE_FILE,
        if ((g.view d).slot ref).isDir then 0 else ((g.view d).slot ref).size⟩, d) := by
  have hres : Reads False False (fat12_resolve_path_info fuel g.b cwd path) d _ :=
    h.resolved habs hlong hfuel
  unfold fat12_stat
  rw [Prog.run_bind_done _ hres.run]
  rfl

/-- What `read_file` returns there. -/
theorem Leads.run_read_file (howns : g.Owns (g.view d) ((g.view d).slot ref) cs)
    (hfits : g.Fits ((g.view d).slot ref) cs) (cap : Nat) :
    (fat12_read_file fuel g.b cwd path cap).run perfect d =
      (if ((g.view d).slot ref).isDir then .fail .NOT_DIR
        else if cap < ((g.view d).slot ref).size then .fail .NO_SPACE
        else .done (g.fileBytes d cs ((g.view d).slot ref).size), d) := by
  have hres : Reads False False (fat12_resolve_path_info fuel g.b cwd path) d _ :=
    h.resolved habs hlong hfuel
  unfold fat12_read_file
  rw [Prog.run_bind_done _ hres.run]
  unfold infoAt
  cases hdir : ((g.view d).slot ref).isDir with
  | true => rfl
  | false =>
    simp only [Bool.false_eq_true, if_false]
    by_cases hcap : cap < ((g.view d).slot ref).size
    · rw [if_pos hcap, if_pos hcap]
      rfl
    · grind [run_readChain]

end

end Geometry

/-! ## Lookups in a tidy directory -/

namespace Volume

variable {V V' : Volume} {refs : List EntryRef}

/-- In a tidy directory the entries are the live slots. -/
theorem entries_tidy (h : V.Tidy refs) : V.entries refs = refs.filter fun r => (V.slot r).live := by
  induction refs with
  | nil => rfl
  | cons r rest ih =>
    obtain ⟨hfirst, hrest⟩ := pairwise_cons.mp h
    have ih := ih hrest
    unfold entries at ih ⊢
    by_cases hfree : (V.slot r).first = FAT12_ENTRY_FREE
    · simp_all [filter_eq_nil_iff, Slot.live]
    · have hlive : (V.slot r).live = decide ((V.slot r).skipped = false) := by
        simp [Slot.live, hfree]
      simp only [takeWhile_cons, ne_eq, hfree, not_false_eq_true, decide_true, if_true,
        filter_cons, hlive]
      rw [ih]

theorem shown_tidy (h : V.Tidy refs) (name : List UInt8) :
    V.shown refs name =
      refs.find? fun r => (V.slot r).live = true ∧ shows none (V.slot r) name = true := by
  unfold shown
  rw [entries_tidy h, find?_filter]

end Volume

variable {r : EntryRef}

namespace Geometry

variable {g : Geometry} {torn : Prop} {d d' : Disk} {fuel : Nat}

/-! ## After a write -/

variable (g) in
/-- A file has come to a place of a well-formed volume: in place of another of the same name,
or to a place that held nothing. -/
structure Stores (d d' : Disk) (c₀ : Nat) (refs₀ : List EntryRef) (ref₀ : EntryRef)
    (leaf83 : Name83) (data : List UInt8) : Prop where
  wf : g.Wf (g.view d)
  neat : g.Neat (g.view d')
  kept : ∀ ref, g.LiveEntry (g.view d) ref → ref ≠ ref₀ → g.Same (g.view d) (g.view d') ref
  bytes : ∀ ref cs, g.LiveEntry (g.view d) ref → ref ≠ ref₀ →
    ((g.view d).slot ref).isDir = false → g.Owns (g.view d) ((g.view d).slot ref) cs →
    ∀ x ∈ cs, ∀ lba ∈ clusterLbas g.b x, d' lba = d lba
  filed : g.Filed d d' c₀ refs₀ ref₀ leaf83 data
  old : ((g.view d).slot ref₀).live = false ∨
    (((g.view d).slot ref₀).live = true ∧ ((g.view d).slot ref₀).isDir = false ∧
      ((g.view d).slot ref₀).name = leaf83)
  live : ((g.view d').slot ref₀).live = true

namespace Stores

variable {c₀ : Nat} {refs₀ : List EntryRef} {ref₀ : EntryRef} {leaf83 : Name83} {data : List UInt8}
  (h : g.Stores d d' c₀ refs₀ ref₀ leaf83 data)

include h

theorem not_gone (c : Nat) : ¬ Removal.Gone (g.view d) ref₀ c := by
  rintro ⟨hlive, -, hisDir, -⟩
  obtain hdead | ⟨-, hfile, -⟩ := h.old
  · rw [hdead] at hlive
    cases hlive
  · rw [hfile] at hisDir
    cases hisDir

theorem new_isDir : ((g.view d').slot ref₀).isDir = false := by
  obtain ⟨first, cs, hslot, -⟩ := h.filed.contains
  rw [hslot]
  exact fileEntry_isDir ..

theorem new_name : ((g.view d').slot ref₀).name = leaf83 := by
  obtain ⟨first, cs, hslot, -⟩ := h.filed.contains
  rw [hslot]
  exact fileEntry_name ..

/-- A live directory has the same slots, and of these only the one place has changed. -/
theorem slot_eq (hdir : g.LiveDir (g.view d) c) (hrefs : g.DirRefs (g.view d) c refs)
    (hr : r ∈ refs) (hne : r ≠ ref₀) :
    (g.view d').slot r = (g.view d).slot r := by
  have hdir' := h.filed.removal.liveDir hdir (h.not_gone c)
  have hslot := h.filed.agree.slots r ⟨c, refs, hdir', hrefs, hr⟩
  rwa [Volume.setSlot_ne _ hne, Volume.setSlot_ne _ hne] at hslot

theorem ne_of_isDir (hlive : g.LiveEntry (g.view d) ref)
    (hisDir : ((g.view d).slot ref).isDir = true) : ref ≠ ref₀ := by
  rintro rfl
  obtain ⟨c, refs, -, -, hmem, hdots⟩ := hlive
  exact h.not_gone _ ⟨(Volume.mem_of_entries hmem).2, hdots, hisDir, rfl⟩

/-- The write leaves every directory live, -/
theorem liveDir (hdir : g.LiveDir (g.view d) c) : g.LiveDir (g.view d') c := by
  obtain rfl | ⟨ref, hlive, hisDir, rfl⟩ := hdir.entry
  · exact .root
  obtain ⟨⟨c', refs, hdir', hrefs, hmem, hdots⟩, hslot, -⟩ :=
    h.kept ref hlive (h.ne_of_isDir hlive hisDir)
  rw [← hslot] at hisDir ⊢
  exact .sub hdir' hrefs hmem hdots hisDir

section

variable {refs : List EntryRef} (hdir : g.LiveDir (g.view d) c)
  (hrefs : g.DirRefs (g.view d) c refs)

include hdir hrefs

theorem dirRefs : g.DirRefs (g.view d') c refs := by
  have hdir' := h.filed.removal.liveDir hdir (h.not_gone c)
  have hrefs' := h.filed.agree.dirRefs h.filed.removal.after.toSound hdir' hrefs
  exact hrefs'

/-- and every other entry in its directory. -/
theorem mem_entries_iff (hne : r ≠ ref₀) :
    r ∈ (g.view d').entries refs ↔ r ∈ (g.view d).entries refs := by
  rw [Volume.mem_entries_tidy (h.wf.tidy c refs hdir hrefs),
    Volume.mem_entries_tidy (h.neat.tidy c refs (h.liveDir hdir) (h.dirRefs hdir hrefs))]
  constructor
  · rintro ⟨hr, hlive⟩
    rw [h.slot_eq hdir hrefs hr hne] at hlive
    exact ⟨hr, hlive⟩
  · rintro ⟨hr, hlive⟩
    rw [← h.slot_eq hdir hrefs hr hne] at hlive
    exact ⟨hr, hlive⟩

end

/-- It makes no directory. -/
theorem liveDir_back (hdir : g.LiveDir (g.view d') c) : g.LiveDir (g.view d) c := by
  induction hdir with
  | root => exact .root
  | @sub c refs r _ hrefs hmem hdots hisDir ih =>
    obtain ⟨refs', hrefs'⟩ := h.wf.dirRefs ih
    obtain rfl := hrefs.unique (h.dirRefs ih hrefs')
    have hne : r ≠ ref₀ := by
      rintro rfl
      rw [h.new_isDir] at hisDir
      cases hisDir
    have hslot := h.slot_eq ih hrefs' (Volume.mem_of_entries hmem).1 hne
    rw [hslot] at hdots hisDir ⊢
    exact .sub ih hrefs' ((h.mem_entries_iff ih hrefs' hne).mp hmem) hdots hisDir

/-- It adds no long name. -/
theorem noLong (hlong : g.NoLong (g.view d)) : g.NoLong (g.view d') := by
  intro c refs hdir hrefs r hr hfree hdel
  have hdir' := h.liveDir_back hdir
  obtain ⟨refs', hrefs'⟩ := h.wf.dirRefs hdir'
  obtain rfl := hrefs.unique (h.dirRefs hdir' hrefs')
  by_cases hne : r = ref₀
  · subst hne
    intro hattr
    have hlive := h.live
    simp [Slot.live, Slot.skipped, hattr] at hlive
  · rw [h.slot_eq hdir' hrefs' hr hne] at hfree hdel ⊢
    exact hlong c refs hdir' hrefs' r hr hfree hdel

/-- Lookups that accept the place after the write exactly when they did before. -/
theorem shown_congr (hdir : g.LiveDir (g.view d) c) (hrefs : g.DirRefs (g.view d) c refs)
    (hsame : ref₀ ∈ refs → (shows none ((g.view d').slot ref₀) name = true ↔
      ((g.view d).slot ref₀).live = true ∧ shows none ((g.view d).slot ref₀) name = true)) :
    (g.view d').shown refs name = (g.view d).shown refs name := by
  rw [Volume.shown_tidy (h.wf.tidy c refs hdir hrefs),
    Volume.shown_tidy (h.neat.tidy c refs (h.liveDir hdir) (h.dirRefs hdir hrefs))]
  apply find?_congr
  intro r hr
  by_cases hne : r = ref₀
  · subst hne
    simp only [h.live, true_and]
    exact decide_eq_decide.mpr (hsame hr)
  · rw [h.slot_eq hdir hrefs hr hne]

section

variable {leaf : List UInt8} (hleaf : fat12_make_83_file_name leaf = .ok leaf83)
  (hbytes : 0 ∉ leaf ∧ SPACE ∉ leaf ∧ TILDE ∉ leaf)

include hleaf hbytes

section

variable (hnew : ((g.view d).slot ref₀).live = false → (g.view d).shown refs₀ leaf = none)
  (hdir : g.LiveDir (g.view d) c)

include hnew hdir

/-- What was shown under a name is shown under it, if it was not the place and, where the
place held nothing, its new name was not shown before. -/
theorem shown_kept (hrefs : g.DirRefs (g.view d) c refs)
    (hshown : (g.view d).shown refs name = some r) : (g.view d').shown refs name = some r := by
  rw [← hshown]
  apply h.shown_congr hdir hrefs
  intro hmem
  obtain hdead | ⟨hlive, -, hname⟩ := h.old
  · -- the new file is shown under its own name only, and nothing was
    have hplain := plainName_of_make hleaf h.new_name hbytes.1 hbytes.2.2
    have hplace := h.filed.removal.toPlace
    obtain rfl : c = c₀ := h.wf.dir_unique hdir hplace.dir hrefs hplace.slots hmem hplace.usable.mem
    obtain rfl := hrefs.unique hplace.slots
    have hself := shows_plain hplain leaf
    rw [compares_alike hplain hbytes.2.1 hleaf, stores, decide_eq_true h.new_name] at hself
    rw [hdead]
    simp only [Bool.false_eq_true, false_and, iff_false]
    intro hshows
    rw [shows_plain hplain] at hshows
    have hlower := (of_decide_eq_true hshows).symm.trans (of_decide_eq_true hself.symm)
    have hnone : (g.view d).shown refs name = (g.view d).shown refs leaf := by
      exact find?_congr fun r _ => shows_of_lower hlower _
    rw [hnone, hnew hdead] at hshown
    cases hshown
  · rw [shows_of_name (h.new_name.trans hname.symm) name]
    simp [hlive]

/-- A path that leads to another entry leads there. -/
theorem leads_kept (hleads : g.Leads (g.view d) path c r) (hne : r ≠ ref₀) :
    g.Leads (g.view d') path c r := by
  induction hleads with
  | last hlen hname hrefs hshown hdots =>
    have hshown' := h.shown_kept hleaf hbytes hnew hdir hrefs hshown
    rw [← h.slot_eq hdir hrefs (Volume.mem_of_entries (Volume.mem_of_shown hshown).1).1 hne]
      at hdots
    exact .last hlen hname (h.dirRefs hdir hrefs) hshown' hdots
  | @cons name rest c refs r' r hlen hname hrefs hshown hdots hisDir _ ih =>
    have hmem := (Volume.mem_of_shown hshown).1
    have hne' : r' ≠ ref₀ := h.ne_of_isDir ⟨c, refs, hdir, hrefs, hmem, hdots⟩ hisDir
    have hslot := h.slot_eq hdir hrefs (Volume.mem_of_entries hmem).1 hne'
    have hrest := ih (.sub hdir hrefs hmem hdots hisDir) hne
    have hshown' := h.shown_kept hleaf hbytes hnew hdir hrefs hshown
    rw [← hslot] at hdots hisDir hrest
    exact .cons hlen hname (h.dirRefs hdir hrefs) hshown' hdots hisDir hrest

end

/-- The new file is shown under its name, if what was shown under it before was the place,
or nothing where the place held nothing. -/
theorem shown_new (hbefore : (g.view d).shown refs₀ leaf = some ref₀ ∨
      (((g.view d).slot ref₀).live = false ∧ (g.view d).shown refs₀ leaf = none)) :
    (g.view d').shown refs₀ leaf = some ref₀ := by
  have hplace := h.filed.removal.toPlace
  obtain hshown | ⟨hdead, hnone⟩ := hbefore
  · refine h.shown_kept hleaf hbytes (fun hdead => ?_) hplace.dir hplace.slots hshown
    rw [(Volume.mem_of_entries (Volume.mem_of_shown hshown).1).2] at hdead
    cases hdead
  have hplain := plainName_of_make hleaf h.new_name hbytes.1 hbytes.2.2
  have hself := compares_alike hplain hbytes.2.1 hleaf
  rw [stores, decide_eq_true h.new_name] at hself
  have hdir := h.liveDir hplace.dir
  have hrefs := h.dirRefs hplace.dir hplace.slots
  have htidy := h.neat.tidy c₀ refs₀ hdir hrefs
  -- something is shown, and it can be nothing else
  cases hfound : (g.view d').shown refs₀ leaf with
  | none =>
    have hno := find?_eq_none.mp hfound ref₀
      ((Volume.mem_entries_tidy htidy).mpr ⟨hplace.usable.mem, h.live⟩)
    exact absurd hself hno
  | some r =>
    by_contra hne
    have hne : r ≠ ref₀ := fun heq => hne (heq ▸ rfl)
    obtain ⟨hmem, hshows⟩ := Volume.mem_of_shown hfound
    rw [h.slot_eq hplace.dir hplace.slots (Volume.mem_of_entries hmem).1 hne] at hshows
    exact find?_eq_none.mp hnone r
      ((h.mem_entries_iff hplace.dir hplace.slots hne).mp hmem) hshows

end

end Stores

/-! ## Both lookups along a path -/

variable (g) in
/-- Reading and writing look the components up alike, from directory to directory. -/
def AlikeFrom (V : Volume) : List (List UInt8) → Nat → Prop
  | [], _ => True
  | name :: rest, c => ∀ refs name83, g.DirRefs V c refs →
      fat12_make_83_file_name name = .ok name83 → V.shown refs name = V.lookup refs name83 ∧
        ∀ ref, V.lookup refs name83 = some ref → (V.slot ref).isDir = true →
          AlikeFrom V rest (V.slot ref).cluster

end Geometry

/-- `.` and `..` are shown as such. -/
theorem shows_dots (h : e.dots = true) {name83 : Name83}
    (h83 : fat12_make_83_file_name name = .ok name83) : shows none e name = false := by
  obtain ⟨x, rest, rfl, hx, -⟩ := encodes_file name name83 h83
  have hfirst : ∀ shown : List UInt8, shown.head? = some DOT → TILDE ∉ shown →
      fat12_name_eq shown (x :: rest) = false := by
    intro shown hhead htilde
    unfold fat12_name_eq
    rw [alias_no_tilde htilde, if_neg]
    · intro hlower
      obtain ⟨rest', rfl⟩ : ∃ rest', shown = DOT :: rest' := by
        cases shown with
        | nil => cases hhead
        | cons y rest' =>
          cases hhead
          exact ⟨rest', rfl⟩
      exact hx ((lower_eq_dot x).mp (cons.inj hlower).1.symm)
  have hname : e.name = dot83 ∨ e.name = dotdot83 := of_decide_eq_true h
  obtain hdot | hdotdot := hname
  · rw [shows_of_name (hdot.trans (fileEntry_name dot83 0 0).symm)]
    exact hfirst _ (by decide) (by decide)
  · rw [shows_of_name (hdotdot.trans (fileEntry_name dotdot83 0 0).symm)]
    exact hfirst _ (by decide) (by decide)

variable {data : List UInt8}

namespace Geometry

variable {g : Geometry} {torn : Prop} {d d' : Disk} {fuel : Nat}

theorem stores_dots {name83 : Name83} (h : e.dots = true)
    (h83 : fat12_make_83_file_name name = .ok name83) : stores e name83 = false := by
  rw [stores, decide_eq_false_iff_not]
  rintro rfl
  rw [not_dots_of_name (encodes_file.ne_dot h83)] at h
  cases h

/-- In a directory of plain names both lookups find the same entry. -/
theorem shown_eq_lookup {name83 : Name83}
    (hplain : ∀ r ∈ V.entries refs, (V.slot r).dots = true ∨ (V.slot r).plainName = true)
    (hspace : SPACE ∉ name) (h83 : fat12_make_83_file_name name = .ok name83) :
    V.shown refs name = V.lookup refs name83 := by
  refine find?_congr fun r hr => ?_
  obtain hdots | hname := hplain r hr
  · exact (shows_dots hdots h83).trans (stores_dots hdots h83).symm
  · exact compares_alike hname hspace h83

/-- What holds in every directory holds along a path. -/
theorem alikeFrom_of_dirs (halike : ∀ c refs name name83, g.LiveDir V c → g.DirRefs V c refs →
      name ∈ path → fat12_make_83_file_name name = .ok name83 →
      V.shown refs name = V.lookup refs name83)
    (hdir : g.LiveDir V c) : g.AlikeFrom V path c := by
  induction path generalizing c with
  | nil => trivial
  | cons name rest ih =>
    intro refs name83 hrefs h83
    refine ⟨halike c refs name name83 hdir hrefs mem_cons_self h83, fun ref hlookup hisDir => ?_⟩
    refine ih (fun c refs name' name83' hdir hrefs hn => ?_)
      (hdir.lookup hrefs (encodes_file.ne_dot h83) hlookup hisDir)
    exact halike c refs name' name83' hdir hrefs (mem_cons_of_mem _ hn)

/-- So it is where all stored names are plain. -/
theorem alikeFrom_plain (hplain : ∀ c refs, g.LiveDir V c → g.DirRefs V c refs →
      ∀ r ∈ V.entries refs, (V.slot r).dots = true ∨ (V.slot r).plainName = true)
    (hpath : ∀ name ∈ path, SPACE ∉ name) (hdir : g.LiveDir V c) :
    g.AlikeFrom V path c :=
  alikeFrom_of_dirs (fun c refs name _ hdir hrefs hname h83 =>
    shown_eq_lookup (hplain c refs hdir hrefs) (hpath name hname) h83) hdir

/-- Agreement along a path gives agreement in its last directory. -/
theorem AlikeFrom.last {leaf : List UInt8} {c₀ : Nat} (hres : g.Resolves V path c c₀)
    (h : g.AlikeFrom V (path ++ [leaf]) c) :
    g.AlikeFrom V [leaf] c₀ := by
  induction hres with
  | nil => exact h
  | cons _ hname hrefs hlookup hisDir _ ih =>
    exact ih ((h _ _ hrefs (make_83_dir_file hname)).2 _ hlookup hisDir)

/-- `.` and `..` cannot be encoded. -/
theorem ne_dotName {make83 : List UInt8 → Except FsErr Name83} (hmake : Encodes make83)
    {name83 : Name83} (h : make83 name = .ok name83) :
    name ≠ dotName ∧ name ≠ dotdotName := by
  obtain ⟨x, rest, rfl, hx, -⟩ := hmake name name83 h
  refine ⟨fun heq => hx ?_, fun heq => hx ?_⟩
  · exact (cons.inj heq).1
  · exact (cons.inj heq).1

section

variable {c₀ : Nat} {refs₀ : List EntryRef} {ref₀ : EntryRef} {leaf83 : Name83}
  {data leaf : List UInt8} (h : g.Stores d d' c₀ refs₀ ref₀ leaf83 data)
  (hleaf : fat12_make_83_file_name leaf = .ok leaf83)
  (hbytes : 0 ∉ leaf ∧ SPACE ∉ leaf ∧ TILDE ∉ leaf)
  (hlookup : (g.view d).lookup refs₀ leaf83 = some ref₀ ∨
    (((g.view d).slot ref₀).live = false ∧ (g.view d).lookup refs₀ leaf83 = none))

include h hleaf hlookup

theorem Stores.nothing_shown (halike : g.AlikeFrom (g.view d) [leaf] c₀) :
    ((g.view d).slot ref₀).live = false → (g.view d).shown refs₀ leaf = none := by
  intro hdead
  obtain hsome | ⟨-, hnone⟩ := hlookup
  · rw [(Volume.mem_of_entries (Volume.mem_of_lookup hsome).1).2] at hdead
    cases hdead
  · rw [(halike refs₀ leaf83 h.filed.removal.slots hleaf).1, hnone]

include hbytes

/-- The path of the file leads to it. -/
theorem Stores.leads_new (hlen : leaf.length < FS_NAME_CAP) (hdir : g.LiveDir (g.view d) c)
    (hres : g.Resolves (g.view d) path c c₀) (halike : g.AlikeFrom (g.view d) (path ++ [leaf]) c) :
    g.Leads (g.view d') (path ++ [leaf]) c ref₀ := by
  have hlast := halike.last hres
  have hnew := h.nothing_shown hleaf hlookup hlast
  induction hres with
  | nil =>
    have hplace := h.filed.removal.toPlace
    have hsame := (hlast refs₀ leaf83 hplace.slots hleaf).1
    have hshown := h.shown_new hleaf hbytes (by rwa [hsame])
    refine .last hlen (ne_dotName encodes_file hleaf) (h.dirRefs hdir hplace.slots) hshown ?_
    apply not_dots_of_name
    rw [h.new_name]
    exact encodes_file.ne_dot hleaf
  | @cons name rest c c₀ name83 refs r hlen' hname hrefs hlook hisDir _ ih =>
    obtain ⟨hsame, hrest⟩ := halike refs name83 hrefs (make_83_dir_file hname)
    have hmem := (Volume.mem_of_lookup hlook).1
    have hdots := not_dots_of_lookup (encodes_dir.ne_dot hname) hlook
    have hsub : g.LiveDir (g.view d) _ := .sub hdir hrefs hmem hdots hisDir
    have hleads := ih h hsub (hrest r hlook hisDir) hlast
    have hne := h.ne_of_isDir ⟨c, refs, hdir, hrefs, hmem, hdots⟩ hisDir
    have hslot := h.slot_eq hdir hrefs (Volume.mem_of_entries hmem).1 hne
    have hshown := h.shown_kept hleaf hbytes hnew hdir hrefs (hsame.trans hlook)
    rw [← hslot] at hdots hisDir hleads
    exact .cons hlen' (ne_dotName encodes_dir hname) (h.dirRefs hdir hrefs) hshown hdots hisDir
      hleads

end

/-! ## A write and what is read after it -/

/-- A write that succeeds, on a device that does not fail. -/
theorem run_write_stores (h : g.WellFormed d) (hfuel : 4096 ≤ fuel) {path : CString}
    (hplain : (Op.write_file path data).Plain)
    (hrun : (fat12_core_write_file_on_device g.dev fuel path data).run perfect d = (.done (), d')) :
    ∃ parts c leaf83 refs ref, fat12_split_create_path path.bytes = .ok parts ∧
      fat12_make_83_file_name parts.2 = .ok leaf83 ∧
      g.Resolves (g.view d) (components parts.1) 0 c ∧
      ((g.view d).lookup refs leaf83 = some ref ∨
        (((g.view d).slot ref).live = false ∧ (g.view d).lookup refs leaf83 = none)) ∧
      g.Stores d d' c refs ref leaf83 data := by
  have hdoes := (does_write_file h.boot h.wf hfuel path data fun hf : False => hf.elim).run
  rw [hrun] at hdoes
  obtain ⟨hafter, hsaved⟩ := hdoes
  obtain ⟨c, leaf83, refs, ref, hparent, hcase, hfiled⟩ := hsaved.resolve_left id
  obtain ⟨parts, hsplit, hleaf, hres⟩ := id hparent
  have hplace := hfiled.removal.toPlace
  have hnamed : ∀ r, g.Names (g.view d) fat12_make_83_file_name path r → r = ref := by
    rintro r ⟨c', leaf83', refs', hparent', hrefs', hlookup'⟩
    obtain ⟨rfl, rfl⟩ := hparent.unique hparent'
    obtain rfl := hplace.slots.unique hrefs'
    grind
  refine ⟨parts, c, leaf83, refs, ref, hsplit, hleaf, hres, ?_, ?_⟩
  · obtain ⟨hnone, hvacancy⟩ | ⟨hsome, -⟩ := hcase
    · exact .inr ⟨(Volume.usable_of_vacancy hvacancy).2, hnone⟩
    · exact .inl hsome
  · refine ⟨h.wf, hafter.neat, fun r hlive hne => hafter.kept r hlive fun hn => hne (hnamed r hn),
      fun r cs hlive hne => hafter.bytes r cs hlive fun hn => hne (hnamed r hn), hfiled, ?_, ?_⟩
    · obtain ⟨-, hvacancy⟩ | ⟨hsome, hfile⟩ := hcase
      · exact .inl (Volume.usable_of_vacancy hvacancy).2
      · obtain ⟨hmem, hname⟩ := Volume.mem_of_lookup hsome
        exact .inr ⟨(Volume.mem_of_entries hmem).2, hfile, hname⟩
    · obtain ⟨first, cs, hslot, -⟩ := hfiled.contains
      rw [hslot]
      refine image_live leaf83 (.inl rfl) first data.length (hparent.leaf_ne_zero encodes_file) ?_
      exact fun hE5 => not_unseen hplain (g.view d) ⟨c, leaf83, hparent, hE5⟩

/-- What a file that contains the data is made of. -/
theorem Contains.content {leaf83 : Name83} (h : g.Contains d ref leaf83 data) :
    ((g.view d).slot ref).isDir = false ∧ ((g.view d).slot ref).size = data.length ∧
      ∃ cs, g.Owns (g.view d) ((g.view d).slot ref) cs ∧ g.Fits ((g.view d).slot ref) cs ∧
        g.fileBytes d cs data.length = data := by
  obtain ⟨first, cs, hslot, hlt, -, howns, hfits, hbyte⟩ := h
  rw [hslot]
  refine ⟨fileEntry_isDir .., fileEntry_size _ _ hlt, cs, howns, hfits, ?_⟩
  apply ext_getElem
  · simp [fileBytes]
  · grind [fileBytes]

/-- The bytes of another file, read before and after. -/
theorem Stores.read_kept {c₀ : Nat} {refs₀ : List EntryRef} {ref₀ : EntryRef} {leaf83 : Name83}
    {path : List UInt8} {cwd : Nat} (h : g.Stores d d' c₀ refs₀ ref₀ leaf83 data)
    (habs : path.head? = some SLASH) (hlong : g.NoLong (g.view d)) (hfuel : 4096 ≤ fuel)
    (hbefore : g.Leads (g.view d) (components path) 0 r)
    (hafter : g.Leads (g.view d') (components path) 0 r) (hne : r ≠ ref₀) (cap : Nat) :
    (fat12_read_file fuel g.b cwd path cap).run perfect d' =
      (((fat12_read_file fuel g.b cwd path cap).run perfect d).1, d') := by
  have hlive := hbefore.liveEntry .root
  obtain ⟨cs, howns, hfits⟩ := h.wf.owns r hlive
  obtain ⟨-, hslot, hchain⟩ := h.kept r hlive hne
  have howns' := hchain cs howns
  rw [← hslot] at howns'
  rw [hbefore.run_read_file habs hlong hfuel howns hfits,
    hafter.run_read_file habs (h.noLong hlong) hfuel howns' (by rwa [hslot]), hslot]
  refine Prod.ext ?_ rfl
  cases hdir : ((g.view d).slot r).isDir with
  | true => rfl
  | false =>
    split
    · rfl
    split
    · rfl
    refine congrArg Outcome.done (map_congr_left fun n hn => ?_)
    have hn := mem_range.mp hn
    apply fileByte_congr (fun x hx => howns.inRange hx)
    · have := Fits.size_le hfits hdir
      omega
    · exact fun x hx lba hlba => h.bytes r cs hlive hne hdir howns x hx lba hlba

/-- A name in ASCII does not begin with the byte of a deleted entry. -/
theorem plain_of_ascii {path : CString} (h : ∀ x ∈ path.bytes, x < 0x80) :
    (Op.write_file path data).Plain := by
  intro hE5
  have hlt := h _ ((rtakeWhile_suffix _ _).subset (mem_of_mem_head? hE5))
  revert hlt
  decide

/-- What has been written is read, under its path; and what is read under any other path
that leads to another file is what it was. -/
theorem write_then_read (h : g.WellFormed d) (hlong : g.NoLong (g.view d)) (hfuel : 4096 ≤ fuel)
    {path : CString} {data : List UInt8} (hspace : SPACE ∉ path.bytes)
    (htilde : TILDE ∉ path.bytes) (hascii : ∀ x ∈ path.bytes, x < 0x80)
    (halike : g.AlikeFrom (g.view d) (components path.bytes) 0)
    (hrun : (fat12_core_write_file_on_device g.dev fuel path data).run perfect d = (.done (), d')) :
    (∀ cwd cap, data.length ≤ cap →
      (fat12_read_file fuel g.b cwd path.bytes cap).run perfect d' = (.done data, d')) ∧
    (∀ cwd, (fat12_stat fuel g.b cwd path.bytes).run perfect d' =
      (.done ⟨FS_MODE_FILE, data.length⟩, d')) ∧
    ∀ other ref, other.head? = some SLASH → g.Leads (g.view d) (components other) 0 ref →
      ¬ g.Names (g.view d) fat12_make_83_file_name path ref → ∀ cwd cap,
        (fat12_read_file fuel g.b cwd other cap).run perfect d' =
          (((fat12_read_file fuel g.b cwd other cap).run perfect d).1, d') := by
  obtain ⟨parts, c, leaf83, refs, ref₀, hsplit, hleaf, hres, hlookup, hstores⟩ :=
    run_write_stores h hfuel (plain_of_ascii hascii) hrun
  obtain ⟨front, hpath, -, -, hlen, habs, -⟩ := split_cases hsplit
  have hsub := split_mem hsplit
  have hbytes : 0 ∉ parts.2 ∧ SPACE ∉ parts.2 ∧ TILDE ∉ parts.2 :=
    ⟨fun hx => path.nonul (hsub hx), fun hx => hspace (hsub hx), fun hx => htilde (hsub hx)⟩
  rw [components_split hsplit] at halike
  have hleads := hstores.leads_new hleaf hbytes hlookup hlen .root hres halike
  rw [← components_split hsplit] at hleads
  have hlong' := hstores.noLong hlong
  obtain ⟨hfile, hsize, cs, howns, hfits, hdata⟩ := hstores.filed.contains.content
  refine ⟨fun cwd cap hcap => ?_, fun cwd => ?_, fun other ref habs' hother hnot cwd cap => ?_⟩
  · rw [hleads.run_read_file habs hlong' hfuel howns hfits, hfile, hsize, hdata]
    simp [Nat.not_lt.mpr hcap]
  · rw [hleads.run_stat habs hlong' hfuel, hfile, hsize]
    rfl
  · have hlive := hother.liveEntry .root
    have hne : ref ≠ ref₀ := by
      rintro rfl
      obtain hsome | ⟨hdead, -⟩ := hlookup
      · exact hnot
          ⟨c, leaf83, refs, ⟨parts, hsplit, hleaf, hres⟩, hstores.filed.removal.slots, hsome⟩
      exact not_liveEntry hdead hlive
    have hnew := hstores.nothing_shown hleaf hlookup (halike.last hres)
    exact hstores.read_kept habs' hlong hfuel hother
      (hstores.leads_kept hleaf hbytes hnew .root hother hne) hne cap

end Geometry

section

variable {d : Disk} (hd : d ∈ [trapDisk, plainDisk])

include hd

/-- A directory of the tree is the root or `D`. -/
theorem trap_dirs {c : Nat} {refs : List EntryRef} (hdir : trap.LiveDir (trap.view d) c)
    (hrefs : trap.DirRefs (trap.view d) c refs) : c ∈ [0, 2] ∧ refs = trapSlots c := by
  have hc : c ∈ [0, 2] :=
    hdir.mem_of_lists (by decide) (trap_slots hd) fun c hc r hr hdots hisDir => by
      simp [(trap_entry hd r (trap_live hd c hc r hr hdots)).2.2 hisDir]
  exact ⟨hc, hrefs.unique (trap_slots hd c hc)⟩

theorem trap_noLong : trap.NoLong (trap.view d) := by
  have hslots : ∀ d ∈ [trapDisk, plainDisk], ∀ c ∈ [0, 2], ∀ r ∈ trapSlots c,
      ((trap.view d).slot r).attr ≠ FAT12_ATTR_LONG_NAME := by
    decide +kernel
  intro c refs hdir hrefs r hr _ _
  obtain ⟨hc, rfl⟩ := trap_dirs hd hdir hrefs
  exact hslots d hd c hc r hr

end

/-- `/G` is a new file. -/
theorem trap_alike : trap.AlikeFrom (trap.view trapDisk) [[0x47]] 0 := by
  intro refs name83 hrefs hname
  obtain rfl := hrefs.unique (.inl ⟨rfl, rfl⟩)
  have hname83 : (fat12_make_83_file_name [0x47]).toOption = some (named [0x47]) := by
    decide +kernel
  rw [hname] at hname83
  obtain rfl := Option.some.inj hname83
  exact ⟨by decide +kernel, fun _ _ _ => trivial⟩

/-- The names of the other tree are plain. -/
theorem plainDisk_names {c : Nat} {refs : List EntryRef}
    (hdir : trap.LiveDir (trap.view plainDisk) c)
    (hrefs : trap.DirRefs (trap.view plainDisk) c refs) :
    ∀ r ∈ (trap.view plainDisk).entries refs, ((trap.view plainDisk).slot r).dots = true ∨
      ((trap.view plainDisk).slot r).plainName = true := by
  have hnames : ∀ c ∈ [0, 2], ∀ r ∈ (trap.view plainDisk).entries (trapSlots c),
      ((trap.view plainDisk).slot r).dots = true ∨
        ((trap.view plainDisk).slot r).plainName = true := by
    decide +kernel
  obtain ⟨hc, rfl⟩ := trap_dirs (by simp) hdir hrefs
  exact hnames c hc

/-- So both lookups agree along `/D/G`, and `D` is a directory that is entered. -/
theorem plain_alike :
    trap.AlikeFrom (trap.view plainDisk) [[0x44], [0x47]] 0 ∧
      trap.Leads (trap.view plainDisk) [[0x44], [0x47]] 0 ⟨3, 64⟩ := by
  have hshown : (trap.view plainDisk).shown trap.rootRefs [0x44] = some ⟨2, 0⟩ := by
    decide +kernel
  have hcluster : ((trap.view plainDisk).slot ⟨2, 0⟩).cluster = 2 := by decide +kernel
  refine ⟨Geometry.alikeFrom_plain (fun _ _ => plainDisk_names) (by decide) .root, ?_⟩
  refine .cons (by decide) (by decide) (.inl ⟨rfl, rfl⟩) hshown (by decide +kernel)
    (by decide +kernel) ?_
  rw [hcluster]
  exact .last (by decide) (by decide) (trap_slots (by simp) 2 (by simp)) (by decide +kernel)
    (by decide +kernel)

def writeG : Op := .write_file (.cut [SLASH, 0x47]) [0x59]

/-- What has been written to `/G` is read from it. -/
theorem writeG_read :
    (fat12_read_file 4096 trap.b 0 [SLASH, 0x47] 1).run perfect (trap.exec 4096 trapDisk writeG) =
      (.done [0x59], trap.exec 4096 trapDisk writeG) := by
  have hrun : (fat12_core_write_file_on_device trap.dev 4096 (.cut [SLASH, 0x47]) [0x59]).run
      perfect trapDisk = (.done (), trap.exec 4096 trapDisk writeG) := by
    apply Prod.ext
    · decide +kernel
    · rfl
  have hpath : components (CString.cut [SLASH, 0x47]).bytes = [[0x47]] := by decide
  have halike := trap_alike
  rw [← hpath] at halike
  exact (Geometry.write_then_read trap_wf (trap_noLong mem_cons_self) (Nat.le_refl _) (by decide)
    (by decide) (by decide +kernel) halike hrun).1 0 1 (Nat.le_refl _)

/-- The root has a file whose stored name is a small letter. -/
def smallLetter : Disk := fun lba j =>
  if lba = 0 then smallBoot j
  else if lba = 1 then ([0xF8, 0xFF, 0xFF, 0xFF, 0x0F] : List UInt8).getD j 0
  else if lba = 2 then if j < 32 then fileEntry (named [0x61]) 2 1 j else 0
  else if lba = 3 then 0x58
  else 0

/-- The volume with a lower-case entry is well formed. -/
theorem smallLetter_tree :
    trap.Wf (trap.view smallLetter) ∧ trap.NoLong (trap.view smallLetter) := by
  have hlive : ∀ r ∈ (trap.view smallLetter).entries trap.rootRefs, r = ⟨2, 0⟩ := by decide +kernel
  have hentry : ((trap.view smallLetter).slot ⟨2, 0⟩).cluster = 2 ∧
      ((trap.view smallLetter).slot ⟨2, 0⟩).isDir = false ∧
      trap.Fits ((trap.view smallLetter).slot ⟨2, 0⟩) [2] ∧ trap.InRange 2 ∧
      CHAIN_END ≤ (trap.view smallLetter).fat 2 := by
    decide +kernel
  have hslots : ∀ r ∈ trap.rootRefs,
      ((trap.view smallLetter).slot r).attr ≠ FAT12_ATTR_LONG_NAME := by
    decide +kernel
  have htidy : (trap.view smallLetter).Tidy trap.rootRefs := by decide +kernel
  obtain ⟨hcluster, hfile, hfits, hrange, hend⟩ := hentry
  generalize trap.view smallLetter = V at *
  have hroot : ∀ c ∈ [0], trap.DirRefs V c ((fun _ => trap.rootRefs) c) := by
    simp [Geometry.DirRefs]
  have hsub : ∀ c ∈ [0], ∀ r ∈ V.entries ((fun _ => trap.rootRefs) c), (V.slot r).dots = false →
      (V.slot r).isDir = true → (V.slot r).cluster ∈ [0] := by grind
  constructor
  · apply @Geometry.wf_of_lists trap V [0] (fun _ => trap.rootRefs) (by simp) hroot
      (fun _ => [2]) hsub
    · intro c _ r hr _
      rw [hlive r hr]
      have hchain : trap.Chain V.fat (V.slot ⟨2, 0⟩).cluster [2] := by
        rw [hcluster]
        exact .cons hrange (.nil hend)
      exact ⟨.inr ⟨by simp, hchain⟩, hfits⟩
    · grind
    · exact fun _ _ => htidy
    · exact fun _ _ r hr r' hr' _ => (hlive r hr).trans (hlive r' hr').symm
  · intro c refs hdir hrefs r hr _ _
    have hc := hdir.mem_of_lists (by simp) hroot hsub
    obtain rfl := hrefs.unique (hroot c hc)
    exact hslots r hr

def writeA : Op := .write_file (.cut [SLASH, 0x41]) [0x59]

/-- The write succeeds, and the path still shows the old file. -/
theorem smallLetter_hides :
    trap.WellFormed smallLetter ∧ trap.NoLong (trap.view smallLetter) ∧
      ((writeA.prog trap.dev 4096).run perfect smallLetter).1 = .done () ∧
      ((fat12_read_file 4096 trap.b 0 [SLASH, 0x41] 1).run perfect
        (trap.exec 4096 smallLetter writeA)).1 = .done [0x58] := by
  exact ⟨⟨smallBoot_parsed, trap_mirrored _, smallLetter_tree.1⟩, smallLetter_tree.2,
    by decide +kernel, by decide +kernel⟩

end System1.Fat12
