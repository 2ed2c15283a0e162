/-
The entry that is read and the entry that is written.

A path is looked up twice: by the names a listing shows when it is read, and by the stored
names when it is written. Where every entry of a directory has a plain name, and no long name
but that one, both lookups end in the same slot (`lookups_agree`). An entry whose short name
stands for a longer one, as `LONGNA~1` does, is found by the first lookup only.

On a volume of such names the operations act on what is read. A file that is removed is the
one the path led to, and one that is written is the one the path leads to afterwards, in the
old slot if there was one.
-/
import System1.Fat12Paths
import System1.VfsStack

set_option autoImplicit false

namespace System1.Fat12

open System1.Lib List

/-! ## One directory -/

/-- An entry that both comparisons see alike. It is `.` or `..`, or its stored name is plain
and the name it is shown under differs from that in case only. -/
def plainlyNamed (lfn : Lfn) (e : Slot) : Bool :=
  (e.dots ∧ lfn = none) ∨
    e.plainName ∧ (fat12_copy_display_name e lfn).map fat12_lower =
      (fat12_copy_83_name e).map fat12_lower

/-- All entries up to the end of the directory are. -/
def allPlain : Lfn → List (EntryRef × Slot) → Bool
  | _, [] => true
  | lfn, (_, e) :: rest =>
    if e.first = FAT12_ENTRY_FREE then true
    else if e.skipped then allPlain (lfnAfter lfn e) rest
    else plainlyNamed lfn e && allPlain none rest

/-- The place of what a lookup returns. -/
def place {α : Type} (ref : α → EntryRef) : Outcome FsErr α → Outcome FsErr EntryRef
  | .done a => .done (ref a)
  | .fail rc => .fail rc
  | .spin => .spin

theorem tilde_of_lower {name name' : List UInt8} (h : name.map fat12_lower = name'.map fat12_lower)
    (hno : TILDE ∉ name') : TILDE ∉ name := by
  intro hmem
  have hmem' : TILDE ∈ name'.map fat12_lower := by
    rw [← h, mem_map]
    exact ⟨TILDE, hmem, by decide⟩
  grind [mem_map.mp, lower_eq_tilde]

section

variable {name : List UInt8} {name83 : Name83} (h83 : fat12_make_83_file_name name = .ok name83)
  (hspace : SPACE ∉ name)

include h83 hspace

/-- A plainly named entry is shown under a name exactly if it is stored under it. -/
theorem plainlyNamed_alike {lfn : Lfn} {e : Slot} (h : plainlyNamed lfn e = true) :
    shows lfn e name = stores e name83 := by
  obtain ⟨hdots, rfl⟩ | ⟨hplain, hcase⟩ := of_decide_eq_true h
  · exact (shows_dots hdots h83).trans (Geometry.stores_dots hdots h83).symm
  · -- the shown name and the stored one are the same to a lookup
    have htilde := tilde_of_lower hcase (copy_83_no_tilde hplain)
    rw [← compares_alike hplain hspace h83, shows_plain hplain, shows, fat12_name_eq,
      alias_no_tilde htilde, hcase]
    split <;> simp_all

/-- Both scans go on together until both take an entry, or neither does. -/
theorem scans_agree {slots : List (EntryRef × Slot)} {lfn : Lfn}
    (h : allPlain lfn slots = true) (ended : Bool) :
    place Entry.ref (lookupOutcome (scanSlots (findNameVisit name) slots lfn) ended) =
      place Found.ref (lookupOutcome (scanSlots (findEntryVisit name83) slots ()) ended) := by
  induction slots generalizing lfn with
  | nil => cases ended <;> rfl
  | cons x rest ih =>
    obtain ⟨r, e⟩ := x
    unfold scanSlots
    unfold allPlain at h
    by_cases hfree : e.first = FAT12_ENTRY_FREE
    · rw [findNameVisit_free hfree, findEntryVisit_free hfree]
      rfl
    rw [if_neg hfree] at h
    by_cases hskip : e.skipped = true
    · grind [findNameVisit_skipped, findEntryVisit_skipped]
    rw [if_neg hskip, Bool.and_eq_true] at h
    have hskip : e.skipped = false := by simpa using hskip
    rw [findNameVisit_live hfree hskip, findEntryVisit_live hfree hskip,
      plainlyNamed_alike h83 hspace h.1]
    cases stores e name83 with
    | true => rfl
    | false => exact ih h.2

end

/-! ## Along a path -/

namespace Geometry

variable {g : Geometry} {V : Volume} {d d' : Disk} {fuel c c₀ : Nat} {refs : List EntryRef}
  {path : List (List UInt8)} {leaf : List UInt8} {leaf83 : Name83} {ref : EntryRef}

/-- The entry that the writing side finds is where the path leads. -/
theorem Resolves.leads (hres : g.Resolves V path c c₀) (hlen : leaf.length < FS_NAME_CAP)
    (hleaf : fat12_make_83_file_name leaf = .ok leaf83) (hrefs : g.DirRefs V c₀ refs)
    (hlookup : V.lookup refs leaf83 = some ref) (halike : g.AlikeFrom V (path ++ [leaf]) c) :
    g.Leads V (path ++ [leaf]) c ref := by
  induction hres with
  | nil =>
    exact .last hlen (ne_dotName encodes_file hleaf) hrefs
      ((halike refs leaf83 hrefs hleaf).1.trans hlookup)
      (not_dots_of_lookup (encodes_file.ne_dot hleaf) hlookup)
  | cons hlen' hname hrefs' hlook hisDir _ ih =>
    obtain ⟨hsame, hrest⟩ := halike _ _ hrefs' (make_83_dir_file hname)
    exact .cons hlen' (ne_dotName encodes_dir hname) hrefs' (hsame.trans hlook)
      (not_dots_of_lookup (encodes_dir.ne_dot hname) hlook) hisDir
      (ih hrefs (hrest _ hlook hisDir))

/-- And where the path leads is the entry that the writing side finds. -/
theorem Leads.lookup (hleads : g.Leads V (path ++ [leaf]) c ref) (hres : g.Resolves V path c c₀)
    (hleaf : fat12_make_83_file_name leaf = .ok leaf83) (hrefs : g.DirRefs V c₀ refs)
    (halike : g.AlikeFrom V (path ++ [leaf]) c) : V.lookup refs leaf83 = some ref := by
  induction hres with
  | nil =>
    rw [← (halike refs leaf83 hrefs hleaf).1]
    cases hleads with
    | last _ _ hrefs' hshown => rwa [hrefs.unique hrefs']
    | cons _ _ _ _ _ _ hrest => cases hrest
  | cons _ hname hrefs' hlook hisDir _ ih =>
    obtain ⟨hsame, hrest⟩ := halike _ _ hrefs' (make_83_dir_file hname)
    generalize hwhole : _ :: _ ++ [leaf] = whole at hleads
    cases hleads with
    | last => simp at hwhole
    | cons _ _ hrefs'' hshown _ _ hleads =>
      obtain ⟨rfl, rfl⟩ := cons.inj hwhole
      rw [← hrefs'.unique hrefs'', hsame, hlook] at hshown
      cases hshown
      exact ih hleads hrefs (hrest _ hlook hisDir)

variable (g) in
/-- The stored names in all directories are plain. -/
def PlainNames (V : Volume) : Prop :=
  ∀ c refs, g.LiveDir V c → g.DirRefs V c refs →
    ∀ r ∈ V.entries refs, (V.slot r).dots = true ∨ (V.slot r).plainName = true

variable (g) in
/-- The path leads to the entry, and `fat12_resolve_path_info`, which `open` and `stat` go
through, reports that one. -/
def ResolvesTo (fuel : Nat) (d : Disk) (path : CString) (ref : EntryRef) : Prop :=
  g.Leads (g.view d) (components path.bytes) 0 ref ∧
    ∀ cwd, (fat12_resolve_path_info fuel g.b cwd path.bytes).run perfect d =
      (.done (infoAt (g.view d) ref), d)

/-- Where an absolute path leads, the read path resolves it to. -/
theorem Leads.resolvesTo {path : CString}
    (hleads : g.Leads (g.view d) (components path.bytes) 0 ref)
    (habs : path.bytes.head? = some SLASH) (hlong : g.NoLong (g.view d)) (hfuel : 4096 ≤ fuel) :
    g.ResolvesTo fuel d path ref := by
  refine ⟨hleads, fun cwd => ?_⟩
  have hreads : Reads False False (fat12_resolve_path_info fuel g.b cwd path.bytes) d _ :=
    hleads.resolved habs hlong hfuel
  exact hreads.run

section

variable {path : CString} (hplain : g.PlainNames (g.view d)) (hspace : SPACE ∉ path.bytes)

include hplain hspace

theorem alike_path : g.AlikeFrom (g.view d) (components path.bytes) 0 := by
  refine alikeFrom_of_dirs (fun c refs name name83 hdir hrefs hname h83 => ?_) .root
  have hpiece : name ⊆ path.bytes := (Vfs.piece_of_mem (mem_filter.mp hname).1).2
  exact shown_eq_lookup (hplain c refs hdir hrefs) (fun hx => hspace (hpiece hx)) h83

variable (h : g.WellFormed d) (hfuel : 4096 ≤ fuel) (hlong : g.NoLong (g.view d))

include h hfuel hlong

/-- A file that is removed is the one the path led to. -/
theorem unlink_acts
    (hrun : (fat12_core_unlink_on_device fuel path).run perfect d = (.done (), d')) :
    ∃ ref, g.ResolvesTo fuel d path ref ∧ ((g.view d').slot ref).live = false ∧
      ∀ r, g.LiveEntry (g.view d) r → r ≠ ref → g.Same (g.view d) (g.view d') r := by
  have hdoes : Does False (fat12_core_unlink_on_device fuel path) d _ _ :=
    does_unlink h.boot h.wf hfuel path
  replace hdoes := hdoes.run
  rw [hrun] at hdoes
  obtain ⟨hafter, ref, hnamed, hdead⟩ := hdoes
  obtain ⟨c, leaf83, refs, ⟨parts, hsplit, hleaf, hres⟩, hrefs, hlookup⟩ := id hnamed
  have halike := alike_path hplain hspace
  obtain ⟨front, -, -, -, hlen, habs, -⟩ := split_cases hsplit
  rw [components_split hsplit] at halike
  have hleads := hres.leads hlen hleaf hrefs hlookup halike
  rw [← components_split hsplit] at hleads
  refine ⟨ref, hleads.resolvesTo habs hlong hfuel, hdead, fun r hlive hne => ?_⟩
  exact hafter.kept r hlive fun hr => hne (hr.unique hnamed)

/-- A file that is written is the one the path leads to. If it led to one before, that is the
one, and nothing else has changed. -/
theorem write_acts (htilde : TILDE ∉ path.bytes) (hascii : ∀ x ∈ path.bytes, x < 0x80)
    {data : List UInt8}
    (hrun : (fat12_core_write_file_on_device g.dev fuel path data).run perfect d = (.done (), d')) :
    ∃ ref leaf83, g.ResolvesTo fuel d' path ref ∧ g.Contains d' ref leaf83 data ∧
      (∀ r, g.Leads (g.view d) (components path.bytes) 0 r → r = ref) ∧
      ∀ r, g.LiveEntry (g.view d) r → r ≠ ref → g.Same (g.view d) (g.view d') r := by
  obtain ⟨parts, c, leaf83, refs, ref, hsplit, hleaf, hres, hlookup, hstores⟩ :=
    run_write_stores h hfuel (plain_of_ascii hascii) hrun
  obtain ⟨front, -, -, -, hlen, habs, -⟩ := split_cases hsplit
  have halike := alike_path hplain hspace
  have hsub := split_mem hsplit
  have hbytes : 0 ∉ parts.2 ∧ SPACE ∉ parts.2 ∧ TILDE ∉ parts.2 :=
    ⟨fun hx => path.nonul (hsub hx), fun hx => hspace (hsub hx), fun hx => htilde (hsub hx)⟩
  rw [components_split hsplit] at halike
  have hleads := hstores.leads_new hleaf hbytes hlookup hlen .root hres halike
  rw [← components_split hsplit] at hleads
  refine ⟨ref, leaf83, hleads.resolvesTo habs (hstores.noLong hlong) hfuel,
    hstores.filed.contains, fun r hleads => ?_, hstores.kept⟩
  rw [components_split hsplit] at hleads
  have hfound := hleads.lookup hres hleaf hstores.filed.removal.slots halike
  grind

end

end Geometry

/-- The root directory has one entry, an empty file of the given stored name. -/
def oneEntry (name83 : List UInt8) : Disk := fun lba j =>
  if lba = smallBpb.root_dir_lba then name83.getD j 0 else 0

end System1.Fat12
