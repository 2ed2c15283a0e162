/-
Paths on a well-formed FAT12 volume.

On a well-formed volume the walks of the driver come to their end and meet exactly the
slots of the directory they walk. So what a lookup returns can be said on the volume
alone: the entry of that name, if there is one (`lookup`), the first slot that is free or
deleted, and for a path the directory its components lead to (`Resolves`). `Names` is the
entry a path names, in these terms.
-/
import System1.Fat12Clusters
import System1.Fat12Lookup

set_option autoImplicit false

namespace System1.Fat12

open System1.Lib List

/-- The entry with a stored name. -/
def Volume.lookup (V : Volume) (refs : List EntryRef) (name83 : Name83) : Option EntryRef :=
  (V.entries refs).find? fun r => (V.slot r).name = name83

/-- What `fat12_dev_find_entry` reports of it. -/
def Volume.found (V : Volume) (ref : EntryRef) : Found :=
  ⟨(V.slot ref).cluster, (V.slot ref).attr, ref⟩

/-- The first place that can take an entry. -/
def Volume.vacancy (V : Volume) (refs : List EntryRef) : Option EntryRef :=
  refs.find? fun r => (V.slot r).first = FAT12_ENTRY_FREE ∨ (V.slot r).first = FAT12_ENTRY_DELETED

variable {ref : EntryRef}

section

variable {V : Volume} {refs : List EntryRef}

theorem Volume.mem_of_lookup {name83 : Name83} (h : V.lookup refs name83 = some ref) :
    ref ∈ V.entries refs ∧ (V.slot ref).name = name83 :=
  ⟨mem_of_find?_eq_some h, by simpa using find?_some h⟩

theorem Volume.ne_of_lookup {name83 : Name83} (h : V.lookup refs name83 = none) {r : EntryRef}
    (hr : r ∈ V.entries refs) :
    (V.slot r).name ≠ name83 := by
  have hnot := find?_eq_none.mp h r hr
  simpa using hnot

/-- A slot found for a new entry is free, and the scan gets to it. -/
theorem Volume.usable_of_vacancy (h : V.vacancy refs = some ref) :
    V.Usable refs ref ∧ (V.slot ref).live = false := by
  obtain ⟨hvacant, l, l', hsplit, hl⟩ := find?_eq_some_iff_append.mp h
  refine ⟨⟨l, l', hsplit, ?_⟩, ?_⟩
  · intro r hr hfree
    simpa [hfree] using hl r hr
  · grind [Slot.live, Slot.skipped]

end

/-- The slots of a disk at their places. -/
def slotsAt (d : Disk) (refs : List EntryRef) : List (EntryRef × Slot) :=
  refs.map fun r => (r, slotAt (d r.lba) r.offset)

theorem slotsOf_eq (d : Disk) (lbas : List Nat) : slotsOf d lbas = slotsAt d (refsOf lbas) := by
  simp [slotsOf, slotsAt, refsOf, sectorSlots, map_flatMap, Function.comp_def]

namespace Geometry

variable {g : Geometry} {faults torn : Prop} {d : Disk}

/-! ## Walks -/

/-- A chain is walked to its end, on any table that has it. -/
theorem walk_chain {fat fat' : Nat → Nat} {c fuel : Nat} {cs : List Nat} (h : g.Chain fat c cs)
    (hfat : ∀ x ∈ cs, fat' x = fat x) (hfuel : cs.length < fuel) :
    walk fat' fuel c = (cs, true) := by
  induction fuel generalizing c cs with
  | zero => omega
  | succ fuel ih =>
    unfold walk
    cases h with
    | nil hends => rw [if_neg (Nat.not_lt.mpr hends)]
    | @cons _ cs hc hs =>
      rw [if_pos hc.lt_chain_end, hfat c mem_cons_self,
        ih hs (fun x hx => hfat x (mem_cons_of_mem _ hx)) (by simpa using hfuel)]

/-- The slots of a directory of the volume are the slots a scan sees. -/
theorem dirView_eq {c fuel : Nat} {refs : List EntryRef} (hrefs : g.DirRefs (g.view d) c refs)
    (hfuel : 4096 ≤ fuel) : dirView g.b d fuel c = (slotsAt d refs, true) := by
  unfold dirView
  obtain ⟨rfl, rfl⟩ | ⟨cs, hne, hchain, rfl⟩ := hrefs
  · rw [if_pos rfl, slotsOf_eq]
    rfl
  have hc : c ≠ 0 := by
    rintro rfl
    exact not_chain_zero hchain
  have hlen := hchain.length_le
  have hwalk : walk (fatEntry g.b d) fuel c = (cs, true) :=
    walk_chain hchain (fun x hx => fatEntry_eq (hchain.inRange hx).lt) (by omega)
  rw [if_neg hc, hwalk, slotsOf_eq]
  rfl

/-- The slot a walk meets, as the volume has it. -/
theorem slotAt_eq (h : g.IsRef ref) :
    (slotAt (d ref.lba) ref.offset).clip = (g.view d).slot ref := (view_slot h).symm

section

variable {refs : List EntryRef} (hrefs : ∀ r ∈ refs, g.IsRef r)

include hrefs

/-- A scan that takes the first entry with some property: nothing behind a free slot is
looked at, and what is skipped leaves no trace. -/
theorem scan_first {σ α : Type} {visit : σ → EntryRef → Slot → Step σ (Except FsErr α)} {s : σ}
    (p : Slot → Bool) (val : EntryRef → Slot → α)
    (hfree : ∀ r e, e.first = FAT12_ENTRY_FREE → visit s r e = .stop (.error .NOT_FOUND))
    (hskip : ∀ r ∈ refs, ∀ e, e.clip = (g.view d).slot r → e.first ≠ FAT12_ENTRY_FREE →
      e.skipped = true → visit s r e = .next s)
    (hlive : ∀ r e, e.first ≠ FAT12_ENTRY_FREE → e.skipped = false →
      visit s r e = if p e.clip then .stop (.ok (val r e.clip)) else .next s) :
    lookupOutcome (scanSlots visit (slotsAt d refs) s) true =
      (((g.view d).entries refs).find? fun r => p ((g.view d).slot r)).elim (.fail .NOT_FOUND)
        fun r => .done (val r ((g.view d).slot r)) := by
  induction refs with
  | nil => rfl
  | cons r rest ih =>
    have ih := ih (fun r' hr' => hrefs r' (mem_cons_of_mem _ hr'))
      fun r' hr' => hskip r' (mem_cons_of_mem _ hr')
    have hskip := hskip r mem_cons_self
    have hslot := slotAt_eq (d := d) (hrefs r mem_cons_self)
    unfold slotsAt at ih ⊢
    rw [map_cons]
    generalize slotAt (d r.lba) r.offset = e at hslot
    have hfirst : ((g.view d).slot r).first = e.first := by rw [← hslot]; rfl
    have hskipped : ((g.view d).slot r).skipped = e.skipped := by rw [← hslot]; rfl
    unfold scanSlots Volume.entries
    by_cases hstop : e.first = FAT12_ENTRY_FREE
    · rw [hfree r e hstop]
      simp [hfirst, hstop, lookupOutcome]
    by_cases hover : e.skipped = true
    · rw [hskip e hslot hstop hover]
      simp only [takeWhile_cons, hfirst, ne_eq, hstop, not_false_eq_true, decide_true,
        if_true, filter_cons, hskipped, hover, Bool.true_eq_false, decide_false,
        Bool.false_eq_true, if_false]
      exact ih
    have hover : e.skipped = false := by simpa using hover
    rw [hlive r e hstop hover, hslot]
    simp only [takeWhile_cons, hfirst, ne_eq, hstop, not_false_eq_true, decide_true,
      if_true, filter_cons, hskipped, hover, find?_cons]
    by_cases hp : p ((g.view d).slot r) = true
    · simp [hp, lookupOutcome]
    simp only [Bool.not_eq_true] at hp
    simp only [hp, Bool.false_eq_true, if_false]
    exact ih

/-- The lookup by stored name, on the slots of a directory. -/
theorem scan_find (name83 : Name83) :
    lookupOutcome (scanSlots (findEntryVisit name83) (slotsAt d refs) ()) true =
      ((g.view d).lookup refs name83).elim (.fail .NOT_FOUND) fun r =>
        .done ((g.view d).found r) := by
  refine scan_first hrefs (fun e => e.name = name83)
    (fun r e => (⟨e.cluster, e.attr, r⟩ : Found)) ?_ ?_ ?_
  · exact fun _ _ => findEntryVisit_free
  · exact fun _ _ _ _ => findEntryVisit_skipped
  · intro r e hstop hover
    rw [findEntryVisit_live hstop hover]
    simp [stores]

/-- The search for a free slot stops at the first. -/
theorem scan_free :
    scanSlots findFreeVisit (slotsAt d refs) () =
      ((g.view d).vacancy refs).elim (.next ()) .stop := by
  induction refs with
  | nil => rfl
  | cons r rest ih =>
    have ih := ih fun r' hr' => hrefs r' (mem_cons_of_mem _ hr')
    have hslot := slotAt_eq (d := d) (hrefs r mem_cons_self)
    have hfirst : ((g.view d).slot r).first =
        (slotAt (d r.lba) r.offset).first := by rw [← hslot]; rfl
    unfold slotsAt at ih ⊢
    rw [map_cons]
    unfold scanSlots Volume.vacancy findFreeVisit
    rw [find?_cons, hfirst]
    by_cases hvacant : (slotAt (d r.lba) r.offset).first = FAT12_ENTRY_FREE ∨
        (slotAt (d r.lba) r.offset).first = FAT12_ENTRY_DELETED
    · simp [hvacant]
    · simp only [hvacant, if_false, decide_false]
      exact ih

end

section

variable {c fuel : Nat} {refs : List EntryRef} (hrefs : g.DirRefs (g.view d) c refs)
  (hfuel : 4096 ≤ fuel)

include hrefs hfuel

/-- What `fat12_dev_find_entry` returns on a volume. -/
theorem reads_find (name83 : Name83) :
    Reads faults torn (fat12_dev_find_entry fuel g.b c name83) d
      (((g.view d).lookup refs name83).elim (.fail .NOT_FOUND)
        fun r => .done ((g.view d).found r)) := by
  have h : Reads faults torn (fat12_dev_find_entry fuel g.b c name83) d _ :=
    reads_dev_find_entry fuel g.b d c name83
  rwa [dirView_eq hrefs hfuel, scan_find (fun _ => hrefs.isRef)] at h

/-- What the search for a free slot returns on a volume. -/
theorem reads_vacancy :
    Reads faults torn (fat12_dev_find_free_entry fuel g.b c) d
      (((g.view d).vacancy refs).elim (.fail .NO_SPACE) .done) := by
  have h : Reads faults torn
      (scanDir findFreeVisit g.b (fat12_dev_get_fat_entry g.b) fuel c ()) d _ :=
    reads_scanDir findFreeVisit g.b (reads_get_fat g.b d) fuel c ()
  rw [dirView_eq hrefs hfuel, scan_free (fun _ => hrefs.isRef)] at h
  cases hvac : (g.view d).vacancy refs with
  | none =>
    rw [hvac] at h
    exact h.bind (.fail _ d)
  | some ref =>
    rw [hvac] at h
    exact h.bind (.done ref d)

end

/-! ## Paths -/

variable (g) in
/-- The directory that components lead to from the directory `c`. -/
inductive Resolves (V : Volume) : List (List UInt8) → Nat → Nat → Prop
  | nil {c : Nat} : Resolves V [] c c
  | cons {component : List UInt8} {rest : List (List UInt8)} {c c' : Nat} {name83 : Name83}
      {refs : List EntryRef} {ref : EntryRef} (hlen : component.length < FS_NAME_CAP)
      (hname : fat12_make_83_dir_name component = .ok name83) (hrefs : g.DirRefs V c refs)
      (hlookup : V.lookup refs name83 = some ref) (hisDir : (V.slot ref).isDir = true)
      (hrest : Resolves V rest (V.slot ref).cluster c') : Resolves V (component :: rest) c c'

section

variable {V : Volume} {component : List UInt8} {rest path : List (List UInt8)} {c c' : Nat}
  {name83 : Name83} {refs : List EntryRef}

/-- One component leads to the entry that is looked up, if that is a directory. -/
theorem resolves_cons_iff (hlen : component.length < FS_NAME_CAP)
    (hname : fat12_make_83_dir_name component = .ok name83) (hrefs : g.DirRefs V c refs) :
    g.Resolves V (component :: rest) c c' ↔ ∃ ref, V.lookup refs name83 = some ref ∧
      (V.slot ref).isDir = true ∧ g.Resolves V rest (V.slot ref).cluster c' := by
  constructor
  · rintro (_ | ⟨-, hname', hrefs', hlookup, hisDir, hrest⟩)
    rw [hname] at hname'
    cases hname'
    obtain rfl := hrefs.unique hrefs'
    exact ⟨_, hlookup, hisDir, hrest⟩
  · rintro ⟨ref, hlookup, hisDir, hrest⟩
    exact .cons hlen hname hrefs hlookup hisDir hrest

/-- A path leads to one directory. -/
theorem Resolves.unique {c₁ c₂ : Nat} (h₁ : g.Resolves V path c c₁) (h₂ : g.Resolves V path c c₂) :
    c₁ = c₂ := by
  induction h₁ with
  | nil =>
    cases h₂
    rfl
  | cons hlen hname hrefs hlookup _ _ ih => grind [resolves_cons_iff]

theorem not_dots_of_name {e : Slot} (h : e.name 0 ≠ DOT) : e.dots = false := by
  unfold Slot.dots
  rw [decide_eq_false_iff_not]
  rintro (heq | heq)
  · exact h (by rw [heq]; decide)
  · exact h (by rw [heq]; decide)

theorem not_dots_of_lookup (h : name83 0 ≠ DOT) (hlookup : V.lookup refs name83 = some ref) :
    (V.slot ref).dots = false := by
  apply not_dots_of_name
  rw [(Volume.mem_of_lookup hlookup).2]
  exact h

theorem LiveDir.lookup (hdir : g.LiveDir V c) (hrefs : g.DirRefs V c refs)
    (h : name83 0 ≠ DOT) (hlookup : V.lookup refs name83 = some ref)
    (hisDir : (V.slot ref).isDir = true) : g.LiveDir V (V.slot ref).cluster :=
  .sub hdir hrefs (Volume.mem_of_lookup hlookup).1 (not_dots_of_lookup h hlookup) hisDir

theorem Resolves.liveDir (h : g.Resolves V path c c') (hdir : g.LiveDir V c) : g.LiveDir V c' := by
  induction h with
  | nil => exact hdir
  | cons _ hname hrefs hlookup hisDir _ ih =>
    exact ih (hdir.lookup hrefs (encodes_dir.ne_dot hname) hlookup hisDir)

end

theorem isDir_iff (V : Volume) (ref : EntryRef) :
    (V.found ref).attr &&& FAT12_ATTR_DIRECTORY = 0 ↔ (V.slot ref).isDir = false := by
  simp [Volume.found, Slot.isDir]

/-- A routine that looks for a value with `P` and fails where there is none. -/
def Decides {α : Type} (faults torn : Prop) (p : Io α) (d : Disk) (P : α → Prop) : Prop :=
  (∃ a, P a ∧ Reads faults torn p d (.done a)) ∨
    ((∀ a, ¬ P a) ∧ ∃ rc, Reads faults torn p d (.fail rc))

section

variable {α β : Type} {P P' : α → Prop}

theorem Decides.after {p : Io β} {f : β → Io α} {b : β} (hp : Reads faults torn p d (.done b))
    (h : Decides faults torn (f b) d P) : Decides faults torn (p >>= f) d P :=
  h.imp (fun ⟨a, ha, hreads⟩ => ⟨a, ha, hp.bind hreads⟩)
    fun ⟨hno, rc, hreads⟩ => ⟨hno, rc, hp.bind hreads⟩

theorem Decides.congr {p : Io α} (h : Decides faults torn p d P) (hiff : ∀ a, P' a ↔ P a) :
    Decides faults torn p d P' := by
  obtain rfl : P' = P := funext fun a => propext (hiff a)
  exact h

end

variable (faults torn) in
/-- `fat12_dev_resolve_dir` finds that directory, and fails where there is none. -/
theorem decides_resolveDirLoop (hW : g.Wf (g.view d)) {fuel : Nat} (hfuel : 4096 ≤ fuel)
    (path : List (List UInt8)) {c : Nat} (hdir : g.LiveDir (g.view d) c) :
    Decides faults torn (resolveDirLoop fuel g.b path c) d (g.Resolves (g.view d) path c) := by
  induction path generalizing c with
  | nil => exact .inl ⟨c, .nil, .done c d⟩
  | cons component rest ih =>
    unfold resolveDirLoop
    split
    · refine .inr ⟨?_, _, .fail _ d⟩
      rintro c' (_ | ⟨hlt, -⟩)
      omega
    next hlen =>
    cases hname : fat12_make_83_dir_name component with
    | error rc =>
      refine .inr ⟨?_, rc, .bind_fail (.fail rc d)⟩
      rintro c' (_ | ⟨-, hname', -⟩)
      rw [hname] at hname'
      cases hname'
    | ok name83 =>
      obtain ⟨refs, hrefs⟩ := hW.dirRefs hdir
      have hfind : Reads faults torn (fat12_dev_find_entry fuel g.b c name83) d _ :=
        reads_find hrefs hfuel name83
      refine .congr (.after (.done name83 d) ?_)
        fun c' => resolves_cons_iff (Nat.lt_of_not_le hlen) hname hrefs
      cases hlookup : (g.view d).lookup refs name83 with
      | none =>
        rw [hlookup] at hfind
        exact .inr ⟨by simp, _, hfind.bind_fail⟩
      | some ref =>
        rw [hlookup] at hfind
        refine .after hfind ?_
        cases hisDir : ((g.view d).slot ref).isDir with
        | false =>
          rw [if_pos ((isDir_iff _ _).mpr hisDir)]
          exact .inr ⟨by simp [hisDir], _, .fail _ d⟩
        | true =>
          rw [if_neg (by rw [isDir_iff, hisDir]; decide)]
          have hsub := hdir.lookup hrefs (encodes_dir.ne_dot hname) hlookup hisDir
          exact (ih hsub).congr (by simp [hisDir])

end Geometry

/-! ## The test of `fat12_rmdir` -/

/-- What `fat12_rmdir` takes for `.` or `..`. -/
def Slot.looksDots (e : Slot) : Bool := e 0 = DOT ∧ (e 1 = SPACE ∨ e 1 = DOT)

/-- There is an entry that keeps a directory from being removed. -/
def Volume.Blocked (V : Volume) (refs : List EntryRef) : Prop :=
  ∃ r ∈ refs, (V.slot r).live = true ∧ (V.slot r).looksDots = false

theorem Volume.blocked_append {V : Volume} {refs refs' : List EntryRef} :
    V.Blocked (refs ++ refs') ↔ V.Blocked refs ∨ V.Blocked refs' := by
  simp only [Blocked, mem_append, or_and_right, exists_or]

theorem refsOf_append (l l' : List Nat) : refsOf (l ++ l') = refsOf l ++ refsOf l' := by
  simp [refsOf]

variable {bytes : List UInt8} {parts : List UInt8 × List UInt8}

namespace Geometry

variable {g : Geometry} {faults torn : Prop} {d : Disk}

/-- A directory is found not empty exactly if an entry blocks its removal. -/
theorem scan_empty {refs : List EntryRef} (hrefs : ∀ r ∈ refs, g.IsRef r)
    (htidy : (g.view d).Tidy refs) :
    scanSlots emptyVisit (slotsAt d refs) () = .stop true ↔ (g.view d).Blocked refs := by
  induction refs with
  | nil => simp [slotsAt, scanSlots, Volume.Blocked]
  | cons r rest ih =>
    obtain ⟨hfree, hrest⟩ := pairwise_cons.mp htidy
    have ih := ih (fun r' hr' => hrefs r' (mem_cons_of_mem _ hr')) hrest
    have hslot := slotAt_eq (d := d) (hrefs r mem_cons_self)
    have hlive : ((g.view d).slot r).live = (slotAt (d r.lba) r.offset).live := by rw [← hslot]; rfl
    have hfirst : ((g.view d).slot r).first =
        (slotAt (d r.lba) r.offset).first := by rw [← hslot]; rfl
    have hlooks : ((g.view d).slot r).looksDots = (slotAt (d r.lba) r.offset).looksDots := by
      rw [← hslot]; rfl
    have hcons : (g.view d).Blocked (r :: rest) ↔ ((slotAt (d r.lba) r.offset).live = true ∧
        (slotAt (d r.lba) r.offset).looksDots = false) ∨ (g.view d).Blocked rest := by
      simp [Volume.Blocked, hlive, hlooks]
    rw [hcons]
    unfold slotsAt at ih ⊢
    rw [map_cons]
    unfold scanSlots
    generalize slotAt (d r.lba) r.offset = e at *
    by_cases hfree' : e.first = FAT12_ENTRY_FREE
    · -- nothing behind a free slot is in the way
      have hno : ¬ (g.view d).Blocked rest := by
        rintro ⟨r', hr', hlive', -⟩
        grind [Slot.live]
      simp [emptyVisit, hfree', hno, Slot.live]
    by_cases hskip : e.skipped = true
    · simp [emptyVisit, Slot.live, hfree', hskip, ih]
    have hlive' : e.live = true := by simp [Slot.live, hfree', hskip]
    by_cases hdots : e 0 = DOT ∧ (e 1 = SPACE ∨ e 1 = DOT)
    · have hl : e.looksDots = true := decide_eq_true hdots
      simp [emptyVisit, hfree', hskip, hdots, hl, ih]
    · have hl : e.looksDots = false := decide_eq_false hdots
      simp [emptyVisit, hfree', hskip, hdots, hl, hlive']

/-- The test of a part of a directory: it fails if something is in the way. -/
def Tests (faults torn : Prop) (p : Io Unit) (d : Disk) (blocked : Prop) : Prop :=
  (¬ blocked → Reads faults torn p d (.done ())) ∧
    (blocked → Reads faults torn p d (.fail .NOT_EMPTY))

/-- Two tests after each other test for either. -/
theorem Tests.seq {p q : Io Unit} {blocked blocked' : Prop} (hp : Tests faults torn p d blocked)
    (hq : Tests faults torn q d blocked') :
    Tests faults torn (p >>= fun _ => q) d (blocked ∨ blocked') := by
  by_cases hb : blocked
  · exact ⟨fun h => absurd (.inl hb) h, fun _ => (hp.2 hb).bind_fail⟩
  · rw [or_iff_right hb]
    exact ⟨fun h => (hp.1 hb).bind (hq.1 h), fun h => (hp.1 hb).bind (hq.2 h)⟩

theorem Tests.after {α : Type} {p : Io α} {f : α → Io Unit} {a : α} {blocked : Prop}
    (hp : Reads faults torn p d (.done a)) (h : Tests faults torn (f a) d blocked) :
    Tests faults torn (p >>= f) d blocked :=
  ⟨fun hno => hp.bind (h.1 hno), fun hb => hp.bind (h.2 hb)⟩

theorem tests_nil (faults torn : Prop) (d : Disk) {V : Volume} :
    Tests faults torn (.done ()) d (V.Blocked []) :=
  ⟨fun _ => .done () d, fun ⟨r, hr, _⟩ => by cases hr⟩

/-- The test of one sector after the other, -/
theorem tests_emptySectors {lba count idx : Nat}
    (hrefs : ∀ r ∈ refsOf (lbaRange lba count idx), g.IsRef r)
    (htidy : (g.view d).Tidy (refsOf (lbaRange lba count idx))) :
    Tests faults torn (emptySectors lba count idx) d
      ((g.view d).Blocked (refsOf (lbaRange lba count idx))) := by
  induction count generalizing idx with
  | zero => exact tests_nil faults torn d
  | succ count ih =>
    have hsplit : refsOf (lbaRange lba (count + 1) idx) =
        refsOf [u32 (lba + idx)] ++ refsOf (lbaRange lba count (idx + 1)) := by
      rw [lbaRange_succ, ← refsOf_append]
      rfl
    rw [hsplit] at hrefs htidy ⊢
    obtain ⟨htidy₁, htidy₂, -⟩ := pairwise_append.mp htidy
    have ih := ih (fun r hr => hrefs r (mem_append_right _ hr)) htidy₂
    have hscan := scan_empty (fun r hr => hrefs r (mem_append_left _ hr)) htidy₁
    have hslots : sectorSlots (u32 (lba + idx)) (d (u32 (lba + idx))) =
        slotsAt d (refsOf [u32 (lba + idx)]) := by
      rw [← slotsOf_eq]
      simp [slotsOf]
    rw [Volume.blocked_append]
    refine .after (reads_block _ d) ?_
    rw [hslots]
    split
    · next h => exact ⟨fun hno => absurd (.inl (hscan.mp h)) hno, fun _ => .fail _ d⟩
    · next h =>
      rw [or_iff_right fun hb => h (hscan.mpr hb)]
      exact ih

/-- and of the clusters of a directory. -/
theorem tests_emptyChain {c visits : Nat} {cs : List Nat} (hchain : g.Chain (g.view d).fat c cs)
    (hlen : cs.length ≤ visits) (htidy : (g.view d).Tidy (g.chainRefs cs)) :
    Tests faults torn (emptyChain g.b visits c) d ((g.view d).Blocked (g.chainRefs cs)) := by
  induction visits generalizing c cs with
  | zero =>
    cases hchain with
    | nil hends =>
      unfold emptyChain
      rw [if_neg (by omega)]
      exact tests_nil faults torn d
    | cons _ _ => simp at hlen
  | succ visits ih =>
    unfold emptyChain
    cases hchain with
    | nil hends =>
      rw [if_neg (by omega)]
      exact tests_nil faults torn d
    | @cons _ cs hc hs =>
      have hsplit : g.chainRefs (c :: cs) = refsOf (clusterLbas g.b c) ++ g.chainRefs cs := by
        unfold chainRefs
        rw [flatMap_cons, refsOf_append]
      rw [hsplit] at htidy ⊢
      obtain ⟨htidy₁, htidy₂, -⟩ := pairwise_append.mp htidy
      have hget : Reads faults torn (fat12_dev_get_fat_entry g.b c) d
          (.done ((g.view d).fat c)) := by
        rw [← fatEntry_eq hc.lt]
        exact reads_get_fat g.b d c
      rw [if_pos ⟨hc.1, hc.lt_chain_end⟩, Volume.blocked_append]
      exact (tests_emptySectors (fun r => hc.isRef) htidy₁).seq
        (.after hget (ih hs (by simpa using hlen) htidy₂))

/-! ## The entry a path names -/

variable (g) in
/-- The directory of a path and the stored form of its last component. -/
def Parent (V : Volume) (make83 : List UInt8 → Except FsErr Name83) (path : CString) (c : Nat)
    (leaf83 : Name83) : Prop :=
  ∃ parts, fat12_split_create_path path.bytes = .ok parts ∧ make83 parts.2 = .ok leaf83 ∧
    g.Resolves V (components parts.1) 0 c

variable (g) in
/-- The entry a path names. -/
def Names (V : Volume) (make83 : List UInt8 → Except FsErr Name83) (path : CString)
    (ref : EntryRef) : Prop :=
  ∃ c leaf83 refs, g.Parent V make83 path c leaf83 ∧ g.DirRefs V c refs ∧
    V.lookup refs leaf83 = some ref

section

variable {V : Volume} {make83 : List UInt8 → Except FsErr Name83} {path : CString} {c c' : Nat}
  {leaf83 leaf83' : Name83}

/-- A path has one parent and one last name. -/
theorem Parent.unique (h : g.Parent V make83 path c leaf83)
    (h' : g.Parent V make83 path c' leaf83') :
    c = c' ∧ leaf83 = leaf83' := by
  obtain ⟨parts, hsplit, hleaf, hres⟩ := h
  obtain ⟨parts', hsplit', hleaf', hres'⟩ := h'
  rw [hsplit] at hsplit'
  cases hsplit'
  rw [hleaf] at hleaf'
  cases hleaf'
  exact ⟨hres.unique hres', rfl⟩

/-- A path names one slot at most. -/
theorem Names.unique {ref' : EntryRef} (h : g.Names V make83 path ref)
    (h' : g.Names V make83 path ref') : ref = ref' := by
  obtain ⟨c, leaf83, refs, hparent, hrefs, hlookup⟩ := h
  obtain ⟨c', leaf83', refs', hparent', hrefs', hlookup'⟩ := h'
  obtain ⟨rfl, rfl⟩ := hparent.unique hparent'
  obtain rfl := hrefs.unique hrefs'
  rw [hlookup] at hlookup'
  cases hlookup'
  rfl

theorem Parent.liveDir (h : g.Parent V make83 path c leaf83) : g.LiveDir V c := by
  obtain ⟨parts, -, -, hres⟩ := h
  exact hres.liveDir .root

section

variable (h : fat12_split_create_path bytes = .ok parts)

include h

/-- Where a path is cut: at its last slash, which is neither its end nor missing. -/
theorem split_cases :
    ∃ front, bytes = front ++ SLASH :: parts.2 ∧ SLASH ∉ parts.2 ∧ parts.2 ≠ [] ∧
      parts.2.length < FS_NAME_CAP ∧ bytes.head? = some SLASH ∧
      parts.1 = if front = [] then [SLASH] else front := by
  unfold fat12_split_create_path at h
  split at h
  · cases h
  next hslash =>
  split at h
  · cases h
  dsimp only at h
  split at h
  · cases h
  next hend =>
  split at h
  · cases h
  next hname =>
  cases h
  dsimp only
  have hhead : bytes.head? = some SLASH := not_not.mp hslash
  have hno : SLASH ∉ bytes.rtakeWhile (· ≠ SLASH) := fun hmem => by
    simpa using mem_rtakeWhile_imp hmem
  have happ : bytes.rdropWhile (· ≠ SLASH) ++ bytes.rtakeWhile (· ≠ SLASH) = bytes :=
    rdropWhile_append_rtakeWhile
  generalize hleaf : bytes.rtakeWhile (· ≠ SLASH) = leaf at *
  -- what comes before the name ends with a slash
  have hfront : bytes.rdropWhile (· ≠ SLASH) ≠ [] := by
    intro hnil
    rw [hnil, nil_append] at happ
    subst happ
    exact hno (mem_of_mem_head? hhead)
  have hlast := rdropWhile_last_not (· ≠ SLASH) bytes hfront
  have hlast : (bytes.rdropWhile (· ≠ SLASH)).getLast hfront = SLASH := by simpa using hlast
  have hsplit := dropLast_append_getLast hfront
  rw [hlast] at hsplit
  generalize (bytes.rdropWhile (· ≠ SLASH)).dropLast = front at hsplit
  rw [← hsplit, append_assoc, singleton_append] at happ
  subst happ
  have hlen : (front ++ SLASH :: leaf).length - leaf.length - 1 = front.length := by
    simp only [length_append, length_cons]
    omega
  grind

/-- The last slash splits a path. -/
theorem split_parts :
    parts.1.head? = some SLASH ∧ parts.2 = bytes.rtakeWhile (· ≠ SLASH) := by
  obtain ⟨front, rfl, hno, -, -, hhead, hparent⟩ := split_cases h
  constructor
  · rw [hparent]
    cases front with
    | nil => rfl
    | cons x front => exact hhead
  · unfold rtakeWhile
    rw [reverse_append, reverse_cons, append_assoc, takeWhile_append_of_pos]
    · simp
    · grind

/-- Its components are those of the parent, and the last name. -/
theorem components_split :
    components bytes = components parts.1 ++ [parts.2] := by
  obtain ⟨front, rfl, hno, hne, -, -, hparent⟩ := split_cases h
  have hfront : components parts.1 = components front := by
    rw [hparent]
    split
    · next hnil =>
      rw [hnil]
      rfl
    · rfl
  rw [hfront]
  unfold components
  rw [splitOn_append_cons_self, filter_append, splitOn_eq_singleton hno,
    filter_singleton]
  simp [hne]

theorem split_mem : parts.2 ⊆ bytes := by
  rw [(split_parts h).2]
  exact (rtakeWhile_suffix _ _).subset

end

theorem Parent.leaf_ne_dot (h : g.Parent V make83 path c leaf83) (hmake : Encodes make83) :
    leaf83 0 ≠ DOT := by
  obtain ⟨parts, -, hleaf, -⟩ := h
  exact hmake.ne_dot hleaf

theorem Parent.leaf_ne_zero (h : g.Parent V make83 path c leaf83) (hmake : Encodes make83) :
    leaf83 0 ≠ 0 := by
  obtain ⟨parts, hsplit, hleaf, -⟩ := h
  exact hmake.ne_zero hleaf fun hmem => path.nonul (split_mem hsplit hmem)

end

section

variable {α : Type} {make83 : List UInt8 → Except FsErr Name83} {path : CString}
  {k : Bpb → Nat → Name83 → Io α} {fuel : Nat}

theorem reads_readBpb (hboot : fat12_parse_bpb (d 0) = .ok g.b) :
    Reads faults torn readBpb d (.done g.b) := by
  apply (reads_block 0 d).bind
  rw [hboot]
  exact .done _ d

/-- How an operation starts: with the boot sector, the parent and the stored name. -/
def parentOf (fuel : Nat) (make83 : List UInt8 → Except FsErr Name83) (path : CString) :
    Io (Bpb × Nat × Name83) :=
  withParent fuel make83 path fun b c leaf83 => .done (b, c, leaf83)

theorem withParent_eq : withParent fuel make83 path k =
    parentOf fuel make83 path >>= fun x => k x.1 x.2.1 x.2.2 := by
  unfold parentOf withParent
  simp [Prog.bind_assoc, Prog.done_bind]

section

variable (hboot : fat12_parse_bpb (d 0) = .ok g.b) (hW : g.Wf (g.view d)) (hfuel : 4096 ≤ fuel)

include hboot hW hfuel

variable (faults torn make83 path) in
/-- Finding the parent of a path decides whether there is one. -/
theorem decides_parent : Decides faults torn (parentOf fuel make83 path) d fun x =>
    x.1 = g.b ∧ g.Parent (g.view d) make83 path x.2.1 x.2.2 := by
  refine .after (reads_readBpb hboot) ?_
  cases hsplit : fat12_split_create_path path.bytes with
  | error rc =>
    refine .inr ⟨?_, rc, .bind_fail (.fail rc d)⟩
    rintro x ⟨-, parts, hsplit', -⟩
    rw [hsplit] at hsplit'
    cases hsplit'
  | ok parts =>
    refine .after (.done parts d) ?_
    cases hleaf : make83 parts.2 with
    | error rc =>
      refine .inr ⟨?_, rc, .bind_fail (.fail rc d)⟩
      rintro x ⟨-, parts', hsplit', hleaf', -⟩
      grind
    | ok leaf83 =>
      refine .after (.done leaf83 d) ?_
      unfold fat12_dev_resolve_dir
      rw [if_neg (not_not.mpr (split_parts hsplit).1)]
      obtain ⟨c, hres, hreads⟩ | ⟨hres, rc, hreads⟩ :=
        decides_resolveDirLoop faults torn hW hfuel (components parts.1) .root
      · exact .inl ⟨(g.b, c, leaf83), ⟨rfl, parts, hsplit, hleaf, hres⟩, hreads.bind (.done _ d)⟩
      refine .inr ⟨?_, rc, hreads.bind_fail⟩
      rintro x ⟨-, parts', hsplit', -, hres'⟩
      rw [hsplit] at hsplit'
      cases hsplit'
      exact hres _ hres'

/-- An operation fails before it has written anything, or it finds the parent. -/
theorem does_withParent {ok : α → Disk → Prop} {bad : FsErr → Disk → Prop} (hbad : ∀ rc, bad rc d)
    (hk : ∀ c leaf83, g.Parent (g.view d) make83 path c leaf83 →
      Does faults (k g.b c leaf83) d ok bad) :
    Does faults (withParent fuel make83 path k) d ok bad := by
  rw [withParent_eq]
  obtain ⟨⟨_, c, leaf83⟩, ⟨rfl, hparent⟩, hreads⟩ | ⟨-, rc, hreads⟩ :=
    decides_parent faults False make83 path hboot hW hfuel
  · exact .of_reads_bind hreads (hk c leaf83 hparent) fun _ => hbad
  · exact .of_reads_bind hreads (hbad rc) fun _ => hbad

end

end

end Geometry

end System1.Fat12
