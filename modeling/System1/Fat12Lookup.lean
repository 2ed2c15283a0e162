/-
The two lookups of the FAT12 driver, slot by slot.

`fat12_find_entry_in_dir` folds the case of display names and puts long names together;
`fat12_dev_find_entry` compares eleven stored bytes. Both meet the same slots in the same
order, stop at the first free one and step over the same slots, so they agree as far as
their two comparisons do.

The comparisons differ where an entry has a long name, where its stored name has lower-case
letters, a NUL, a dot or a `~` (which makes it answer to other names), and where the name
asked for has spaces at an end. Where none of that is so they agree (`compares_alike`).
-/
import System1.Fat12Disk
import System1.Fat12Names

set_option autoImplicit false

namespace System1.Fat12

open System1.Lib List

/-- The comparison of `fat12_find_entry_in_dir`: the name a listing shows. -/
def shows (lfn : Lfn) (e : Slot) (name : List UInt8) : Bool :=
  fat12_name_eq (fat12_copy_display_name e lfn) name

/-- The comparison of `fat12_dev_find_entry`: the stored bytes. -/
def stores (e : Slot) (name83 : Name83) : Bool := e.name = name83

/-- The long name after a slot that is stepped over. -/
def lfnAfter (lfn : Lfn) (e : Slot) : Lfn :=
  if e.first = FAT12_ENTRY_DELETED then none
  else if e.attr = FAT12_ATTR_LONG_NAME then fat12_lfn_read_entry lfn e
  else none

/-! ## Slots -/

theorem findNameVisit_free {name : List UInt8} {lfn : Lfn} {ref : EntryRef} {e : Slot}
    (h : e.first = FAT12_ENTRY_FREE) :
    findNameVisit name lfn ref e = .stop (.error .NOT_FOUND) := if_pos h

theorem findEntryVisit_free {name83 : Name83} {ref : EntryRef} {e : Slot}
    (h : e.first = FAT12_ENTRY_FREE) :
    findEntryVisit name83 () ref e = .stop (.error .NOT_FOUND) := if_pos h

section

variable {name : List UInt8} {lfn : Lfn} {name83 : Name83} {ref : EntryRef} {e : Slot}
  (hfree : e.first ≠ FAT12_ENTRY_FREE)

include hfree

theorem findNameVisit_skipped (h : e.skipped = true) :
    findNameVisit name lfn ref e = .next (lfnAfter lfn e) := by
  grind [Slot.skipped, findNameVisit, lfnAfter]

theorem findEntryVisit_skipped (h : e.skipped = true) :
    findEntryVisit name83 () ref e = .next () := by
  unfold findEntryVisit
  rw [if_neg hfree, if_pos h]

/-- The lookup stops at the entry that is shown under the name. -/
theorem findNameVisit_live (h : e.skipped = false) :
    findNameVisit name lfn ref e =
      if shows lfn e name then .stop (.ok ⟨e.cluster, e.attr, e.size, ref⟩) else .next none := by
  have hparts : ¬ (e.first = FAT12_ENTRY_DELETED ∨ e.attr &&& FAT12_ATTR_VOLUME_ID ≠ 0 ∨
      e.attr = FAT12_ATTR_LONG_NAME) := by
    simpa [Slot.skipped] using h
  obtain ⟨hdel, hrest⟩ := not_or.mp hparts
  obtain ⟨hvol, hlong⟩ := not_or.mp hrest
  unfold findNameVisit
  rw [if_neg hfree, if_neg hdel, if_neg hlong, if_neg hvol]
  rfl

theorem findEntryVisit_live (h : e.skipped = false) :
    findEntryVisit name83 () ref e =
      if stores e name83 then .stop (.ok ⟨e.cluster, e.attr, ref⟩) else .next () := by
  grind [findEntryVisit, stores]

end

/-! ## Scans that look for an entry -/

/-- What a lookup makes of its scan. -/
def lookupOutcome {σ α : Type} (r : Step σ (Except FsErr α)) (ended : Bool) : Outcome FsErr α :=
  match r with
  | .stop (.ok a) => .done a
  | .stop (.error rc) => .fail rc
  | .next _ => if ended then .fail .NOT_FOUND else .spin

section

variable {faults torn : Prop} {σ α : Type}

/-- A lookup is its scan: the `match` both of them end with. -/
theorem reads_lookup {visit : σ → EntryRef → Slot → Step σ (Except FsErr α)} {b : Bpb}
    {next_cluster : Nat → Io Nat} {d : Disk}
    (hnext : ∀ c, Reads faults torn (next_cluster c) d (.done (fatEntry b d c)))
    (fuel dir_cluster : Nat) (s : σ) {k : Step σ (Except FsErr α) → Io α}
    (hnone : ∀ s, k (.next s) = .fail .NOT_FOUND) (hstop : ∀ r, k (.stop r) = Prog.ofExcept r) :
    Reads faults torn (scanDir visit b next_cluster fuel dir_cluster s >>= k) d
      (lookupOutcome (scanSlots visit (dirView b d fuel dir_cluster).1 s)
        (dirView b d fuel dir_cluster).2) := by
  have hscan := reads_scanDir visit b hnext fuel dir_cluster s
  generalize scanSlots visit (dirView b d fuel dir_cluster).1 s = r at hscan ⊢
  generalize (dirView b d fuel dir_cluster).2 = ended at hscan ⊢
  match r, ended with
  | .stop (.ok a), _ =>
    apply hscan.bind
    rw [hstop]
    exact .done a d
  | .stop (.error rc), _ =>
    apply hscan.bind
    rw [hstop]
    exact .fail rc d
  | .next s, true =>
    apply hscan.bind
    rw [hnone]
    exact .fail _ d
  | .next s, false => exact hscan.bind_spin

theorem reads_dev_find_entry (fuel : Nat) (b : Bpb) (d : Disk) (dir_cluster : Nat)
    (name83 : Name83) :
    Reads faults torn (fat12_dev_find_entry fuel b dir_cluster name83) d
      (lookupOutcome (scanSlots (findEntryVisit name83) (dirView b d fuel dir_cluster).1 ())
        (dirView b d fuel dir_cluster).2) :=
  reads_lookup (reads_get_fat b d) fuel dir_cluster () (fun _ => rfl) fun _ => rfl

theorem reads_find_entry_in_dir (fuel : Nat) (b : Bpb) (d : Disk) (dir_cluster : Nat)
    (name : List UInt8) :
    Reads False torn (fat12_find_entry_in_dir fuel b dir_cluster name) d
      (lookupOutcome (scanSlots (findNameVisit name) (dirView b d fuel dir_cluster).1 none)
        (dirView b d fuel dir_cluster).2) :=
  reads_lookup (reads_get_next b d) fuel dir_cluster none (fun _ => rfl) fun _ => rfl

end

/-- A name without `~` is nobody's alias. -/
theorem alias_no_tilde {shown : List UInt8} (hno : TILDE ∉ shown) (name : List UInt8) :
    fat12_short_alias_eq shown name = false := by
  have hshort : shown.takeWhile (· ≠ TILDE) = shown := by
    rw [takeWhile_eq_self_iff]
    grind
  unfold fat12_short_alias_eq
  simp only [hshort, drop_length, true_or, if_true]

/-- A plain name is shown under names that differ from it in case only. -/
theorem shows_plain {e : Slot} (he : e.plainName = true) (name : List UInt8) :
    shows none e name =
      decide ((fat12_copy_83_name e).map fat12_lower = name.map fat12_lower) := by
  show (if (fat12_copy_83_name e).map fat12_lower = name.map fat12_lower then true
    else fat12_short_alias_eq (fat12_copy_83_name e) name) = _
  rw [alias_no_tilde (copy_83_no_tilde he)]
  split <;> simp_all

/-- The comparisons agree on an entry without a long name whose stored name is plain. -/
theorem compares_alike {e : Slot} {name : List UInt8} {name83 : Name83}
    (he : e.plainName = true) (hname : SPACE ∉ name)
    (h83 : fat12_make_83_file_name name = .ok name83) : shows none e name = stores e name83 := by
  rw [shows_plain he]
  exact decide_eq_decide.mpr (shown_eq_iff he hname h83)

/-- What is shown depends on the stored name alone. -/
theorem shows_of_name {e e' : Slot} (h : e.name = e'.name) (name : List UInt8) :
    shows none e name = shows none e' name := by
  unfold shows fat12_copy_display_name
  rw [copy_83_congr h]

/-- Lookups do not see the case of what they are asked for. -/
theorem shows_of_lower {name name' : List UInt8}
    (h : name.map fat12_lower = name'.map fat12_lower) (e : Slot) :
    shows none e name = shows none e name' := by
  have hlen : name.length = name'.length := by simpa using congrArg length h
  unfold shows fat12_name_eq fat12_short_alias_eq
  simp [h, hlen]

/-! A volume of one-sector clusters and a root directory of sixteen slots. -/

def smallBoot : Sector := fun j =>
  ([0, 2, 1, 1, 0, 1, 16, 0, 20, 0, 0xF0, 1, 0] : List UInt8).getD (j - 11) 0

theorem smallBoot_accepted : (fat12_parse_bpb smallBoot).toOption.isSome = true := by
  decide +kernel

def smallBpb : Bpb := (fat12_parse_bpb smallBoot).toOption.get smallBoot_accepted

theorem smallBoot_parsed : fat12_parse_bpb smallBoot = .ok smallBpb := by
  have hget : ∀ (r : Except FsErr Bpb) (h : r.toOption.isSome = true),
      r = .ok (r.toOption.get h) := by
    intro r h
    cases r with
    | ok b => rfl
    | error rc => cases h
  exact hget _ smallBoot_accepted

def asciiBytes (s : String) : List UInt8 := s.toList.map fun c => UInt8.ofNat c.toNat

/-- The stored form of a name that has one. -/
def encoded (name : List UInt8) : Name83 :=
  match fat12_make_83_file_name name with
  | .ok name83 => name83
  | .error _ => .blank

theorem make_83_encoded {name : List UInt8} (h : (fat12_make_83_file_name name).isOk = true) :
    fat12_make_83_file_name name = .ok (encoded name) := by
  unfold encoded
  cases hname : fat12_make_83_file_name name with
  | ok name83 => rfl
  | error rc =>
    rw [hname] at h
    cases h

end System1.Fat12
