/-
The volume on a disk, and what the driver's primitives do to it.

`view` reads the two tables of a volume off a disk: the first copy of the file allocation
table, entry by entry, and the slots of the root directory and the data area. The
primitives that write are then three: a table entry is stored in every copy, a slot is
replaced, a cluster is overwritten.

A device may fail in the middle of any of them. What is left behind is bounded by
`Touched S`: outside the clusters in `S`, their entries in the tables and their sectors,
nothing has changed. That covers the entry that lies across two sectors and of which only
the first half was written, because the half belongs to nobody else.
-/
import System1.Fat12Edits
import System1.Fat12Table

set_option autoImplicit false

namespace System1.Fat12

open System1.Lib Function Packed12

/-- The 32 bytes of a slot and nothing behind them. -/
def Slot.clip (e : Slot) : Slot := fun j => if j < 32 then e j else 0

namespace Slot

variable (e : Slot)

theorem clip_apply {j : Nat} (h : j < 32) : e.clip j = e j := if_pos h

@[simp] theorem clip_attr : e.clip.attr = e.attr := rfl
@[simp] theorem clip_cluster : e.clip.cluster = e.cluster := rfl

@[simp] theorem clip_name : e.clip.name = e.name := by
  funext i
  exact clip_apply e (by omega)

end Slot

variable {ref : EntryRef} {S : Set Nat}

namespace Geometry

variable (g : Geometry)

/-- A place where the volume has a slot. -/
def IsRef (ref : EntryRef) : Prop :=
  g.b.root_dir_lba ≤ ref.lba ∧ ref.offset % 32 = 0 ∧ ref.offset < 512

instance (ref : EntryRef) : Decidable (g.IsRef ref) := inferInstanceAs (Decidable (_ ∧ _ ∧ _))

/-- The volume on a disk. -/
def view (d : Disk) : Volume where
  fat c := if c < g.count + 2 then entry (fatByte g.b d 0) c else 0
  slot ref := if g.IsRef ref then (slotAt (d ref.lba) ref.offset).clip else fun _ => 0

/-- The copies of the table are equal. -/
def Mirrored (d : Disk) : Prop :=
  ∀ i < g.b.fat_count, ∀ n < g.b.sectors_per_fat * 512, fatByte g.b d i n = fatByte g.b d 0 n

variable {g} {d d' : Disk}

theorem view_fat {c : Nat} (h : c < g.count + 2) :
    (g.view d).fat c = entry (fatByte g.b d 0) c := if_pos h

theorem view_slot (h : g.IsRef ref) :
    (g.view d).slot ref = (slotAt (d ref.lba) ref.offset).clip := if_pos h

theorem InRange.lt {c : Nat} (h : g.InRange c) : c < g.count + 2 := h.2

/-- An entry of the table lies in its copy. -/
theorem pos_lt {c : Nat} (h : c < g.count + 2) :
    pos c + 1 < g.b.sectors_per_fat * 512 := by
  have hroom := g.room
  unfold count at h
  unfold pos at *
  omega

/-! ## Regions -/

theorem isRef_of_mem {lbas : List Nat} (hlbas : ∀ lba ∈ lbas, g.b.root_dir_lba ≤ lba)
    (h : ref ∈ refsOf lbas) : g.IsRef ref := by
  obtain ⟨hlba, i, hi, hoffset⟩ := mem_refsOf.mp h
  exact ⟨hlbas _ hlba, by omega, by omega⟩

theorem InRange.isRef {c : Nat} (hc : g.InRange c) (h : ref ∈ refsOf (clusterLbas g.b c)) :
    g.IsRef ref :=
  isRef_of_mem (fun _ => root_lba_le_of_mem hc) h

/-- The slots of a directory are slots of the volume. -/
theorem DirRefs.isRef {V : Volume} {c : Nat} {refs : List EntryRef} (h : g.DirRefs V c refs)
    (hmem : ref ∈ refs) : g.IsRef ref := by
  obtain ⟨-, rfl⟩ | ⟨cs, -, hchain, rfl⟩ := h
  · exact isRef_of_mem (fun lba hlba => (mem_rootLbas.mp hlba).1) hmem
  apply isRef_of_mem _ hmem
  intro lba hlba
  obtain ⟨x, hx, hlba⟩ := List.mem_flatMap.mp hlba
  exact root_lba_le_of_mem (hchain.inRange hx) hlba

theorem InDir.isRef {V : Volume} (h : g.InDir V ref) : g.IsRef ref := by
  obtain ⟨c, refs, -, hrefs, hmem⟩ := h
  exact hrefs.isRef hmem

/-- The entry `fat12_dev_get_fat_entry` computes. -/
theorem fatEntry_eq {c : Nat} (hc : c < g.count + 2) : fatEntry g.b d c = (g.view d).fat c := by
  rw [view_fat hc]
  exact fatEntry_eq_entry (pos_lt hc)

/-! ## What may have changed -/

variable (g) in
/-- Outside the clusters of `S`, their table entries and their sectors, nothing has changed. -/
structure Touched (S : Set Nat) (d d' : Disk) : Prop where
  sectors : ∀ lba, lba < g.b.reserved_sectors ∨ g.b.root_dir_lba ≤ lba →
    (∀ x ∈ S, lba ∉ clusterLbas g.b x) → d' lba = d lba
  fat : ∀ i < g.b.fat_count, ∀ x < g.count + 2, x ∉ S →
    entry (fatByte g.b d' i) x = entry (fatByte g.b d i) x

theorem Touched.refl (S : Set Nat) (d : Disk) : g.Touched S d d :=
  ⟨fun _ _ _ => rfl, fun _ _ _ _ _ => rfl⟩

section

variable (h : g.Touched S d d')

include h

theorem Touched.trans {d'' : Disk} (h' : g.Touched S d' d'') :
    g.Touched S d d'' where
  sectors := fun lba hlba hS => (h'.sectors lba hlba hS).trans (h.sectors lba hlba hS)
  fat := fun i hi x hx hS => (h'.fat i hi x hx hS).trans (h.fat i hi x hx hS)

theorem Touched.mono {S' : Set Nat} (hS : S ⊆ S') : g.Touched S' d d' where
  sectors := fun lba hlba hx => h.sectors lba hlba fun x hxS => hx x (hS hxS)
  fat := fun i hi x hx hxS => h.fat i hi x hx fun hmem => hxS (hS hmem)

/-- Other entries of the table are as before, -/
theorem Touched.view_fat {x : Nat} (hx : x ∉ S) :
    (g.view d').fat x = (g.view d).fat x := by
  unfold view
  dsimp only
  split
  · next hlt => exact h.fat 0 g.b.fats_pos x hlt hx
  · rfl

/-- and so are slots outside the clusters touched. -/
theorem Touched.view_slot (hlba : ∀ x ∈ S, ref.lba ∉ clusterLbas g.b x) :
    (g.view d').slot ref = (g.view d).slot ref := by
  unfold view
  dsimp only
  split
  · next href => rw [h.sectors ref.lba (.inr href.1) hlba]
  · rfl

/-- A volume does not see changes in clusters nobody owns. -/
theorem Touched.agree {W : Volume} (hW : g.Sound W) (hS : ∀ x ∈ S, g.InRange x ∧ ¬ g.Owned W x)
    (hA : g.Agree W (g.view d)) :
    g.Agree W (g.view d') where
  slots := by
    intro ref href
    rw [h.view_slot, hA.slots ref href]
    intro x hx hlba
    exact (hS x hx).2 (hW.owned_of_inDir href (hS x hx).1 hlba)
  fat := by
    intro x hx
    rw [h.view_fat, hA.fat x hx]
    exact fun hxS => (hS x hxS).2 hx

end

end Geometry

/-! ## Storing a table entry -/

namespace Geometry

variable {g : Geometry} {faults : Prop} {d : Disk}

variable (g) in
/-- The entry is stored in every copy. -/
def Stored (c value : Nat) (d d' : Disk) : Prop := StoredIn g.b 0 g.b.fat_count c value d d'

theorem touched_of_fatOnly {c : Nat} {d d' : Disk} (h : FatOnly g.b c d d') :
    g.Touched {c} d d' where
  sectors := fun lba hlba _ => h.sectors lba hlba
  fat := fun i hi x hx hne => h.fat i hi x (pos_lt hx) hne

theorem Stored.touched {c value : Nat} {d d' : Disk} (h : g.Stored c value d d') :
    g.Touched {c} d d' := touched_of_fatOnly (StoredIn.fatOnly h)

/-- A new entry in every copy of the table. -/
theorem does_set_fat {c value : Nat} (hc : c < g.count + 2) (hvalue : value < 4096) :
    Does faults (fat12_dev_set_fat_entry g.b c value) d (fun _ d' => g.Stored c value d d')
      (fun _ d' => faults ∧ g.Touched {c} d d') := by
  apply (does_set_fat_entry (pos_lt hc) value).mono
  · intro _ d' h
    rwa [Nat.mod_eq_of_lt hvalue] at h
  · grind [touched_of_fatOnly]

section

variable {c value : Nat} {d' : Disk}

/-- On the volume it is one entry. -/
theorem Stored.view (h : g.Stored c value d d') (hc : c < g.count + 2) (hvalue : value < 4096) :
    g.view d' = (g.view d).setFat c value := by
  have hfat : (g.view d').fat = update (g.view d).fat c value := by
    funext x
    by_cases hx : x = c
    · subst hx
      rw [update_self, view_fat hc,
        entry_congr (pos_lt hc) fun n hn => StoredIn.fat_eq h g.b.fats_pos hn]
      exact entry_store_self _ hvalue
    · rw [update_of_ne hx]
      exact h.touched.view_fat hx
  have hslot : (g.view d').slot = (g.view d).slot := by
    funext ref
    unfold Geometry.view
    dsimp only
    split
    · next href => rw [h.sectors ref.lba (.inr href.1)]
    · rfl
  unfold Volume.setFat
  rw [← hfat, ← hslot]

theorem Stored.mirrored (h : g.Stored c value d d') (hc : c < g.count + 2) (hm : g.Mirrored d) :
    g.Mirrored d' := by
  intro i hi n hn
  rw [StoredIn.fat_eq h hi hn, StoredIn.fat_eq h g.b.fats_pos hn]
  exact store_congr (pos_lt hc) value (hm i hi) hn

end

/-! ## Slots -/

end Geometry

/-- A disk with one slot replaced. -/
def putEntry (d : Disk) (ref : EntryRef) (e : Slot) : Disk :=
  update d ref.lba (putSlot (d ref.lba) ref.offset e)

/-- A slot with its first byte marked. -/
def Slot.asDeleted (e : Slot) : Slot := update e 0 FAT12_ENTRY_DELETED

theorem putSlot_asDeleted (sector : Sector) (offset : Nat) :
    putSlot sector offset (slotAt sector offset).asDeleted =
      update sector offset FAT12_ENTRY_DELETED := by
  funext j
  unfold putSlot Slot.asDeleted slotAt
  grind

theorem image_clip (name83 : Name83) (attr : UInt8) (cluster size : Nat) :
    (fat12_image_write_dir_entry name83 attr cluster size).clip =
      fat12_image_write_dir_entry name83 attr cluster size := by
  grind [Slot.clip, fat12_image_write_dir_entry]

theorem clip_asDeleted (e : Slot) : e.asDeleted.clip = e.clip.asDeleted := by
  funext j
  unfold Slot.clip Slot.asDeleted
  grind

namespace Geometry

variable {g : Geometry} {faults : Prop} {d : Disk}

theorem putEntry_other {lba : Nat} (h : lba ≠ ref.lba) (e : Slot) :
    putEntry d ref e lba = d lba := update_of_ne h ..

/-- The second of two entries in one slot is left. -/
theorem putEntry_putEntry (e e' : Slot) :
    putEntry (putEntry d ref e) ref e' = putEntry d ref e' := by
  unfold putEntry
  rw [update_self, update_idem]
  congr 1
  funext j
  unfold putSlot
  split
  · rfl
  · rfl

/-- A directory entry is none of the table's bytes. -/
theorem fatByte_putEntry (href : g.IsRef ref) (e : Slot) {i n : Nat} (hi : i < g.b.fat_count)
    (hn : n < g.b.sectors_per_fat * 512) :
    fatByte g.b (putEntry d ref e) i n = fatByte g.b d i n := by
  have hlt := (fatLba_lt hi hn).2
  have hroot := href.1
  unfold fatByte
  rw [putEntry_other (by omega)]

/-- A place is where the volume has it, and only there. -/
theorem view_putEntry (href : g.IsRef ref) (e : Slot) :
    g.view (putEntry d ref e) = (g.view d).setSlot ref e.clip := by
  have hfat : (g.view (putEntry d ref e)).fat = (g.view d).fat := by
    funext x
    unfold view
    dsimp only
    split
    · next hx =>
      exact entry_congr (pos_lt hx) fun n hn => fatByte_putEntry href e g.b.fats_pos hn
    · rfl
  have hslot : (g.view (putEntry d ref e)).slot =
      update (g.view d).slot ref e.clip := by
    funext r
    unfold putEntry
    by_cases hr : r = ref
    · subst hr
      rw [update_self, view_slot href, update_self]
      grind [Nat.add_sub_cancel_left, Slot.clip, slotAt, putSlot]
    rw [update_of_ne hr]
    unfold view
    dsimp only
    split
    swap
    · rfl
    next hisRef =>
    by_cases hlba : r.lba = ref.lba
    · -- another slot of the sector
      rw [hlba, update_self]
      have hoffset : r.offset ≠ ref.offset := by
        intro hoffset
        apply hr
        cases r
        cases ref
        simp_all
      have hr32 := hisRef.2.1
      have href32 := href.2.1
      grind [Slot.clip, slotAt, putSlot]
    · rw [update_of_ne hlba]
  unfold Volume.setSlot
  rw [← hfat, ← hslot]

theorem mirrored_putEntry (href : g.IsRef ref) (e : Slot) (hm : g.Mirrored d) :
    g.Mirrored (putEntry d ref e) := by
  intro i hi n hn
  rw [fatByte_putEntry href e hi hn, fatByte_putEntry href e g.b.fats_pos hn]
  exact hm i hi n hn

/-- The same slot put on both sides of a change. -/
theorem Touched.put {d' : Disk} (h : g.Touched S d d') (href : g.IsRef ref) (e : Slot) :
    g.Touched S (putEntry d ref e) (putEntry d' ref e) where
  sectors lba hlba hnot := by
    by_cases heq : lba = ref.lba
    · subst heq
      unfold putEntry
      rw [update_self, update_self, h.sectors _ hlba hnot]
    · rw [putEntry_other heq, putEntry_other heq, h.sectors lba hlba hnot]
  fat i hi x hx hnot := by
    have hin : InTable g.b x := pos_lt hx
    rw [entry_congr hin fun n hn => fatByte_putEntry href e hi hn,
      entry_congr hin fun n hn => fatByte_putEntry href e hi hn]
    exact h.fat i hi x hx hnot

/-- Writing an entry stores its slot, or nothing. -/
theorem does_write_entry (href : g.IsRef ref) (name83 : Name83) (attr : UInt8)
    (cluster size : Nat) :
    Does faults (fat12_dev_write_entry ref name83 attr cluster size) d
      (fun _ d' => d' = putEntry d ref (fat12_image_write_dir_entry name83 attr cluster size))
      (fun _ d' => faults ∧ d' = d) := by
  obtain ⟨-, h32, h512⟩ := href
  unfold fat12_dev_write_entry
  rw [if_neg (by omega)]
  apply (does_read _ d).bind
  · rintro work d' ⟨rfl, rfl⟩
    exact does_write _ _ _
  · exact fun _ _ h => h

/-- Deleting one marks its first byte. -/
theorem does_deleteEntry (ref : EntryRef) :
    Does faults (deleteEntry ref) d
      (fun _ d' => d' = putEntry d ref (slotAt (d ref.lba) ref.offset).asDeleted)
      (fun _ d' => faults ∧ d' = d) := by
  apply (does_read _ d).bind
  · grind [putSlot_asDeleted, putEntry, does_write]
  · exact fun _ _ h => h

theorem view_delete (href : g.IsRef ref) :
    g.view (putEntry d ref (slotAt (d ref.lba) ref.offset).asDeleted) =
      (g.view d).setSlot ref ((g.view d).slot ref).asDeleted := by
  rw [view_putEntry href, clip_asDeleted, view_slot href]

end Geometry

end System1.Fat12
