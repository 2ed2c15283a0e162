/-
Writing a file: `fat12_core_write_file_on_device`.

A new file gets its clusters first and its entry last, so nothing points to a cluster
before it is filled. A file that is there is overwritten in another order: its clusters are
freed, new ones are taken, possibly the same, and the entry is written at the end. In
between, the entry points to clusters that are free or not its own. On a device that does
not fail nobody sees that; on one that fails the operation may stop there. So the
statement for both has a condition: a device that may fail must not be asked to overwrite a
file that has clusters.

Both ways end in one and the same step (`after_file`): an entry comes to a place, whose old
clusters, if it had any, have been given back before the new ones were taken.
-/
import System1.Fat12Creates

set_option autoImplicit false

namespace System1.Fat12

open System1.Lib

/-! ## The entry of a file -/

def fileEntry (name83 : Name83) (cluster size : Nat) : Slot :=
  fat12_image_write_dir_entry name83 0 cluster size

section

variable (name83 : Name83)

include name83

theorem fileEntry_isDir (cluster size : Nat) :
    (fileEntry name83 cluster size).isDir = false := by
  unfold fileEntry
  rw [image_isDir]
  decide

theorem fileEntry_name (cluster size : Nat) :
    (fileEntry name83 cluster size).name = name83 := image_name ..

theorem fileEntry_clip (cluster size : Nat) :
    (fileEntry name83 cluster size).clip = fileEntry name83 cluster size := image_clip ..

theorem fileEntry_size (cluster : Nat) {size : Nat} (h : size < 2 ^ 32) :
    (fileEntry name83 cluster size).size = size := image_size name83 0 cluster h

theorem fileEntry_cluster {cluster : Nat} (size : Nat) (h : cluster < 2 ^ 16) :
    (fileEntry name83 cluster size).cluster = cluster := image_cluster name83 0 h size

end

theorem fileEntry_dots {name83 : Name83} (h : name83 0 ≠ DOT) (cluster size : Nat) :
    (fileEntry name83 cluster size).dots = false := by
  apply Geometry.not_dots_of_name
  rw [fileEntry_name]
  exact h

namespace Geometry

variable {g : Geometry} {faults sloppy : Prop} {d d₁ d₂ : Disk} {fuel : Nat}

/-! ## A file comes to a place -/

section Put

variable {c₀ : Nat} {refs₀ : List EntryRef} {ref₀ : EntryRef} {old : List Nat}

variable (g) in
/-- A place for a file on the disk `d`, and the disk `d₁` on which the clusters of the file
that was there before, if there was one, are free. -/
structure Cleared (d d₁ : Disk) (c₀ : Nat) (refs₀ : List EntryRef) (ref₀ : EntryRef)
    (old : List Nat) : Prop where
  removal : g.Removal (g.view d) c₀ refs₀ ref₀ ((g.view d).slot ref₀).asDeleted
  owned : ∀ cs, g.LiveEntry (g.view d) ref₀ → g.Owns (g.view d) ((g.view d).slot ref₀) cs → cs = old
  inRange : ∀ x ∈ old, g.InRange x
  unowned : ∀ x ∈ old,
    ¬ g.Owned ((g.view d).setSlot ref₀ ((g.view d).slot ref₀).asDeleted) x
  freed : g.Freed old d d₁

namespace Cleared

variable (h : g.Cleared d d₁ c₀ refs₀ ref₀ old)

include h

theorem isRef : g.IsRef ref₀ := h.removal.toPlace.inDir.isRef

/-- What is free now is nobody's, apart from the file that goes. -/
theorem free_unowned {x : Nat} (hx : x ∈ g.FreeIn d₁) :
    ¬ g.Owned ((g.view d).setSlot ref₀ ((g.view d).slot ref₀).asDeleted) x := by
  by_cases hold : x ∈ old
  · exact h.unowned x hold
  intro howned
  obtain ⟨r, cs, -, hr, howns, hmem⟩ := h.removal.owned_back howned
  apply Owned.ne_free ⟨r, cs, hr, howns, hmem⟩
  rw [← h.freed.touched.view_fat (show x ∉ {x | x ∈ old} from hold)]
  exact hx.2

theorem touched {S : Set Nat} (htouched : g.Touched S d₁ d₂) :
    g.Touched ({x | x ∈ old} ∪ S) d d₂ :=
  (h.freed.touched.mono Set.subset_union_left).trans (htouched.mono Set.subset_union_right)

section

variable {S : Set Nat} (htouched : g.Touched S d₁ d₂) (hS : S ⊆ g.FreeIn d₁)

include htouched hS

omit htouched in
theorem touched_unowned : ∀ x ∈ {x | x ∈ old} ∪ S,
    g.InRange x ∧ ¬ g.Owned ((g.view d).setSlot ref₀ ((g.view d).slot ref₀).asDeleted) x := by
  rintro x (hx | hx)
  · exact ⟨h.inRange x hx, h.unowned x hx⟩
  · exact ⟨(hS hx).1, h.free_unowned (hS hx)⟩

theorem agree : g.Agree ((g.view d).setSlot ref₀ ((g.view d).slot ref₀).asDeleted)
    ((g.view d₂).setSlot ref₀ ((g.view d).slot ref₀).asDeleted) :=
  (h.touched htouched).agree_put h.isRef (clip_mark ref₀) h.removal.after.toSound
    (h.touched_unowned hS)

/-- An entry comes to the place, with a chain of clusters that were free. -/
theorem after_file {e : Slot} {cs : List Nat} (hclip : e.clip = e) (hlive : e.live = true)
    (hdots : e.dots = false) (hfile : e.isDir = false) (howns : g.Owns (g.view d₂) e cs)
    (hfits : g.Fits e cs) (hcs : ∀ x ∈ cs, x ∈ g.FreeIn d₁)
    (htables : sloppy ∨ ((∀ x, x ∉ cs → (g.view d₂).fat x = (g.view d₁).fat x) ∧
      (∀ r ∈ (g.view d).entries refs₀, r ≠ ref₀ → ((g.view d).slot r).name ≠ e.name) ∧
      (g.Mirrored d₁ → g.Mirrored d₂))) :
    g.After sloppy (· = ref₀) d (putEntry d₂ ref₀ e) := by
  have hA := h.agree htouched hS
  have hI := insertion_of h.removal hA hlive howns hfits
    (fun x hx => h.free_unowned (hcs x hx)) fun hisDir => by rw [hfile] at hisDir; cases hisDir
  apply after_put h.removal (clip_mark ref₀) (h.touched htouched)
    (h.touched_unowned hS) hI hclip hdots
  refine htables.imp id fun ⟨hfat, hfresh, hmirror⟩ => ⟨?_, hfresh, ?_⟩
  · intro x hx hused
    rw [hfat x hx] at hused
    have hold : x ∉ old := fun hmem => hused (h.freed.free x hmem)
    rw [h.freed.touched.view_fat (show x ∉ {x | x ∈ old} from hold)] at hused
    exact ⟨hused, fun cs' hentry howns' => h.owned cs' hentry howns' ▸ hold⟩
  · exact fun hm => hmirror (h.freed.mirrored hm)

end

end Cleared

section

variable (hP : g.Place (g.view d) c₀ refs₀ ref₀) (hN : g.Neat (g.view d))

include hP hN

/-- A place that holds nothing. -/
theorem Place.cleared (hdead : ((g.view d).slot ref₀).live = false) :
    g.Cleared d d c₀ refs₀ ref₀ [] where
  removal := hP.removal hN hdead (asDeleted_first _)
  owned cs hlive _ := absurd hlive (not_liveEntry hdead)
  inRange x hx := by cases hx
  unowned x hx := by cases hx
  freed := ⟨.refl _ _, fun x hx => (by cases hx), fun hm => hm⟩

/-- The place of a file whose clusters have been given back. -/
theorem Place.cleared_file (hlive : ((g.view d).slot ref₀).live = true)
    (hdots : ((g.view d).slot ref₀).dots = false) (hfile : ((g.view d).slot ref₀).isDir = false)
    (howns : g.Owns (g.view d) ((g.view d).slot ref₀) old) (hfreed : g.Freed old d d₁) :
    g.Cleared d d₁ c₀ refs₀ ref₀ old := by
  have hR : g.Removal (g.view d) c₀ refs₀ ref₀ ((g.view d).slot ref₀).asDeleted :=
    ⟨hP, hN, asDeleted_first _, fun _ _ hisDir => by rw [hfile] at hisDir; cases hisDir⟩
  exact ⟨hR, fun cs _ hcs => hcs.unique howns, fun x hx => howns.inRange hx,
    fun x hx => hR.not_owned hlive hdots howns hx, hfreed⟩

end

end Put

/-! ## The data and the entry -/

section

variable {data : List UInt8} {cs : List Nat} {first prev : Nat}

namespace Written

variable (h : g.Written data d₁ d₂ cs first prev data.length)

include h

theorem first_lt : first < 2 ^ 16 := by
  by_cases hnil : cs = []
  · rw [(h.empty hnil).1]
    decide
  have hlt := (h.inRange first (h.first_mem hnil)).lt_4096
  omega

theorem length_le : cs.length ≤ 4084 := by
  by_cases hnil : cs = []
  · simp [hnil]
  · exact (h.chain hnil).length_le

/-- What has found room on a volume has a size that fits its entry. -/
theorem data_lt : data.length < 2 ^ 32 := by
  have hamount : data.length ≤ cs.length * g.clusterBytes := by
    have := h.amount
    omega
  have hmul : cs.length * g.clusterBytes ≤ 4084 * (512 * 256) := by
    have hspc := g.b.spc_lt
    exact Nat.mul_le_mul h.length_le (Nat.mul_le_mul_left 512 (by omega))
  omega

/-- A file has as many clusters as its data needs. -/
theorem count_eq : cs.length = (data.length + g.clusterBytes - 1) / g.clusterBytes := by
  have hamount := h.amount
  have htight := h.tight
  symm
  apply Nat.div_eq_of_lt_le
  · omega
  · rw [Nat.succ_mul]
    omega

theorem owns (leaf83 : Name83) :
    g.Owns (g.view d₂) (fileEntry leaf83 first data.length) cs := by
  unfold Owns
  rw [fileEntry_cluster leaf83 data.length h.first_lt]
  by_cases hnil : cs = []
  · exact .inl ⟨(h.empty hnil).1, hnil⟩
  · exact .inr ⟨hnil, h.chain hnil⟩

theorem fits (leaf83 : Name83) : g.Fits (fileEntry leaf83 first data.length) cs := by
  unfold Fits
  rw [fileEntry_isDir, if_neg (by decide), fileEntry_size leaf83 first h.data_lt]
  exact h.count_eq

end Written

variable (g) in
/-- The place holds a file with the data in it. -/
def Contains (d : Disk) (ref : EntryRef) (leaf83 : Name83) (data : List UInt8) : Prop :=
  ∃ first cs, (g.view d).slot ref = fileEntry leaf83 first data.length ∧ data.length < 2 ^ 32 ∧
    first < 2 ^ 16 ∧ g.Owns (g.view d) (fileEntry leaf83 first data.length) cs ∧
    g.Fits (fileEntry leaf83 first data.length) cs ∧
    ∀ n < data.length, g.fileByte d cs n = data.getD n 0

variable (g) in
/-- A file with the data has come to a place. Apart from the file that was there before, if
there was one, the tree is the same. -/
structure Filed (d d' : Disk) (c₀ : Nat) (refs₀ : List EntryRef) (ref₀ : EntryRef)
    (leaf83 : Name83) (data : List UInt8) : Prop where
  removal : g.Removal (g.view d) c₀ refs₀ ref₀ ((g.view d).slot ref₀).asDeleted
  agree : g.Agree ((g.view d).setSlot ref₀ ((g.view d).slot ref₀).asDeleted)
    ((g.view d').setSlot ref₀ ((g.view d).slot ref₀).asDeleted)
  contains : g.Contains d' ref₀ leaf83 data

section

variable {c₀ : Nat} {refs₀ : List EntryRef} {ref₀ : EntryRef} {old : List Nat} {leaf83 : Name83}
  (h : g.Cleared d d₁ c₀ refs₀ ref₀ old) (hzero : leaf83 0 ≠ FAT12_ENTRY_FREE)
  (hdot : leaf83 0 ≠ DOT)

include h

/-- The entry written last makes the data the file's. -/
theorem Cleared.contains (hw : g.Written data d₁ d₂ cs first prev data.length) :
    g.Contains (putEntry d₂ ref₀ (fileEntry leaf83 first data.length)) ref₀ leaf83 data := by
  have hview : g.view (putEntry d₂ ref₀ (fileEntry leaf83 first data.length)) =
      (g.view d₂).setSlot ref₀ (fileEntry leaf83 first data.length) := by
    rw [view_putEntry h.isRef, fileEntry_clip]
  refine ⟨first, cs, ?_, hw.data_lt, hw.first_lt, ?_, hw.fits leaf83, fun n hn => ?_⟩
  · rw [hview, Volume.setSlot_self]
  · rw [hview]
    exact hw.owns leaf83
  · have hlt : n < cs.length * g.clusterBytes := by
      have := hw.amount
      omega
    rw [← hw.bytes n hlt]
    apply fileByte_congr hw.inRange hlt
    intro x hx lba hlba
    apply putEntry_other
    rintro rfl
    -- the entry would be in a cluster that was free
    exact h.free_unowned (hw.subset_free hx)
      (h.removal.after.owned_of_inDir h.removal.place_after.inDir (hw.inRange x hx) hlba)

theorem Cleared.filed (hw : g.Written data d₁ d₂ cs first prev data.length) :
    g.Filed d
      (putEntry d₂ ref₀ (fileEntry leaf83 first data.length)) c₀ refs₀ ref₀ leaf83 data := by
  refine ⟨h.removal, ?_, h.contains hw⟩
  rw [view_putEntry h.isRef, Volume.setSlot_setSlot]
  exact h.agree hw.touched hw.subset_free

include hzero hdot

/-- And changes no other entry. -/
theorem Cleared.after_written (hdel : leaf83 0 ≠ FAT12_ENTRY_DELETED)
    (hfresh : sloppy ∨ ∀ r ∈ (g.view d).entries refs₀, r ≠ ref₀ → ((g.view d).slot r).name ≠ leaf83)
    (hw : g.Written data d₁ d₂ cs first prev data.length) :
    g.After sloppy (· = ref₀) d (putEntry d₂ ref₀ (fileEntry leaf83 first data.length)) := by
  refine h.after_file hw.touched hw.subset_free (fileEntry_clip ..)
    (image_live leaf83 (.inl rfl) first data.length hzero hdel) (fileEntry_dots hdot _ _)
    (fileEntry_isDir ..) (hw.owns leaf83) (hw.fits leaf83) (fun x hx => hw.subset_free hx) ?_
  refine hfresh.imp id fun hfresh => ⟨?_, ?_, hw.mirrored⟩
  · exact fun x hx => hw.touched.view_fat (show x ∉ {x | x ∈ cs} from hx)
  · rw [fileEntry_name]
    exact hfresh

/-- The file is left empty, with whatever has happened in free clusters. -/
theorem Cleared.after_emptied (hdel : leaf83 0 ≠ FAT12_ENTRY_DELETED)
    (htouched : g.Touched (g.FreeIn d₁) d₁ d₂)
    (htables : sloppy ∨ ((g.view d₂).fat = (g.view d₁).fat ∧
      (∀ r ∈ (g.view d).entries refs₀, r ≠ ref₀ → ((g.view d).slot r).name ≠ leaf83) ∧
      (g.Mirrored d₁ → g.Mirrored d₂))) :
    g.After sloppy (· = ref₀) d (putEntry d₂ ref₀ (emptyEntry leaf83)) := by
  have hcluster : (emptyEntry leaf83).cluster = 0 := fileEntry_cluster leaf83 0 (by decide)
  have hsize : (emptyEntry leaf83).size = 0 := fileEntry_size leaf83 0 (by decide)
  have hfile : (emptyEntry leaf83).isDir = false := fileEntry_isDir leaf83 0 0
  refine h.after_file htouched subset_rfl (fileEntry_clip ..)
    (image_live leaf83 (.inl rfl) 0 0 hzero hdel) (fileEntry_dots hdot _ _) hfile
    (.inl ⟨hcluster, rfl⟩) ?_ (fun x hx => by cases hx) ?_
  · unfold Fits
    rw [hfile, if_neg (by decide), hsize, Nat.zero_add]
    have hpos : 0 < g.clusterBytes := clusterBytes_pos
    exact (Nat.div_eq_of_lt (by omega)).symm
  · refine htables.imp id fun ⟨hfat, hfresh, hmirror⟩ => ⟨fun x _ => by rw [hfat], ?_, hmirror⟩
    rw [show (emptyEntry leaf83).name = leaf83 from fileEntry_name ..]
    exact hfresh

omit hzero hdot in
/-- Nothing but free clusters has changed, and the entry has not been written. -/
theorem Cleared.after_kept {S : Set Nat} {named : EntryRef → Prop} (hkeep : d₁ = d)
    (htouched : g.Touched S d₁ d₂) (hS : S ⊆ g.FreeIn d₁)
    (htables : sloppy ∨ ((g.view d₂).fat = (g.view d₁).fat ∧ (g.Mirrored d₁ → g.Mirrored d₂))) :
    g.After sloppy named d d₂ := by
  subst hkeep
  refine after_unseen h.removal.neat htouched (fun x hx => freeIn_unowned (hS hx)) ?_
  exact htables.imp id fun ⟨hfat, hmirror⟩ => ⟨fun x hx => by rwa [← hfat], hmirror⟩

omit hzero hdot in
/-- A new file whose name is taken for a deleted one. -/
theorem Cleared.after_unseen_file (hs : sloppy) (hkeep : d₁ = d)
    (hdead : ((g.view d).slot ref₀).live = false) (hdel : leaf83 0 = FAT12_ENTRY_DELETED)
    (hw : g.Written data d₁ d₂ cs first prev data.length) :
    g.After sloppy (· = ref₀) d (putEntry d₂ ref₀ (fileEntry leaf83 first data.length)) := by
  have htake : g.After sloppy (fun _ => False) d d₂ :=
    h.after_kept hkeep hw.touched hw.subset_free (.inl hs)
  subst hkeep
  have hA : g.Agree (g.view d₁) (g.view d₂) :=
    hw.touched.agree h.removal.neat.toSound (fun x hx => freeIn_unowned (hw.subset_free hx))
      (.refl _)
  have hP := h.removal.toPlace.agree h.removal.neat.toSound hA
  have hdead' : ((g.view d₂).slot ref₀).live = false := by
    rw [hA.slots ref₀ h.removal.toPlace.inDir]
    exact hdead
  have hR := hP.removal htake.neat hdead'
    (show (fileEntry leaf83 first data.length).first = _ from hdel)
  have hmark : g.After sloppy (fun _ => False) d₂ _ := after_mark hR hdead' (fileEntry_clip ..)
  exact (htake.trans hmark fun _ hn _ => hn).mono id fun _ _ hn => hn.elim

/-- The data is written and then the entry. `hkeep`: unless the entry is rewritten in any
case, there were no clusters to be given back. -/
theorem does_writeData {have_entry : Bool} (hfuel : 4096 ≤ fuel) (hfaults : faults → sloppy)
    (hdel : leaf83 0 = FAT12_ENTRY_DELETED → sloppy)
    (hentry : have_entry = true → leaf83 0 ≠ FAT12_ENTRY_DELETED)
    (hdead : have_entry = false → ((g.view d).slot ref₀).live = false)
    (hkeep : have_entry = false ∨ faults → d₁ = d)
    (hfresh : sloppy ∨ ∀ r ∈ (g.view d).entries refs₀, r ≠ ref₀ →
      ((g.view d).slot r).name ≠ leaf83) :
    Does faults (writeData g.dev fuel g.b data ref₀ have_entry leaf83) d₁
      (fun _ d' => g.After sloppy (· = ref₀) d d' ∧ g.Filed d d' c₀ refs₀ ref₀ leaf83 data)
      (fun _ d' => g.After sloppy (· = ref₀) d d') := by
  apply (does_writeLoop hfuel h.isRef (written_nil data d₁) (by omega)).bind
  · rintro first d₂ ⟨cs, prev, hw⟩
    apply (does_write_entry h.isRef leaf83 0 first data.length).mono
    · rintro _ _ rfl
      refine ⟨?_, h.filed hw⟩
      by_cases hE5 : leaf83 0 = FAT12_ENTRY_DELETED
      · have hnew : have_entry = false := by grind
        exact h.after_unseen_file (hdel hE5) (hkeep (.inl hnew)) (hdead hnew) hE5 hw
      · exact h.after_written hzero hdot hE5 hfresh hw
    · rintro _ _ ⟨hf, rfl⟩
      exact h.after_kept (hkeep (.inr hf)) hw.touched hw.subset_free (.inl (hfaults hf))
  · rintro rc d' (⟨d₂, htouched, hfat, hmirror, rfl⟩ | ⟨hf, d₂, htouched, rfl | ⟨htrue, rfl⟩⟩)
    · -- no room: a file that was there is empty now
      cases have_entry with
      | false => exact h.after_kept (hkeep (.inl rfl)) htouched subset_rfl (.inr ⟨hfat, hmirror⟩)
      | true =>
        exact h.after_emptied hzero hdot (hentry rfl) htouched
          (hfresh.imp id fun hfresh => ⟨hfat, hfresh, hmirror⟩)
    · exact h.after_kept (hkeep (.inr hf)) htouched subset_rfl (.inl (hfaults hf))
    · exact h.after_emptied hzero hdot (hentry htrue) htouched (.inl (hfaults hf))

end

end

/-! ## The operation -/

variable (g) in
/-- The path names a file that has clusters. -/
def Overwrites (V : Volume) (path : CString) : Prop :=
  ∃ ref, g.Names V fat12_make_83_file_name path ref ∧ (V.slot ref).isDir = false ∧
    (V.slot ref).cluster ≠ 0

variable (g) in
/-- The data is in the file that the path names, at the place of the old one or at a free
one. -/
def Saved (d d' : Disk) (path : CString) (data : List UInt8) : Prop :=
  ∃ c leaf83 refs ref, g.Parent (g.view d) fat12_make_83_file_name path c leaf83 ∧
    (((g.view d).lookup refs leaf83 = none ∧ (g.view d).vacancy refs = some ref) ∨
      ((g.view d).lookup refs leaf83 = some ref ∧ ((g.view d).slot ref).isDir = false)) ∧
    g.Filed d d' c refs ref leaf83 data

section

variable {path : CString} {data : List UInt8} {c : Nat} {leaf83 : Name83} {refs : List EntryRef}
  (hparent : g.Parent (g.view d) fat12_make_83_file_name path c leaf83)
  (hrefs : g.DirRefs (g.view d) c refs) (hfuel : 4096 ≤ fuel) (hfaults : faults → sloppy)
  (hdel : leaf83 0 = FAT12_ENTRY_DELETED → sloppy)

include hparent hrefs hfuel hfaults hdel

/-- A file that is not there yet gets the first free slot. -/
theorem does_write_new (hN : g.Neat (g.view d))
    (hfresh : sloppy ∨ ∀ r ∈ (g.view d).entries refs, ((g.view d).slot r).name ≠ leaf83) :
    Does faults (fat12_dev_find_free_entry fuel g.b c >>= fun entry_ref =>
        writeData g.dev fuel g.b data entry_ref false leaf83) d
      (fun _ d' => g.After sloppy (fun _ => False) d d' ∧
        ∃ ref, (g.view d).vacancy refs = some ref ∧ g.Filed d d' c refs ref leaf83 data)
      (fun _ d' => g.After sloppy (fun _ => False) d d') := by
  have hvac : Reads faults False (fat12_dev_find_free_entry fuel g.b c) d _ :=
    reads_vacancy hrefs hfuel
  refine .of_reads_bind hvac ?_ fun _ _ => .refl hN
  cases hfound : (g.view d).vacancy refs with
  | none => exact .refl hN
  | some ref₀ =>
    obtain ⟨husable, hdead⟩ := Volume.usable_of_vacancy hfound
    have hclear := Place.cleared ⟨hparent.liveDir, hrefs, husable⟩ hN hdead
    have hdoes : Does faults (writeData g.dev fuel g.b data ref₀ false leaf83) d _ _ :=
      does_writeData hclear (hparent.leaf_ne_zero encodes_file) (hparent.leaf_ne_dot encodes_file)
        hfuel hfaults hdel (fun h => by cases h) (fun _ => hdead) (fun _ => rfl)
        (hfresh.imp id fun h r hr _ => h r hr)
    have hnot : ∀ r, g.LiveEntry (g.view d) r → r ≠ ref₀ := by
      rintro r hlive rfl
      exact not_liveEntry hdead hlive
    apply hdoes.mono
    · rintro _ d' ⟨hafter, hfiled⟩
      exact ⟨hafter.mono id hnot, ref₀, rfl, hfiled⟩
    · exact fun _ d' hafter => hafter.mono id hnot

/-- One that is there loses its chain first and keeps its slot. -/
theorem does_write_over (hW : g.Wf (g.view d)) {ref : EntryRef}
    (hlookup : (g.view d).lookup refs leaf83 = some ref)
    (hfile : ((g.view d).slot ref).isDir = false)
    (hsafe : faults → ((g.view d).slot ref).cluster = 0) :
    Does faults (do
        if ((g.view d).slot ref).cluster ≠ 0 then
          fat12_dev_free_cluster_chain g.b fuel ((g.view d).slot ref).cluster
        writeData g.dev fuel g.b data ref true leaf83) d
      (fun _ d' => g.After sloppy (· = ref) d d' ∧ g.Filed d d' c refs ref leaf83 data)
      (fun _ d' => g.After sloppy (· = ref) d d') := by
  obtain ⟨hplace, hlive, hdots, hentry⟩ := hparent.entry encodes_file hrefs hlookup
  obtain ⟨hmem, hname⟩ := Volume.mem_of_lookup hlookup
  have hE5 : leaf83 0 ≠ FAT12_ENTRY_DELETED := by
    intro heq
    rw [← hname] at heq
    have hfirst : ((g.view d).slot ref).first = FAT12_ENTRY_DELETED := heq
    simp [Slot.live, Slot.skipped, hfirst] at hlive
  have hfresh : ∀ r ∈ (g.view d).entries refs, r ≠ ref → ((g.view d).slot r).name ≠ leaf83 := by
    intro r hr hne heq
    exact hne (hW.names c refs r ref hparent.liveDir hrefs hr hmem (heq.trans hname.symm))
  obtain ⟨cs, howns, -⟩ := hW.owns ref hentry
  have hclear : ∀ {d₁}, g.Freed cs d d₁ → g.Cleared d d₁ c refs ref cs :=
    hplace.cleared_file hW.toNeat hlive hdots hfile howns
  apply Does.when_bind fun d₁ => g.Cleared d d₁ c refs ref cs ∧ (faults → d₁ = d)
  · intro hcluster
    have hsure : ¬ faults := fun hf => hcluster (hsafe hf)
    have hchain : g.Chain (g.view d).fat ((g.view d).slot ref).cluster cs := by
      obtain ⟨hz, -⟩ | ⟨-, hchain⟩ := howns
      · exact absurd hz hcluster
      · exact hchain
    have hlen := hchain.length_le
    apply (does_free_chain hchain (by omega)).mono
    · exact fun _ d₁ hfreed => ⟨hclear hfreed, fun hf => absurd hf hsure⟩
    · rintro _ _ ⟨hf, -⟩
      exact absurd hf hsure
  · intro hcluster
    obtain rfl : cs = [] := howns.unique (.inl ⟨not_not.mp hcluster, rfl⟩)
    exact ⟨hclear ⟨.refl _ _, fun x hx => (by cases hx), fun hm => hm⟩, fun _ => rfl⟩
  · rintro d₁ ⟨hclear, hkeep⟩
    exact does_writeData hclear (hparent.leaf_ne_zero encodes_file)
      (hparent.leaf_ne_dot encodes_file) hfuel hfaults hdel (fun _ => hE5) (fun h => by cases h)
      (fun h => h.elim (fun h => by cases h) hkeep) (.inr hfresh)

end

/-- Writing a file, in all. -/
theorem does_write_file (hboot : fat12_parse_bpb (d 0) = .ok g.b) (hW : g.Wf (g.view d))
    (hfuel : 4096 ≤ fuel) (path : CString) (data : List UInt8)
    (hsafe : faults → ¬ g.Overwrites (g.view d) path) :
    Does faults (fat12_core_write_file_on_device g.dev fuel path data) d
      (fun _ d' => g.After (faults ∨ g.Unseen (g.view d) fat12_make_83_file_name path)
        (g.Names (g.view d) fat12_make_83_file_name path) d d' ∧ (faults ∨ g.Saved d d' path data))
      (fun _ d' => g.After (faults ∨ g.Unseen (g.view d) fat12_make_83_file_name path)
        (g.Names (g.view d) fat12_make_83_file_name path) d d') := by
  have hrefl : ∀ sloppy named, g.After sloppy named d d := fun _ _ => .refl hW.toNeat
  apply does_withParent hboot hW hfuel (fun _ => hrefl _ _)
  intro c leaf83 hparent
  obtain ⟨refs, hrefs⟩ := hW.dirRefs hparent.liveDir
  have hdel : leaf83 0 = FAT12_ENTRY_DELETED →
      faults ∨ g.Unseen (g.view d) fat12_make_83_file_name path :=
    fun hE5 => .inr ⟨c, leaf83, hparent, hE5⟩
  apply does_find_attempt hrefs hfuel
  · intro ref hlookup
    dsimp only
    have hnamed : g.Names (g.view d) fat12_make_83_file_name path ref :=
      ⟨c, leaf83, refs, hparent, hrefs, hlookup⟩
    by_cases hfile : ((g.view d).slot ref).isDir = false
    · rw [if_neg (not_not.mpr ((isDir_iff _ ref).mpr hfile))]
      have hempty : faults → ((g.view d).slot ref).cluster = 0 := by
        intro hf
        by_contra hcluster
        exact hsafe hf ⟨ref, hnamed, hfile, hcluster⟩
      apply (does_write_over hparent hrefs hfuel .inl hdel hW hlookup hfile hempty).mono
      · rintro _ d' ⟨hafter, hfiled⟩
        exact ⟨hafter.mono id fun r _ heq => heq ▸ hnamed,
          .inr ⟨c, leaf83, refs, ref, hparent, .inr ⟨hlookup, hfile⟩, hfiled⟩⟩
      · exact fun _ _ hafter => hafter.mono id fun r _ heq => heq ▸ hnamed
    · rw [if_pos (fun h => hfile ((isDir_iff _ ref).mp h))]
      exact .fail (hrefl _ _)
  · intro hfresh
    apply (does_write_new hparent hrefs hfuel .inl hdel hW.toNeat
      (hfresh.imp .inl fun hnone r hr => Volume.ne_of_lookup hnone hr)).mono
    · rintro _ d' ⟨hafter, ref, hvacancy, hfiled⟩
      exact ⟨hafter.mono id fun _ _ hn => hn.elim, hfresh.imp id fun hnone =>
        ⟨c, leaf83, refs, ref, hparent, .inl ⟨hnone, hvacancy⟩, hfiled⟩⟩
    · exact fun _ _ hafter => hafter.mono id fun _ _ hn => hn.elim
  · intro rc hrc
    cases rc with
    | NOT_FOUND => exact absurd rfl hrc
    | _ => exact .fail (hrefl _ _)

end Geometry

end System1.Fat12
