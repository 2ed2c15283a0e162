/-
The operations of the FAT12 driver on a well-formed volume.

For each of them there is one statement, for a device that may fail and for one that does
not: wherever the operation stops, the volume is well-formed and every entry it was not
asked to change is still there with its chain (`After`). What only holds if the device
does not fail is that the copies of the table stay equal and that no cluster is lost; the
parameter `sloppy` says whether that is given up.

Two operations need more. `fat12_rmdir` has to be asked to remove a directory that its own
test does not misjudge. And `fat12_core_write_file_on_device` frees the clusters of a file
it overwrites before anything else, which a device that may fail does not forgive; there
the file has to have none.
-/
import System1.Fat12Trees

set_option autoImplicit false

namespace System1.Fat12

open System1.Lib

/-! ## New entries -/

variable (cluster size : Nat)

section

variable (name83 : Name83) (attr : UInt8)

@[simp] theorem image_first :
    (fat12_image_write_dir_entry name83 attr cluster size).first = name83 0 := rfl

@[simp] theorem image_attr :
    (fat12_image_write_dir_entry name83 attr cluster size).attr = attr := rfl

@[simp] theorem image_name :
    (fat12_image_write_dir_entry name83 attr cluster size).name = name83 := by
  funext i
  exact dif_pos i.isLt

theorem image_cluster {cluster : Nat} (h : cluster < 2 ^ 16) (size : Nat) :
    (fat12_image_write_dir_entry name83 attr cluster size).cluster = cluster := by
  show le16 (UInt8.ofNat cluster) (UInt8.ofNat (cluster / 2 ^ 8)) = cluster
  unfold le16
  rw [UInt8.toNat_ofNat', UInt8.toNat_ofNat']
  omega

theorem image_size (cluster : Nat) {size : Nat} (h : size < 2 ^ 32) :
    (fat12_image_write_dir_entry name83 attr cluster size).size = size := by
  show le32 (UInt8.ofNat size) (UInt8.ofNat (size / 2 ^ 8)) (UInt8.ofNat (size / 2 ^ 16))
    (UInt8.ofNat (size / 2 ^ 24)) = size
  unfold le32
  grind [UInt8.toNat_ofNat']

/-- The entries the driver writes are files and directories. -/
theorem image_live {attr : UInt8} (hattr : attr = 0 ∨ attr = FAT12_ATTR_DIRECTORY)
    (cluster size : Nat)
    (h0 : name83 0 ≠ FAT12_ENTRY_FREE) (hdel : name83 0 ≠ FAT12_ENTRY_DELETED) :
    (fat12_image_write_dir_entry name83 attr cluster size).live = true := by
  have hskip : (fat12_image_write_dir_entry name83 attr cluster size).skipped = false := by
    unfold Slot.skipped
    rw [image_first, image_attr, decide_eq_false_iff_not]
    rintro (h | h | h)
    · exact hdel h
    · obtain rfl | rfl := hattr
      · exact h (by decide)
      · exact h (by decide)
    · obtain rfl | rfl := hattr
      · exact absurd h (by decide)
      · exact absurd h (by decide)
  simp [Slot.live, h0, hskip]

theorem image_isDir :
    (fat12_image_write_dir_entry name83 attr cluster size).isDir =
      decide (attr &&& FAT12_ATTR_DIRECTORY ≠ 0) := rfl

end

theorem asDeleted_first (e : Slot) : e.asDeleted.first = FAT12_ENTRY_DELETED := by
  unfold Slot.first Slot.asDeleted
  rw [Function.update_self]

variable {V V' : Volume} {ref : EntryRef} {sloppy : Prop} {named : EntryRef → Prop} {x : Nat}
  {S : Set Nat}

namespace Geometry

variable {g : Geometry} {d d' : Disk}

/-! ## After an operation -/

variable (g) in
/-- An allocated cluster that no live entry owns. -/
def Leak (V : Volume) (x : Nat) : Prop :=
  g.InRange x ∧ V.fat x ≠ FAT12_CLUSTER_FREE ∧ ¬ g.Owned V x

variable (g) in
/-- The entry is still there, with the same bytes and the same chain. -/
def Same (V V' : Volume) (ref : EntryRef) : Prop :=
  g.LiveEntry V' ref ∧ V'.slot ref = V.slot ref ∧
    ∀ cs, g.Owns V (V.slot ref) cs → g.Owns V' (V.slot ref) cs

theorem Same.trans {V'' : Volume} (h : g.Same V V' ref) (h' : g.Same V' V'' ref) :
    g.Same V V'' ref := by
  obtain ⟨-, hslot, howns⟩ := h
  obtain ⟨hlive, hslot', howns'⟩ := h'
  rw [hslot] at hslot' howns'
  exact ⟨hlive, hslot', fun cs hcs => howns' cs (howns cs hcs)⟩

theorem Same.owned {cs : List Nat} (h : g.Same V V' ref) (howns : g.Owns V (V.slot ref) cs)
    (hx : x ∈ cs) : g.Owned V' x := by
  obtain ⟨hlive, hslot, hkeeps⟩ := h
  refine ⟨ref, cs, hlive, ?_, hx⟩
  rw [hslot]
  exact hkeeps cs howns

theorem Agree.same (hA : g.Agree V V') (hS : g.Sound V) (h : g.LiveEntry V ref) :
    g.Same V V' ref := by
  have hslot := hA.slots ref h.inDir
  refine ⟨hA.liveEntry hS h, hslot, fun cs hcs => ?_⟩
  rw [← hslot]
  exact hA.owns h hcs

variable (g) in
/-- What holds after an operation: the entries that are not `named` are as they were, with
the bytes of their files, and the volume is sound with tidy directories. Unless `sloppy`, no
cluster has been lost, and the names stay distinct and the copies of the table equal. -/
structure After (sloppy : Prop) (named : EntryRef → Prop) (d d' : Disk) : Prop where
  neat : g.Neat (g.view d')
  kept : ∀ ref, g.LiveEntry (g.view d) ref → ¬ named ref → g.Same (g.view d) (g.view d') ref
  bytes : ∀ ref cs, g.LiveEntry (g.view d) ref → ¬ named ref →
    ((g.view d).slot ref).isDir = false → g.Owns (g.view d) ((g.view d).slot ref) cs →
    ∀ x ∈ cs, ∀ lba ∈ clusterLbas g.b x, d' lba = d lba
  tables : sloppy ∨ ((∀ x, g.Leak (g.view d') x → g.Leak (g.view d) x) ∧
    (g.Distinct (g.view d) → g.Distinct (g.view d')) ∧ (g.Mirrored d → g.Mirrored d'))
  boot : d' 0 = d 0

theorem After.refl (hN : g.Neat (g.view d)) :
    g.After sloppy named d d where
  neat := hN
  kept := fun _ h _ => (Agree.refl _).same hN.toSound h
  bytes := fun _ _ _ _ _ _ _ _ _ _ => rfl
  tables := .inr ⟨fun _ h => h, fun h => h, fun h => h⟩
  boot := rfl

/-- Two calls after each other. -/
theorem After.trans {named' : EntryRef → Prop} {d'' : Disk} (h : g.After sloppy named d d')
    (h' : g.After sloppy named' d' d'')
    (hsub : ∀ r, named' r → g.LiveEntry (g.view d') r → named r) :
    g.After sloppy named d d'' where
  neat := h'.neat
  kept := by
    intro ref hlive hnot
    have hsame := h.kept ref hlive hnot
    exact hsame.trans (h'.kept ref hsame.1 fun hn => hnot (hsub ref hn hsame.1))
  bytes := by
    intro ref cs hlive hnot hfile howns x hx lba hlba
    obtain ⟨hlive', hslot, howns'⟩ := h.kept ref hlive hnot
    have hfile' : ((g.view d').slot ref).isDir = false := by rw [hslot, hfile]
    have hcs' : g.Owns (g.view d') ((g.view d').slot ref) cs := by
      rw [hslot]
      exact howns' cs howns
    rw [h'.bytes ref cs hlive' (fun hn => hnot (hsub ref hn hlive')) hfile' hcs' x hx lba hlba,
      h.bytes ref cs hlive hnot hfile howns x hx lba hlba]
  tables := by
    obtain hs | ⟨hleak, hnames, hmirror⟩ := h.tables
    · exact .inl hs
    obtain hs | ⟨hleak', hnames', hmirror'⟩ := h'.tables
    · exact .inl hs
    grind
  boot := h'.boot.trans h.boot

/-- A weaker promise. -/
theorem After.mono {sloppy' : Prop} {named' : EntryRef → Prop} (h : g.After sloppy named d d')
    (hs : sloppy → sloppy') (hn : ∀ r, g.LiveEntry (g.view d) r → named r → named' r) :
    g.After sloppy' named' d d' where
  neat := h.neat
  kept ref hlive hnot := h.kept ref hlive fun hnamed => hnot (hn ref hlive hnamed)
  bytes ref cs hlive hnot := h.bytes ref cs hlive fun hnamed => hnot (hn ref hlive hnamed)
  tables := h.tables.imp hs id
  boot := h.boot

/-! ## The bytes of files -/

/-- A slot of a directory is in no sector of a file. -/
theorem Sound.file_lba_ne (hS : g.Sound V) {ref₀ : EntryRef} {cs : List Nat} (hdir : g.InDir V ref₀)
    (hlive : g.LiveEntry V ref) (hfile : (V.slot ref).isDir = false)
    (howns : g.Owns V (V.slot ref) cs) (hx : x ∈ cs) :
    ref₀.lba ∉ clusterLbas g.b x := by
  intro hlba
  obtain ⟨c, refs, hc, hrefs, hmem⟩ := hdir
  obtain ⟨-, rfl⟩ | ⟨cs', -, hchain, rfl⟩ := hrefs
  · have hlt := (mem_rootLbas.mp (mem_refsOf.mp hmem).1).2
    exact absurd (data_lba_le_of_mem (howns.inRange hx) hlba) (by omega)
  -- the sector would be in two chains, one of them a directory's
  obtain ⟨y, hy, hlba'⟩ := mem_chainRefs hmem
  obtain rfl := clusterLbas_inj (howns.inRange hx) (hchain.inRange hy) hlba hlba'
  obtain ⟨r, hr, hisDir, -, howns'⟩ := hS.dir_owned hc hchain
  have hne : r ≠ ref := by
    rintro rfl
    rw [hisDir] at hfile
    cases hfile
  exact hS.disjoint r ref cs' cs hr hlive howns' howns hne hy hx

/-- A change of clusters that an entry does not own leaves its sectors alone. -/
theorem Touched.sector {e : Slot} {cs : List Nat} {lba : Nat} (h : g.Touched S d d')
    (hS : ∀ y ∈ S, g.InRange y) (howns : g.Owns V e cs) (hx : x ∈ cs) (hnot : x ∉ S)
    (hlba : lba ∈ clusterLbas g.b x) : d' lba = d lba := by
  refine h.sectors lba (.inr (root_lba_le_of_mem (howns.inRange hx) hlba)) fun y hy hlba' => ?_
  obtain rfl := clusterLbas_inj (howns.inRange hx) (hS y hy) hlba hlba'
  exact hnot hy

/-! ## Sector 0 -/

/-- The boot sector is in no cluster. -/
theorem Touched.boot (h : g.Touched S d d') (hS : ∀ x ∈ S, g.InRange x) :
    d' 0 = d 0 := by
  apply h.sectors 0 (.inl g.b.reserved_pos)
  intro x hx hlba
  have hle := root_lba_le_of_mem (hS x hx) hlba
  have := g.b.reserved_pos
  unfold Bpb.root_dir_lba at hle
  omega

theorem IsRef.lba_ne_zero (h : g.IsRef ref) : 0 ≠ ref.lba := by
  have hle := h.1
  have := g.b.reserved_pos
  unfold Bpb.root_dir_lba at hle
  omega

/-! ## Changes that are not seen -/

/-- What happens in clusters that nobody owns is not seen. -/
theorem after_unseen (hN : g.Neat (g.view d)) (h : g.Touched S d d')
    (hS : ∀ x ∈ S, g.InRange x ∧ ¬ g.Owned (g.view d) x)
    (htables : sloppy ∨ ((∀ x, (g.view d').fat x ≠ FAT12_CLUSTER_FREE →
      (g.view d).fat x ≠ FAT12_CLUSTER_FREE) ∧ (g.Mirrored d → g.Mirrored d'))) :
    g.After sloppy named d d' := by
  have hA := h.agree hN.toSound hS (.refl _)
  have hin : ∀ x ∈ S, g.InRange x := fun x hx => (hS x hx).1
  refine ⟨hA.neat hN, fun ref hlive _ => hA.same hN.toSound hlive, ?_, ?_, h.boot hin⟩
  · intro ref cs hlive _ _ howns x hx lba hlba
    exact h.sector hin howns hx (fun hxS => (hS x hxS).2 ⟨ref, cs, hlive, howns, hx⟩) hlba
  · apply htables.imp id
    rintro ⟨hfat, hmirror⟩
    refine ⟨?_, hA.distinct hN.toSound, hmirror⟩
    rintro x ⟨hin, hne, howned⟩
    exact ⟨hin, hfat x hne, fun ho => howned (hA.owned hN.toSound ho)⟩

/-- An owned cluster is not free. -/
theorem Owned.ne_free (h : g.Owned V x) : V.fat x ≠ FAT12_CLUSTER_FREE := by
  obtain ⟨ref, cs, -, howns, hx⟩ := h
  obtain ⟨-, rfl⟩ | ⟨-, hchain⟩ := howns
  · cases hx
  · exact hchain.ne_free hx

theorem freeIn_unowned (h : x ∈ g.FreeIn d) :
    g.InRange x ∧ ¬ g.Owned (g.view d) x := ⟨h.1, fun ho => ho.ne_free h.2⟩

/-! ## A place is rewritten -/

/-- The bytes `e` go to a place, where they are seen as `e'`. -/
theorem after_slot {ref₀ : EntryRef} {e e' : Slot} (hN : g.Neat (g.view d))
    (hdir : g.InDir (g.view d) ref₀)
    (hview : g.view (putEntry d ref₀ e) = (g.view d).setSlot ref₀ e')
    (hneat : g.Neat ((g.view d).setSlot ref₀ e'))
    (hkept : ∀ r, g.LiveEntry (g.view d) r → ¬ named r →
      r ≠ ref₀ ∧ g.LiveEntry ((g.view d).setSlot ref₀ e') r)
    (htables : sloppy ∨ ((∀ x, g.Leak ((g.view d).setSlot ref₀ e') x → g.Leak (g.view d) x) ∧
      (g.Distinct (g.view d) → g.Distinct ((g.view d).setSlot ref₀ e')))) :
    g.After sloppy named d (putEntry d ref₀ e) := by
  have href : g.IsRef ref₀ := hdir.isRef
  rw [← hview] at hneat htables
  refine ⟨hneat, ?_, ?_, ?_, putEntry_other href.lba_ne_zero _⟩
  · intro r hr hnot
    obtain ⟨hne, hlive⟩ := hkept r hr hnot
    rw [hview]
    exact ⟨hlive, Volume.setSlot_ne _ hne _, fun _ h => h⟩
  · intro r cs hlive _ hfile howns x hx lba hlba
    apply putEntry_other
    rintro rfl
    exact hN.toSound.file_lba_ne hdir hlive hfile howns hx hlba
  · exact htables.imp id fun ⟨hleak, hdistinct⟩ => ⟨hleak, hdistinct, mirrored_putEntry href _⟩

/-- An entry and its chain are removed; its slot is dead. -/
theorem after_remove {c₀ : Nat} {refs₀ : List EntryRef} {ref₀ : EntryRef} {cs : List Nat}
    (hR : g.Removal (g.view d) c₀ refs₀ ref₀ ((g.view d).slot ref₀).asDeleted)
    (hlive : ((g.view d).slot ref₀).live = true) (hdots : ((g.view d).slot ref₀).dots = false)
    (howns : g.Owns (g.view d) ((g.view d).slot ref₀) cs) (htouched : g.Touched {x | x ∈ cs}
      (putEntry d ref₀ (slotAt (d ref₀.lba) ref₀.offset).asDeleted) d')
    (htables : sloppy ∨ ((∀ x ∈ cs, (g.view d').fat x = FAT12_CLUSTER_FREE) ∧
      (g.Mirrored (putEntry d ref₀ (slotAt (d ref₀.lba) ref₀.offset).asDeleted) → g.Mirrored d'))) :
    g.After sloppy (· = ref₀) d d' ∧ ((g.view d').slot ref₀).live = false := by
  have href : g.IsRef ref₀ := hR.toPlace.inDir.isRef
  have hview := view_delete (d := d) href
  -- in between the clusters are nobody's
  have hgone : g.After True (· = ref₀) d _ := after_slot hR.neat hR.toPlace.inDir hview hR.after
    (fun r hr hne => ⟨hne, hR.liveEntry_iff.mpr ⟨hr, hne⟩⟩) (.inl trivial)
  have hun : ∀ x ∈ {x | x ∈ cs}, g.InRange x ∧ ¬ g.Owned (g.view (putEntry d ref₀
      (slotAt (d ref₀.lba) ref₀.offset).asDeleted)) x := by
    intro x hx
    rw [hview]
    exact ⟨howns.inRange hx, hR.not_owned hlive hdots howns hx⟩
  have hfreed : g.After True (fun _ => False) _ d' :=
    after_unseen hgone.neat htouched hun (.inl trivial)
  have h := hgone.trans hfreed fun _ hn _ => hn.elim
  have hagree := htouched.agree hgone.neat.toSound hun (.refl _)
  refine ⟨{ h with tables := htables.imp id ?_ }, ?_⟩
  swap
  · have hkept := hR.not_gone_of_entry hR.slots (hR.toPlace.mem_entries hR.neat hlive) hdots
    rw [hagree.slots ref₀, hview, Volume.setSlot_self]
    · exact hR.dead
    · rw [hview]
      exact ⟨c₀, refs₀, hR.liveDir hR.dir hkept, hR.slots, hR.usable.mem⟩
  rintro ⟨hfree, hmirror⟩
  refine ⟨?_, fun hD => ?_, fun hm => hmirror (mirrored_putEntry href _ hm)⟩
  · rintro x ⟨hin, hne, howned⟩
    have hx : x ∉ cs := fun hx => hne (hfree x hx)
    rw [htouched.view_fat (show x ∉ {x | x ∈ cs} from hx), hview] at hne
    refine ⟨hin, hne, ?_⟩
    rintro ⟨r, cs', hr, howns', hx'⟩
    have hrr : r ≠ ref₀ := by
      rintro rfl
      exact hx (howns.unique howns' ▸ hx')
    exact howned ((h.kept r hr hrr).owned howns' hx')
  · apply hagree.distinct hgone.neat.toSound
    rw [hview]
    exact hR.distinct hD

/-! ## An entry is put at a place -/

/-- The places of a volume and of one that agrees with it. -/
theorem Place.agree {c₀ : Nat} {refs₀ : List EntryRef} {ref₀ : EntryRef}
    (h : g.Place V c₀ refs₀ ref₀) (hS : g.Sound V) (hA : g.Agree V V') :
    g.Place V' c₀ refs₀ ref₀ := by
  refine ⟨hA.liveDir hS h.dir, hA.dirRefs hS h.dir h.slots, ?_⟩
  obtain ⟨l, l', hsplit, hl⟩ := h.usable
  refine ⟨l, l', hsplit, fun r hr => ?_⟩
  rw [hA.slots r ⟨c₀, refs₀, h.dir, h.slots, by rw [hsplit]; exact List.mem_append_left _ hr⟩]
  exact hl r hr

section Put

variable {c₀ : Nat} {refs₀ : List EntryRef} {ref₀ : EntryRef} {del e : Slot} {cs : List Nat}
  {d₁ : Disk}

/-- A change of clusters nobody owns, seen past a place that is about to be rewritten. -/
theorem Touched.agree_put (h : g.Touched S d d₁) (href : g.IsRef ref₀) (hclip : del.clip = del)
    (hS : g.Sound ((g.view d).setSlot ref₀ del))
    (hun : ∀ x ∈ S, g.InRange x ∧ ¬ g.Owned ((g.view d).setSlot ref₀ del) x) :
    g.Agree ((g.view d).setSlot ref₀ del) ((g.view d₁).setSlot ref₀ del) := by
  have hview : ∀ d, g.view (putEntry d ref₀ del) = (g.view d).setSlot ref₀ del := by
    intro d
    rw [view_putEntry href, hclip]
  rw [← hview d] at hS hun ⊢
  rw [← hview d₁]
  exact (h.put href del).agree hS hun (.refl _)

/-- A place that holds no entry may be marked deleted. -/
theorem Place.removal (hP : g.Place V c₀ refs₀ ref₀) (hN : g.Neat V)
    (hdead : (V.slot ref₀).live = false) (hdel : del.first = FAT12_ENTRY_DELETED) :
    g.Removal V c₀ refs₀ ref₀ del := by
  refine ⟨hP, hN, hdel, fun hlive => ?_⟩
  rw [hdead] at hlive
  cases hlive

/-- The freed slot can be filled again. -/
theorem Removal.place_after (hR : g.Removal V c₀ refs₀ ref₀ del) :
    g.Place (V.setSlot ref₀ del) c₀ refs₀ ref₀ := by
  have hgone : ¬ Removal.Gone V ref₀ c₀ := by
    rintro ⟨hl, hdots, hisDir, heq⟩
    -- the directory of the place would be in itself
    have hmem := hR.toPlace.mem_entries hR.neat hl
    have hall := hR.hollow hl hdots hisDir refs₀ (heq ▸ hR.slots) ref₀ hmem
    rw [hdots] at hall
    cases hall
  refine ⟨hR.liveDir hR.dir hgone, hR.slots, ?_⟩
  obtain ⟨l, l', hsplit, hl⟩ := hR.usable
  refine ⟨l, l', hsplit, fun r hr => ?_⟩
  have hnd := hR.slots.nodup
  grind [List.nodup_append, List.mem_cons_self, Volume.setSlot_ne]

section

variable (hR : g.Removal (g.view d) c₀ refs₀ ref₀ del)
  (hA : g.Agree ((g.view d).setSlot ref₀ del) ((g.view d₁).setSlot ref₀ del))

include hR hA

/-- An entry comes to a place, from a disk `d₁` that is as `d` was but for the place and
for clusters nobody else owns. -/
theorem insertion_of (hlive : e.live = true) (howns : g.Owns (g.view d₁) e cs) (hfits : g.Fits e cs)
    (hun : ∀ x ∈ cs, ¬ g.Owned ((g.view d).setSlot ref₀ del) x)
    (hempty : e.isDir = true →
      ∀ r ∈ g.chainRefs cs, ((g.view d₁).slot r).first = FAT12_ENTRY_FREE) :
    g.Insertion ((g.view d₁).setSlot ref₀ del) c₀ refs₀ ref₀ e cs := by
  have hN := hR.after
  have hPlace := hR.place_after
  constructor
  · exact hPlace.agree hN.toSound hA
  · exact hA.neat hN
  · rw [Volume.setSlot_self]
    exact hR.dead
  · exact hlive
  · exact fun _ => howns
  · exact fun _ => hfits
  · exact fun x hx ho => hun x hx (hA.owned_back hN.toSound ho)
  · intro hisDir r hr
    have hne : r ≠ ref₀ := by
      rintro rfl
      obtain ⟨x, hx, hlba⟩ := mem_chainRefs hr
      exact hun x hx (hN.owned_of_inDir hPlace.inDir (howns.inRange hx) hlba)
    rw [Volume.setSlot_ne _ hne]
    exact hempty hisDir r hr

/-- A name that no other entry of the directory has is new there after such a change. -/
theorem fresh_of
    (hfresh : ∀ r ∈ (g.view d).entries refs₀, r ≠ ref₀ → ((g.view d).slot r).name ≠ e.name) :
    ∀ r ∈ ((g.view d₁).setSlot ref₀ del).entries refs₀,
      (((g.view d₁).setSlot ref₀ del).slot r).name ≠ e.name := by
  have hPlace := hR.place_after
  intro r hr
  rw [hA.entries hPlace.dir hPlace.slots] at hr
  have hslot := hA.slots r ⟨c₀, refs₀, hPlace.dir, hPlace.slots, (Volume.mem_of_entries hr).1⟩
  have hne := hR.ne_of_entry hR.dir hR.slots hr
  rw [hslot, Volume.setSlot_ne _ hne]
  exact hfresh r
    ((hR.edit.mem_ne hR.dir hR.slots hne).mp hr) hne

end

/-- A slot freed and filled again, with the clusters touched in between: one lemma for every
call that changes an entry. -/
theorem after_put (hR : g.Removal (g.view d) c₀ refs₀ ref₀ del) (hdel : del.clip = del)
    (htouched : g.Touched S d d₁)
    (hun : ∀ x ∈ S, g.InRange x ∧ ¬ g.Owned ((g.view d).setSlot ref₀ del) x)
    (hI : g.Insertion ((g.view d₁).setSlot ref₀ del) c₀ refs₀ ref₀ e cs)
    (hclip : e.clip = e) (hdots : e.dots = false)
    (htables : sloppy ∨ ((∀ x, x ∉ cs → (g.view d₁).fat x ≠ FAT12_CLUSTER_FREE →
        (g.view d).fat x ≠ FAT12_CLUSTER_FREE ∧ ∀ cs', g.LiveEntry (g.view d) ref₀ →
          g.Owns (g.view d) ((g.view d).slot ref₀) cs' → x ∉ cs') ∧
      (∀ r ∈ (g.view d).entries refs₀, r ≠ ref₀ → ((g.view d).slot r).name ≠ e.name) ∧
      (g.Mirrored d → g.Mirrored d₁))) :
    g.After sloppy (· = ref₀) d (putEntry d₁ ref₀ e) := by
  have href : g.IsRef ref₀ := hR.toPlace.inDir.isRef
  have hview : ∀ d, g.view (putEntry d ref₀ del) = (g.view d).setSlot ref₀ del := by
    intro d
    rw [view_putEntry href, hdel]
  have hA := htouched.agree_put href hdel hR.after.toSound hun
  have hnew : g.view (putEntry d₁ ref₀ e) = ((g.view d₁).setSlot ref₀ del).setSlot ref₀ e := by
    rw [view_putEntry href, hclip, Volume.setSlot_setSlot]
  -- as if the place were marked, then the clusters changed, then the entry written
  have h : g.After True (· = ref₀) d (putEntry d₁ ref₀ e) := by
    have hgone : g.After True (· = ref₀) d (putEntry d ref₀ del) :=
      after_slot hR.neat hR.toPlace.inDir (hview d) hR.after
        (fun r hr hne => ⟨hne, hR.liveEntry_iff.mpr ⟨hr, hne⟩⟩) (.inl trivial)
    rw [← hview d] at hun
    have hchanged : g.After True (fun _ => False) _ (putEntry d₁ ref₀ del) :=
      after_unseen hgone.neat (htouched.put href del) hun (.inl trivial)
    have hcomes : g.After True (fun _ => False) (putEntry d₁ ref₀ del) (putEntry d₁ ref₀ e) := by
      rw [← hview d₁] at hI hnew
      rw [← putEntry_putEntry del e] at hnew ⊢
      exact after_slot hI.neat hI.toPlace.inDir hnew hI.after
        (fun r hr _ => ⟨hI.ne_of_live hr, hI.liveEntry_iff.mpr (.inl hr)⟩) (.inl trivial)
    exact (hgone.trans hchanged fun _ hn _ => hn.elim).trans hcomes fun _ hn _ => hn.elim
  refine { h with tables := htables.imp id ?_ }
  rintro ⟨hfat, hfresh, hmirror⟩
  refine ⟨?_, ?_, fun hm => mirrored_putEntry href _ (hmirror hm)⟩
  · rintro x ⟨hin, hne, howned⟩
    rw [hnew] at hne
    have hx : x ∉ cs := by
      intro hx
      rw [hnew] at howned
      exact howned (hI.owned_iff.mpr (.inr ⟨hdots, hx⟩))
    obtain ⟨hne', hold⟩ := hfat x hx hne
    refine ⟨hin, hne', ?_⟩
    rintro ⟨r, cs', hr, howns', hx'⟩
    have hrr : r ≠ ref₀ := by
      rintro rfl
      exact hold cs' hr howns' hx'
    exact howned ((h.kept r hr hrr).owned howns' hx')
  · intro hD
    rw [hnew]
    exact hI.distinct (hA.distinct hR.after.toSound (hR.distinct hD)) (fresh_of hR hA hfresh)

/-- `.` or `..` is put into a directory. -/
theorem after_dots (hI : g.Insertion (g.view d) c₀ refs₀ ref₀ e []) (hclip : e.clip = e)
    (hfresh : ∀ r ∈ (g.view d).entries refs₀, ((g.view d).slot r).name ≠ e.name) :
    g.After sloppy named d (putEntry d ref₀ e) := by
  have hdir := hI.toPlace.inDir
  refine after_slot hI.neat hdir (by rw [view_putEntry hdir.isRef, hclip]) hI.after
    (fun r hr _ => ⟨hI.ne_of_live hr, hI.liveEntry_iff.mpr (.inl hr)⟩)
    (.inr ⟨?_, fun hD => hI.distinct hD hfresh⟩)
  rintro x ⟨hin, hne, howned⟩
  exact ⟨hin, hne, fun ho => howned (hI.owned_iff.mpr (.inl ho))⟩

end Put

end Geometry

end System1.Fat12
