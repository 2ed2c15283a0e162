/-
What a FAT12 volume says: its directory tree and who owns which cluster.

A volume is looked at as two tables, the file allocation table and the 32-byte slots at
their places. Everything else follows from these: a directory is the root or a chain, its
entries are the slots before the first free one that are not stepped over, and the live
directories are those that can be reached from the root. An entry that is not `.` or `..`
owns the chain that starts at its cluster.

`Sound` is what must never be lost: every live entry owns a chain of the length its size
asks for, and no cluster is in two of them. `Neat` adds that nothing comes behind the first
free slot of a directory, and `Wf` that names are unique. A device that fails may make the
driver take a name for a new one, so the last part is kept apart.

The tree is an inductive predicate, so nothing can be said about it by looking at one
directory. What makes it manageable is that it looks at few cells of the two tables. A
change elsewhere leaves it as it is (`Agree`), and the two changes that do matter, taking an
entry out and putting one in, are done once for all operations (`Removal`, `Insertion`).
-/
import System1.Fat12Disk
import System1.Lib.Linked

set_option autoImplicit false

namespace System1.Fat12

open System1.Lib List Function

/-- The table and the slots of a volume. -/
structure Volume where
  fat : Nat → Nat
  slot : EntryRef → Slot

/-- The shape of a volume on its device: there are at most 4084 clusters, and a table has
room for all of them. -/
structure Geometry where
  b : Bpb
  dev : BlockDevice
  small : fat12_dev_total_clusters b dev ≤ 4084
  room : Packed12.pos (fat12_dev_total_clusters b dev + 1) + 2 ≤ b.sectors_per_fat * 512

/-! ## Slots -/

/-- A slot that holds an entry. -/
def Slot.live (e : Slot) : Bool := e.first ≠ FAT12_ENTRY_FREE ∧ e.skipped = false

/-- The entries `.` and `..`. -/
def Slot.dots (e : Slot) : Bool := e.name = dot83 ∨ e.name = dotdot83

variable {ref r : EntryRef} {refs : List EntryRef} {V' : Volume} {e : Slot}

namespace Volume

variable (V : Volume)

/-- The entries among some slots: none comes behind a free slot. -/
def entries (refs : List EntryRef) : List EntryRef :=
  (refs.takeWhile fun r => (V.slot r).first ≠ FAT12_ENTRY_FREE).filter
    fun r => (V.slot r).skipped = false

/-- Nothing comes behind a free slot. -/
def Tidy (refs : List EntryRef) : Prop :=
  refs.Pairwise fun r r' =>
    (V.slot r).first = FAT12_ENTRY_FREE → (V.slot r').first = FAT12_ENTRY_FREE

def setSlot (ref : EntryRef) (e : Slot) : Volume :=
  { V with slot := update V.slot ref e }

def setFat (c value : Nat) : Volume := { V with fat := update V.fat c value }

@[simp] theorem setSlot_self (ref : EntryRef) (e : Slot) : (V.setSlot ref e).slot ref = e :=
  update_self ..

theorem setSlot_ne (h : r ≠ ref) (e : Slot) :
    (V.setSlot ref e).slot r = V.slot r := update_of_ne h ..

@[simp] theorem setSlot_setSlot (ref : EntryRef) (e e' : Slot) :
    (V.setSlot ref e).setSlot ref e' = V.setSlot ref e' := by
  simp [setSlot]

variable {V}

/-- In a tidy directory nothing in use lies behind the first free slot. -/
theorem mem_takeWhile_tidy (h : V.Tidy refs) :
    r ∈ refs.takeWhile (fun r => (V.slot r).first ≠ FAT12_ENTRY_FREE) ↔
      r ∈ refs ∧ (V.slot r).first ≠ FAT12_ENTRY_FREE := by
  induction refs with
  | nil => simp
  | cons r' rest ih =>
    obtain ⟨hfree, hrest⟩ := pairwise_cons.mp h
    by_cases h' : (V.slot r').first = FAT12_ENTRY_FREE
    · -- a free slot: so are all behind it
      simp only [takeWhile_cons, h', ne_eq, not_true_eq_false, decide_false,
        Bool.false_eq_true, if_false, not_mem_nil, false_iff, not_and, not_not]
      grind
    simp only [takeWhile_cons, h', ne_eq, not_false_eq_true, decide_true, if_true,
      mem_cons]
    constructor
    · rintro (rfl | hr)
      · exact ⟨.inl rfl, h'⟩
      · exact ⟨.inr ((ih hrest).mp hr).1, ((ih hrest).mp hr).2⟩
    · rintro ⟨rfl | hr, hne⟩
      · exact .inl rfl
      · exact .inr ((ih hrest).mpr ⟨hr, hne⟩)

/-- In a tidy directory every slot that holds an entry counts. -/
theorem mem_entries_tidy (h : V.Tidy refs) :
    r ∈ V.entries refs ↔ r ∈ refs ∧ (V.slot r).live = true := by
  unfold entries Slot.live
  rw [mem_filter, mem_takeWhile_tidy h]
  simp [and_assoc]

theorem mem_of_entries (h : r ∈ V.entries refs) :
    r ∈ refs ∧ (V.slot r).live = true := by
  obtain ⟨htake, hskip⟩ := mem_filter.mp h
  grind [Slot.live, mem_takeWhile_imp, takeWhile_sublist]

/-- The entries depend on the slots of the directory only. -/
theorem entries_congr (h : ∀ r ∈ refs, V'.slot r = V.slot r) :
    V'.entries refs = V.entries refs := by
  unfold entries
  induction refs with
  | nil => rfl
  | cons r rest ih =>
    have ih := ih fun r' hr' => h r' (mem_cons_of_mem _ hr')
    have hr := h r mem_cons_self
    simp only [takeWhile_cons, hr]
    split
    · simp only [filter_cons, hr, ih]
    · rfl

theorem Tidy.congr (h : V.Tidy refs) (heq : ∀ r ∈ refs, V'.slot r = V.slot r) : V'.Tidy refs := by
  apply List.Pairwise.imp_of_mem _ h
  intro r r' hr hr' hfree
  rwa [heq r hr, heq r' hr']

/-- A place in a directory with no free slot before it. -/
def Usable (V : Volume) (refs : List EntryRef) (ref : EntryRef) : Prop :=
  ∃ l l', refs = l ++ ref :: l' ∧ ∀ r ∈ l, (V.slot r).first ≠ FAT12_ENTRY_FREE

theorem Usable.mem (h : V.Usable refs ref) :
    ref ∈ refs := by
  obtain ⟨l, l', rfl, -⟩ := h
  simp

/-- The scan gets to every entry. -/
theorem usable_of_entries (h : ref ∈ V.entries refs) :
    V.Usable refs ref := by
  obtain ⟨htake, -⟩ := mem_filter.mp h
  obtain ⟨l, l', hsplit⟩ := append_of_mem htake
  refine ⟨l, l' ++ refs.dropWhile fun r => (V.slot r).first ≠ FAT12_ENTRY_FREE, ?_, ?_⟩
  · grind [takeWhile_append_dropWhile, FAT12_ENTRY_FREE]
  · intro r hr
    have hmem : r ∈ refs.takeWhile fun r => (V.slot r).first ≠ FAT12_ENTRY_FREE := by
      rw [hsplit]
      exact mem_append_left _ hr
    simpa using mem_takeWhile_imp hmem

/-- Such a place can be used without anything coming behind a free slot. -/
theorem Tidy.setSlot (h : V.Tidy refs) (hnd : refs.Nodup) (huse : V.Usable refs ref)
    (he : e.first ≠ FAT12_ENTRY_FREE) :
    (V.setSlot ref e).Tidy refs := by
  obtain ⟨l, l', rfl, hl⟩ := huse
  obtain ⟨hpre, hrest, hcross⟩ := pairwise_append.mp h
  obtain ⟨-, hpost⟩ := pairwise_cons.mp hrest
  obtain ⟨hne, hne'⟩ : ref ∉ l ∧ ref ∉ l' := by grind
  have hold : ∀ r ∈ l, (V.setSlot ref e).slot r = V.slot r := by
    intro r hr
    exact setSlot_ne V (ne_of_mem_of_not_mem hr hne) e
  have hold' : ∀ r ∈ l', (V.setSlot ref e).slot r = V.slot r := by
    intro r hr
    exact setSlot_ne V (ne_of_mem_of_not_mem hr hne') e
  apply pairwise_append.mpr
  refine ⟨Tidy.congr hpre hold, pairwise_cons.mpr ⟨?_, Tidy.congr hpost hold'⟩, ?_⟩
  · simp_all
  · grind

end Volume

/-! ## Places -/

variable {c lba x : Nat} {cs : List Nat} {fat : Nat → Nat}

namespace Geometry

variable (g : Geometry)

def count : Nat := fat12_dev_total_clusters g.b g.dev

/-- A cluster of the volume. -/
def InRange (c : Nat) : Prop := 2 ≤ c ∧ c < g.count + 2

instance (c : Nat) : Decidable (g.InRange c) := inferInstanceAs (Decidable (_ ∧ _))

def Chain (fat : Nat → Nat) (c : Nat) (cs : List Nat) : Prop :=
  Linked.Chain fat g.InRange (CHAIN_END ≤ ·) c cs

def rootRefs : List EntryRef := refsOf (rootLbas g.b)

def chainRefs (cs : List Nat) : List EntryRef := refsOf (cs.flatMap (clusterLbas g.b))

variable {g}

section

variable (h : g.InRange c)

include h

theorem InRange.not_ends : ¬ CHAIN_END ≤ c := by
  have := g.small
  obtain ⟨-, hlt⟩ := h
  unfold count at hlt
  unfold CHAIN_END
  omega

theorem InRange.lt_chain_end : c < CHAIN_END :=
  Nat.lt_of_not_le h.not_ends

theorem InRange.lt_4096 : c < 4096 := h.lt_chain_end.trans (by decide)

/-- The sectors of a cluster of the volume. -/
theorem InRange.sector_eq {i : Nat} (hi : i < g.b.sectors_per_cluster) :
    u32 (fat12_cluster_to_lba g.b c + (0 + i)) =
      g.b.data_lba + (c - 2) * g.b.sectors_per_cluster + i := by
  obtain ⟨h2, hlt⟩ := h
  have htotal : c - 2 < fat12_dev_total_clusters g.b g.dev := by
    unfold count at hlt
    omega
  rw [Nat.zero_add]
  exact cluster_sector_eq h2 htotal hi

/-- The sectors of a cluster. -/
theorem mem_clusterLbas :
    lba ∈ clusterLbas g.b c ↔ ∃ i < g.b.sectors_per_cluster,
      lba = g.b.data_lba + (c - 2) * g.b.sectors_per_cluster + i := by
  unfold clusterLbas lbaRange
  simp only [mem_map, mem_range]
  constructor
  · rintro ⟨i, hi, rfl⟩
    exact ⟨i, hi, h.sector_eq hi⟩
  · rintro ⟨i, hi, rfl⟩
    exact ⟨i, hi, h.sector_eq hi⟩

/-- A data sector belongs to one cluster. -/
theorem clusterLbas_inj {c' : Nat} (h' : g.InRange c') (hlba : lba ∈ clusterLbas g.b c)
    (hlba' : lba ∈ clusterLbas g.b c') : c = c' := by
  obtain ⟨i, hi, rfl⟩ := (mem_clusterLbas h).mp hlba
  obtain ⟨i', hi', heq⟩ := (mem_clusterLbas h').mp hlba'
  have h2 := h.1
  have h2' := h'.1
  have hdiv : c - 2 = c' - 2 := quotient_unique hi hi' (by omega)
  omega

theorem data_lba_le_of_mem (hlba : lba ∈ clusterLbas g.b c) :
    g.b.data_lba ≤ lba := by
  obtain ⟨i, -, rfl⟩ := (mem_clusterLbas h).mp hlba
  omega

theorem root_lba_le_of_mem (hlba : lba ∈ clusterLbas g.b c) : g.b.root_dir_lba ≤ lba :=
  (Nat.le_add_right _ _).trans (data_lba_le_of_mem h hlba)

theorem clusterLbas_nodup : (clusterLbas g.b c).Nodup := by
  apply List.Nodup.map_on _ nodup_range
  intro i hi j hj hij
  rw [h.sector_eq (mem_range.mp hi), h.sector_eq (mem_range.mp hj)] at hij
  omega

end

/-- The sectors of the root directory. -/
theorem mem_rootLbas :
    lba ∈ rootLbas g.b ↔ g.b.root_dir_lba ≤ lba ∧ lba < g.b.data_lba := by
  have hlba : ∀ i < g.b.root_dir_sectors, u32 (g.b.root_dir_lba + (0 + i)) =
      g.b.root_dir_lba + i := by
    intro i hi
    have := g.b.data_lba_le
    unfold Bpb.data_lba at this
    rw [Nat.zero_add]
    exact u32_of_lt (by omega)
  unfold rootLbas lbaRange Bpb.data_lba
  simp only [mem_map, mem_range]
  constructor
  · rintro ⟨i, hi, rfl⟩
    rw [hlba i hi]
    omega
  · rintro ⟨hle, hlt⟩
    refine ⟨lba - g.b.root_dir_lba, by omega, ?_⟩
    rw [hlba _ (by omega)]
    omega

theorem rootRefs_nodup : g.rootRefs.Nodup := by
  apply refsOf_nodup
  apply lbaRange_nodup
  have := g.b.data_lba_le
  unfold Bpb.data_lba at this
  omega

/-- Clusters do not overlap, so the slots of a chain are distinct. -/
theorem chainRefs_nodup (hcs : ∀ c ∈ cs, g.InRange c) (hnd : cs.Nodup) :
    (g.chainRefs cs).Nodup := by
  apply refsOf_nodup
  rw [nodup_flatMap]
  refine ⟨fun c hc => clusterLbas_nodup (hcs c hc), ?_⟩
  apply List.Pairwise.imp_of_mem _ hnd
  intro c c' hc hc' hne lba hlba hlba'
  exact hne (clusterLbas_inj (hcs c hc) (hcs c' hc') hlba hlba')

theorem mem_chainRefs (h : ref ∈ g.chainRefs cs) :
    ∃ c ∈ cs, ref.lba ∈ clusterLbas g.b c :=
  mem_flatMap.mp (mem_refsOf.mp h).1

/-! ## Chains -/

section

variable (h : g.Chain fat c cs)

include h

theorem Chain.inRange (hx : x ∈ cs) :
    g.InRange x := Linked.Chain.cell_of_mem h hx

theorem Chain.unique {cs' : List Nat} (h' : g.Chain fat c cs') :
    cs = cs' := Linked.Chain.unique (fun _ => InRange.not_ends) h h'

theorem Chain.nodup :
    cs.Nodup := Linked.Chain.nodup (fun _ => InRange.not_ends) h

theorem Chain.congr {fat' : Nat → Nat} (heq : ∀ x ∈ cs, fat' x = fat x) :
    g.Chain fat' c cs := Linked.Chain.congr h heq

theorem Chain.length_le :
    cs.length ≤ 4084 := by
  have hlen : cs.length ≤ g.count :=
    Linked.Chain.length_le (fun _ => InRange.not_ends)
      (fun x hx => ⟨hx.1, by have := hx.2; omega⟩) h
  exact hlen.trans g.small

/-- A cluster of a chain is not free. -/
theorem Chain.ne_free (hx : x ∈ cs) : fat x ≠ FAT12_CLUSTER_FREE := by
  intro hfree
  obtain ⟨h2, -⟩ | hends := Linked.Chain.next_of_mem h hx
  · rw [hfree] at h2
    exact absurd h2 (by decide)
  · rw [hfree] at hends
    exact absurd hends (by decide)

theorem Chain.head_mem (hne : cs ≠ []) : c ∈ cs := by
  cases h with
  | nil _ => exact absurd rfl hne
  | cons _ _ => exact mem_cons_self

end

theorem not_chain_zero (h : g.Chain fat 0 cs) : False := by
  cases h with
  | nil h => exact absurd h (by decide)
  | cons h _ => exact absurd h.1 (by decide)

/-! ## The tree -/

variable (g)

/-- The slots of the directory that starts at `c`, in order. -/
def DirRefs (V : Volume) (c : Nat) (refs : List EntryRef) : Prop :=
  (c = 0 ∧ refs = g.rootRefs) ∨
    ∃ cs, cs ≠ [] ∧ g.Chain V.fat c cs ∧ refs = g.chainRefs cs

/-- The directories that can be reached from the root. -/
inductive LiveDir (V : Volume) : Nat → Prop
  | root : LiveDir V 0
  | sub {c : Nat} {refs : List EntryRef} {ref : EntryRef} (hdir : LiveDir V c)
      (hrefs : g.DirRefs V c refs) (hmem : ref ∈ V.entries refs)
      (hdots : (V.slot ref).dots = false) (hisDir : (V.slot ref).isDir = true) :
      LiveDir V (V.slot ref).cluster

/-- An entry of one of them, other than `.` and `..`. -/
def LiveEntry (V : Volume) (ref : EntryRef) : Prop :=
  ∃ c refs, g.LiveDir V c ∧ g.DirRefs V c refs ∧ ref ∈ V.entries refs ∧ (V.slot ref).dots = false

variable {g} in
theorem not_liveEntry {V : Volume} {ref : EntryRef} (hdead : (V.slot ref).live = false) :
    ¬ g.LiveEntry V ref := by
  rintro ⟨_, _, -, -, hmem, -⟩
  rw [(Volume.mem_of_entries hmem).2] at hdead
  cases hdead

/-- The chain of an entry; an empty file has cluster 0. -/
def Owns (V : Volume) (e : Slot) (cs : List Nat) : Prop :=
  (e.cluster = 0 ∧ cs = []) ∨ (cs ≠ [] ∧ g.Chain V.fat e.cluster cs)

def clusterBytes : Nat := 512 * g.b.sectors_per_cluster

/-- A directory has at least one cluster, a file as many as its bytes need. -/
def Fits (e : Slot) (cs : List Nat) : Prop :=
  if e.isDir then cs ≠ [] else cs.length = (e.size + g.clusterBytes - 1) / g.clusterBytes

/-- Every live entry has its chain, and no cluster is in two of them. -/
structure Sound (V : Volume) : Prop where
  owns : ∀ ref, g.LiveEntry V ref → ∃ cs, g.Owns V (V.slot ref) cs ∧ g.Fits (V.slot ref) cs
  disjoint : ∀ ref ref' cs cs', g.LiveEntry V ref → g.LiveEntry V ref' →
    g.Owns V (V.slot ref) cs → g.Owns V (V.slot ref') cs' → ref ≠ ref' → cs.Disjoint cs'

/-- In no live directory does anything come behind a free slot. -/
structure Neat (V : Volume) : Prop extends Sound g V where
  tidy : ∀ c refs, g.LiveDir V c → g.DirRefs V c refs → V.Tidy refs

/-- No two entries of a live directory have one name. -/
def Distinct (V : Volume) : Prop :=
  ∀ c refs ref ref', g.LiveDir V c → g.DirRefs V c refs → ref ∈ V.entries refs →
    ref' ∈ V.entries refs → (V.slot ref).name = (V.slot ref').name → ref = ref'

/-- A well-formed volume. -/
structure Wf (V : Volume) : Prop extends Neat g V where
  names : g.Distinct V

/-- A cluster in the chain of a live entry. -/
def Owned (V : Volume) (x : Nat) : Prop :=
  ∃ ref cs, g.LiveEntry V ref ∧ g.Owns V (V.slot ref) cs ∧ x ∈ cs

/-- A slot of a live directory. -/
def InDir (V : Volume) (ref : EntryRef) : Prop :=
  ∃ c refs, g.LiveDir V c ∧ g.DirRefs V c refs ∧ ref ∈ refs

variable {g} {V : Volume}

/-- An entry owns one chain. -/
theorem Owns.unique {cs' : List Nat} (h : g.Owns V e cs) (h' : g.Owns V e cs') :
    cs = cs' := by
  obtain ⟨hzero, rfl⟩ | ⟨hne, hchain⟩ := h
  · obtain ⟨-, rfl⟩ | ⟨hne', hchain'⟩ := h'
    · rfl
    · rw [hzero] at hchain'
      exact (not_chain_zero hchain').elim
  obtain ⟨hzero, -⟩ | ⟨hne', hchain'⟩ := h'
  · rw [hzero] at hchain
    exact (not_chain_zero hchain).elim
  · exact hchain.unique hchain'

theorem Owns.inRange (h : g.Owns V e cs) (hx : x ∈ cs) :
    g.InRange x := by
  obtain ⟨-, rfl⟩ | ⟨-, hchain⟩ := h
  · cases hx
  · exact hchain.inRange hx

theorem Owns.congr (h : g.Owns V e cs) (heq : ∀ x ∈ cs, V'.fat x = V.fat x) : g.Owns V' e cs := by
  obtain h | ⟨hne, hchain⟩ := h
  · exact .inl h
  · exact .inr ⟨hne, hchain.congr heq⟩

/-- A directory has one list of slots. -/
theorem DirRefs.unique {refs' : List EntryRef} (h : g.DirRefs V c refs) (h' : g.DirRefs V c refs') :
    refs = refs' := by
  obtain ⟨rfl, rfl⟩ | ⟨cs, -, hchain, rfl⟩ := h
  · obtain ⟨-, rfl⟩ | ⟨cs', -, hchain', -⟩ := h'
    · rfl
    · exact (not_chain_zero hchain').elim
  obtain ⟨rfl, -⟩ | ⟨cs', -, hchain', rfl⟩ := h'
  · exact (not_chain_zero hchain).elim
  · rw [hchain.unique hchain']

theorem DirRefs.nodup (h : g.DirRefs V c refs) :
    refs.Nodup := by
  obtain ⟨-, rfl⟩ | ⟨cs, -, hchain, rfl⟩ := h
  · exact rootRefs_nodup
  · exact chainRefs_nodup (fun _ => hchain.inRange) hchain.nodup

theorem LiveEntry.inDir (h : g.LiveEntry V ref) : g.InDir V ref := by
  obtain ⟨c, refs, hdir, hrefs, hmem, -⟩ := h
  exact ⟨c, refs, hdir, hrefs, (Volume.mem_of_entries hmem).1⟩

/-- A live directory other than the root has an entry. -/
theorem LiveDir.entry (h : g.LiveDir V c) :
    c = 0 ∨ ∃ ref, g.LiveEntry V ref ∧ (V.slot ref).isDir = true ∧ (V.slot ref).cluster = c := by
  cases h with
  | root => exact .inl rfl
  | @sub c refs ref hdir hrefs hmem hdots hisDir =>
    exact .inr ⟨ref, ⟨c, refs, hdir, hrefs, hmem, hdots⟩, hisDir, rfl⟩

/-- A live directory of a sound volume has slots. -/
theorem Sound.dirRefs (h : g.Sound V) (hdir : g.LiveDir V c) :
    ∃ refs, g.DirRefs V c refs := by
  obtain rfl | ⟨ref, hlive, hisDir, rfl⟩ := hdir.entry
  · exact ⟨_, .inl ⟨rfl, rfl⟩⟩
  obtain ⟨cs, howns, hfits⟩ := h.owns ref hlive
  unfold Fits at hfits
  rw [if_pos hisDir] at hfits
  obtain ⟨-, rfl⟩ | ⟨hne, hchain⟩ := howns
  · exact absurd rfl hfits
  · exact ⟨_, .inr ⟨cs, hne, hchain, rfl⟩⟩

/-- The clusters of a live directory are owned by its entry. -/
theorem Sound.dir_owned (h : g.Sound V) (hdir : g.LiveDir V c) (hchain : g.Chain V.fat c cs) :
    ∃ ref, g.LiveEntry V ref ∧ (V.slot ref).isDir = true ∧
      (V.slot ref).cluster = c ∧ g.Owns V (V.slot ref) cs := by
  obtain rfl | ⟨ref, hlive, hisDir, rfl⟩ := hdir.entry
  · exact (not_chain_zero hchain).elim
  obtain ⟨cs', howns, hfits⟩ := h.owns ref hlive
  unfold Fits at hfits
  rw [if_pos hisDir] at hfits
  obtain ⟨-, rfl⟩ | ⟨hne, hchain'⟩ := howns
  · exact absurd rfl hfits
  · obtain rfl := hchain.unique hchain'
    exact ⟨ref, hlive, hisDir, rfl, .inr ⟨hne, hchain⟩⟩

/-- A slot of a live directory that is in a data sector is in an owned cluster. -/
theorem Sound.owned_of_inDir (h : g.Sound V) (href : g.InDir V ref) (hx : g.InRange x)
    (hlba : ref.lba ∈ clusterLbas g.b x) : g.Owned V x := by
  obtain ⟨c, refs, hdir, hrefs, hmem⟩ := href
  obtain ⟨-, rfl⟩ | ⟨cs, -, hchain, rfl⟩ := hrefs
  · have hlt := (mem_rootLbas.mp (mem_refsOf.mp hmem).1).2
    exact absurd (data_lba_le_of_mem hx hlba) (by omega)
  obtain ⟨y, hy, hlba'⟩ := mem_chainRefs hmem
  obtain rfl := clusterLbas_inj hx (hchain.inRange hy) hlba hlba'
  obtain ⟨ref', hlive, -, -, howns⟩ := h.dir_owned hdir hchain
  exact ⟨ref', cs, hlive, howns, hy⟩

/-- A place is in one live directory only. -/
theorem Sound.dir_unique (h : g.Sound V) {c' : Nat} {refs' : List EntryRef} (hdir : g.LiveDir V c)
    (hdir' : g.LiveDir V c') (hrefs : g.DirRefs V c refs) (hrefs' : g.DirRefs V c' refs')
    (hmem : ref ∈ refs) (hmem' : ref ∈ refs') : c = c' := by
  obtain ⟨rfl, rfl⟩ | ⟨cs, -, hchain, rfl⟩ := hrefs
  · obtain ⟨rfl, -⟩ | ⟨cs', -, hchain', rfl⟩ := hrefs'
    · rfl
    obtain ⟨x, hx, hlba⟩ := mem_chainRefs hmem'
    have hlt := (mem_rootLbas.mp (mem_refsOf.mp hmem).1).2
    exact absurd (data_lba_le_of_mem (hchain'.inRange hx) hlba) (by omega)
  obtain ⟨x, hx, hlba⟩ := mem_chainRefs hmem
  obtain ⟨rfl, rfl⟩ | ⟨cs', -, hchain', rfl⟩ := hrefs'
  · have hlt := (mem_rootLbas.mp (mem_refsOf.mp hmem').1).2
    exact absurd (data_lba_le_of_mem (hchain.inRange hx) hlba) (by omega)
  -- both chains have the cluster, so they belong to the same entry
  obtain ⟨y, hy, hlba'⟩ := mem_chainRefs hmem'
  obtain rfl := clusterLbas_inj (hchain.inRange hx) (hchain'.inRange hy) hlba hlba'
  obtain ⟨r, hlive, -, rfl, howns⟩ := h.dir_owned hdir hchain
  obtain ⟨r', hlive', -, rfl, howns'⟩ := h.dir_owned hdir' hchain'
  by_cases hrr : r = r'
  · rw [hrr]
  · exact (h.disjoint r r' cs cs' hlive hlive' howns howns' hrr hx hy).elim

end Geometry

end System1.Fat12
