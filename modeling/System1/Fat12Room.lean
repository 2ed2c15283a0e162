/-
Is there room in the tables for every cluster of the device?

`fat12_parse_bpb` takes the sizes of a boot sector one by one and never against each other.
How many clusters there are, `fat12_dev_total_clusters` does not learn from the boot sector
at all: it divides what is left of the device. So a small volume on a large device has
clusters whose entries lie behind the table, in the next copy or in the root directory, and
clusters whose numbers are marks.

Two numbers decide. The last cluster must have a number below 0xFF7, and its entry must lie
in the table (`FatFits`). Then everything is in place, whatever the device answers. If one
of the two fails there is a table in which the offending cluster is the only free one, and on
a device that never fails the allocation returns it.
-/
import System1.Fat12Image
import System1.Fat12Boot

set_option autoImplicit false

namespace System1.Fat12

open System1.Lib Packed12 Prog

/-- A write stays in copy `k` of the table. -/
def InCopy (b : Bpb) (k : Nat) : Req → Prop
  | .read _ => True
  | .write lba _ =>
    b.reserved_sectors + k * b.sectors_per_fat ≤ lba ∧
      lba < b.reserved_sectors + (k + 1) * b.sectors_per_fat

/-- A write stays in the tables. -/
def InTables (b : Bpb) : Req → Prop
  | .read _ => True
  | .write lba _ =>
    b.reserved_sectors ≤ lba ∧ lba < b.reserved_sectors + b.fat_count * b.sectors_per_fat

/-- The number is one of a cluster, and its entry is stored in the tables only, in each copy
in its own place. -/
structure Contained (b : Bpb) (c : Nat) : Prop where
  two_le : 2 ≤ c
  lt_mark : c < 0xFF7
  tables : ∀ value, (fat12_dev_set_fat_entry b c value).Only (InTables b) fun _ => True
  copies : ∀ value, ∀ k < b.fat_count, (setFatCopy b c value k).Only (InCopy b k) fun _ => True

/-- The last cluster of the device has a number below the marks and an entry in the table. -/
def FatFits (b : Bpb) (dev : BlockDevice) : Prop :=
  fat12_dev_total_clusters b dev ≤ 0xFF5 ∧
    (0 < fat12_dev_total_clusters b dev → InTable b (fat12_dev_total_clusters b dev + 1))

instance (b : Bpb) (dev : BlockDevice) : Decidable (FatFits b dev) :=
  inferInstanceAs (Decidable (_ ∧ _))

/-! ## With room -/

section

variable {b : Bpb} {dev : BlockDevice} {c : Nat}

theorem InTable.mono {c' : Nat} (h : InTable b c) (hle : c' ≤ c) : InTable b c' := by
  unfold InTable pos at *
  omega

/-- An entry within the table is stored in its own copy. -/
theorem only_setFatCopy_inCopy (hc : InTable b c) (value : Nat) {k : Nat} (hk : k < b.fat_count) :
    (setFatCopy b c value k).Only (InCopy b k) fun _ => True := by
  obtain ⟨hsector, hnext⟩ := u32_fatLba hk hc.pos_lt
  have hbase : b.reserved_sectors + k * b.sectors_per_fat + pos c / 512 =
      fatLba b k (pos c) := rfl
  have hcopy : ∀ n < b.sectors_per_fat * 512, ∀ r : Req, r.lba = fatLba b k n → InCopy b k r := by
    intro n hn r hr
    have hsucc : (k + 1) * b.sectors_per_fat = k * b.sectors_per_fat + b.sectors_per_fat :=
      Nat.succ_mul _ _
    cases r with
    | read lba => trivial
    | write lba data =>
      have hlba : lba = b.reserved_sectors + k * b.sectors_per_fat + n / 512 := hr
      unfold InCopy
      omega
  apply only_setFatCopy_of
  · rw [u32_pos hc, hbase, hsector]
    exact hcopy _ hc.pos_lt
  · intro h511
    rw [u32_pos hc] at h511 ⊢
    rw [hbase, hsector, hnext, ← (fatLba_succ_of_eq b k h511).1]
    exact hcopy _ hc

/-- A data cluster of the table keeps its entry inside the FAT area. -/
theorem InTable.contained (hc : InTable b c) (h2 : 2 ≤ c) (hlt : c < 0xFF7) : Contained b c where
  two_le := h2
  lt_mark := hlt
  tables := by
    intro value
    apply (only_setFatCopies hc _ (by omega)).weaken
    rintro (lba | ⟨lba, data⟩) hr
    · trivial
    · exact hr
  copies := fun value k hk => only_setFatCopy_inCopy hc value hk

theorem FatFits.only (h : FatFits b dev) :
    (fat12_dev_alloc_cluster b dev).Only (fun _ => True) fun c => c = 0 ∨ Contained b c := by
  apply ((guards_alloc (b := b) dev).weaken fun _ _ => trivial).mono
  rintro c (rfl | ⟨h2, hbacked⟩)
  · exact .inl rfl
  · obtain ⟨hcount, hlast⟩ := h
    exact .inr (((hlast (by omega)).mono (by omega)).contained h2 (by omega))

end

/-! ## Without -/

/-- Nothing of the program is refused by a device with `n` sectors. -/
def Goes {α : Type} (n : Nat) (p : Io α) : Prop :=
  ∀ d, ∃ a d', p.run (sized n) d = (.done a, d')

section

variable {α β : Type} {n : Nat}

theorem Goes.bind {p : Io α} {f : α → Io β} (hp : Goes n p) (hf : ∀ a, Goes n (f a)) :
    Goes n (p >>= f) := by
  intro d
  obtain ⟨a, d', hrun⟩ := hp d
  rw [run_bind_done _ hrun]
  exact hf a d'

theorem goes_read {lba : Nat} (h : lba < n) : Goes n (block_core_read lba) := by
  intro d
  have hrun : (block_core_read lba).run (sized n) d =
      (ofExcept (sized n d (.read lba)).1 : Io Sector).run (sized n)
        (sized n d (.read lba)).2 := rfl
  rw [hrun, sized_eq_perfect d (.inr h)]
  exact ⟨_, _, rfl⟩

theorem run_block_write {lba : Nat} (data : Sector) (h : lba < n) (d : Disk) :
    (block_core_write lba data).run (sized n) d = (.done (), Function.update d lba data) := by
  have hrun : (block_core_write lba data).run (sized n) d =
      (ofExcept (sized n d (.write lba data)).1 : Io Unit).run (sized n)
        (sized n d (.write lba data)).2 := rfl
  rw [hrun, sized_eq_perfect d (.inr h)]
  rfl

theorem goes_write {lba : Nat} (data : Sector) (h : lba < n) :
    Goes n (block_core_write lba data) := fun d => ⟨_, _, run_block_write data h d⟩

theorem Goes.attempt {p : Io α} (hp : Goes n p) (d : Disk) :
    ∃ a d', p.attempt.run (sized n) d = (.done (.ok a), d') := by
  obtain ⟨a, d', hrun⟩ := hp d
  exact ⟨a, d', by rw [run_attempt, hrun]⟩

end

/-- The sector of the entry of `c` in copy `i`. -/
def entrySector (b : Bpb) (i c : Nat) : Nat :=
  u32 (b.reserved_sectors + i * b.sectors_per_fat + u32 (c + c / 2) / 512)

section

variable {b : Bpb} {n c : Nat}

/-- On a device that has both sectors the store goes through. -/
theorem goes_setFatCopy {i : Nat} (value : Nat) (hfirst : entrySector b i c < n)
    (hsecond : u32 (entrySector b i c + 1) < n) : Goes n (setFatCopy b c value i) := by
  apply (goes_read hfirst).bind
  intro work
  split
  · apply (goes_write _ hfirst).bind
    intro _
    apply (goes_read hsecond).bind
    intro next
    exact goes_write _ hsecond
  · exact goes_write _ hfirst

/-- Storing an entry in all copies needs only its sectors on the medium. -/
theorem goes_setFatCopies (value : Nat) {count i : Nat}
    (h : ∀ j < i + count, entrySector b j c < n ∧ u32 (entrySector b j c + 1) < n) :
    Goes n (setFatCopies b c value count i) := by
  induction count generalizing i with
  | zero => exact fun d => ⟨(), d, rfl⟩
  | succ count ih =>
    obtain ⟨hfirst, hsecond⟩ := h i (by omega)
    apply (goes_setFatCopy value hfirst hsecond).bind
    intro _
    exact ih fun j hj => h j (by omega)

/-- The zeroing loop clears its range of sectors and nothing else. -/
theorem run_zeroSectors {lba count idx : Nat} (h : ∀ j < idx + count, u32 (lba + j) < n)
    (d : Disk) : (zeroSectors lba count idx).run (sized n) d =
      (.done (), fun l => if l ∈ lbaRange lba count idx then fun _ => 0 else d l) := by
  induction count generalizing idx d with
  | zero => rfl
  | succ count ih =>
    have hwrite := run_block_write (fun _ => 0) (h idx (by omega)) d
    unfold zeroSectors fat12_dev_zero_sector
    rw [run_bind_done _ hwrite, ih fun j hj => h j (by omega), lbaRange_succ]
    grind

/-- On such a device a cluster can be taken. -/
theorem run_takeCluster
    (hentry : ∀ j < b.fat_count, entrySector b j c < n ∧ u32 (entrySector b j c + 1) < n)
    (hdata : ∀ j < b.sectors_per_cluster, u32 (fat12_cluster_to_lba b c + j) < n) (d : Disk) :
    ∃ d', (takeCluster b c).run (sized n) d = (.done c, d') := by
  have hset : Goes n (fat12_dev_set_fat_entry b c FAT12_CLUSTER_EOC) :=
    goes_setFatCopies _ (by simpa using hentry)
  have hzero : Goes n (zeroSectors (fat12_cluster_to_lba b c) b.sectors_per_cluster 0) :=
    fun d => ⟨_, _, run_zeroSectors (by simpa using hdata) d⟩
  obtain ⟨_, d₁, hset⟩ := hset.attempt d
  obtain ⟨_, d₂, hzero⟩ := hzero.attempt d₁
  refine ⟨d₂, ?_⟩
  unfold takeCluster
  rw [run_bind_done _ hset]
  rw [run_bind_done _ hzero]
  rfl

end

/-! ## A table with one free entry -/

/-- Cluster `c` is free, and no other. -/
def soleFree (b : Bpb) (c : Nat) : Disk := fun lba j =>
  store (fun _ => 0xFF) c 0 ((lba - b.reserved_sectors) * 512 + j)

section

variable {b : Bpb} {dev : BlockDevice} {c x : Nat}

theorem u32_entry (hx : x ≤ 0xFF7) : u32 (x + x / 2) = x + x / 2 := u32_of_lt (by omega)

/-- The two sectors of an entry, without wrapping around. -/
theorem entrySector_eq {i : Nat} (hi : i < b.fat_count) (hx : x ≤ 0xFF7) :
    entrySector b i x = b.reserved_sectors + i * b.sectors_per_fat + (x + x / 2) / 512 ∧
      u32 (entrySector b i x + 1) =
        b.reserved_sectors + i * b.sectors_per_fat + (x + x / 2) / 512 + 1 := by
  have hfats : i * b.sectors_per_fat ≤ 2 ^ 8 * 2 ^ 16 :=
    Nat.mul_le_mul (by have := b.fats_lt; omega) b.spf_lt.le
  have := b.reserved_lt
  have hsector : entrySector b i x =
      b.reserved_sectors + i * b.sectors_per_fat + (x + x / 2) / 512 := by
    unfold entrySector
    rw [u32_entry hx, u32_of_lt (by omega)]
  exact ⟨hsector, by rw [hsector, u32_of_lt (by omega)]⟩

theorem fatEntry_soleFree (hx : x ≤ 0xFF7) :
    fatEntry b (soleFree b c) x = entry (store (fun _ => 0xFF) c 0) x := by
  obtain ⟨hfirst, hsecond⟩ := entrySector_eq (b := b) (i := 0) b.fats_pos hx
  unfold entrySector at hfirst hsecond
  simp only [u32_entry hx, Nat.zero_mul, Nat.add_zero] at hfirst hsecond
  unfold fatEntry
  grind [soleFree, entry, pos, u32_entry]

theorem fatEntry_soleFree_free_iff (hx : x ≤ 0xFF7) :
    fatEntry b (soleFree b c) x = FAT12_CLUSTER_FREE ↔ x = c := by
  rw [fatEntry_soleFree hx]
  grind [decode_eq, FAT12_CLUSTER_FREE, entry, entry_store_ne, entry_store_self]

/-- The scan's bound does not wrap. -/
theorem u32_total_clusters (b : Bpb) (dev : BlockDevice) :
    u32 (fat12_dev_total_clusters b dev + 2) = fat12_dev_total_clusters b dev + 2 := by
  apply u32_of_lt
  have hdata : 3 ≤ b.data_lba := by
    have hmul := Nat.mul_pos b.fats_pos b.spf_pos
    have := b.reserved_pos
    have := b.root_pos
    unfold Bpb.data_lba Bpb.root_dir_lba Bpb.root_dir_sectors
    omega
  have := dev.sector_count_lt
  have := Nat.div_le_self (dev.sector_count - b.data_lba) b.sectors_per_cluster
  unfold fat12_dev_total_clusters
  split <;> omega

section

variable (h : Backed b dev c)

include h

/-- All data clusters lie on the medium. -/
theorem Backed.room : b.data_lba + fat12_dev_total_clusters b dev ≤ dev.sector_count := by
  have htotal := h.2
  unfold fat12_dev_total_clusters at htotal ⊢
  split at htotal
  · omega
  next hsectors =>
  rw [if_neg hsectors]
  have := Nat.div_le_self (dev.sector_count - b.data_lba) b.sectors_per_cluster
  omega

/-- There is room on the device behind every entry of a cluster it has. -/
theorem Backed.entry_lt (hmark : c ≤ 0xFF7) (hx : x ≤ c) {i : Nat} (hi : i < b.fat_count) :
    entrySector b i x < dev.sector_count ∧ u32 (entrySector b i x + 1) < dev.sector_count := by
  have hroom := h.room
  obtain ⟨h2, htotal⟩ := h
  obtain ⟨hfirst, hsecond⟩ := entrySector_eq hi (hx.trans hmark)
  have hcopies : i * b.sectors_per_fat + b.sectors_per_fat ≤ b.fat_count * b.sectors_per_fat := by
    rw [← Nat.succ_mul]
    exact Nat.mul_le_mul_right _ hi
  have hroot : b.reserved_sectors + b.fat_count * b.sectors_per_fat + 1 ≤ b.data_lba := by
    have := b.root_pos
    unfold Bpb.data_lba Bpb.root_dir_lba Bpb.root_dir_sectors
    omega
  have := b.spf_pos
  rw [hsecond, hfirst]
  omega

/-- The sectors of a backed cluster are on the device. -/
theorem Backed.data_lt {j : Nat} (hj : j < b.sectors_per_cluster) :
    u32 (fat12_cluster_to_lba b c + j) < dev.sector_count := by
  rw [cluster_sector_eq h.1 h.2 hj]
  obtain ⟨h2, htotal⟩ := h
  unfold fat12_dev_total_clusters at htotal
  split at htotal
  · omega
  have hmul := Nat.div_mul_le_self (dev.sector_count - b.data_lba) b.sectors_per_cluster
  have hle : (c - 2 + 1) * b.sectors_per_cluster ≤
      (dev.sector_count - b.data_lba) / b.sectors_per_cluster * b.sectors_per_cluster :=
    Nat.mul_le_mul_right _ htotal
  rw [Nat.succ_mul] at hle
  omega

/-- Its entry can be read. -/
theorem Backed.run_get (hmark : c ≤ 0xFF7) (hx : x ≤ c) (d : Disk) :
    (fat12_dev_get_fat_entry b x).run (sized dev.sector_count) d = (.done (fatEntry b d x), d) := by
  obtain ⟨hfirst, hsecond⟩ := h.entry_lt hmark hx b.fats_pos
  unfold entrySector at hfirst hsecond
  rw [Nat.zero_mul, Nat.add_zero] at hfirst hsecond
  have honly : (fat12_dev_get_fat_entry b x).Only (fun r => r.lba < dev.sector_count)
      fun _ => True :=
    only_get_fat_of (fun r hr => by rwa [hr]) fun _ r hr => by rwa [hr]
  rw [honly.run_congr fun s r hr => sized_eq_perfect s (.inr hr)]
  exact (reads_get_fat b d x).run

/-- The search goes past the entries that are taken to the one that is free. -/
theorem Backed.run_allocLoop (hmark : c ≤ 0xFF7) {d : Disk} {count : Nat} (hx : x ≤ c)
    (hcount : c < x + count)
    (htaken : ∀ y, x ≤ y → y < c → fatEntry b d y ≠ FAT12_CLUSTER_FREE)
    (hfree : fatEntry b d c = FAT12_CLUSTER_FREE) :
    (allocLoop b count x).run (sized dev.sector_count) d =
      (takeCluster b c).run (sized dev.sector_count) d := by
  induction count generalizing x with
  | zero => omega
  | succ count ih =>
    unfold allocLoop
    rw [run_bind_done _ (by rw [run_attempt, h.run_get hmark hx])]
    grind

/-- The one free cluster is found and taken. -/
theorem run_alloc_soleFree (hmark : c ≤ 0xFF7) :
    ∃ d', (fat12_dev_alloc_cluster b dev).run (sized dev.sector_count) (soleFree b c) =
      (.done c, d') := by
  have hcount := u32_total_clusters b dev
  unfold fat12_dev_alloc_cluster
  rw [h.run_allocLoop hmark h.1 (by have := h.2; omega)
    (fun y _ hy => mt (fatEntry_soleFree_free_iff (by omega)).mp hy.ne)
    ((fatEntry_soleFree_free_iff hmark).mpr rfl)]
  exact run_takeCluster (fun j hj => h.entry_lt hmark le_rfl hj) (fun j hj => h.data_lt hj) _

end

/-- A table that the entry of `c` does not lie in is left by what is stored there. -/
theorem inTable_of_inCopy (hmark : c ≤ 0xFF7)
    (h : (setFatCopy b c 0 0).Only (InCopy b 0) fun _ => True) : InTable b c := by
  obtain ⟨hfirst, hsecond⟩ := entrySector_eq (i := 0) b.fats_pos hmark
  unfold entrySector at hfirst hsecond
  rw [u32_entry hmark] at hfirst hsecond
  unfold setFatCopy at h
  dsimp only at h
  rw [u32_entry hmark, hsecond, hfirst] at h
  unfold InTable pos
  -- whatever the device answers, the last write has to be in the copy
  by_cases h511 : (c + c / 2) % 512 = 511
  · simp only [if_pos h511] at h
    obtain ⟨-, h⟩ := h
    obtain ⟨-, h⟩ := h (Except.ok fun _ => 0)
    obtain ⟨-, h⟩ := h (Except.ok ())
    obtain ⟨hlast, -⟩ := h (Except.ok fun _ => 0)
    unfold InCopy at hlast
    omega
  · simp only [if_neg h511] at h
    obtain ⟨-, h⟩ := h
    obtain ⟨hlast, -⟩ := h (Except.ok fun _ => 0)
    unfold InCopy at hlast
    omega

/-- Every cluster that `fat12_dev_alloc_cluster` can return has a proper number and an entry
inside the tables exactly if the last cluster of the device has; the device may answer
what it likes, or be one that never fails. -/
theorem alloc_contained_iff (b : Bpb) (dev : BlockDevice) :
    ((fat12_dev_alloc_cluster b dev).Only (fun _ => True) (fun c => c = 0 ∨ Contained b c) ↔
      FatFits b dev) ∧
    ((∀ d c d', (fat12_dev_alloc_cluster b dev).run (sized dev.sector_count) d = (.done c, d') →
      c = 0 ∨ Contained b c) ↔ FatFits b dev) := by
  have hruns : (fat12_dev_alloc_cluster b dev).Only (fun _ => True)
      (fun c => c = 0 ∨ Contained b c) →
      ∀ d c d', (fat12_dev_alloc_cluster b dev).run (sized dev.sector_count) d = (.done c, d') →
        c = 0 ∨ Contained b c := by
    intro h d c d' hrun
    exact h.run (sized dev.sector_count) (congrArg Prod.fst hrun)
  have hfits : (∀ d c d', (fat12_dev_alloc_cluster b dev).run (sized dev.sector_count) d =
      (.done c, d') → c = 0 ∨ Contained b c) → FatFits b dev := by
    intro h
    have hsole : ∀ c, Backed b dev c → c ≤ 0xFF7 → Contained b c := by
      intro c hbacked hmark
      obtain ⟨d', hrun⟩ := run_alloc_soleFree hbacked hmark
      have h2 := hbacked.1
      exact (h _ _ _ hrun).resolve_left (by omega)
    have hcount : fat12_dev_total_clusters b dev ≤ 0xFF5 := by
      by_contra hmany
      have := (hsole 0xFF7 ⟨by omega, by omega⟩ le_rfl).lt_mark
      omega
    refine ⟨hcount, fun hpos => ?_⟩
    have hlast := hsole (fat12_dev_total_clusters b dev + 1) ⟨by omega, by omega⟩ (by omega)
    exact inTable_of_inCopy (by omega) (hlast.copies 0 0 b.fats_pos)
  exact ⟨⟨fun h => hfits (hruns h), FatFits.only⟩, hfits, fun h => hruns h.only⟩

end

/-- The volume with one sector for its table, on a device with 400 clusters behind it. -/
def wideDevice : BlockDevice := ⟨true, true, 512, 403, by decide⟩

/-- Cluster 401 of the small volume has its entry in the root directory. -/
theorem wide_overwrites_root :
    fat12_parse_bpb smallBoot = .ok smallBpb ∧
    (∃ d d', (fat12_dev_alloc_cluster smallBpb wideDevice).run (sized 403) d = (.done 401, d')) ∧
    entrySector smallBpb 0 401 = smallBpb.root_dir_lba ∧ ¬ Contained smallBpb 401 := by
  have hbacked : Backed smallBpb wideDevice 401 := ⟨by decide, by decide⟩
  have hout : ¬ InTable smallBpb 401 := by decide
  refine ⟨smallBoot_parsed, ⟨_, run_alloc_soleFree hbacked (by decide)⟩, by decide, ?_⟩
  intro h
  exact hout (inTable_of_inCopy (by decide) (h.copies 0 0 smallBpb.fats_pos))

end System1.Fat12
