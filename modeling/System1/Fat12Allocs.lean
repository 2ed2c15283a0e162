/-
What an allocation does to a volume that never fails.

`fat12_dev_alloc_cluster` is followed exactly, on a device of the size the volume was made
for. The search reads and nothing else; it ends at the first free entry or behind the last
cluster. The cluster it ends at is marked in every copy of the table and its sectors are
cleared, and no other bit of the device is different afterwards. That nothing is written when
there is nothing to take needs a device that notes what it is told to write, since a sector
can be written with what it holds.
-/
import System1.Fat12Room

set_option autoImplicit false

namespace System1.Fat12

open System1.Lib Function Packed12 Prog

variable {b : Bpb} {dev : BlockDevice} {c x n : Nat} {d : Disk}

/-! ## A device that notes the writes -/

/-- The device of `sized`, and the sectors it has been told to write. -/
def noted (sector_count : Nat) (s : Disk × List Nat) : (r : Req) → Resp r × (Disk × List Nat)
  | .read lba => ((sized sector_count s.1 (.read lba)).1, s)
  | .write lba data =>
    let (answer, d) := sized sector_count s.1 (.write lba data)
    (answer, d, s.2 ++ [lba])

section

variable {α : Type}

/-- Noting the writes changes neither the outcome nor the medium. -/
theorem run_noted (p : Io α) (s : Disk × List Nat) :
    ((p.run (noted n) s).1, (p.run (noted n) s).2.1) = p.run (sized n) s.1 := by
  induction p generalizing s with
  | done | fail | spin => rfl
  | call r k ih =>
    have hstate : (noted n s r).1 = (sized n s.1 r).1 ∧ (noted n s r).2.1 = (sized n s.1 r).2 := by
      cases r with
      | read lba =>
        refine ⟨rfl, ?_⟩
        rw [sized_read]
        split <;> rfl
      | write lba data => exact ⟨rfl, rfl⟩
    rw [run_call, run_call, ih, hstate.1, hstate.2]

/-- A program that only reads adds nothing to the notes. -/
theorem Looks.run_noted {p : Io α} (hp : Looks p) (s : Disk × List Nat) :
    p.run (noted n) s = ((p.run (sized n) s.1).1, s) := by
  induction p generalizing s with
  | done | fail | spin => rfl
  | call r k ih =>
    obtain ⟨⟨lba, rfl⟩, hk⟩ := hp
    have hstate : (sized n s.1 (.read lba)).2 = s.1 := by
      rw [sized_read]
      split <;> rfl
    rw [run_call, run_call, hstate]
    exact ih _ (hk _) s

end

/-! ## Taking a cluster -/

/-- The disk with cluster `c` at the end of a chain and cleared. -/
def withCluster (b : Bpb) (d : Disk) (c : Nat) : Disk := fun lba =>
  if lba ∈ clusterLbas b c then fun _ => 0 else withEntry b d c FAT12_CLUSTER_EOC lba

/-- Taking a backed cluster writes its table entry and clears its sectors. -/
theorem Backed.run_take (h : Backed b dev c) (hc : InTable b c) (d : Disk) :
    (takeCluster b c).run (sized dev.sector_count) d = (.done c, withCluster b d c) := by
  have honly : (fat12_dev_set_fat_entry b c FAT12_CLUSTER_EOC).Only (ToTables b) fun _ => True :=
    only_setFatCopies hc _ (Nat.zero_add b.fat_count).le
  have hroot : b.root_dir_lba ≤ dev.sector_count :=
    (Nat.le_add_right _ _).trans ((Nat.le_add_right _ _).trans h.room)
  have hset := run_sized honly (.inr hroot) d
  rw [(run_set_fat_entry hc _).1] at hset
  have hzero := @run_zeroSectors _ (fat12_cluster_to_lba b c) b.sectors_per_cluster 0
    (fun j hj => h.data_lt (by omega)) (withEntry b d c FAT12_CLUSTER_EOC)
  unfold takeCluster
  rw [run_bind_done _ (by rw [run_attempt, hset])]
  dsimp only
  rw [run_bind_done _ (by rw [run_attempt, hzero])]
  rfl

/-- The cluster is at the end of a chain in every copy of the table, its sectors are cleared,
and no other bit has changed. -/
structure ClusterTaken (b : Bpb) (c : Nat) (d d' : Disk) : Prop where
  eoc : ∀ i < b.fat_count, entry (fatByte b d' i) c = 0xFFF
  cleared : ∀ lba ∈ clusterLbas b c, d' lba = fun _ => 0
  bits : ∀ lba, lba ∉ clusterLbas b c → ∀ j < 512, ∀ k, ¬ TableBit b c (lba * 512 + j) k →
    (d' lba j).toNat.testBit k = (d lba j).toNat.testBit k

/-- What `withCluster` makes of the medium is what taking the cluster means. -/
theorem Backed.taken (h : Backed b dev c) (hc : InTable b c) (d : Disk) :
    ClusterTaken b c d (withCluster b d c) := by
  have hstored := (run_set_fat_entry (d := d) hc FAT12_CLUSTER_EOC).2
  constructor
  · intro i hi
    -- the sectors of a cluster are behind the tables
    have hout : ∀ n < b.sectors_per_fat * 512, fatLba b i n ∉ clusterLbas b c := by
      intro n hn hmem
      obtain ⟨j, hj, hlba⟩ := List.mem_map.mp hmem
      have hlt := (fatLba_lt hi hn).2
      rw [Nat.zero_add, cluster_sector_eq h.1 h.2 (List.mem_range.mp hj)] at hlba
      unfold Bpb.data_lba at hlba
      omega
    have hbytes : ∀ n < b.sectors_per_fat * 512, fatByte b (withCluster b d c) i n =
        store (fatByte b d i) c (FAT12_CLUSTER_EOC % 4096) n := by
      intro n hn
      rw [← hstored.fat_eq hi hn]
      unfold fatByte withCluster
      rw [if_neg (hout n hn)]
    rw [entry_congr hc hbytes]
    exact entry_store_self _ (by decide)
  · exact fun lba hlba => if_pos hlba
  · intro lba hlba j hj k hbit
    have hbits := hstored.bits hbit
    unfold flat at hbits
    rw [show (lba * 512 + j) / 512 = lba by omega, show (lba * 512 + j) % 512 = j by omega] at hbits
    rw [withCluster, if_neg hlba, hbits]

/-! ## The search -/

/-- The device has the cluster and its entry in the first table says that it is free. -/
def FreeCluster (b : Bpb) (dev : BlockDevice) (d : Disk) (c : Nat) : Prop :=
  Backed b dev c ∧ fatEntry b d c = FAT12_CLUSTER_FREE

/-- With no free cluster the scan runs to its end and answers 0, writing nothing. -/
theorem run_allocLoop_none (hfits : FatFits b dev) {count : Nat} (h2 : 2 ≤ x)
    (hcount : x + count = fat12_dev_total_clusters b dev + 2)
    (hnone : ∀ c, ¬ FreeCluster b dev d c) (written : List Nat) :
    (allocLoop b count x).run (noted dev.sector_count) (d, written) = (.done 0, d, written) := by
  induction count generalizing x with
  | zero => rfl
  | succ count ih =>
    have hbacked : Backed b dev x := ⟨h2, by omega⟩
    have hget := (looks_get_fat b x).run_noted (n := dev.sector_count) (d, written)
    rw [hbacked.run_get (by have := hfits.1; omega) le_rfl] at hget
    unfold allocLoop
    rw [run_bind_done _ (by rw [run_attempt, hget])]
    dsimp only
    rw [if_neg fun hfree => hnone x ⟨hbacked, hfree⟩]
    exact ih (by omega) (by omega)

/-- On a device that does not fail and whose clusters all have their entries in the table,
`fat12_dev_alloc_cluster` returns 0 and writes nothing if no cluster is free, and otherwise
takes the first free one. -/
theorem alloc_cluster_exact (hfits : FatFits b dev) (d : Disk) :
    ((∀ c, ¬ FreeCluster b dev d c) ∧
      (fat12_dev_alloc_cluster b dev).run (noted dev.sector_count) (d, []) = (.done 0, d, [])) ∨
    ∃ c, FreeCluster b dev d c ∧ (∀ x < c, ¬ FreeCluster b dev d x) ∧ ∃ d' written,
      (fat12_dev_alloc_cluster b dev).run (noted dev.sector_count) (d, []) =
        (.done c, d', written) ∧ ClusterTaken b c d d' := by
  classical
  have hcount := u32_total_clusters b dev
  by_cases hfree : ∃ c, FreeCluster b dev d c
  swap
  · have hnone := not_exists.mp hfree
    refine .inl ⟨hnone, ?_⟩
    unfold fat12_dev_alloc_cluster
    exact run_allocLoop_none hfits le_rfl (by omega) hnone []
  obtain ⟨c, ⟨hbacked, hentry⟩, hleast⟩ :
      ∃ c, FreeCluster b dev d c ∧ ∀ x < c, ¬ FreeCluster b dev d x :=
    ⟨Nat.find hfree, Nat.find_spec hfree, fun _ => Nat.find_min hfree⟩
  obtain ⟨h2, htotal⟩ := hbacked
  have hmark : c ≤ 0xFF7 := by have := hfits.1; omega
  have hc : InTable b c := (hfits.2 (by omega)).mono (by omega)
  have hrun : (fat12_dev_alloc_cluster b dev).run (sized dev.sector_count) d =
      (.done c, withCluster b d c) := by
    unfold fat12_dev_alloc_cluster
    rw [Backed.run_allocLoop ⟨h2, htotal⟩ hmark h2 (by omega)
      (fun y hy hlt h => hleast y hlt ⟨⟨hy, by omega⟩, h⟩) hentry]
    exact Backed.run_take ⟨h2, htotal⟩ hc d
  refine .inr ⟨c, ⟨⟨h2, htotal⟩, hentry⟩, hleast, withCluster b d c, ?_⟩
  have hnoted := run_noted (n := dev.sector_count) (fat12_dev_alloc_cluster b dev) (d, [])
  rw [hrun] at hnoted
  obtain ⟨hfst, hsnd⟩ := Prod.ext_iff.mp hnoted
  exact ⟨_, Prod.ext hfst (Prod.ext hsnd rfl), Backed.taken ⟨h2, htotal⟩ hc d⟩

/-- A floppy with nothing on it: the first cluster is taken. -/
theorem alloc_on_empty_floppy :
    ∃ d' written, (fat12_dev_alloc_cluster floppy ⟨true, true, 512, 2880, by decide⟩).run
      (noted 2880) (fun _ _ => 0, []) = (.done 2, d', written) ∧
        ClusterTaken floppy 2 (fun _ _ => 0) d' := by
  have hfree : FreeCluster floppy ⟨true, true, 512, 2880, by decide⟩ (fun _ _ => 0) 2 :=
    ⟨⟨by decide, by decide⟩, by decide⟩
  obtain ⟨hnone, -⟩ | ⟨c, ⟨⟨h2, -⟩, -⟩, hleast, hrun⟩ :=
    @alloc_cluster_exact floppy ⟨true, true, 512, 2880, by decide⟩ (by decide) fun _ _ => 0
  · exact absurd hfree (hnone 2)
  · grind

end System1.Fat12
