/-
Reading a file: the two loops of the FAT12 driver against the bytes of a chain.

`fat12_read_file` walks a chain from its start; `fat12_read` first steps over the clusters
before an offset, then over sectors, and then starts in the middle of one. Both end in the
same loop over the clusters, which carries an offset that is used up in the first of them.

`byteAt c p` is the byte at position `p` of the chain that starts at cluster `c`, wherever
the table leads, and `Readable c p` says that the walk comes there: no link before it leaves
the range of clusters and the device has its sector. Each loop is then described once, by
the bytes it returns where all it needs is readable and by a failure where something is not,
for a device with any number of sectors and any contents. Nothing is assumed about the
chain; it may be cyclic or shared.
-/
import System1.Fat12Lookup
import Mathlib.Logic.Function.Iterate

set_option autoImplicit false

namespace System1.Fat12

open System1.Lib List Prog

/-- The device has the sector. -/
def HasSector (sector_count lba : Nat) : Prop := sector_count = 0 ∨ lba < sector_count

section Bytes

variable (b : Bpb) (sector_count : Nat) (d : Disk)

/-- A sector is read, or is not on the device. -/
theorem run_block_read (lba : Nat) :
    (HasSector sector_count lba ∧
      (block_core_read lba).run (sized sector_count) d = (.done (d lba), d)) ∨
    (¬ HasSector sector_count lba ∧
      (block_core_read lba).run (sized sector_count) d = (.fail .INVALID, d)) := by
  have hrun : (block_core_read lba).run (sized sector_count) d =
      (ofExcept (sized sector_count d (.read lba)).1 : Io Sector).run (sized sector_count)
        (sized sector_count d (.read lba)).2 := rfl
  rw [hrun, sized_read]
  unfold HasSector
  split
  · exact .inr ⟨by omega, rfl⟩
  · exact .inl ⟨by omega, rfl⟩

/-- Reading an entry of the table ends either way. -/
theorem run_get_fat (cluster : Nat) :
    (∃ value, (fat12_dev_get_fat_entry b cluster).run (sized sector_count) d = (.done value, d)) ∨
      (fat12_dev_get_fat_entry b cluster).run (sized sector_count) d = (.fail .INVALID, d) := by
  unfold fat12_dev_get_fat_entry
  obtain ⟨-, hread⟩ | ⟨-, hread⟩ := run_block_read sector_count d
    (u32 (b.reserved_sectors + u32 (cluster + cluster / 2) / 512))
  swap
  · exact .inr (run_bind_fail _ hread _)
  rw [run_bind_done _ hread]
  split
  · -- the entry goes on in the next sector
    obtain ⟨-, hnext⟩ | ⟨-, hnext⟩ := run_block_read sector_count d
      (u32 (u32 (b.reserved_sectors + u32 (cluster + cluster / 2) / 512) + 1))
    · rw [run_bind_done _ hnext]
      exact .inl ⟨_, rfl⟩
    · exact .inr (run_bind_fail _ hnext _)
  · exact .inl ⟨_, rfl⟩

/-- What `fat12_get_next_cluster` returns. -/
def nextCluster (cluster : Nat) : Nat :=
  match ((fat12_get_next_cluster b cluster).run (sized sector_count) d).1 with
  | .done next => next
  | _ => 0xFFF

/-- The table is always read: what the device does not have ends the chain. -/
theorem run_get_next (cluster : Nat) :
    (fat12_get_next_cluster b cluster).run (sized sector_count) d =
      (.done (nextCluster b sector_count d cluster), d) := by
  have hdone : ∃ next, ((fat12_get_next_cluster b cluster).run (sized sector_count) d).1 =
      .done next := by
    unfold fat12_get_next_cluster
    rw [run_bind, run_attempt]
    obtain ⟨value, hget⟩ | hget := run_get_fat b sector_count d cluster
    · rw [hget]
      exact ⟨value, rfl⟩
    · rw [hget]
      exact ⟨0xFFF, rfl⟩
  obtain ⟨next, hnext⟩ := hdone
  apply Prod.ext
  · rw [hnext]
    unfold nextCluster
    rw [hnext]
  · exact (looks_get_next b cluster).run sector_count d

/-- The clusters of a chain by number. -/
def clusterAt (c k : Nat) : Nat := (nextCluster b sector_count d)^[k] c

/-- A cluster the loops accept. -/
def Linked (c : Nat) : Prop := 2 ≤ c ∧ c < CHAIN_END

def Bpb.cluster_bytes : Nat := b.sectors_per_cluster * 512

/-- The sector of a position in a chain. -/
def sectorAt (c p : Nat) : Nat :=
  u32 (fat12_cluster_to_lba b (clusterAt b sector_count d c (p / b.cluster_bytes)) +
    p % b.cluster_bytes / 512)

def byteAt (c p : Nat) : UInt8 := d (sectorAt b sector_count d c p) (p % 512)

/-- The walk comes to a position. -/
def Readable (c p : Nat) : Prop :=
  (∀ k ≤ p / b.cluster_bytes, Linked (clusterAt b sector_count d c k)) ∧
    HasSector sector_count (sectorAt b sector_count d c p)

end Bytes

/-! ## The sectors of a cluster -/

section Loops

variable {b : Bpb} {sector_count : Nat} {d : Disk}

/-- The byte at position `q` behind a sector. -/
def byteFrom (d : Disk) (lba q : Nat) : UInt8 := d (u32 (lba + q / 512)) (q % 512)

/-- How much of a cluster `readSectors` takes: all that is left of it, or what is missing. -/
def share (target length count offset : Nat) : Nat := min (target - length) (count * 512 - offset)

/-- A loop over `n` positions: it succeeds with their bytes if all are within reach and
fails otherwise. -/
def Streams (n : Nat) (has : Nat → Prop) (byte : Nat → UInt8) (good : List UInt8 → Prop)
    (bad : Prop) : Prop :=
  (∀ i < n, has i) ∧ good ((range n).map byte) ∨ (∃ i < n, ¬ has i) ∧ bad

section

variable {n m : Nat} {has has' : Nat → Prop} {byte byte' : Nat → UInt8}
  {good good' : List UInt8 → Prop} {bad : Prop}

theorem Streams.none (hn : n = 0) (h : good []) : Streams n has byte good bad :=
  .inl ⟨fun i hi => absurd hi (by omega), by rwa [hn]⟩

/-- `m` positions within reach, and then the loop goes on behind them. -/
theorem Streams.append (hfirst : ∀ i < m, has i) (h : Streams n has' byte' good' bad)
    (hhas : ∀ i < n, (has (m + i) ↔ has' i)) (hbyte : ∀ i < n, byte (m + i) = byte' i)
    (hgood : ∀ l, good' l → good ((range m).map byte ++ l)) :
    Streams (m + n) has byte good bad := by
  obtain ⟨hall, hdone⟩ | ⟨⟨i, hi, hnot⟩, hbad⟩ := h
  · refine .inl ⟨fun i hi => ?_, ?_⟩
    · by_cases him : i < m
      · exact hfirst i him
      have hi' : i - m < n := by omega
      grind
    · have hrest : (range n).map (byte ∘ (m + ·)) = (range n).map byte' :=
        map_congr_left fun i hi => hbyte i (mem_range.mp hi)
      rw [range_add, map_append, map_map, hrest]
      exact hgood _ hdone
  · exact .inr ⟨⟨m + i, by omega, fun h => hnot ((hhas i hi).mp h)⟩, hbad⟩

end

/-- From position `idx * 512 + offset` of the cluster on, what is missing or what is left of
the cluster, or a failure at a sector the device does not have. -/
theorem run_readSectors (lba target : Nat) {count idx offset : Nat} {out : List UInt8}
    (hoffset : offset ≤ count * 512) :
    Streams (share target out.length count offset)
      (fun i => HasSector sector_count (u32 (lba + (idx * 512 + offset + i) / 512)))
      (fun i => byteFrom d lba (idx * 512 + offset + i))
      (fun l => ∃ offset', (share target out.length count offset < target - out.length →
          offset' = 0) ∧
        (readSectors lba target count idx offset out).run (sized sector_count) d =
          (.done (offset', out ++ l), d))
      ((readSectors lba target count idx offset out).run (sized sector_count) d =
        (.fail .INVALID, d)) := by
  induction count generalizing idx offset out with
  | zero =>
    exact .none (by unfold share; omega) ⟨offset, fun _ => by omega, by rw [append_nil]; rfl⟩
  | succ count ih =>
    unfold readSectors
    by_cases hmissing : out.length < target
    swap
    · -- nothing is missing any more
      rw [if_neg hmissing]
      exact .none (by unfold share; omega) ⟨offset, fun _ => by omega, by rw [append_nil]; rfl⟩
    rw [if_pos hmissing]
    by_cases hskip : offset ≥ 512
    · -- the sector lies before the offset
      have hshare : share target out.length (count + 1) offset =
          share target out.length count (offset - 512) := by
        unfold share
        omega
      have hpos : ∀ i, idx * 512 + offset + i = (idx + 1) * 512 + (offset - 512) + i := by
        intro i
        omega
      simp only [hskip, if_true, hshare, hpos]
      exact ih (by omega)
    rw [if_neg hskip]
    obtain ⟨hhas, hread⟩ | ⟨hhas, hread⟩ := run_block_read sector_count d (u32 (lba + idx))
    swap
    · -- the device does not have the first sector of all
      refine .inr ⟨⟨0, by unfold share; omega, ?_⟩, run_bind_fail _ hread _⟩
      grind
    rw [run_bind_done _ hread]
    -- `chunk` bytes of this sector, and the rest from the next one on
    generalize hchunk : min (512 - offset) (target - out.length) = chunk
    have hfirst : ∀ i < chunk, (idx * 512 + offset + i) / 512 = idx ∧
        (idx * 512 + offset + i) % 512 = offset + i := by
      intro i hi
      omega
    have hbytes : (range chunk).map (fun i => byteFrom d lba (idx * 512 + offset + i)) =
        (range chunk).map fun i => d (u32 (lba + idx)) (offset + i) := by
      apply map_congr_left
      grind [byteFrom]
    have hnext := @ih (idx + 1) 0
      (out ++ (range chunk).map fun i => d (u32 (lba + idx)) (offset + i)) (Nat.zero_le _)
    rw [length_append, length_map, length_range] at hnext
    have hrest : ∀ i < share target (out.length + chunk) count 0,
        idx * 512 + offset + (chunk + i) = (idx + 1) * 512 + 0 + i := by
      intro i hi
      unfold share at hi
      omega
    have hshare : share target out.length (count + 1) offset =
        chunk + share target (out.length + chunk) count 0 := by
      unfold share
      omega
    rw [hshare]
    refine .append (fun i hi => by rwa [(hfirst i hi).1]) hnext
      (fun i hi => by rw [hrest i hi]) (fun i hi => by rw [hrest i hi]) ?_
    rintro l ⟨offset', hzero, hrun⟩
    refine ⟨offset', fun hlt => hzero (by omega), ?_⟩
    rw [hrun, hbytes, append_assoc]

/-! ## The clusters of a chain -/

theorem Bpb.cluster_bytes_pos (b : Bpb) : 0 < b.cluster_bytes :=
  Nat.mul_pos b.spc_pos (by decide)

theorem clusterAt_add (c k j : Nat) :
    clusterAt b sector_count d c (k + j) =
      clusterAt b sector_count d (clusterAt b sector_count d c k) j := by
  unfold clusterAt
  rw [Nat.add_comm, Function.iterate_add_apply]

/-- Positions behind `k` clusters are positions of the chain from there on. -/
theorem sectorAt_add (c k p : Nat) :
    sectorAt b sector_count d c (k * b.cluster_bytes + p) =
      sectorAt b sector_count d (clusterAt b sector_count d c k) p := by
  have hdiv : (k * b.cluster_bytes + p) / b.cluster_bytes = k + p / b.cluster_bytes := by
    rw [Nat.mul_comm, Nat.mul_add_div b.cluster_bytes_pos]
  simp_all [clusterAt_add, sectorAt]

/-- The bytes of a file from one of its clusters on. -/
theorem byteAt_add (c k p : Nat) :
    byteAt b sector_count d c (k * b.cluster_bytes + p) =
      byteAt b sector_count d (clusterAt b sector_count d c k) p := by
  have hmod : (k * b.cluster_bytes + p) % 512 = p % 512 := by
    unfold Bpb.cluster_bytes
    rw [← Nat.mul_assoc, Nat.mul_comm, Nat.mul_add_mod]
  unfold byteAt
  rw [sectorAt_add, hmod]

/-- A byte can be read if the links up to its cluster can. -/
theorem readable_add (c k p : Nat) :
    Readable b sector_count d c (k * b.cluster_bytes + p) ↔
      (∀ j < k, Linked (clusterAt b sector_count d c j)) ∧
        Readable b sector_count d (clusterAt b sector_count d c k) p := by
  have hdiv : (k * b.cluster_bytes + p) / b.cluster_bytes = k + p / b.cluster_bytes := by
    rw [Nat.mul_comm, Nat.mul_add_div b.cluster_bytes_pos]
  unfold Readable
  rw [sectorAt_add, hdiv]
  constructor
  · rintro ⟨hlinked, hhas⟩
    refine ⟨fun j hj => hlinked j (Nat.le_add_right_of_le hj.le), fun j hj => ?_, hhas⟩
    rw [← clusterAt_add]
    exact hlinked _ (Nat.add_le_add_left hj k)
  · rintro ⟨hbefore, hlinked, hhas⟩
    refine ⟨fun j hj => ?_, hhas⟩
    by_cases hjk : j < k
    · exact hbefore j hjk
    · rw [show j = k + (j - k) by omega, clusterAt_add]
      exact hlinked _ (by omega)

section

variable {c p : Nat} (hp : p < b.cluster_bytes)

include hp

theorem sectorAt_of_lt :
    sectorAt b sector_count d c p = u32 (fat12_cluster_to_lba b c + p / 512) := by
  unfold sectorAt
  rw [Nat.div_eq_of_lt hp, Nat.mod_eq_of_lt hp]
  rfl

theorem byteAt_of_lt :
    byteAt b sector_count d c p = byteFrom d (fat12_cluster_to_lba b c) p := by
  unfold byteAt byteFrom
  rw [sectorAt_of_lt hp]

/-- Within the first cluster only the sector counts. -/
theorem readable_of_lt :
    Readable b sector_count d c p ↔
      Linked c ∧ HasSector sector_count (u32 (fat12_cluster_to_lba b c + p / 512)) := by
  unfold Readable
  rw [sectorAt_of_lt hp, Nat.div_eq_of_lt hp]
  constructor
  · rintro ⟨hlinked, hhas⟩
    exact ⟨hlinked 0 (Nat.le_refl 0), hhas⟩
  · rintro ⟨hlinked, hhas⟩
    refine ⟨fun k hk => ?_, hhas⟩
    rw [Nat.le_zero.mp hk]
    exact hlinked

end

/-- The bytes of a chain from `offset` on. -/
theorem run_readClusters (target : Nat) {rounds c offset : Nat} {out : List UInt8}
    (hrounds : target - out.length ≤ rounds) (hoffset : offset < b.cluster_bytes) :
    Streams (target - out.length) (fun i => Readable b sector_count d c (offset + i))
      (fun i => byteAt b sector_count d c (offset + i))
      (fun l => (readClusters b target rounds c offset out).run (sized sector_count) d =
        (.done (out ++ l), d))
      ((readClusters b target rounds c offset out).run (sized sector_count) d =
        (.fail .INVALID, d)) := by
  induction rounds generalizing c offset out with
  | zero =>
    unfold readClusters
    rw [if_neg (by omega)]
    exact .none (by omega) (by rw [append_nil]; rfl)
  | succ rounds ih =>
    unfold readClusters
    by_cases hmissing : out.length < target
    swap
    · rw [if_neg hmissing]
      exact .none (by omega) (by rw [append_nil]; rfl)
    rw [if_pos hmissing]
    by_cases hlinked : c < 2 ∨ c ≥ CHAIN_END
    · -- the chain has ended before the file
      rw [if_pos hlinked]
      refine .inr ⟨⟨0, by omega, fun hread => ?_⟩, rfl⟩
      obtain ⟨h2, hend⟩ := hread.1 0 (Nat.zero_le _)
      have hc : clusterAt b sector_count d c 0 = c := rfl
      rw [hc] at h2 hend
      omega
    rw [if_neg hlinked]
    have hc : Linked c := ⟨by omega, by omega⟩
    -- `m` bytes of this cluster, and the rest from the start of the next one
    have hsectors := @run_readSectors sector_count d (fat12_cluster_to_lba b c) target
      b.sectors_per_cluster 0 offset out hoffset.le
    generalize hm : share target out.length b.sectors_per_cluster offset = m at hsectors
    have hm : m = min (target - out.length) (b.cluster_bytes - offset) := hm.symm
    simp only [Nat.zero_mul, Nat.zero_add] at hsectors
    have hin : ∀ i < m, offset + i < b.cluster_bytes := by
      intro i hi
      omega
    obtain ⟨hall, offset', hzero, hrun⟩ | ⟨⟨i, hi, hnone⟩, hrun⟩ := hsectors
    swap
    · refine .inr ⟨⟨i, by omega, fun hread => ?_⟩, run_bind_fail _ hrun _⟩
      exact hnone ((readable_of_lt (hin i hi)).mp hread).2
    rw [run_bind_done _ hrun]
    dsimp only
    have hfirst : ∀ i < m, Readable b sector_count d c (offset + i) := fun i hi =>
      (readable_of_lt (hin i hi)).mpr ⟨hc, hall i hi⟩
    have hbytes : (range m).map (fun i => byteFrom d (fat12_cluster_to_lba b c) (offset + i)) =
        (range m).map fun i => byteAt b sector_count d c (offset + i) := by
      grind [map_congr_left, byteAt_of_lt, mem_range.mp]
    rw [hbytes, length_append, length_map, length_range]
    by_cases hmore : out.length + m < target
    swap
    · rw [if_neg hmore, show target - out.length = m by omega]
      exact .inl ⟨hfirst, rfl⟩
    rw [if_pos hmore, run_bind_done _ (run_get_next b sector_count d c),
      hzero (by omega)]
    have hrest : ∀ i, offset + (m + i) = 1 * b.cluster_bytes + i := by
      intro i
      omega
    have hnext := @ih (nextCluster b sector_count d c) 0
      (out ++ (range m).map fun i => byteAt b sector_count d c (offset + i))
      (by rw [length_append, length_map, length_range]; omega) b.cluster_bytes_pos
    rw [length_append, length_map, length_range] at hnext
    simp only [Nat.zero_add] at hnext
    rw [show target - out.length = m + (target - (out.length + m)) by omega]
    refine .append hfirst hnext (fun i _ => ?_) (fun i _ => ?_) fun l hl => ?_
    · rw [hrest, readable_add]
      exact and_iff_right fun j hj => (Nat.lt_one_iff.mp hj).symm ▸ hc
    · rw [hrest, byteAt_add]
      rfl
    · rw [hl, append_assoc]

/-- Skipping follows the links. -/
theorem run_skipClusters {k c : Nat} (h : ∀ j < k, Linked (clusterAt b sector_count d c j)) :
    (skipClusters b k c).run (sized sector_count) d =
      (.done (clusterAt b sector_count d c k), d) := by
  induction k generalizing c with
  | zero => rfl
  | succ k ih =>
    have hc : Linked c := h 0 (Nat.succ_pos k)
    obtain ⟨h2, hend⟩ := hc
    unfold skipClusters
    rw [if_neg (by omega), run_bind_done _ (run_get_next b sector_count d c)]
    exact ih fun j hj => h (j + 1) (Nat.succ_lt_succ hj)

/-! ## The two ways to read a file -/

/-- What `fat12_read_file` returns is the bytes of the chain, and all of them can be read. -/
theorem read_file_done {fuel cwd_cluster cap : Nat} {path content : List UInt8} {info : PathInfo}
    (hinfo : ((fat12_resolve_path_info fuel b cwd_cluster path).run (sized sector_count) d).1 =
      .done info)
    (hread : ((fat12_read_file fuel b cwd_cluster path cap).run (sized sector_count) d).1 =
      .done content) :
    (∀ p < info.size, Readable b sector_count d info.cluster p) ∧
      content = (range info.size).map (byteAt b sector_count d info.cluster) := by
  have hresolve : (fat12_resolve_path_info fuel b cwd_cluster path).run (sized sector_count) d =
      (.done info, d) :=
    Prod.ext hinfo ((looks_resolve_path fuel b cwd_cluster path).run sector_count d)
  unfold fat12_read_file at hread
  rw [run_bind_done _ hresolve] at hread
  split at hread
  · cases hread
  split at hread
  · cases hread
  obtain ⟨hall, hrun⟩ | ⟨-, hrun⟩ := @run_readClusters b sector_count d info.size info.size
    info.cluster 0 [] (Nat.le_refl _) b.cluster_bytes_pos
  · grind
  · rw [hrun] at hread
    cases hread

/-- A positional read: what lies in the file from the offset on. -/
theorem run_read {drv : Driver} {node_id : Nat} {i : HandleIx} {offset cap : Nat}
    (hfile : drv.file node_id = some i)
    (hall : ∀ p < (drv.g_fat12_open_files i).size,
      Readable b sector_count d (drv.g_fat12_open_files i).cluster p) :
    (fat12_read b drv node_id offset cap).run (sized sector_count) d =
      (.done ((range (min ((drv.g_fat12_open_files i).size - offset) cap)).map fun j =>
        byteAt b sector_count d (drv.g_fat12_open_files i).cluster (offset + j)), d) := by
  generalize hf : drv.g_fat12_open_files i = file at hall ⊢
  unfold fat12_read
  rw [hfile]
  dsimp only
  rw [hf]
  split
  · rw [show min (file.size - offset) cap = 0 by omega]
    rfl
  next =>
  split
  · next hnone =>
    rw [hnone]
    rfl
  next =>
  generalize hk : offset / b.cluster_bytes = k
  generalize hq : offset % b.cluster_bytes = q
  have hoffset : ∀ j, offset + j = k * b.cluster_bytes + (q + j) := by
    intro j
    have hsplit := Nat.div_add_mod offset b.cluster_bytes
    rw [hk, hq, Nat.mul_comm] at hsplit
    omega
  -- the cluster the offset lies in is reached, and from there everything is readable
  have hfrom : ∀ j < min (file.size - offset) cap,
      (∀ l < k, Linked (clusterAt b sector_count d file.cluster l)) ∧
        Readable b sector_count d (clusterAt b sector_count d file.cluster k) (q + j) := by
    intro j hj
    rw [← readable_add, ← hoffset]
    exact hall _ (by omega)
  have hskip := run_skipClusters (hfrom 0 (by omega)).1
  change (skipClusters b (offset / b.cluster_bytes) file.cluster >>= fun cluster =>
    readClusters b (min (file.size - offset) cap) (min (file.size - offset) cap) cluster
      (offset % b.cluster_bytes) []).run (sized sector_count) d = _
  rw [hk, hq, run_bind_done _ hskip]
  have hread := @run_readClusters b sector_count d (min (file.size - offset) cap)
    (min (file.size - offset) cap) (clusterAt b sector_count d file.cluster k) q []
    (Nat.sub_le _ _) (by rw [← hq]; exact Nat.mod_lt _ b.cluster_bytes_pos)
  rw [length_nil, Nat.sub_zero] at hread
  obtain ⟨-, hrun⟩ | ⟨⟨j, hj, hnot⟩, -⟩ := hread
  · rw [hrun, nil_append]
    refine congrArg (fun l => (Outcome.done l, d)) (map_congr_left ?_)
    intro j _
    rw [hoffset, byteAt_add]
  · exact absurd (hfrom j hj).2 hnot

/-- `fat12_read` at any offset and with any capacity returns the part of the file that
`fat12_read_file` has there, whatever is on the disk and however many sectors it has, as
long as the handle knows the cluster and the size its path resolves to. -/
theorem positional_read_eq {fuel : Nat} {drv : Driver} {node_id cap₀ : Nat} {i : HandleIx}
    {info : PathInfo} {content : List UInt8} (hfile : drv.file node_id = some i)
    (hinfo : ((fat12_resolve_path_info fuel b drv.g_fat12_cwd_cluster
      (drv.g_fat12_open_files i).path).run (sized sector_count) d).1 = .done info)
    (hcluster : (drv.g_fat12_open_files i).cluster = info.cluster)
    (hsize : (drv.g_fat12_open_files i).size = info.size)
    (hread : ((fat12_read_file fuel b drv.g_fat12_cwd_cluster (drv.g_fat12_open_files i).path
      cap₀).run (sized sector_count) d).1 = .done content) (offset cap : Nat) :
    (fat12_read b drv node_id offset cap).run (sized sector_count) d =
      (.done ((content.drop offset).take cap), d) := by
  obtain ⟨hall, rfl⟩ := read_file_done hinfo hread
  rw [← hsize, ← hcluster] at hall
  rw [run_read hfile hall, hcluster, hsize]
  refine congrArg (fun l => (Outcome.done l, d)) (ext_getElem ?_ ?_)
  · grind
  · intro j h h'
    simp

end Loops

/-! A file of 520 bytes in clusters 3 and 2, in this order. -/

def scattered : Disk := fun lba j =>
  if lba = 1 then ([0, 0, 0, 0xFF, 0x2F, 0] : List UInt8).getD j 0
  else if lba = 2 then
    (asciiBytes "A          " ++ replicate 15 0 ++ [3, 0, 8, 2, 0, 0]).getD j 0
  else if lba = 3 then 66
  else 65

/-- The file is open and the handle is up to date. -/
def openScattered : Driver := ⟨[SLASH], 0, fun _ => ⟨true, 3, 520, 0, asciiBytes "/a"⟩⟩

def scatteredContent : List UInt8 := replicate 512 65 ++ replicate 8 66

def firstHandle : HandleIx := ⟨0, Nat.lt_of_sub_eq_succ rfl⟩

/-- Five bytes across the two clusters. -/
theorem scattered_read_across :
    (fat12_read smallBpb openScattered 1 510 5).run (sized 20) scattered =
      (.done [65, 65, 66, 66, 66], scattered) := by
  have hpart : (scatteredContent.drop 510).take 5 = [65, 65, 66, 66, 66] := by decide +kernel
  rw [← hpart]
  exact @positional_read_eq smallBpb 20 scattered 0 openScattered 1 600 firstHandle ⟨3, false, 520⟩
    scatteredContent (by decide +kernel) (by decide +kernel) rfl rfl (by decide +kernel) 510 5

end System1.Fat12
