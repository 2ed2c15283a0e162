/-
FAT12 routines against a disk.

The environment of a routine is a disk, a function from sector numbers to sectors, behind
a block layer that may fail. `Serves faults torn` says what it may answer: what is asked
for, or, where `faults` holds, an error. A failed write leaves its sector as it was, or,
where `torn` holds, with anything in it; no other sector changes in either case.

On such a disk each routine that only reads is a function of the disk. The rules below
give that function, for the table (`fatEntry`) and for the slots of a directory in the
order a walk meets them (`dirView`), and say once how a walk ends: with the result of
scanning those slots, or with an error of the disk.
-/
import System1.Fat12Driver

set_option autoImplicit false

namespace System1.Fat12

open System1.Lib List Function Prog

abbrev Disk := Nat → Sector

/-- What the block layer may answer, and the disk after it. -/
inductive Serves (faults torn : Prop) : Disk → (r : Req) → Resp r → Disk → Prop
  | read (d : Disk) (lba : Nat) :
      Serves faults torn d (.read lba) (Except.ok (d lba) : Except FsErr Sector) d
  | write (d : Disk) (lba : Nat) (data : Sector) :
      Serves faults torn d (.write lba data) (Except.ok () : Except FsErr Unit)
        (update d lba data)
  | readFails (h : faults) (d : Disk) (lba : Nat) (rc : FsErr) :
      Serves faults torn d (.read lba) (Except.error rc : Except FsErr Sector) d
  | writeFails (h : faults) (d : Disk) (lba : Nat) (data : Sector) (rc : FsErr) :
      Serves faults torn d (.write lba data) (Except.error rc : Except FsErr Unit) d
  | writeTears (h : faults) (ht : torn) (d : Disk) (lba : Nat) (data left : Sector) (rc : FsErr) :
      Serves faults torn d (.write lba data) (Except.error rc : Except FsErr Unit)
        (update d lba left)

/-- A disk that never fails. -/
def perfect (d : Disk) : (r : Req) → Resp r × Disk
  | .read lba => ((Except.ok (d lba) : Except FsErr Sector), d)
  | .write lba data => ((Except.ok () : Except FsErr Unit), update d lba data)

theorem perfect_serves (faults torn : Prop) (d : Disk) (r : Req) :
    Serves faults torn d r (perfect d r).1 (perfect d r).2 := by
  cases r with
  | read lba => exact .read d lba
  | write lba data => exact .write d lba data

/-- `block_core_read` and `block_core_write` in front of such a disk: with a sector count,
the sectors from it on are refused. -/
def sized (sector_count : Nat) (d : Disk) : (r : Req) → Resp r × Disk
  | .read lba =>
    if sector_count ≠ 0 ∧ sector_count ≤ lba then ((Except.error .INVALID : Except FsErr Sector), d)
    else ((Except.ok (d lba) : Except FsErr Sector), d)
  | .write lba data =>
    if sector_count ≠ 0 ∧ sector_count ≤ lba then ((Except.error .INVALID : Except FsErr Unit), d)
    else ((Except.ok () : Except FsErr Unit), update d lba data)

theorem sized_read (sector_count : Nat) (d : Disk) (lba : Nat) :
    sized sector_count d (.read lba) =
      if sector_count ≠ 0 ∧ sector_count ≤ lba then
        ((Except.error .INVALID : Except FsErr Sector), d)
      else ((Except.ok (d lba) : Except FsErr Sector), d) := rfl

/-- The sector of a request. -/
def Req.lba : Req → Nat
  | .read lba => lba
  | .write lba _ => lba

/-- Within its size the device is a perfect one. -/
theorem sized_eq_perfect {sector_count : Nat} (d : Disk) {r : Req}
    (h : sector_count = 0 ∨ r.lba < sector_count) : sized sector_count d r = perfect d r := by
  cases r with
  | read lba =>
    have h : sector_count = 0 ∨ lba < sector_count := h
    exact if_neg (by omega)
  | write lba data =>
    have h : sector_count = 0 ∨ lba < sector_count := h
    exact if_neg (by omega)

section

variable {faults torn : Prop} {α β : Type} {d : Disk}

/-- A routine that leaves the disk as it is and returns `a`, or fails with the disk. -/
def Reads (faults torn : Prop) (p : Io α) (d : Disk) (o : Outcome FsErr α) : Prop :=
  ∀ Q : Outcome FsErr α → Disk → Prop, Q o d → (faults → ∀ rc, Q (.fail rc) d) →
    p.wp (Serves faults torn) Q d

theorem Reads.done (a : α) (d : Disk) : Reads faults torn (.done a) d (.done a) :=
  fun _ h _ => h

theorem Reads.fail (rc : FsErr) (d : Disk) : Reads faults torn (.fail rc : Io α) d (.fail rc) :=
  fun _ h _ => h

theorem Reads.spin (d : Disk) : Reads faults torn (.spin : Io α) d .spin :=
  fun _ h _ => h

section

variable {p : Io α} {f : α → Io β}

/-- Two such routines in sequence. -/
theorem Reads.bind {a : α} {o : Outcome FsErr β} (hp : Reads faults torn p d (.done a))
    (hf : Reads faults torn (f a) d o) :
    Reads faults torn (p >>= f) d o :=
  fun Q ho hfail => wp_seq (hp _ (hf Q ho hfail) hfail)

theorem Reads.bind_fail {rc : FsErr} (hp : Reads faults torn p d (.fail rc)) :
    Reads faults torn (p >>= f) d (.fail rc) :=
  fun _ ho hfail => wp_seq (hp _ ho hfail)

theorem Reads.bind_spin (hp : Reads faults torn p d .spin) :
    Reads faults torn (p >>= f) d .spin :=
  fun _ ho hfail => wp_seq (hp _ ho hfail)

end

theorem reads_block (lba : Nat) (d : Disk) :
    Reads faults torn (block_core_read lba) d (.done (d lba)) := by
  intro Q ho hfail x d' hx
  cases hx with
  | read => exact ho
  | readFails h _ _ rc => exact hfail h rc

/-- On a perfect disk that is what a run does. -/
theorem Reads.run {p : Io α} {o : Outcome FsErr α} (hp : Reads False False p d o) :
    p.run perfect d = (o, d) := by
  have h := wp_run perfect (perfect_serves False False)
    (hp (fun o' d' => o' = o ∧ d' = d) ⟨rfl, rfl⟩ fun h => h.elim)
  exact Prod.ext h.1 h.2

/-- A failure that is only looked at. -/
theorem Reads.attempt {p : Io α} {a : α} (hp : Reads False torn p d (.done a)) :
    Reads False torn p.attempt d (.done (.ok a)) := by
  intro Q ho _
  apply wp_attempt
  exact hp _ ho fun h => h.elim

end

/-! ## Routines that only read -/

/-- Every request of the routine is for a sector to be read, and what it returns is in `V`. -/
def Finds {α : Type} (V : α → Prop) (p : Io α) : Prop := p.Only (fun r => ∃ lba, r = .read lba) V

/-- Every request of the routine is for a sector to be read. -/
def Looks {α : Type} (p : Io α) : Prop := p.Only (fun r => ∃ lba, r = .read lba) fun _ => True

section

variable {α β σ : Type}

theorem Looks.bind {p : Io α} {f : α → Io β} (hp : Looks p) (hf : ∀ a, Looks (f a)) :
    Looks (p >>= f) := Prog.Only.bind hp fun a _ => hf a

theorem Looks.attempt {p : Io α} (hp : Looks p) : Looks p.attempt :=
  (Prog.Only.attempt hp).mono fun _ _ => trivial

theorem looks_block (lba : Nat) : Looks (block_core_read lba) :=
  ⟨⟨lba, rfl⟩, fun _ => only_ofExcept fun _ _ => trivial⟩

theorem looks_ofExcept (r : Except FsErr α) : Looks (ofExcept r : Io α) :=
  only_ofExcept fun _ _ => trivial

/-- Such a routine leaves the disk as it is. -/
theorem Looks.run {p : Io α} (hp : Looks p) (sector_count : Nat) (d : Disk) :
    (p.run (sized sector_count) d).2 = d := by
  induction p with
  | done | fail | spin => rfl
  | call r k ih =>
    obtain ⟨⟨lba, rfl⟩, hk⟩ := hp
    rw [run_call]
    have hstate : (sized sector_count d (.read lba)).2 = d := by
      rw [sized_read]
      split <;> rfl
    rw [hstate]
    exact ih _ (hk _)

theorem looks_get_fat (b : Bpb) (cluster : Nat) : Looks (fat12_dev_get_fat_entry b cluster) := by
  apply (looks_block _).bind
  intro work
  split
  · exact (looks_block _).bind fun _ => trivial
  · trivial

theorem looks_get_next (b : Bpb) (cluster : Nat) : Looks (fat12_get_next_cluster b cluster) := by
  apply (looks_get_fat b cluster).attempt.bind
  rintro (rc | next)
  · trivial
  · trivial

/-! ## Sector numbers -/

theorem Bpb.data_lba_le (b : Bpb) : b.data_lba ≤ 2 ^ 25 := by
  have hfats : b.fat_count * b.sectors_per_fat ≤ 2 ^ 8 * 2 ^ 16 :=
    Nat.mul_le_mul b.fats_lt.le b.spf_lt.le
  have := b.reserved_lt
  have := b.root_lt
  unfold data_lba root_dir_sectors root_dir_lba
  omega

theorem Bpb.reserved_le_data (b : Bpb) : b.reserved_sectors ≤ b.data_lba := by
  unfold data_lba root_dir_lba
  omega

/-- The sectors of a cluster that a chain leads to. -/
theorem cluster_sector_le (b : Bpb) {cluster i : Nat} (h : cluster < CHAIN_END)
    (hi : i < b.sectors_per_cluster) :
    b.reserved_sectors ≤ u32 (fat12_cluster_to_lba b cluster + i) := by
  have hdata := b.data_lba_le
  have hreserved := b.reserved_le_data
  have hspc := b.spc_lt
  have hmul : (cluster - 2) * b.sectors_per_cluster ≤ 2 ^ 12 * 2 ^ 8 :=
    Nat.mul_le_mul (by unfold CHAIN_END at h; omega) hspc.le
  unfold Bpb.data_lba at hdata hreserved
  unfold fat12_cluster_to_lba
  split
  · rw [u32_of_lt (by omega)]
    unfold Bpb.root_dir_lba
    omega
  have hlba : u32 (b.root_dir_lba + b.root_dir_sectors + (cluster - 2) * b.sectors_per_cluster) =
      b.root_dir_lba + b.root_dir_sectors + (cluster - 2) * b.sectors_per_cluster :=
    u32_of_lt (by omega)
  rw [hlba, u32_of_lt (by omega)]
  omega

/-- The numbers of sectors in rows of `k`. -/
theorem quotient_unique {k q q' r r' : Nat} (hr : r < k) (hr' : r' < k)
    (h : q * k + r = q' * k + r') : q = q' := by
  have hdiv : ∀ (q : Nat) {r : Nat}, r < k → (q * k + r) / k = q := by
    intro q r hr
    rw [Nat.mul_comm, Nat.mul_add_div (Nat.zero_lt_of_lt hr), Nat.div_eq_of_lt hr, Nat.add_zero]
  rw [← hdiv q hr, h, hdiv q' hr']

/-! ## Scans -/

theorem scanSlots_stop {visit : σ → EntryRef → Slot → Step σ α} {slots : List (EntryRef × Slot)}
    {s : σ} {a : α} (h : scanSlots visit slots s = .stop a) :
    ∃ s' ref e, (ref, e) ∈ slots ∧ visit s' ref e = .stop a := by
  induction slots generalizing s with
  | nil => cases h
  | cons x rest ih => grind [scanSlots]

variable {b : Bpb} {visit : σ → EntryRef → Slot → Step σ α} {P : α → Prop} {count idx : Nat}

section

variable (hvisit : ∀ s ref e a, b.reserved_sectors ≤ ref.lba → visit s ref e = .stop a → P a)

include hvisit

/-- What a scan of sectors stops at lies in one of them. -/
theorem finds_scanSectors {base : Nat}
    (hbase : ∀ i < idx + count, b.reserved_sectors ≤ u32 (base + i)) (s : σ) :
    Finds (fun r => ∀ a, r = .stop a → P a) (scanSectors visit base count idx s) := by
  induction count generalizing idx s with
  | zero => exact fun a h => by cases h
  | succ count ih =>
    apply Only.bind (looks_block _)
    intro sector _
    cases hscan : scanSlots visit (sectorSlots (u32 (base + idx)) sector) s with
    | next s' => exact ih (fun i hi => hbase i (by omega)) s'
    | stop a =>
      intro a' ha'
      cases ha'
      obtain ⟨t, ref, e, hmem, hv⟩ := scanSlots_stop hscan
      obtain ⟨i, -, hi⟩ := mem_map.mp hmem
      cases hi
      exact hvisit t _ _ a (hbase idx (by omega)) hv

section

variable {next_cluster : Nat → Io Nat} (hnext : ∀ c, Looks (next_cluster c))

include hnext

/-- The same along a chain of clusters. -/
theorem finds_scanChain (fuel cluster : Nat) (s : σ) :
    Finds (fun r => ∀ a, r = .stop a → P a) (scanChain visit b next_cluster fuel cluster s) := by
  induction fuel generalizing cluster s with
  | zero => trivial
  | succ fuel ih =>
    unfold scanChain
    split
    · next hc =>
      apply Only.bind (finds_scanSectors hvisit (fun i hi => cluster_sector_le b hc (by omega)) s)
      intro r hr
      cases r with
      | next s' =>
        apply Only.bind (hnext cluster)
        intro next _
        exact ih next s'
      | stop a =>
        intro a' ha'
        cases ha'
        exact hr a rfl
    · intro a ha
      cases ha

/-- The same for a directory, the root or another. -/
theorem finds_scanDir (fuel dir_cluster : Nat) (s : σ) :
    Finds (fun r => ∀ a, r = .stop a → P a)
      (scanDir visit b next_cluster fuel dir_cluster s) := by
  unfold scanDir
  split
  · apply finds_scanSectors hvisit
    grind [Bpb.data_lba, Bpb.root_dir_lba, b.data_lba_le, u32_of_lt]
  · exact finds_scanChain hvisit hnext fuel dir_cluster s

end

end

theorem looks_scanDir {next_cluster : Nat → Io Nat} (hnext : ∀ c, Looks (next_cluster c))
    (fuel dir_cluster : Nat) (s : σ) : Looks (scanDir visit b next_cluster fuel dir_cluster s) :=
  Only.mono
    (finds_scanDir (P := fun _ => True) (fun _ _ _ _ _ _ => trivial) hnext fuel dir_cluster s)
    fun _ _ => trivial

theorem looks_find_name (fuel : Nat) (b : Bpb) (dir_cluster : Nat) (name : List UInt8) :
    Looks (fat12_find_entry_in_dir fuel b dir_cluster name) := by
  apply (looks_scanDir (looks_get_next b) fuel dir_cluster none).bind
  intro r
  cases r with
  | next s => trivial
  | stop r => exact looks_ofExcept r

/-- The walk of the read path only reads. -/
theorem looks_resolvePathLoop (fuel : Nat) (b : Bpb) (path : List (List UInt8)) (info : PathInfo) :
    Looks (resolvePathLoop fuel b path info) := by
  induction path generalizing info with
  | nil => trivial
  | cons component rest ih =>
    unfold resolvePathLoop
    split
    · trivial
    split
    · exact ih info
    apply (looks_find_name fuel b info.cluster component).bind
    intro found
    split
    · trivial
    · exact ih _

theorem looks_resolve_path (fuel : Nat) (b : Bpb) (cwd_cluster : Nat) (path : List UInt8) :
    Looks (fat12_resolve_path_info fuel b cwd_cluster path) := by
  unfold fat12_resolve_path_info
  split
  · trivial
  · exact looks_resolvePathLoop fuel b _ _

/-- Reading the sectors of a cluster, -/
theorem looks_readSectors (lba target count idx offset : Nat) (out : List UInt8) :
    Looks (readSectors lba target count idx offset out) := by
  induction count generalizing idx offset out with
  | zero => trivial
  | succ count ih =>
    unfold readSectors
    split
    · split
      · exact ih _ _ _
      · exact (looks_block _).bind fun _ => ih _ _ _
    · trivial

/-- and those of a file, changes nothing. -/
theorem looks_readClusters (b : Bpb) (target rounds cluster offset : Nat) (out : List UInt8) :
    Looks (readClusters b target rounds cluster offset out) := by
  induction rounds generalizing cluster offset out with
  | zero =>
    unfold readClusters
    split <;> trivial
  | succ rounds ih =>
    unfold readClusters
    split
    swap
    · trivial
    split
    · trivial
    apply (looks_readSectors _ _ _ _ _ _).bind
    rintro ⟨offset', out'⟩
    dsimp only
    split
    · exact (looks_get_next b cluster).bind fun _ => ih _ _ _
    · trivial

/-- Reading a file changes nothing. -/
theorem looks_read_file (fuel : Nat) (b : Bpb) (cwd_cluster : Nat) (path : List UInt8) (cap : Nat) :
    Looks (fat12_read_file fuel b cwd_cluster path cap) := by
  apply (looks_resolve_path fuel b cwd_cluster path).bind
  intro info
  split
  · trivial
  split
  · trivial
  · exact looks_readClusters b _ _ _ _ _

end

/-! ## The table -/

/-- Entry `cluster` of the first table, where `fat12_dev_get_fat_entry` looks for it. -/
def fatEntry (b : Bpb) (d : Disk) (cluster : Nat) : Nat :=
  let offset := u32 (cluster + cluster / 2)
  let sector := u32 (b.reserved_sectors + offset / 512)
  if offset % 512 = 511 then
    Packed12.decode cluster (d sector 511) (d (u32 (sector + 1)) 0)
  else Packed12.decode cluster (d sector (offset % 512)) (d sector (offset % 512 + 1))

section

variable {faults torn : Prop} {α σ : Type}

/-- The entry that is read is the one the disk holds. -/
theorem reads_get_fat (b : Bpb) (d : Disk) (cluster : Nat) :
    Reads faults torn (fat12_dev_get_fat_entry b cluster) d (.done (fatEntry b d cluster)) := by
  unfold fat12_dev_get_fat_entry fatEntry
  apply Reads.bind (reads_block _ d)
  by_cases h511 : u32 (cluster + cluster / 2) % 512 = 511
  · simp only [h511, if_true]
    exact (reads_block _ d).bind (.done _ d)
  · simp only [h511, if_false]
    exact .done _ d

/-- The lookups of a mounted volume read the same entry. -/
theorem reads_get_next (b : Bpb) (d : Disk) (cluster : Nat) :
    Reads False torn (fat12_get_next_cluster b cluster) d (.done (fatEntry b d cluster)) :=
  (Reads.attempt (reads_get_fat b d cluster)).bind (.done _ d)

/-! ## Walks -/

/-- A scan of two lists of slots is a scan of the first and then of the second. -/
theorem scanSlots_append (visit : σ → EntryRef → Slot → Step σ α) (l l' : List (EntryRef × Slot))
    (s : σ) :
    scanSlots visit (l ++ l') s =
      match scanSlots visit l s with
      | .next s => scanSlots visit l' s
      | .stop a => .stop a := by
  induction l generalizing s with
  | nil => rfl
  | cons x l ih => grind [scanSlots]

/-- The slots of a list of sectors. -/
def slotsOf (d : Disk) (lbas : List Nat) : List (EntryRef × Slot) :=
  lbas.flatMap fun lba => sectorSlots lba (d lba)

theorem slotsOf_append (d : Disk) (l l' : List Nat) :
    slotsOf d (l ++ l') = slotsOf d l ++ slotsOf d l' := by
  simp [slotsOf]

/-- The places of the slots of some sectors. -/
def refsOf (lbas : List Nat) : List EntryRef :=
  lbas.flatMap fun lba => (List.range 16).map fun i => ⟨lba, i * 32⟩

/-- The slots of a list of sectors. -/
theorem mem_refsOf {lbas : List Nat} {ref : EntryRef} :
    ref ∈ refsOf lbas ↔ ref.lba ∈ lbas ∧ ∃ i < 16, ref.offset = i * 32 := by
  unfold refsOf
  simp only [mem_flatMap, mem_map, mem_range]
  constructor
  · rintro ⟨lba, hlba, i, hi, rfl⟩
    exact ⟨hlba, i, hi, rfl⟩
  · rintro ⟨hlba, i, hi, hoffset⟩
    refine ⟨ref.lba, hlba, i, hi, ?_⟩
    rw [← hoffset]

/-- No slot comes twice. -/
theorem refsOf_nodup {lbas : List Nat} (h : lbas.Nodup) : (refsOf lbas).Nodup := by
  unfold refsOf
  rw [nodup_flatMap]
  constructor
  · intro lba _
    apply List.Nodup.map _ nodup_range
    intro i j hij
    simpa using hij
  · apply h.imp
    intro lba lba' hne ref hmem hmem'
    grind

/-- `count` sectors behind a base. -/
def lbaRange (base count idx : Nat) : List Nat :=
  (List.range count).map fun i => u32 (base + (idx + i))

theorem lbaRange_succ (base count idx : Nat) :
    lbaRange base (count + 1) idx = u32 (base + idx) :: lbaRange base count (idx + 1) := by
  unfold lbaRange
  rw [range_succ_eq_map, map_cons, map_map]
  congr 1
  grind [map_congr_left]

theorem lbaRange_nodup {base count : Nat} (h : base + count ≤ 2 ^ 32) :
    (lbaRange base count 0).Nodup := by
  apply List.Nodup.map_on _ nodup_range
  grind [u32]

def rootLbas (b : Bpb) : List Nat := lbaRange b.root_dir_lba b.root_dir_sectors 0

def clusterLbas (b : Bpb) (cluster : Nat) : List Nat :=
  lbaRange (fat12_cluster_to_lba b cluster) b.sectors_per_cluster 0

/-- A sector of a cluster that the device has room for. -/
theorem cluster_sector_eq {b : Bpb} {dev : BlockDevice} {cluster i : Nat} (h2 : 2 ≤ cluster)
    (htotal : cluster - 2 < fat12_dev_total_clusters b dev) (hi : i < b.sectors_per_cluster) :
    u32 (fat12_cluster_to_lba b cluster + i) =
      b.data_lba + (cluster - 2) * b.sectors_per_cluster + i := by
  unfold fat12_dev_total_clusters at htotal
  split at htotal
  · omega
  next hsectors =>
  -- the last sector of the cluster is still one of the device
  have hmul : (cluster - 2 + 1) * b.sectors_per_cluster ≤ dev.sector_count - b.data_lba :=
    calc (cluster - 2 + 1) * b.sectors_per_cluster
        ≤ (dev.sector_count - b.data_lba) / b.sectors_per_cluster * b.sectors_per_cluster :=
          Nat.mul_le_mul_right _ htotal
      _ ≤ dev.sector_count - b.data_lba := Nat.div_mul_le_self _ _
  rw [Nat.add_mul, Nat.one_mul] at hmul
  have hcount := dev.sector_count_lt
  unfold Bpb.data_lba at hmul hsectors ⊢
  have hlba : u32 (b.root_dir_lba + b.root_dir_sectors + (cluster - 2) * b.sectors_per_cluster) =
      b.root_dir_lba + b.root_dir_sectors + (cluster - 2) * b.sectors_per_cluster :=
    u32_of_lt (by omega)
  grind [fat12_cluster_to_lba, u32_of_lt]

/-- A scan of sectors is a scan of their slots. -/
theorem reads_scanSectors (visit : σ → EntryRef → Slot → Step σ α) (base count idx : Nat) (s : σ)
    (d : Disk) :
    Reads faults torn (scanSectors visit base count idx s) d
      (.done (scanSlots visit (slotsOf d (lbaRange base count idx)) s)) := by
  induction count generalizing idx s with
  | zero => exact .done _ d
  | succ count ih =>
    rw [lbaRange_succ]
    unfold scanSectors slotsOf
    rw [flatMap_cons, scanSlots_append]
    apply (reads_block _ d).bind
    cases scanSlots visit (sectorSlots (u32 (base + idx)) (d (u32 (base + idx)))) s with
    | next s => exact ih (idx + 1) s
    | stop a => exact .done _ d

/-- The clusters a walk visits, and whether it comes to the end of the chain. -/
def walk (fat : Nat → Nat) : Nat → Nat → List Nat × Bool
  | 0, _ => ([], false)
  | fuel + 1, cluster =>
    if cluster < CHAIN_END then
      (cluster :: (walk fat fuel (fat cluster)).1, (walk fat fuel (fat cluster)).2)
    else ([], true)

/-- How a walk ends that has met the given slots. -/
def ofScan (r : Step σ α) (ended : Bool) : Outcome FsErr (Step σ α) :=
  match r with
  | .stop a => .done (.stop a)
  | .next s => if ended then .done (.next s) else .spin

/-- A scan of a chain is one of the slots of its clusters; it comes to an end if the walk
does. -/
theorem reads_scanChain (visit : σ → EntryRef → Slot → Step σ α) (b : Bpb)
    {next_cluster : Nat → Io Nat} {d : Disk}
    (hnext : ∀ c, Reads faults torn (next_cluster c) d (.done (fatEntry b d c)))
    (fuel cluster : Nat) (s : σ) :
    Reads faults torn (scanChain visit b next_cluster fuel cluster s) d
      (ofScan (scanSlots visit
        (slotsOf d ((walk (fatEntry b d) fuel cluster).1.flatMap (clusterLbas b))) s)
        (walk (fatEntry b d) fuel cluster).2) := by
  induction fuel generalizing cluster s with
  | zero => exact .spin d
  | succ fuel ih =>
    unfold scanChain walk
    by_cases hc : cluster < CHAIN_END
    · simp only [hc, if_true, flatMap_cons, slotsOf_append, scanSlots_append]
      apply (reads_scanSectors visit _ _ 0 s d).bind
      show Reads faults torn _ d
        (ofScan (match scanSlots visit (slotsOf d (clusterLbas b cluster)) s with
        | .next s => _
        | .stop a => .stop a) _)
      unfold clusterLbas
      cases scanSlots visit (slotsOf d
          (lbaRange (fat12_cluster_to_lba b cluster) b.sectors_per_cluster 0)) s with
      | next s => exact (hnext cluster).bind (ih _ s)
      | stop a => exact .done _ d
    · simp only [hc, if_false]
      exact .done _ d

/-- The slots of a directory in the order of a walk, and whether the walk comes to its
end. -/
def dirView (b : Bpb) (d : Disk) (fuel dir_cluster : Nat) : List (EntryRef × Slot) × Bool :=
  if dir_cluster = 0 then (slotsOf d (rootLbas b), true)
  else
    (slotsOf d ((walk (fatEntry b d) fuel dir_cluster).1.flatMap (clusterLbas b)),
      (walk (fatEntry b d) fuel dir_cluster).2)

/-- A scan of a directory is a scan of its slots. -/
theorem reads_scanDir (visit : σ → EntryRef → Slot → Step σ α) (b : Bpb)
    {next_cluster : Nat → Io Nat} {d : Disk}
    (hnext : ∀ c, Reads faults torn (next_cluster c) d (.done (fatEntry b d c)))
    (fuel dir_cluster : Nat) (s : σ) :
    Reads faults torn (scanDir visit b next_cluster fuel dir_cluster s) d
      (ofScan (scanSlots visit (dirView b d fuel dir_cluster).1 s)
        (dirView b d fuel dir_cluster).2) := by
  unfold scanDir dirView
  by_cases hroot : dir_cluster = 0
  · simp only [hroot, if_true]
    intro Q ho hfail
    apply reads_scanSectors visit _ _ 0 s d Q ?_ hfail
    unfold rootLbas at ho
    revert ho
    cases scanSlots visit (slotsOf d (lbaRange b.root_dir_lba b.root_dir_sectors 0)) s with
    | next s => exact fun ho => ho
    | stop a => exact fun ho => ho
  · simp only [hroot, if_false]
    exact reads_scanChain visit b hnext fuel dir_cluster s

end

end System1.Fat12
