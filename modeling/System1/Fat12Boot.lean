/-
The boot area: no operation of the FAT12 driver writes below the reserved sectors.

Sector numbers come from the volume, so they are as wild as the volume is: first clusters
are any 16-bit values, the table is any bytes and may lead in circles. What keeps them
above the boot area is that every sum starts at the end of the reserved sectors and that
none of them reaches 2 ^ 32: a chain is followed only below `CHAIN_END`, and a cluster is
allocated only where the device has sectors for it. So the bound is a property of the
requests of a program alone (`Guards`), whatever it is answered.

The boot sector is read again by every operation. The bound is the one of the boot sector
read, and since nothing below it is written that is the same boot sector for the whole of
a session (`session_keeps_boot`).
-/
import System1.Fat12Lookup

set_option autoImplicit false

namespace System1.Fat12

open System1.Lib

/-- Writes stay above the reserved sectors. -/
def Guards (b : Bpb) : Req → Prop
  | .read _ => True
  | .write lba _ => b.reserved_sectors ≤ lba

variable {lba fat_index cluster count idx : Nat} {dev : BlockDevice}

section

variable {b : Bpb} {α σ : Type}

theorem guards_read (lba : Nat) : (block_core_read lba).Only (Guards b) fun _ => True :=
  ⟨trivial, fun _ => Prog.only_ofExcept fun _ _ => trivial⟩

theorem guards_write (data : Sector) (h : b.reserved_sectors ≤ lba) :
    (block_core_write lba data).Only (Guards b) fun _ => True :=
  ⟨h, fun _ => Prog.only_ofExcept fun _ _ => trivial⟩

/-- A routine that only reads writes nowhere. -/
theorem Finds.guards {p : Io α} {V : α → Prop} (h : Finds V p) : p.Only (Guards b) V := by
  apply Prog.Only.weaken h
  rintro r ⟨lba, rfl⟩
  trivial

theorem guards_attempt {p : Io α} {V : α → Prop} (h : p.Only (Guards b) V) :
    p.attempt.Only (Guards b) fun _ => True :=
  h.attempt.mono fun _ _ => trivial

/-! ## Sector numbers -/

/-- The sectors of a table. -/
theorem fat_sector_le (b : Bpb) (h : fat_index < b.fat_count) (offset : Nat) :
    b.reserved_sectors ≤
      u32 (b.reserved_sectors + fat_index * b.sectors_per_fat + u32 offset / 512) ∧
    b.reserved_sectors ≤
      u32 (u32 (b.reserved_sectors + fat_index * b.sectors_per_fat + u32 offset / 512) + 1) := by
  have hoffset := u32_lt offset
  have hfats : fat_index * b.sectors_per_fat ≤ 2 ^ 8 * 2 ^ 16 :=
    Nat.mul_le_mul (by have := b.fats_lt; omega) b.spf_lt.le
  have := b.reserved_lt
  generalize u32 offset = o at hoffset ⊢
  have hsector : u32 (b.reserved_sectors + fat_index * b.sectors_per_fat + o / 512) =
      b.reserved_sectors + fat_index * b.sectors_per_fat + o / 512 := u32_of_lt (by omega)
  rw [hsector, u32_of_lt (by omega)]
  omega

/-- A cluster the device has sectors for. -/
def Backed (b : Bpb) (dev : BlockDevice) (cluster : Nat) : Prop :=
  2 ≤ cluster ∧ cluster - 2 < fat12_dev_total_clusters b dev

theorem Backed.sector_le {i : Nat} (h : Backed b dev cluster) (hi : i < b.sectors_per_cluster) :
    b.reserved_sectors ≤ u32 (fat12_cluster_to_lba b cluster + i) := by
  rw [cluster_sector_eq h.1 h.2 hi]
  have := b.reserved_le_data
  omega

/-! ## The table -/

theorem guards_get_fat (cluster : Nat) :
    (fat12_dev_get_fat_entry b cluster).Only (Guards b) fun _ => True :=
  Finds.guards (looks_get_fat b cluster)

/-- A copy of the table lies behind the reserved sectors. -/
theorem guards_setFatCopy (cluster value : Nat) (h : fat_index < b.fat_count) :
    (setFatCopy b cluster value fat_index).Only (Guards b) fun _ => True := by
  have hle := fat_sector_le b h (cluster + cluster / 2)
  apply (guards_read _).bind
  intro work _
  split
  · apply (guards_write _ hle.1).bind
    intro _ _
    apply (guards_read _).bind
    intro next _
    exact guards_write _ hle.2
  · exact guards_write _ hle.1

theorem guards_setFatCopies (cluster value : Nat) (h : fat_index + count ≤ b.fat_count) :
    (setFatCopies b cluster value count fat_index).Only (Guards b) fun _ => True := by
  induction count generalizing fat_index with
  | zero => trivial
  | succ count ih =>
    apply (guards_setFatCopy cluster value (by omega)).bind
    intro _ _
    exact ih (by omega)

theorem guards_set_fat (cluster value : Nat) :
    (fat12_dev_set_fat_entry b cluster value).Only (Guards b) fun _ => True :=
  guards_setFatCopies cluster _ (by omega)

/-! ## Directories -/

variable {P : α → Prop}

/-- The end both lookups share. -/
theorem guards_lookup {visit : σ → EntryRef → Slot → Step σ (Except FsErr α)}
    (hvisit : ∀ s ref e a, b.reserved_sectors ≤ ref.lba → visit s ref e = .stop (.ok a) → P a)
    {next_cluster : Nat → Io Nat}
    (hnext : ∀ c, Looks (next_cluster c)) (fuel dir_cluster : Nat) (s : σ)
    {k : Step σ (Except FsErr α) → Io α} (hnone : ∀ s, k (.next s) = .fail .NOT_FOUND)
    (hstop : ∀ r, k (.stop r) = Prog.ofExcept r) :
    (scanDir visit b next_cluster fuel dir_cluster s >>= k).Only (Guards b) P := by
  have hfound : ∀ s ref e (r : Except FsErr α), b.reserved_sectors ≤ ref.lba →
      visit s ref e = .stop r → ∀ a, r = .ok a → P a := by grind
  apply (finds_scanDir hfound hnext fuel dir_cluster s).guards.bind
  intro r hr
  cases r with
  | next s' =>
    rw [hnone]
    trivial
  | stop r =>
    rw [hstop]
    exact Prog.only_ofExcept (hr r rfl)

theorem guards_find_entry (fuel dir_cluster : Nat) (name83 : Name83) :
    (fat12_dev_find_entry fuel b dir_cluster name83).Only (Guards b)
      fun found => b.reserved_sectors ≤ found.ref.lba := by
  apply guards_lookup _ (looks_get_fat b) fuel dir_cluster () (fun _ => rfl) fun _ => rfl
  grind [findEntryVisit]

/-- The free slot that is found is one of a directory. -/
theorem guards_find_free (fuel dir_cluster : Nat) :
    (fat12_dev_find_free_entry fuel b dir_cluster).Only (Guards b)
      fun ref => b.reserved_sectors ≤ ref.lba := by
  have hvisit : ∀ s ref e a, b.reserved_sectors ≤ ref.lba → findFreeVisit s ref e = .stop a →
      b.reserved_sectors ≤ a.lba := by grind [findFreeVisit]
  apply (finds_scanDir hvisit (looks_get_fat b) fuel dir_cluster ()).guards.bind
  intro r hr
  cases r with
  | next s => trivial
  | stop ref => exact hr ref rfl

/-- The walk down a path only reads. -/
theorem guards_resolveDirLoop (fuel : Nat) (path : List (List UInt8)) (cluster : Nat) :
    (resolveDirLoop fuel b path cluster).Only (Guards b) fun _ => True := by
  induction path generalizing cluster with
  | nil => trivial
  | cons component rest ih =>
    unfold resolveDirLoop
    split
    · trivial
    apply (Prog.only_ofExcept fun _ _ => trivial).bind
    intro name83 _
    apply (guards_find_entry fuel cluster name83).bind
    intro found _
    split
    · trivial
    · exact ih found.cluster

theorem guards_resolve_dir (fuel : Nat) (path : List UInt8) :
    (fat12_dev_resolve_dir fuel b path).Only (Guards b) fun _ => True := by
  unfold fat12_dev_resolve_dir
  split
  · trivial
  · exact guards_resolveDirLoop fuel _ 0

theorem guards_write_entry {ref : EntryRef} (h : b.reserved_sectors ≤ ref.lba) (name83 : Name83)
    (attr : UInt8) (cluster size : Nat) :
    (fat12_dev_write_entry ref name83 attr cluster size).Only (Guards b) fun _ => True := by
  unfold fat12_dev_write_entry
  split
  · trivial
  · exact (guards_read _).bind fun _ _ => guards_write _ h

theorem guards_deleteEntry {ref : EntryRef} (h : b.reserved_sectors ≤ ref.lba) :
    (deleteEntry ref).Only (Guards b) fun _ => True :=
  (guards_read _).bind fun _ _ => guards_write _ h

/-! ## Clusters -/

theorem guards_zeroSectors (h : ∀ i < idx + count, b.reserved_sectors ≤ u32 (lba + i)) :
    (zeroSectors lba count idx).Only (Guards b) fun _ => True := by
  induction count generalizing idx with
  | zero => trivial
  | succ count ih =>
    apply (guards_write _ (h idx (by omega))).bind
    intro _ _
    exact ih fun i hi => h i (by omega)

/-- A cluster that is taken is marked and zeroed in the data area. -/
theorem guards_takeCluster (h : Backed b dev cluster) :
    (takeCluster b cluster).Only (Guards b) fun c => c = 0 ∨ Backed b dev c := by
  apply (guards_attempt (guards_set_fat cluster _)).bind
  rintro (rc | _) _
  · exact .inl rfl
  apply (guards_attempt (guards_zeroSectors fun i hi => h.sector_le (by omega))).bind
  rintro (rc | _) _
  · exact (guards_attempt (guards_set_fat cluster _)).bind fun _ _ => .inl rfl
  · exact .inr h

/-- The search for a free cluster stays below the number of clusters. -/
theorem guards_allocLoop (h2 : 2 ≤ cluster)
    (h : cluster - 2 + count ≤ fat12_dev_total_clusters b dev) :
    (allocLoop b count cluster).Only (Guards b) fun c => c = 0 ∨ Backed b dev c := by
  induction count generalizing cluster with
  | zero => exact .inl rfl
  | succ count ih =>
    apply (guards_attempt (guards_get_fat cluster)).bind
    intro r _
    cases r with
    | error rc => exact .inl rfl
    | ok value =>
      by_cases hfree : value = FAT12_CLUSTER_FREE
      · simp only [hfree, if_true]
        exact guards_takeCluster ⟨h2, by omega⟩
      · simp only [hfree, if_false]
        exact ih (by omega) (by omega)

theorem guards_alloc (dev : BlockDevice) :
    (fat12_dev_alloc_cluster b dev).Only (Guards b) fun c => c = 0 ∨ Backed b dev c := by
  apply guards_allocLoop (by omega)
  grind [u32]

/-- Freeing a chain writes to the table only. -/
theorem guards_free_chain (fuel cluster : Nat) :
    (fat12_dev_free_cluster_chain b fuel cluster).Only (Guards b) fun _ => True := by
  induction fuel generalizing cluster with
  | zero => trivial
  | succ fuel ih =>
    unfold fat12_dev_free_cluster_chain
    split
    · apply (guards_get_fat cluster).bind
      intro next _
      apply (guards_set_fat cluster _).bind
      intro _ _
      exact ih next
    · trivial

/-! ## The operations -/

variable {dev : BlockDevice} {fuel : Nat}

/-- A new directory: its slot, its cluster and what undoes both. -/
theorem guards_createDir (parent_cluster : Nat) (leaf83 : Name83) :
    (createDir dev fuel b parent_cluster leaf83).Only (Guards b) fun _ => True := by
  apply (guards_find_free fuel parent_cluster).bind
  intro parent_ref hparent
  apply (guards_alloc dev).bind
  intro new_cluster hnew
  split
  · trivial
  next hne =>
  have hlba : b.reserved_sectors ≤ fat12_cluster_to_lba b new_cluster := by
    have h := (hnew.resolve_left hne).sector_le b.spc_pos
    exact h.trans (Nat.mod_le _ _)
  apply (guards_attempt (guards_write_entry hparent leaf83 _ new_cluster 0)).bind
  rintro (rc | _) _
  · exact (guards_attempt (guards_free_chain fuel new_cluster)).bind fun _ _ => trivial
  · apply (guards_write_entry hlba dot83 _ new_cluster 0).bind
    intro _ _
    exact guards_write_entry hlba dotdot83 _ parent_cluster 0

/-- The data of a file goes to the data area. -/
theorem guards_writeSectors (data : List UInt8)
    (h : ∀ i < idx + count, b.reserved_sectors ≤ u32 (lba + i)) (written : Nat) :
    (writeSectors data lba count idx written).Only (Guards b) fun _ => True := by
  induction count generalizing idx written with
  | zero => trivial
  | succ count ih =>
    unfold writeSectors
    split
    · apply (guards_write _ (h idx (by omega))).bind
      intro _ _
      exact ih (fun i hi => h i (by omega)) _
    · trivial

/-- What undoes a write stays there too. -/
theorem guards_rollback (first_cluster : Nat) {entry_ref : EntryRef}
    (h : b.reserved_sectors ≤ entry_ref.lba) (have_entry : Bool) (leaf83 : Name83) :
    (writeRollback fuel b first_cluster entry_ref have_entry leaf83).Only (Guards b)
      fun _ => True := by
  have hentry : (if have_entry = true then do
      let _ ← (fat12_dev_write_entry entry_ref leaf83 0 0 0).attempt
      (.fail .NO_SPACE : Io Nat)
      else .fail .NO_SPACE).Only (Guards b) fun _ => True := by
    split
    · exact (guards_attempt (guards_write_entry h leaf83 0 0 0)).bind fun _ _ => trivial
    · trivial
  unfold writeRollback
  dsimp only
  split
  · exact (guards_attempt (guards_free_chain fuel first_cluster)).bind fun _ _ => hentry
  · exact hentry

section

variable (data : List UInt8) {entry_ref : EntryRef} (h : b.reserved_sectors ≤ entry_ref.lba)
  (have_entry : Bool) (leaf83 : Name83)

include data h have_entry leaf83

/-- One round takes a cluster, fills it and links it to the one before. -/
theorem guards_writeLoop (rounds first_cluster prev_cluster written : Nat) :
    (writeLoop dev fuel b data entry_ref have_entry leaf83 rounds first_cluster prev_cluster
      written).Only (Guards b) fun _ => True := by
  induction rounds generalizing first_cluster prev_cluster written with
  | zero =>
    unfold writeLoop
    split <;> trivial
  | succ rounds ih =>
    unfold writeLoop
    split
    swap
    · trivial
    apply (guards_alloc dev).bind
    intro cluster hcluster
    split
    · exact guards_rollback first_cluster h have_entry leaf83
    next hne =>
    -- the sectors of the new cluster, behind the link to it where there is one
    have hsectors : ∀ i < 0 + b.sectors_per_cluster,
        b.reserved_sectors ≤ u32 (fat12_cluster_to_lba b cluster + i) :=
      fun i hi => (hcluster.resolve_left hne).sector_le (by omega)
    have hrest := (guards_writeSectors data hsectors written).bind fun written' _ =>
      ih (if first_cluster = 0 then cluster else first_cluster) cluster written'
    dsimp only
    split
    · exact (guards_set_fat prev_cluster cluster).bind fun _ _ => hrest
    · exact hrest

theorem guards_writeData :
    (writeData dev fuel b data entry_ref have_entry leaf83).Only (Guards b) fun _ => True := by
  apply (guards_writeLoop data h have_entry leaf83 _ _ _ _).bind
  intro first_cluster _
  exact guards_write_entry h leaf83 0 first_cluster data.length

end

/-- The search for an entry in a directory only reads. -/
theorem guards_emptySectors (lba count idx : Nat) :
    (emptySectors lba count idx).Only (Guards b) fun _ => True := by
  induction count generalizing idx with
  | zero => trivial
  | succ count ih =>
    apply (guards_read _).bind
    intro work _
    split
    · trivial
    · exact ih (idx + 1)

/-- And so does the walk over its clusters. -/
theorem guards_emptyChain (visits current : Nat) :
    (emptyChain b visits current).Only (Guards b) fun _ => True := by
  induction visits generalizing current with
  | zero =>
    unfold emptyChain
    split <;> trivial
  | succ visits ih =>
    unfold emptyChain
    split
    · apply (guards_emptySectors _ _ _).bind
      intro _ _
      apply (guards_get_fat current).bind
      intro next _
      exact ih next
    · trivial

end

/-! ## Sessions -/

/-- A disk, and the sectors that have been asked to be written. -/
structure Watched where
  disk : Disk
  written : List Nat

def Req.log : Req → List Nat → List Nat
  | .read _, written => written
  | .write lba _, written => written ++ [lba]

/-- The block layer in front of such a disk: it may fail at any time, and a write that
fails may leave anything in its sector. -/
def Watches (s : Watched) (r : Req) (x : Resp r) (s' : Watched) : Prop :=
  Serves True True s.disk r x s'.disk ∧ s'.written = r.log s.written

/-- The boot area is as it was and nothing has been written there. -/
structure Kept (b : Bpb) (d : Disk) (s : Watched) : Prop where
  boot : ∀ lba < b.reserved_sectors, s.disk lba = d lba
  above : ∀ lba ∈ s.written, b.reserved_sectors ≤ lba

/-- A program that keeps the boot area. -/
def Keeps (b : Bpb) (d : Disk) {α : Type} (p : Io α) : Prop :=
  ∀ s, Kept b d s → p.wp Watches (fun _ s' => Kept b d s') s

section

variable {b : Bpb} {d : Disk} {s s' : Watched} {α β : Type}

/-- A request that keeps off the boot sector leaves it as it is. -/
theorem Kept.step {r : Req} {x : Resp r} (hs : Kept b d s) (hr : Guards b r)
    (hx : Watches s r x s') : Kept b d s' := by
  obtain ⟨disk, written⟩ := s
  obtain ⟨disk', written'⟩ := s'
  obtain ⟨hserves, hlog⟩ := hx
  dsimp only at hserves hlog
  have hother : ∀ {lba : Nat} {data : Sector}, b.reserved_sectors ≤ lba →
      ∀ lba' < b.reserved_sectors, Function.update disk lba data lba' = d lba' := by
    intro lba data hle lba' hlt
    rw [Function.update_of_ne (by omega)]
    exact hs.boot lba' hlt
  have habove : ∀ {lba : Nat}, b.reserved_sectors ≤ lba → ∀ lba' ∈ written ++ [lba],
      b.reserved_sectors ≤ lba' := by
    intro lba hle lba' hmem
    obtain hmem | hmem := List.mem_append.mp hmem
    · exact hs.above lba' hmem
    · rwa [List.mem_singleton.mp hmem]
  cases hserves with
  | read | readFails => exact ⟨hs.boot, by rw [hlog]; exact hs.above⟩
  | write | writeTears => exact ⟨hother hr, by rw [hlog]; exact habove hr⟩
  | writeFails => exact ⟨hs.boot, by rw [hlog]; exact habove hr⟩

theorem Keeps.of_guards {p : Io α} {V : α → Prop} (hp : p.Only (Guards b) V) : Keeps b d p := by
  intro s hs
  apply Prog.wp_mono (hp.wp (fun _ _ _ _ hr hs hx => hs.step hr hx) hs)
  exact fun o s' h => h.1

theorem Keeps.bind {p : Io α} {f : α → Io β} (hp : Keeps b d p) (hf : ∀ a, Keeps b d (f a)) :
    Keeps b d (p >>= f) := fun s hs =>
  Prog.wp_bind (hp s hs) (fun a s' h => hf a s' h) (fun _ _ h => h) fun _ h => h

theorem Keeps.attempt {p : Io α} (hp : Keeps b d p) : Keeps b d p.attempt := by
  intro s hs
  apply Prog.wp_attempt
  apply Prog.wp_mono (hp s hs)
  intro o s' h
  cases o <;> exact h

theorem Keeps.done (a : α) : Keeps b d (.done a) := fun _ hs => hs

theorem Keeps.fail (rc : FsErr) : Keeps b d (.fail rc : Io α) := fun _ hs => hs

/-- The boot sector an operation reads is the one the bound is about. -/
theorem wp_readBpb (hboot : fat12_parse_bpb (d 0) = .ok b) (hs : Kept b d s) :
    readBpb.wp Watches (fun o s' => Kept b d s' ∧ ∀ b', o = .done b' → b' = b) s := by
  intro x s' hx
  have hs' : Kept b d s' := Kept.step (r := .read 0) hs trivial hx
  have h0 : s.disk 0 = d 0 := hs.boot 0 b.reserved_pos
  obtain ⟨disk, written⟩ := s
  obtain ⟨disk', written'⟩ := s'
  obtain ⟨hserves, -⟩ := hx
  cases hserves with
  | read =>
    show (Prog.ofExcept (fat12_parse_bpb (disk 0)) : Io Bpb).wp _ _ _
    rw [show disk 0 = d 0 from h0, hboot]
    exact ⟨hs', fun b' h => by cases h; rfl⟩
  | readFails => exact ⟨hs', fun b' h => by cases h⟩

/-- What the calls share: the boot sector is read, the parent found, and the rest keeps off
it. -/
theorem keeps_withParent (hboot : fat12_parse_bpb (d 0) = .ok b) {fuel : Nat}
    {make83 : List UInt8 → Except FsErr Name83} {path : CString} {k : Bpb → Nat → Name83 → Io α}
    {V : α → Prop} (hk : ∀ parent_cluster leaf83, (k b parent_cluster leaf83).Only (Guards b) V) :
    Keeps b d (withParent fuel make83 path k) := by
  intro s hs
  apply Prog.wp_bind (wp_readBpb hboot hs)
  · rintro b' s' ⟨hs', hb⟩
    obtain rfl := hb b' rfl
    have hrest : (do
        let parts ← Prog.ofExcept (fat12_split_create_path path.bytes)
        let leaf83 ← Prog.ofExcept (make83 parts.2)
        let parent_cluster ← fat12_dev_resolve_dir fuel b' parts.1
        k b' parent_cluster leaf83).Only (Guards b') V := by
      apply (Prog.only_ofExcept fun _ _ => trivial).bind
      intro parts _
      apply (Prog.only_ofExcept fun _ _ => trivial).bind
      intro leaf83 _
      apply (guards_resolve_dir fuel parts.1).bind
      intro parent_cluster _
      exact hk parent_cluster leaf83
    exact Keeps.of_guards hrest s' hs'
  · exact fun _ _ h => h.1
  · exact fun _ h => h.1

variable {dev : BlockDevice} {fuel : Nat}

section

variable (hboot : fat12_parse_bpb (d 0) = .ok b)

include hboot

/-- `mkdir` leaves the boot sector as it is. -/
theorem keeps_create_dir (path : CString) :
    Keeps b d (fat12_core_create_dir_on_device dev fuel path) := by
  apply keeps_withParent hboot (V := fun _ => True)
  intro parent_cluster leaf83
  apply (guards_attempt (guards_find_entry fuel parent_cluster leaf83)).bind
  intro r _
  match r with
  | .ok found =>
    dsimp only
    split <;> trivial
  | .error .NOT_FOUND => exact guards_createDir parent_cluster leaf83
  | .error .EXISTS | .error .NOT_DIR | .error .INVALID | .error .NO_SPACE | .error .READ_ONLY
  | .error .IS_DIR | .error .NOT_EMPTY => trivial

/-- Writing a file leaves it as it is, also where the write is undone. -/
theorem keeps_write_file (path : CString) (data : List UInt8) :
    Keeps b d (fat12_core_write_file_on_device dev fuel path data) := by
  apply keeps_withParent hboot (V := fun _ => True)
  intro parent_cluster leaf83
  apply (guards_find_entry fuel parent_cluster leaf83).attempt.bind
  intro r hr
  match r with
  | .ok found =>
    have hwrite : (writeData dev fuel b data found.ref true leaf83).Only (Guards b) fun _ => True :=
      guards_writeData data (hr found rfl) true leaf83
    dsimp only
    split
    · trivial
    split
    · exact (guards_free_chain fuel found.cluster).bind fun _ _ => hwrite
    · exact hwrite
  | .error .NOT_FOUND =>
    apply (guards_find_free fuel parent_cluster).bind
    intro entry_ref href
    exact guards_writeData data href false leaf83
  | .error .EXISTS | .error .NOT_DIR | .error .INVALID | .error .NO_SPACE | .error .READ_ONLY
  | .error .IS_DIR | .error .NOT_EMPTY => trivial

/-- So does `unlink`, -/
theorem keeps_unlink (path : CString) :
    Keeps b d (fat12_core_unlink_on_device fuel path) := by
  apply keeps_withParent hboot (V := fun _ => True)
  intro parent_cluster leaf83
  apply (guards_find_entry fuel parent_cluster leaf83).bind
  intro found hfound
  split
  · trivial
  apply (guards_deleteEntry hfound).bind
  intro _ _
  split
  · exact guards_free_chain fuel found.cluster
  · trivial

/-- and `rmdir`. -/
theorem keeps_rmdir (cwd path : CString) :
    Keeps b d (fat12_rmdir dev fuel cwd path) := by
  unfold fat12_rmdir
  split
  · exact .fail _
  split
  · exact .fail _
  apply keeps_withParent hboot (V := fun _ => True)
  intro parent_cluster leaf83
  apply (guards_find_entry fuel parent_cluster leaf83).bind
  intro found hfound
  split
  · trivial
  apply (guards_emptyChain 4096 found.cluster).bind
  intro _ _
  apply (guards_deleteEntry hfound).bind
  intro _ _
  exact guards_free_chain fuel found.cluster

end

/-! The calls of a mounted driver. -/

/-- An `open` may create or empty the file. -/
theorem keeps_open (hboot : fat12_parse_bpb (d 0) = .ok b) (drv : Driver) (path : CString)
    (flags : Nat) : Keeps b d (fat12_open dev fuel b drv path flags) := by
  have hresolve : Keeps b d (fat12_resolve_path_info fuel b drv.g_fat12_cwd_cluster path.bytes) :=
    .of_guards (Finds.guards (looks_resolve_path _ _ _ _))
  apply Keeps.bind
  · unfold openLookup
    apply hresolve.attempt.bind
    rintro (rc | info)
    · dsimp only
      split
      · split
        · exact .fail _
        split
        · exact .fail _
        exact (keeps_write_file hboot path []).bind fun _ => hresolve
      · exact .fail _
    · exact .done info
  · intro info
    split
    · exact .fail _
    apply Keeps.bind
    · unfold openTruncate
      split
      · split
        · exact .fail _
        split
        · exact .fail _
        exact (keeps_write_file hboot path []).bind fun _ => .done _
      · exact .done info
    · intro info
      split
      · exact .fail _
      · exact .done _

/-- A `write` reads the old contents and stores the new ones. -/
theorem keeps_write (hboot : fat12_parse_bpb (d 0) = .ok b) (drv : Driver) (node_id offset : Nat)
    (buffer : List UInt8) : Keeps b d (fat12_write dev fuel b drv node_id offset buffer) := by
  have hback : ∀ drv i content count, Keeps b d (writeBack dev fuel b drv i content count) := by
    intro drv i content count
    apply (keeps_write_file hboot _ content).attempt.bind
    rintro (rc | _)
    · exact .done _
    apply (Keeps.of_guards (Finds.guards (looks_resolve_path _ _ _ _))).attempt.bind
    rintro (rc | info)
    · exact .done _
    · dsimp only
      split
      · exact .done _
      · exact .done _
  have hold : ∀ file, Keeps b d (writeOld fuel b drv file) := by
    intro file
    unfold writeOld
    split
    · exact .of_guards (Finds.guards (looks_read_file _ _ _ _ _))
    · exact .done _
  unfold fat12_write
  split
  · exact .done _
  dsimp only
  split
  · exact .done _
  split
  · exact .done _
  split
  · exact .done _
  split
  · exact .done _
  apply (hold _).attempt.bind
  rintro (rc | old)
  · exact .done _
  · exact hback _ _ _ _

end

/-- A call of the driver that may write. -/
inductive Call where
  | make_dir (path : CString)
  | openPath (path : CString) (flags : Nat)
  | write (node_id offset : Nat) (buffer : List UInt8)
  | unlink (path : CString)
  | rmdir (path : CString)

/-- A call and the driver after it; a call that fails leaves the driver as it was. -/
def Call.exec (dev : BlockDevice) (fuel : Nat) (b : Bpb) (drv : Driver) : Call → Io Driver
  | .make_dir path => do
    let _ ← (fat12_make_dir dev fuel path).attempt
    return drv
  | .openPath path flags => do
    match ← (fat12_open dev fuel b drv path flags).attempt with
    | .ok (_, drv') => return drv'
    | .error _ => return drv
  | .write node_id offset buffer => do
    let (_, drv') ← fat12_write dev fuel b drv node_id offset buffer
    return drv'
  | .unlink path => do
    match ← (fat12_unlink dev fuel drv path).attempt with
    | .ok drv' => return drv'
    | .error _ => return drv
  | .rmdir path => do
    let _ ← (fat12_rmdir dev fuel (.cut drv.g_fat12_cwd) path).attempt
    return drv

/-- Calls one after the other. -/
def session (dev : BlockDevice) (fuel : Nat) (b : Bpb) : List Call → Driver → Io Driver
  | [], drv => return drv
  | call :: rest, drv => do
    let drv' ← call.exec dev fuel b drv
    session dev fuel b rest drv'

/-- Every call of the driver leaves the boot sector as it is. -/
theorem keeps_exec {b : Bpb} {d : Disk} {fuel : Nat} (hboot : fat12_parse_bpb (d 0) = .ok b)
    (drv : Driver) (call : Call) :
    Keeps b d (call.exec dev fuel b drv) := by
  cases call with
  | make_dir path =>
    have hmake : Keeps b d (fat12_make_dir dev fuel path) := by
      unfold fat12_make_dir
      split
      · exact .fail _
      · exact keeps_create_dir hboot path
    exact hmake.attempt.bind fun _ => .done drv
  | openPath path flags =>
    apply (keeps_open hboot drv path flags).attempt.bind
    rintro (rc | ⟨node_id, drv'⟩)
    · exact .done drv
    · exact .done drv'
  | write node_id offset buffer =>
    exact (keeps_write hboot drv node_id offset buffer).bind fun r => .done r.2
  | unlink path =>
    have hunlink : Keeps b d (fat12_unlink dev fuel drv path) := by
      unfold fat12_unlink
      split
      · exact .fail _
      · exact (keeps_unlink hboot path).bind fun _ => .done _
    apply hunlink.attempt.bind
    rintro (rc | drv')
    · exact .done drv
    · exact .done drv'
  | rmdir path => exact (keeps_rmdir hboot _ path).attempt.bind fun _ => .done drv

/-- From a disk whose boot sector is accepted, no sequence of calls writes below the
reserved sectors, however the disk fails; the boot area is the same afterwards. -/
theorem session_keeps_boot {b : Bpb} {d : Disk} (hboot : fat12_parse_bpb (d 0) = .ok b)
    (dev : BlockDevice) (fuel : Nat) (drv : Driver) (calls : List Call) :
    (session dev fuel b calls drv).wp Watches (fun _ s => Kept b d s) ⟨d, []⟩ := by
  have hrun : ∀ drv, Keeps b d (session dev fuel b calls drv) := by
    induction calls with
    | nil => exact fun drv => .done drv
    | cons call rest ih => exact fun drv => (keeps_exec hboot drv call).bind fun drv' => ih drv'
  exact hrun drv ⟨d, []⟩ ⟨fun _ _ => rfl, fun lba h => by cases h⟩

/-- The drive of the sample volume. -/
def smallDevice : BlockDevice := ⟨true, true, 512, 20, Nat.lt_of_sub_eq_succ rfl⟩

/-- A directory is made and a file created on a volume that is all boot sectors. -/
theorem small_session_keeps_boot :
    (session smallDevice 8 smallBpb
      [.make_dir (.cut (asciiBytes "/DIR")),
        .openPath (.cut (asciiBytes "/A")) (FS_O_CREAT + FS_O_RDWR)]
      ⟨[SLASH], 0, fun _ => .closed⟩).wp Watches
      (fun _ s => Kept smallBpb (fun _ => smallBoot) s) ⟨fun _ => smallBoot, []⟩ :=
  session_keeps_boot smallBoot_parsed smallDevice 8 _ _

end System1.Fat12
