/-
A volume in memory, and the file allocation tables of both forms.

`fat12_core.c` has every routine that changes a volume twice: once for a volume on a block
device and once for an image of a volume in memory, which the kernel builds before it has
a device. In an image the table is an array of bytes and an entry is two of them, wherever
they are; on a device they may lie in two sectors, which are read and written one after the
other, in every copy.

`flat` puts the sectors of a disk behind each other. Through it the two `set_fat_entry` are
the same function, and the laws of the packed table hold for both: the entry is the value
modulo 4096 in every copy, and no bit that is not the entry's changes.
-/
import System1.Fat12Table

set_option autoImplicit false

namespace System1.Fat12

open System1.Lib Function Packed12

/-- The bytes of an image. -/
abbrev Image := Nat → UInt8

/-! ## The table of an image -/

def fat12_image_get_fat_entry (b : Bpb) (image : Image) (cluster : Nat) : Nat :=
  let fat_offset := u32 (cluster + cluster / 2)
  let fat := u32 (b.reserved_sectors * 512)
  decode cluster (image (fat + fat_offset)) (image (fat + u32 (fat_offset + 1)))

/-- The body of the loop of `fat12_image_set_fat_entry`: the entry in one of the tables. -/
def imageSetCopy (b : Bpb) (cluster value fat_index : Nat) (image : Image) : Image :=
  let fat_offset := u32 (cluster + cluster / 2)
  let fat := u32 ((b.reserved_sectors + fat_index * b.sectors_per_fat) * 512)
  let image := update image (fat + fat_offset)
    (lowByte cluster value (image (fat + fat_offset)))
  update image (fat + u32 (fat_offset + 1))
    (highByte cluster value (image (fat + u32 (fat_offset + 1))))

/-- The tables from `fat_index` on, `count` of them. -/
def imageSetCopies (b : Bpb) (cluster value : Nat) : Nat → Nat → Image → Image
  | 0, _, image => image
  | count + 1, fat_index, image =>
    imageSetCopies b cluster value count (fat_index + 1)
      (imageSetCopy b cluster value fat_index image)

def fat12_image_set_fat_entry (b : Bpb) (cluster value : Nat) (image : Image) : Image :=
  imageSetCopies b cluster value b.fat_count 0 image

/-! ## A disk as an image -/

/-- The sectors of a disk one behind the other. -/
def flat (d : Disk) : Image := fun n => d (n / 512) (n % 512)

/-- Where a copy of the table starts. -/
def copyBase (b : Bpb) (i : Nat) : Nat := (b.reserved_sectors + i * b.sectors_per_fat) * 512

variable {count value : Nat} {P : Req → Prop}

section

variable {b : Bpb} {d d' : Disk}

theorem copyBase_div (b : Bpb) (i n : Nat) :
    (copyBase b i + n) / 512 = fatLba b i n ∧ (copyBase b i + n) % 512 = n % 512 := by
  unfold copyBase fatLba
  omega

theorem flat_copy (b : Bpb) (d : Disk) (i n : Nat) :
    flat d (copyBase b i + n) = fatByte b d i n := by grind [flat, fatByte, copyBase_div]

/-- A byte of the table in the flat image. -/
theorem flat_putFat (b : Bpb) (d : Disk) (i n : Nat) (x : UInt8) :
    flat (putFat b d i n x) = update (flat d) (copyBase b i + n) x := by
  obtain ⟨hdiv, hmod⟩ := copyBase_div b i n
  funext a
  unfold flat putFat
  by_cases ha : a = copyBase b i + n
  · subst ha
    rw [update_self, hdiv, hmod, update_self, update_self]
  rw [update_of_ne ha]
  by_cases hlba : a / 512 = fatLba b i n
  · -- another byte of the same sector
    rw [hlba, update_self, update_of_ne (by omega)]
  · rw [update_of_ne hlba]

/-- A byte of the disk is outside the tables, or one of a copy. -/
theorem outside_or_copy (b : Bpb) (n : Nat) :
    (n / 512 < b.reserved_sectors ∨ b.root_dir_lba ≤ n / 512) ∨
      ∃ i < b.fat_count, ∃ m < b.sectors_per_fat * 512, n = copyBase b i + m := by
  by_cases hin : n / 512 < b.reserved_sectors ∨ b.root_dir_lba ≤ n / 512
  · exact .inl hin
  have hspf := b.spf_pos
  have hdiv := Nat.div_add_mod (n / 512 - b.reserved_sectors) b.sectors_per_fat
  have hmod := Nat.mod_lt (n / 512 - b.reserved_sectors) hspf
  have hlt : (n / 512 - b.reserved_sectors) / b.sectors_per_fat < b.fat_count := by
    rw [Nat.div_lt_iff_lt_mul hspf]
    unfold Bpb.root_dir_lba at hin
    omega
  refine .inr ⟨_, hlt, (n / 512 - b.reserved_sectors) % b.sectors_per_fat * 512 + n % 512, ?_, ?_⟩
  · omega
  · unfold copyBase
    rw [Nat.mul_comm] at hdiv
    omega

/-! ## Both forms do the same -/

theorem u32_pos_succ {c : Nat} (hc : InTable b c) :
    u32 (pos c + 1) = pos c + 1 := by
  have hspf := b.spf_lt
  unfold InTable at hc
  exact u32_of_lt (by omega)

/-- The tables of a volume that fits into memory start where they should. -/
theorem u32_copyBase (hinside : b.root_dir_lba * 512 < 2 ^ 32) {i : Nat} (hi : i < b.fat_count) :
    u32 ((b.reserved_sectors + i * b.sectors_per_fat) * 512) = copyBase b i := by
  have hmul : i * b.sectors_per_fat ≤ b.fat_count * b.sectors_per_fat :=
    Nat.mul_le_mul_right _ hi.le
  have hbase : (b.reserved_sectors + i * b.sectors_per_fat) * 512 ≤ b.root_dir_lba * 512 :=
    Nat.mul_le_mul_right _ (Nat.add_le_add_left hmul _)
  exact u32_of_lt (Nat.lt_of_le_of_lt hbase hinside)

theorem imageSetCopy_flat (hinside : b.root_dir_lba * 512 < 2 ^ 32) {c i : Nat}
    (hc : InTable b c) (value : Nat) (hi : i < b.fat_count) :
    imageSetCopy b c value i (flat d) = flat (storeFat b d i c (value % 4096)) := by
  unfold imageSetCopy storeFat lowFat
  simp only [u32_copyBase hinside hi, u32_pos hc, u32_pos_succ hc]
  rw [flat_putFat, flat_putFat, ← flat_copy, ← flat_copy, flat_putFat,
    lowByte_mod, highByte_mod]

/-- The tables with an entry stored, one copy after the other. -/
def storeCopies (b : Bpb) (c value : Nat) : Nat → Nat → Disk → Disk
  | 0, _, d => d
  | count + 1, i, d => storeCopies b c value count (i + 1) (storeFat b d i c value)

/-- The copies of an entry, without faults. -/
theorem does_storeCopies {c : Nat} (hc : InTable b c) (value : Nat) {i : Nat}
    (hi : i + count ≤ b.fat_count) :
    Does False (setFatCopies b c value count i) d
      (fun _ d' => d' = storeCopies b c value count i d) fun _ _ => False := by
  induction count generalizing i d with
  | zero => exact .done rfl
  | succ count ih =>
    apply (does_setFatCopy hc value (by omega)).bind
    · rintro _ d' rfl
      exact ih (by omega)
    · exact fun _ _ h => h.1

theorem imageSetCopies_flat (hinside : b.root_dir_lba * 512 < 2 ^ 32) {c : Nat} (hc : InTable b c)
    (value : Nat) {i : Nat} (hi : i + count ≤ b.fat_count) :
    imageSetCopies b c value count i (flat d) =
      flat (storeCopies b c (value % 4096) count i d) := by
  induction count generalizing i d with
  | zero => rfl
  | succ count ih => grind [imageSetCopies, storeCopies, imageSetCopy_flat]

variable (b d) in
/-- The disk after `fat12_dev_set_fat_entry`. -/
def withEntry (c value : Nat) : Disk := storeCopies b c (value % 4096) b.fat_count 0 d

/-- What storing an entry does to a perfect disk. -/
theorem run_set_fat_entry {c : Nat} (hc : InTable b c) (value : Nat) :
    (fat12_dev_set_fat_entry b c value).run perfect d = (.done (), withEntry b d c value) ∧
      StoredIn b 0 b.fat_count c (value % 4096) d (withEntry b d c value) := by
  have hmask : fat12_dev_set_fat_entry b c value =
      setFatCopies b c (value % 4096) b.fat_count 0 := by
    unfold fat12_dev_set_fat_entry
    rw [and_4095]
  obtain ⟨_, d', hrun, rfl⟩ :=
    (does_storeCopies (d := d) hc (value % 4096) (Nat.zero_add b.fat_count).le).returns
  have hdoes : Does False (fat12_dev_set_fat_entry b c value) d _ _ := does_set_fat_entry hc value
  have hstored := hdoes.run
  rw [hmask, hrun] at hstored
  rw [hmask]
  exact ⟨hrun, hstored⟩

/-- The requests of both go to the tables. -/
def ToTables (b : Bpb) (r : Req) : Prop := b.reserved_sectors ≤ r.lba ∧ r.lba < b.root_dir_lba

theorem only_block_read {lba : Nat} (h : P (.read lba)) :
    (block_core_read lba).Only P fun _ => True :=
  ⟨h, fun _ => Prog.only_ofExcept fun _ _ => trivial⟩

theorem only_block_write {lba : Nat} {data : Sector} (h : P (.write lba data)) :
    (block_core_write lba data).Only P fun _ => True :=
  ⟨h, fun _ => Prog.only_ofExcept fun _ _ => trivial⟩

/-- One round of the loop asks for the sector of the entry, and for the one behind it where
the entry goes on there. -/
theorem only_setFatCopy_of {c i : Nat}
    (hfirst : ∀ r, r.lba = u32 (b.reserved_sectors + i * b.sectors_per_fat +
      u32 (c + c / 2) / 512) → P r) (hsecond : u32 (c + c / 2) % 512 = 511 → ∀ r, r.lba =
      u32 (u32 (b.reserved_sectors + i * b.sectors_per_fat + u32 (c + c / 2) / 512) + 1) → P r) :
    (setFatCopy b c value i).Only P fun _ => True := by
  apply (only_block_read (hfirst _ rfl)).bind
  intro work _
  split
  · next h511 =>
    apply (only_block_write (hfirst _ rfl)).bind
    intro _ _
    apply (only_block_read (hsecond h511 _ rfl)).bind
    intro next _
    exact only_block_write (hsecond h511 _ rfl)
  · exact only_block_write (hfirst _ rfl)

section

variable {c i : Nat} (hc : InTable b c) (hi : i < b.fat_count)

include hc hi

/-- The sector of an entry, and the one behind it where the entry lies across the two. -/
theorem toTables_entry :
    (∀ r : Req, r.lba = u32 (b.reserved_sectors + i * b.sectors_per_fat + u32 (c + c / 2) / 512) →
      ToTables b r) ∧
    (u32 (c + c / 2) % 512 = 511 → ∀ r : Req, r.lba =
      u32 (u32 (b.reserved_sectors + i * b.sectors_per_fat + u32 (c + c / 2) / 512) + 1) →
      ToTables b r) := by
  obtain ⟨hsector, hnext⟩ := u32_fatLba hi hc.pos_lt
  have hbase : b.reserved_sectors + i * b.sectors_per_fat + pos c / 512 =
      fatLba b i (pos c) := rfl
  rw [u32_pos hc, hbase, hsector, hnext]
  unfold ToTables
  constructor
  · intro r hr
    rw [hr]
    exact fatLba_lt hi hc.pos_lt
  · intro h511 r hr
    rw [hr, ← (fatLba_succ_of_eq b i h511).1]
    exact fatLba_lt hi hc

theorem only_setFatCopy (value : Nat) :
    (setFatCopy b c value i).Only (ToTables b) fun _ => True :=
  only_setFatCopy_of (toTables_entry hc hi).1 (toTables_entry hc hi).2

end

/-- It writes to the tables only. -/
theorem only_setFatCopies {c : Nat} (hc : InTable b c) (value : Nat) {i : Nat}
    (hi : i + count ≤ b.fat_count) :
    (setFatCopies b c value count i).Only (ToTables b) fun _ => True := by
  induction count generalizing i with
  | zero => trivial
  | succ count ih =>
    apply (only_setFatCopy hc (by omega) value).bind
    intro _ _
    exact ih (by omega)

/-- The sectors the entry read touches: the one it starts in and, at a straddle, the next. -/
theorem only_get_fat_of {c : Nat}
    (hfirst : ∀ r, r.lba = u32 (b.reserved_sectors + u32 (c + c / 2) / 512) → P r)
    (hsecond : u32 (c + c / 2) % 512 = 511 → ∀ r, r.lba =
      u32 (u32 (b.reserved_sectors + u32 (c + c / 2) / 512) + 1) → P r) :
    (fat12_dev_get_fat_entry b c).Only P fun _ => True := by
  apply (only_block_read (hfirst _ rfl)).bind
  intro work _
  split
  · next h511 =>
    apply (only_block_read (hsecond h511 _ rfl)).bind
    intro next _
    trivial
  · trivial

theorem only_get_fat_entry {c : Nat} (hc : InTable b c) :
    (fat12_dev_get_fat_entry b c).Only (ToTables b) fun _ => True := by
  have hentry := toTables_entry hc b.fats_pos
  rw [Nat.zero_mul, Nat.add_zero] at hentry
  exact only_get_fat_of hentry.1 hentry.2

/-- A device that has room for the tables serves such a program like one without end. -/
theorem run_sized {α : Type} {p : Io α} {V : α → Prop} (hp : p.Only (ToTables b) V)
    {sector_count : Nat} (hroom : sector_count = 0 ∨ b.root_dir_lba ≤ sector_count) (d : Disk) :
    p.run (sized sector_count) d = p.run perfect d := by
  apply hp.run_congr
  rintro s r ⟨-, hr⟩
  exact sized_eq_perfect s (by omega)

/-! ## The laws -/

/-- Bit `k` of byte `n` belongs to entry `c` of one of the tables. -/
def TableBit (b : Bpb) (c n k : Nat) : Prop :=
  ∃ i < b.fat_count, ∃ m, n = copyBase b i + m ∧ Packed12.Bit c m k

/-- The image code reads the entry that the device code reads. -/
theorem get_fat_entry_flat (hinside : b.root_dir_lba * 512 < 2 ^ 32) {c : Nat}
    (hc : InTable b c) :
    fat12_image_get_fat_entry b (flat d) c = fatEntry b d c := by
  have hbase : u32 (b.reserved_sectors * 512) = copyBase b 0 := by
    rw [← u32_copyBase hinside b.fats_pos, Nat.zero_mul, Nat.add_zero]
  unfold fat12_image_get_fat_entry
  dsimp only
  rw [u32_pos hc, u32_pos_succ hc, hbase, flat_copy, flat_copy, fatEntry_eq_entry hc]
  rfl

/-- A changed bit is the entry's. -/
theorem StoredIn.bits {c : Nat} (h : StoredIn b 0 b.fat_count c value d d') {n k : Nat}
    (hbit : ¬ TableBit b c n k) :
    (flat d' n).toNat.testBit k = (flat d n).toNat.testBit k := by
  obtain hout | ⟨i, hi, m, hm, rfl⟩ := outside_or_copy b n
  · unfold flat
    rw [h.sectors _ hout]
  · rw [flat_copy, flat_copy, h.fat_eq hi hm]
    exact testBit_store _ _ fun hk => hbit ⟨i, hi, m, rfl, hk⟩

/-- A value is stored in entry `c` of every table of an image, and nothing else is changed. -/
structure EntryStored (b : Bpb) (c value : Nat) (image image' : Image) : Prop where
  copies : ∀ i < b.fat_count,
    entry (fun m => image' (copyBase b i + m)) c = value % 4096
  bits : ∀ n k, ¬ TableBit b c n k → (image' n).toNat.testBit k = (image n).toNat.testBit k

/-- An entry stored on the disk is stored in the image. -/
theorem StoredIn.entryStored {c : Nat} (hc : InTable b c)
    (h : StoredIn b 0 b.fat_count c (value % 4096) d d') :
    EntryStored b c value (flat d) (flat d') where
  copies := by
    intro i hi
    simp only [flat_copy]
    rw [entry_congr hc fun n hn => h.fat_eq hi hn]
    exact entry_store_self _ (Nat.mod_lt _ (by decide))
  bits := fun _ _ => h.bits

/-- The laws of the packed tables. `fat12_dev_set_fat_entry` succeeds, its entry then reads
as the value modulo 4096, every other entry of the table reads as before, every copy has the
value, and no other bit of the device has changed. `fat12_image_set_fat_entry` does the same
to an image, and what it leaves is byte by byte what is on the device. -/
theorem fat_entry_packing (b : Bpb) (d : Disk) {sector_count image_size c value : Nat}
    (hdevice : sector_count = 0 ∨ b.root_dir_lba ≤ sector_count)
    (himage : b.root_dir_lba * 512 ≤ image_size) (hsize : image_size < 2 ^ 32)
    (hc : InTable b c) :
    ∃ d', (fat12_dev_set_fat_entry b c value).run (sized sector_count) d = (.done (), d') ∧
      (fat12_dev_get_fat_entry b c).run (sized sector_count) d' = (.done (value % 4096), d') ∧
      (∀ x, InTable b x → x ≠ c → ∃ v,
        (fat12_dev_get_fat_entry b x).run (sized sector_count) d = (.done v, d) ∧
        (fat12_dev_get_fat_entry b x).run (sized sector_count) d' = (.done v, d')) ∧
      EntryStored b c value (flat d) (flat d') ∧
      fat12_image_get_fat_entry b (fat12_image_set_fat_entry b c value (flat d)) c =
        value % 4096 ∧
      (∀ x, InTable b x → x ≠ c →
        fat12_image_get_fat_entry b (fat12_image_set_fat_entry b c value (flat d)) x =
          fat12_image_get_fat_entry b (flat d) x) ∧
      EntryStored b c value (flat d) (fat12_image_set_fat_entry b c value (flat d)) ∧
      fat12_image_set_fat_entry b c value (flat d) = flat d' := by
  have hinside : b.root_dir_lba * 512 < 2 ^ 32 := Nat.lt_of_le_of_lt himage hsize
  obtain ⟨hset, hstored⟩ := run_set_fat_entry (d := d) hc value
  have himageSet : fat12_image_set_fat_entry b c value (flat d) = flat (withEntry b d c value) :=
    imageSetCopies_flat hinside hc value (Nat.zero_add b.fat_count).le
  -- what `get_fat_entry` reads, on the device and in the image
  have hget : ∀ x, InTable b x → ∀ e : Disk,
      (fat12_dev_get_fat_entry b x).run (sized sector_count) e = (.done (fatEntry b e x), e) := by
    intro x hx e
    rw [run_sized (only_get_fat_entry hx) hdevice]
    exact (reads_get_fat b e x).run
  have hself : fatEntry b (withEntry b d c value) c = value % 4096 := by
    rw [fatEntry_eq_entry hc, entry_congr hc fun n hn => hstored.fat_eq b.fats_pos hn]
    exact entry_store_self _ (Nat.mod_lt _ (by decide))
  have hother : ∀ x, InTable b x → x ≠ c →
      fatEntry b (withEntry b d c value) x = fatEntry b d x := by
    intro x hx hne
    rw [fatEntry_eq_entry hx, fatEntry_eq_entry hx]
    exact hstored.fatOnly.fat 0 b.fats_pos x hx hne
  refine ⟨withEntry b d c value, ?_, ?_, ?_, hstored.entryStored hc, ?_, ?_, ?_, himageSet⟩
  · have honly : (fat12_dev_set_fat_entry b c value).Only (ToTables b) fun _ => True :=
      only_setFatCopies hc _ (Nat.zero_add b.fat_count).le
    rw [run_sized honly hdevice]
    exact hset
  · rw [hget c hc, hself]
  · grind
  · rw [himageSet, get_fat_entry_flat hinside hc, hself]
  · grind [get_fat_entry_flat]
  · rw [himageSet]
    exact hstored.entryStored hc

end

/-- The parameters of a 1.44 MB floppy. -/
def floppy : Bpb where
  sectors_per_cluster := 1
  reserved_sectors := 1
  fat_count := 2
  root_entry_count := 224
  sectors_per_fat := 9
  spc_pos := Nat.one_pos
  spc_lt := Nat.lt_of_sub_eq_succ rfl
  reserved_pos := Nat.one_pos
  reserved_lt := Nat.lt_of_sub_eq_succ rfl
  fats_pos := Nat.two_pos
  fats_lt := Nat.lt_of_sub_eq_succ rfl
  root_pos := Nat.lt_of_sub_eq_succ rfl
  root_lt := Nat.lt_of_sub_eq_succ rfl
  spf_pos := Nat.lt_of_sub_eq_succ rfl
  spf_lt := Nat.lt_of_sub_eq_succ rfl

/-- Entry 341 of a floppy lies across two sectors. -/
theorem floppy_straddling_entry :
    pos 341 % 512 = 511 ∧ ∃ d',
      (fat12_dev_set_fat_entry floppy 341 0xFABC).run (sized 2880) (fun _ _ => 0) =
        (.done (), d') ∧
      (fat12_dev_get_fat_entry floppy 341).run (sized 2880) d' = (.done 0xABC, d') := by
  refine ⟨rfl, ?_⟩
  obtain ⟨d', hset, hget, -⟩ := fat_entry_packing floppy (fun _ _ => 0) (c := 341)
    (.inr (by decide) : 2880 = 0 ∨ floppy.root_dir_lba ≤ 2880)
    (by decide : floppy.root_dir_lba * 512 ≤ 1474560) (by decide) (by decide)
  exact ⟨d', hset, hget⟩

end System1.Fat12
