/-
The file allocation tables on a disk.

A volume has `fat_count` copies of its table, one behind the other. `fatByte` is a byte of
one of them wherever its sector is, so that a copy is a packed table in the sense of
`Packed12` and an entry that lies across two sectors is not special. Storing an entry is
then one equation per copy, whole (`storeFat`) or, where the device gave up between the
two sectors, with its first byte only (`lowFat`).

The entries considered are those that lie in the table, `InTable`; nothing is assumed about
what the tables hold.
-/
import System1.Fat12Disk

set_option autoImplicit false

namespace System1.Fat12

open System1.Lib Function Packed12

/-! ## Where the bytes are -/

/-- A byte of a copy of the table. -/
def fatLba (b : Bpb) (i n : Nat) : Nat := b.reserved_sectors + i * b.sectors_per_fat + n / 512

def fatByte (b : Bpb) (d : Disk) (i n : Nat) : UInt8 := d (fatLba b i n) (n % 512)

/-- The entry of cluster `c` lies in the table. -/
def InTable (b : Bpb) (c : Nat) : Prop := pos c + 1 < b.sectors_per_fat * 512

instance (b : Bpb) (c : Nat) : Decidable (InTable b c) := inferInstanceAs (Decidable (_ < _))

variable {c i n i' : Nat}

section

variable {b : Bpb} {d d' : Disk}

theorem InTable.pos_lt (h : InTable b c) : pos c < b.sectors_per_fat * 512 :=
  Nat.lt_of_succ_lt h

/-- The sectors of the tables. -/
theorem fatLba_lt (hi : i < b.fat_count) (hn : n < b.sectors_per_fat * 512) :
    b.reserved_sectors ≤ fatLba b i n ∧ fatLba b i n < b.root_dir_lba := by
  have hmul : (i + 1) * b.sectors_per_fat ≤ b.fat_count * b.sectors_per_fat :=
    Nat.mul_le_mul_right _ hi
  rw [Nat.add_mul, Nat.one_mul] at hmul
  unfold fatLba Bpb.root_dir_lba
  omega

/-- A byte of the tables is at one place only. -/
theorem fatLba_inj {n' : Nat} (hn : n < b.sectors_per_fat * 512)
    (hn' : n' < b.sectors_per_fat * 512) (hlba : fatLba b i n = fatLba b i' n')
    (hmod : n % 512 = n' % 512) : i = i' ∧ n = n' := by
  have hdiv : ∀ {n : Nat}, n < b.sectors_per_fat * 512 → n / 512 < b.sectors_per_fat := fun h =>
    (Nat.div_lt_iff_lt_mul (by decide)).mpr h
  unfold fatLba at hlba
  grind [quotient_unique]

end

/-- A disk with one byte of a table changed. -/
def putFat (b : Bpb) (d : Disk) (i n : Nat) (x : UInt8) : Disk :=
  update d (fatLba b i n) (update (d (fatLba b i n)) (n % 512) x)

section

variable {b : Bpb} {d d' : Disk}

/-- One byte of the table is stored. -/
theorem fatByte_putFat {n' : Nat} {x : UInt8} (hn : n < b.sectors_per_fat * 512)
    (hn' : n' < b.sectors_per_fat * 512) :
    fatByte b (putFat b d i n x) i' n' =
      if i' = i ∧ n' = n then x else fatByte b d i' n' := by
  unfold fatByte putFat
  by_cases hlba : fatLba b i' n' = fatLba b i n
  · rw [hlba, update_self]
    grind [fatLba_inj]
  · rw [update_of_ne hlba, if_neg fun h => hlba (by rw [h.1, h.2])]

theorem putFat_other {lba : Nat} {x : UInt8} (hi : i < b.fat_count)
    (hn : n < b.sectors_per_fat * 512) (hlba : lba < b.reserved_sectors ∨ b.root_dir_lba ≤ lba) :
    putFat b d i n x lba = d lba := by
  have hlt := fatLba_lt hi hn
  exact update_of_ne (by omega) ..

theorem u32_fatLba (hi : i < b.fat_count) (hn : n < b.sectors_per_fat * 512) :
    u32 (fatLba b i n) = fatLba b i n ∧ u32 (fatLba b i n + 1) = fatLba b i n + 1 := by
  have hlt := (fatLba_lt hi hn).2
  grind [Bpb.data_lba, b.data_lba_le, u32_of_lt]

theorem u32_pos (hc : InTable b c) : u32 (c + c / 2) = pos c := by
  have hspf := b.spf_lt
  unfold InTable pos at hc
  exact u32_of_lt (by omega)

/-- Where the two bytes of an entry are: behind each other in a sector, or across two. -/
theorem fatLba_succ_of_eq (b : Bpb) (i : Nat) (h : n % 512 = 511) :
    fatLba b i (n + 1) = fatLba b i n + 1 ∧ (n + 1) % 512 = 0 := by
  unfold fatLba
  omega

theorem fatLba_succ_of_ne (b : Bpb) (i : Nat) (h : n % 512 ≠ 511) :
    fatLba b i (n + 1) = fatLba b i n ∧ (n + 1) % 512 = n % 512 + 1 := by
  unfold fatLba
  omega

/-- The entry `fat12_dev_get_fat_entry` computes. -/
theorem fatEntry_eq_entry (hc : InTable b c) :
    fatEntry b d c = entry (fatByte b d 0) c := by
  have hpos := hc.pos_lt
  obtain ⟨hsector, hnext⟩ := u32_fatLba b.fats_pos hpos
  have hbase : b.reserved_sectors + pos c / 512 = fatLba b 0 (pos c) := by
    unfold fatLba
    omega
  grind [fatEntry, entry, fatByte, u32_pos, fatLba_succ_of_eq, fatLba_succ_of_ne]

end

/-! ## Programs that write -/

section

variable {α β : Type}

/-- How a program ends: with a value, or with an error, but it does end. -/
def Result (ok : α → Disk → Prop) (bad : FsErr → Disk → Prop) : Outcome FsErr α → Disk → Prop
  | .done a, d => ok a d
  | .fail rc, d => bad rc d
  | .spin, _ => False

/-- From the disk `d` the program returns with `ok` or fails with `bad`. A failed write
leaves its sector as it was. -/
def Does (faults : Prop) (p : Io α) (d : Disk) (ok : α → Disk → Prop) (bad : FsErr → Disk → Prop) :
    Prop :=
  p.wp (Serves faults False) (Result ok bad) d

variable {faults : Prop} {p : Io α} {d : Disk} {ok ok' : α → Disk → Prop}
  {bad bad' : FsErr → Disk → Prop}

theorem Does.mono (h : Does faults p d ok bad) (hok : ∀ a d', ok a d' → ok' a d')
    (hbad : ∀ rc d', bad rc d' → bad' rc d') : Does faults p d ok' bad' := by
  apply Prog.wp_mono h
  intro o d' ho
  cases o with
  | done a => exact hok a d' ho
  | fail rc => exact hbad rc d' ho
  | spin => exact ho

theorem Does.bind {f : α → Io β} {ok' : β → Disk → Prop} (h : Does faults p d ok bad)
    (hf : ∀ a d', ok a d' → Does faults (f a) d' ok' bad')
    (hbad : ∀ rc d', bad rc d' → bad' rc d') : Does faults (p >>= f) d ok' bad' :=
  Prog.wp_bind h (fun a d' ha => hf a d' ha) (fun rc d' hrc => hbad rc d' hrc) fun _ hs => hs

theorem Does.done {a : α} (h : ok a d) : Does faults (.done a) d ok bad := h

theorem Does.fail {rc : FsErr} (h : bad rc d) : Does faults (.fail rc) d ok bad := h

/-- A failure that the caller looks at. -/
theorem Does.attempt_bind {f : Except FsErr α → Io β} {ok' : β → Disk → Prop}
    (h : Does faults p d (fun a d' => Does faults (f (.ok a)) d' ok' bad)
      fun rc d' => Does faults (f (.error rc)) d' ok' bad) :
    Does faults (p.attempt >>= f) d ok' bad := by
  refine Prog.wp_seq (Prog.wp_attempt (Prog.wp_mono h ?_))
  intro o d' ho
  cases o with
  | done | fail | spin => exact ho

theorem Does.of_reads {o : Outcome FsErr α} (h : Reads faults False p d o) (ho : Result ok bad o d)
    (hbad : faults → ∀ rc, bad rc d) : Does faults p d ok bad :=
  h _ ho hbad

/-- A program that only reads, and what follows it. -/
theorem Does.of_reads_bind {f : α → Io β} {ok' : β → Disk → Prop} {o : Outcome FsErr α}
    (h : Reads faults False p d o)
    (ho : Result (fun a d' => Does faults (f a) d' ok' bad) bad o d)
    (hbad : faults → ∀ rc, bad rc d) : Does faults (p >>= f) d ok' bad :=
  (Does.of_reads h ho hbad).bind (fun _ _ h => h) fun _ _ h => h

/-- A step that is left out in some cases, and what follows it. -/
theorem Does.when_bind {c : Prop} [Decidable c] {p : Io Unit} {f : Unit → Io β}
    {ok' : β → Disk → Prop} (Q : Disk → Prop) (hp : c → Does faults p d (fun _ => Q) bad)
    (hskip : ¬ c → Q d) (hf : ∀ d', Q d' → Does faults (f ()) d' ok' bad) :
    Does faults (if c then p >>= f else f ()) d ok' bad := by
  split
  · next hc => exact (hp hc).bind (fun _ => hf) fun _ _ h => h
  · next hc => exact hf d (hskip hc)

theorem does_read (lba : Nat) (d : Disk) :
    Does faults (block_core_read lba) d (fun x d' => x = d lba ∧ d' = d)
      (fun _ d' => faults ∧ d' = d) :=
  .of_reads (reads_block lba d) ⟨rfl, rfl⟩ fun h _ => ⟨h, rfl⟩

theorem does_write (lba : Nat) (data : Sector) (d : Disk) :
    Does faults (block_core_write lba data) d (fun _ d' => d' = update d lba data)
      (fun _ d' => faults ∧ d' = d) := by
  intro x d' hx
  cases hx with
  | write => exact rfl
  | writeFails h => exact ⟨h, rfl⟩
  | writeTears _ ht => exact ht.elim

/-- On a perfect disk that is how a run ends. -/
theorem Does.run (h : Does False p d ok bad) :
    Result ok bad (p.run perfect d).1 (p.run perfect d).2 :=
  Prog.wp_run perfect (perfect_serves False False) h

/-- A program that does not fail by itself, on a device that does not. -/
theorem Does.returns (h : Does False p d ok fun _ _ => False) :
    ∃ a d', p.run perfect d = (.done a, d') ∧ ok a d' := by
  have hrun := h.run
  generalize p.run perfect d = r at hrun
  obtain ⟨o, d'⟩ := r
  cases o with
  | done a => exact ⟨a, d', rfl, hrun⟩
  | fail rc => exact hrun.elim
  | spin => exact hrun.elim

end

/-! ## Storing an entry -/

/-- The first byte of an entry stored in a copy. -/
def lowFat (b : Bpb) (d : Disk) (i c value : Nat) : Disk :=
  putFat b d i (pos c) (lowByte c value (fatByte b d i (pos c)))

/-- The entry stored in a copy. -/
def storeFat (b : Bpb) (d : Disk) (i c value : Nat) : Disk :=
  putFat b (lowFat b d i c value) i (pos c + 1)
    (highByte c value (fatByte b (lowFat b d i c value) i (pos c + 1)))

section

variable {b : Bpb} {faults : Prop} {d : Disk}

/-- One copy: both bytes of the entry, or after a fault the first of them only. -/
theorem does_setFatCopy (hc : InTable b c) (value : Nat) (hi : i < b.fat_count) :
    Does faults (setFatCopy b c value i) d (fun _ d' => d' = storeFat b d i c value)
      (fun _ d' => faults ∧ (d' = d ∨ d' = lowFat b d i c value)) := by
  have hpos := hc.pos_lt
  obtain ⟨hsector, hnext⟩ := u32_fatLba hi hpos
  have hbase : b.reserved_sectors + i * b.sectors_per_fat + pos c / 512 =
      fatLba b i (pos c) := rfl
  unfold setFatCopy
  simp only [u32_pos hc, hbase, hsector, hnext]
  apply (does_read _ d).bind
  swap
  · rintro rc d' ⟨h, rfl⟩
    exact ⟨h, .inl rfl⟩
  rintro work d' ⟨rfl, rfl⟩
  by_cases h511 : pos c % 512 = 511
  · -- two sectors: the first byte is written alone
    obtain ⟨hlba, hmod⟩ := fatLba_succ_of_eq b i h511
    rw [if_pos h511]
    apply (does_write _ _ d').bind
    swap
    · rintro rc d'' ⟨h, rfl⟩
      exact ⟨h, .inl rfl⟩
    rintro _ d'' rfl
    show Does faults _ (lowFat b d' i c value) _ _
    apply (does_read _ _).bind
    swap
    · rintro rc d'' ⟨h, rfl⟩
      exact ⟨h, .inr rfl⟩
    rintro next d'' ⟨rfl, rfl⟩
    apply (does_write _ _ _).mono
    · simp_all [storeFat, putFat, fatByte]
    · rintro rc d'' ⟨h, rfl⟩
      exact ⟨h, .inr rfl⟩
  · -- one sector and one write
    obtain ⟨hlba, hmod⟩ := fatLba_succ_of_ne b i h511
    rw [if_neg h511]
    apply (does_write _ _ d').mono
    · simp_all [storeFat, lowFat, putFat, fatByte]
    · rintro rc d'' ⟨h, rfl⟩
      exact ⟨h, .inl rfl⟩

theorem fatByte_lowFat (hc : InTable b c) (value : Nat) (hn : n < b.sectors_per_fat * 512) :
    fatByte b (lowFat b d i c value) i' n =
      if i' = i then storeLow (fatByte b d i) c value n else fatByte b d i' n := by
  unfold lowFat storeLow
  rw [fatByte_putFat hc.pos_lt hn, update_apply]
  grind

theorem fatByte_storeFat (hc : InTable b c) (value : Nat) (hn : n < b.sectors_per_fat * 512) :
    fatByte b (storeFat b d i c value) i' n =
      if i' = i then store (fatByte b d i) c value n else fatByte b d i' n := by
  unfold storeFat
  rw [fatByte_putFat hc hn, fatByte_lowFat hc value hn,
    fatByte_lowFat hc value hc, if_pos rfl, store_eq, update_apply]
  grind

/-- An entry is read off the bytes of its copy. -/
theorem entry_congr {f f' : Nat → UInt8} {x : Nat} (hx : InTable b x)
    (h : ∀ n < b.sectors_per_fat * 512, f' n = f n) :
    entry f' x = entry f x := by
  unfold entry
  rw [h _ hx, h _ hx.pos_lt]

theorem store_congr {f f' : Nat → UInt8} (hc : InTable b c) (value : Nat)
    (h : ∀ n < b.sectors_per_fat * 512, f' n = f n) (hn : n < b.sectors_per_fat * 512) :
    store f' c value n = store f c value n := by
  unfold store
  simp only [update_apply, h _ hc, h _ hc.pos_lt, h n hn]

variable (b) in
/-- The copies `lo` to `hi` of the table have the entry stored. -/
structure StoredIn (lo hi c value : Nat) (d d' : Disk) : Prop where
  sectors : ∀ lba, lba < b.reserved_sectors ∨ b.root_dir_lba ≤ lba → d' lba = d lba
  fat : ∀ i < b.fat_count, ∀ n < b.sectors_per_fat * 512,
    fatByte b d' i n =
      if lo ≤ i ∧ i < hi then store (fatByte b d i) c value n else fatByte b d i n

variable (b) in
/-- Apart from entry `c` of the tables nothing has changed. -/
structure FatOnly (c : Nat) (d d' : Disk) : Prop where
  sectors : ∀ lba, lba < b.reserved_sectors ∨ b.root_dir_lba ≤ lba → d' lba = d lba
  fat : ∀ i < b.fat_count, ∀ x, InTable b x → x ≠ c →
    entry (fatByte b d' i) x = entry (fatByte b d i) x

theorem FatOnly.refl (c : Nat) (d : Disk) : FatOnly b c d d :=
  ⟨fun _ _ => rfl, fun _ _ _ _ _ => rfl⟩

theorem FatOnly.trans {d' d'' : Disk} (h : FatOnly b c d d') (h' : FatOnly b c d' d'') :
    FatOnly b c d d'' where
  sectors := fun lba hlba => (h'.sectors lba hlba).trans (h.sectors lba hlba)
  fat := fun i hi x hx hne => (h'.fat i hi x hx hne).trans (h.fat i hi x hx hne)

/-- Half a store still touches this entry only. -/
theorem fatOnly_lowFat (hc : InTable b c) (value : Nat) (hi : i < b.fat_count) :
    FatOnly b c d (lowFat b d i c value) where
  sectors := fun lba hlba => putFat_other hi hc.pos_lt hlba
  fat := by
    intro i' _ x hx hne
    by_cases hi' : i' = i
    · subst hi'
      rw [entry_congr hx fun n hn => (fatByte_lowFat hc value hn).trans (if_pos rfl)]
      exact entry_storeLow_ne _ hne
    · exact entry_congr hx fun n hn => (fatByte_lowFat hc value hn).trans (if_neg hi')

/-- Storing an entry changes no sector outside the FAT and no other entry. -/
theorem StoredIn.fatOnly {lo hi value : Nat} {d d' : Disk} (h : StoredIn b lo hi c value d d') :
    FatOnly b c d d' where
  sectors := h.sectors
  fat := by
    intro i hi' x hx hne
    by_cases hin : lo ≤ i ∧ i < hi
    · rw [entry_congr hx fun n hn => (h.fat i hi' n hn).trans (if_pos hin)]
      exact entry_store_ne _ hne
    · exact entry_congr hx fun n hn => (h.fat i hi' n hn).trans (if_neg hin)

/-- The copies one after the other. -/
theorem does_setFatCopies (hc : InTable b c) (value : Nat) {count : Nat}
    (hi : i + count ≤ b.fat_count) :
    Does faults (setFatCopies b c value count i) d
      (fun _ d' => StoredIn b i (i + count) c value d d')
      (fun _ d' => faults ∧ FatOnly b c d d') := by
  induction count generalizing i d with
  | zero =>
    refine .done ⟨fun _ _ => rfl, fun i' _ n _ => ?_⟩
    rw [if_neg (by omega)]
  | succ count ih =>
    have hi' : i < b.fat_count := by omega
    have hone : StoredIn b i (i + 1) c value d (storeFat b d i c value) := by
      constructor
      · intro lba hlba
        unfold storeFat
        rw [putFat_other hi' hc hlba]
        exact putFat_other hi' hc.pos_lt hlba
      · grind [fatByte_storeFat]
    apply (does_setFatCopy hc value hi').bind
    · rintro _ d' rfl
      apply (ih (by omega)).mono
      · intro _ d' hd'
        refine ⟨fun lba hlba => (hd'.sectors lba hlba).trans (hone.sectors lba hlba), ?_⟩
        intro i' hi'' n hn
        rw [hd'.fat i' hi'' n hn]
        by_cases heq : i' = i
        · rw [if_neg (by omega), hone.fat i' hi'' n hn, if_pos (by omega), if_pos (by omega)]
        have hsame : ∀ n < b.sectors_per_fat * 512,
            fatByte b (storeFat b d i c value) i' n = fatByte b d i' n := fun n hn =>
          (hone.fat i' hi'' n hn).trans (if_neg (by omega))
        grind [store_congr]
      · rintro rc d' ⟨h, hd'⟩
        exact ⟨h, hone.fatOnly.trans hd'⟩
    · rintro rc d' ⟨h, rfl | rfl⟩
      · exact ⟨h, .refl _ _⟩
      · exact ⟨h, fatOnly_lowFat hc value hi'⟩

/-- The entry is stored in every copy, as it is modulo 4096. -/
theorem does_set_fat_entry (hc : InTable b c) (value : Nat) :
    Does faults (fat12_dev_set_fat_entry b c value) d
      (fun _ d' => StoredIn b 0 b.fat_count c (value % 4096) d d')
      (fun _ d' => faults ∧ FatOnly b c d d') := by
  have h : Does faults (setFatCopies b c (value % 4096) b.fat_count 0) d
      (fun _ d' => StoredIn b 0 (0 + b.fat_count) c (value % 4096) d d')
      (fun _ d' => faults ∧ FatOnly b c d d') := does_setFatCopies hc _ (by omega)
  rw [Nat.zero_add] at h
  unfold fat12_dev_set_fat_entry
  rw [and_4095]
  exact h

theorem StoredIn.fat_eq {value : Nat} {d' : Disk} (h : StoredIn b 0 b.fat_count c value d d')
    (hi : i < b.fat_count) (hn : n < b.sectors_per_fat * 512) :
    fatByte b d' i n = store (fatByte b d i) c value n :=
  (h.fat i hi n hn).trans (if_pos (by omega))

end

end System1.Fat12
