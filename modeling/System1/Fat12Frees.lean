/-
Freeing a chain of a table that nobody has checked.

`fat12_dev_free_cluster_chain` has no counter and remembers nothing. It ends because every
link it has followed is gone: it stores 0 there before it goes on. What makes that an
argument about any device at all is that a store of 0 only ever clears half bytes. Where the
tables are too small their copies lie over each other and over other sectors, and a store
then changes entries it is not meant for; but an entry that is 0 stays 0 (`Cleared`). So the
entries that are not 0 become fewer with every round that leads on.

On a device that never fails, and with all the entries inside the table, the set that is
freed is exactly the set of clusters the links lead to, in every copy of the table.
-/
import System1.Fat12Table
import System1.Fat12Lookup
import System1.Lib.Linked
import Mathlib.Data.Finset.Card
import Mathlib.Data.Finset.Range

set_option autoImplicit false

namespace System1.Fat12

open System1.Lib Function Packed12 Prog Finset

/-! ## Programs that end, on any device -/

section

variable {α β : Type}

/-- The outcome is an error, or a value with `ok`. -/
def Ended (ok : α → Disk → Prop) : Outcome FsErr α → Disk → Prop
  | .done a, d => ok a d
  | .fail _, _ => True
  | .spin, _ => False

/-- From the disk `d` the program fails, or returns with `ok`; a write that fails may leave
anything in its sector. -/
def Ends (faults torn : Prop) (p : Io α) (d : Disk) (ok : α → Disk → Prop) : Prop :=
  p.wp (Serves faults torn) (Ended ok) d

variable {faults torn : Prop} {p : Io α} {d : Disk} {ok : α → Disk → Prop}

theorem Ends.bind {f : α → Io β} {ok' : β → Disk → Prop} (h : Ends faults torn p d ok)
    (hf : ∀ a d', ok a d' → Ends faults torn (f a) d' ok') : Ends faults torn (p >>= f) d ok' :=
  wp_bind h (fun a d' ha => hf a d' ha) (fun _ _ _ => trivial) fun _ h => h.elim

theorem Ends.mono {ok' : α → Disk → Prop} (h : Ends faults torn p d ok)
    (hok : ∀ a d', ok a d' → ok' a d') : Ends faults torn p d ok' := by
  apply wp_mono h
  rintro (a | e | _) d' ho
  · exact hok a d' ho
  · trivial
  · exact ho

theorem Ends.done {a : α} (h : ok a d) : Ends faults torn (.done a) d ok := h

theorem Ends.of_reads {a : α} (h : Reads faults torn p d (.done a)) :
    Ends faults torn p d fun x d' => x = a ∧ d' = d :=
  h _ ⟨rfl, rfl⟩ fun _ _ => trivial

theorem ends_write (lba : Nat) (data : Sector) (d : Disk) :
    Ends faults torn (block_core_write lba data) d fun _ d' => d' = update d lba data := by
  intro x d' hx
  cases hx with
  | write => exact rfl
  | writeFails => trivial
  | writeTears => trivial

end

/-! ## Half bytes are cleared -/

/-- A half of the byte that is 0 stays 0. -/
def Fades (x y : UInt8) : Prop :=
  (x.toNat % 16 = 0 → y.toNat % 16 = 0) ∧ (x.toNat / 16 = 0 → y.toNat / 16 = 0)

theorem fades_low (c : Nat) (x : UInt8) : Fades x (lowByte c 0 x) := by
  unfold Fades
  rw [lowByte_toNat]
  split <;> omega

theorem fades_high (c : Nat) (x : UInt8) : Fades x (highByte c 0 x) := by
  unfold Fades
  rw [highByte_toNat]
  split <;> omega

/-- From one disk to the other, half bytes have been cleared and nothing else. -/
def Cleared (d d' : Disk) : Prop := ∀ lba j, Fades (d lba j) (d' lba j)

theorem Cleared.refl (d : Disk) : Cleared d d := fun _ _ => ⟨id, id⟩

theorem Cleared.trans {d d' d'' : Disk} (h : Cleared d d') (h' : Cleared d' d'') : Cleared d d'' :=
  fun lba j => ⟨fun h0 => (h' lba j).1 ((h lba j).1 h0), fun h0 => (h' lba j).2 ((h lba j).2 h0)⟩

/-- A sector whose bytes lose bits only. -/
theorem cleared_update {d : Disk} {lba : Nat} {sector : Sector}
    (h : ∀ j, Fades (d lba j) (sector j)) : Cleared d (update d lba sector) := by
  intro l j
  by_cases hl : l = lba
  · subst hl
    rw [update_self]
    exact h j
  · rw [update_of_ne hl]
    exact ⟨id, id⟩

theorem fades_update {sector : Sector} {i : Nat} {x : UInt8} (h : Fades (sector i) x) (j : Nat) :
    Fades (sector j) (update sector i x j) := by
  by_cases hj : j = i
  · subst hj
    rw [update_self]
    exact h
  · rw [update_of_ne hj]
    exact ⟨id, id⟩

theorem decode_eq_zero {c : Nat} {lo hi lo' hi' : UInt8} (h : decode c lo hi = 0)
    (hlo : Fades lo lo') (hhi : Fades hi hi') : decode c lo' hi' = 0 := by
  rw [decode_eq] at h ⊢
  unfold Fades at hlo hhi
  grind [lo.toNat_lt]

theorem decode_stored_zero (c : Nat) (lo hi : UInt8) :
    decode c (lowByte c 0 lo) (highByte c 0 hi) = 0 := by
  rw [decode_eq, lowByte_toNat, highByte_toNat]
  split <;> omega

/-- An entry that is 0 stays 0. -/
theorem Cleared.fatEntry_zero {b : Bpb} {d d' : Disk} {c : Nat} (h : Cleared d d')
    (h0 : fatEntry b d c = 0) : fatEntry b d' c = 0 := by
  unfold fatEntry at h0 ⊢
  dsimp only at h0 ⊢
  by_cases hlast : u32 (c + c / 2) % 512 = 511
  · rw [if_pos hlast] at h0 ⊢
    exact decode_eq_zero h0 (h _ _) (h _ _)
  · rw [if_neg hlast] at h0 ⊢
    exact decode_eq_zero h0 (h _ _) (h _ _)

/-! ## An entry is freed -/

section

variable {faults torn : Prop} {b : Bpb} {d : Disk}

/-- A copy of the table, wherever it lies: half bytes are cleared, and in the first copy
these are the entry. -/
theorem ends_setFatCopy (c fat_index : Nat) :
    Ends faults torn (setFatCopy b c 0 fat_index) d
      fun _ d' => Cleared d d' ∧ (fat_index = 0 → fatEntry b d' c = 0) := by
  unfold setFatCopy
  dsimp only
  generalize hsector : u32 (b.reserved_sectors + fat_index * b.sectors_per_fat +
    u32 (c + c / 2) / 512) = sector
  have hfirst : fat_index = 0 → u32 (b.reserved_sectors + u32 (c + c / 2) / 512) = sector := by
    rintro rfl
    rw [← hsector, Nat.zero_mul, Nat.add_zero]
  apply (Ends.of_reads (reads_block sector d)).bind
  rintro work d' ⟨rfl, rfl⟩
  by_cases hlast : u32 (c + c / 2) % 512 = 511
  · -- the entry lies across two sectors
    rw [if_pos hlast, hlast]
    apply (ends_write sector _ d').bind
    rintro - d₁ hd₁
    apply (Ends.of_reads (reads_block (u32 (sector + 1)) d₁)).bind
    rintro next d₂ ⟨rfl, rfl⟩
    apply (ends_write _ _ d₂).mono
    rintro - d₃ hd₃
    have hother : sector ≠ u32 (sector + 1) := by
      rw [← hsector]
      unfold u32
      omega
    constructor
    · have h₁ : Cleared d' d₂ := by
        rw [hd₁]
        exact cleared_update (fades_update (fades_low c _))
      have h₂ : Cleared d₂ d₃ := by
        rw [hd₃]
        exact cleared_update (fades_update (fades_high c _))
      exact h₁.trans h₂
    · intro h0
      unfold fatEntry
      rw [if_pos hlast, hfirst h0, hd₃, update_self, update_self,
        update_of_ne hother, hd₁, update_self, update_self]
      exact decode_stored_zero c _ _
  · rw [if_neg hlast]
    apply (ends_write sector _ d').mono
    rintro - d₁ hd₁
    constructor
    · rw [hd₁]
      grind [cleared_update, fades_update, fades_low, fades_high]
    · intro h0
      unfold fatEntry
      rw [if_neg hlast, hfirst h0, hd₁, update_self, update_self,
        update_of_ne (by omega), update_self]
      exact decode_stored_zero c _ _

/-- Clearing an entry in every copy ends, and the entry reads as free. -/
theorem ends_setFatCopies (c count fat_index : Nat) :
    Ends faults torn (setFatCopies b c 0 count fat_index) d
      fun _ d' => Cleared d d' ∧ (fat_index = 0 → 0 < count → fatEntry b d' c = 0) := by
  induction count generalizing d fat_index with
  | zero => exact .done ⟨.refl d, fun _ h => absurd h (Nat.lt_irrefl 0)⟩
  | succ count ih =>
    apply (ends_setFatCopy c fat_index).bind
    rintro - d₁ ⟨h₁, hzero⟩
    apply (ih (fat_index + 1)).mono
    rintro - d₂ ⟨h₂, -⟩
    -- later copies may lie over the first one, but leave a 0 there
    exact ⟨h₁.trans h₂, fun h0 _ => h₂.fatEntry_zero (hzero h0)⟩

theorem ends_free_entry (c : Nat) :
    Ends faults torn (fat12_dev_set_fat_entry b c FAT12_CLUSTER_FREE) d
      fun _ d' => Cleared d d' ∧ fatEntry b d' c = 0 := by
  apply (ends_setFatCopies c b.fat_count 0).mono
  rintro - d' ⟨h, hzero⟩
  exact ⟨h, hzero rfl b.fats_pos⟩

end

/-! ## The loop -/

/-- A value the loop takes for a cluster. -/
def IsCluster (c : Nat) : Prop := 2 ≤ c ∧ c < CHAIN_END

/-- The entries that lead somewhere. -/
def unfreed (b : Bpb) (d : Disk) : Finset Nat :=
  (range CHAIN_END).filter fun c => fatEntry b d c ≠ 0

section

variable {faults torn : Prop} {b : Bpb} {d d' : Disk}

theorem Cleared.unfreed_subset (h : Cleared d d') : unfreed b d' ⊆ unfreed b d := by
  intro c hc
  obtain ⟨hlt, hne⟩ := mem_filter.mp hc
  exact mem_filter.mpr ⟨hlt, fun h0 => hne (h.fatEntry_zero h0)⟩

theorem Cleared.unfreed_lt (h : Cleared d d') {c : Nat} (hc : IsCluster c)
    (hne : fatEntry b d c ≠ 0) (hzero : fatEntry b d' c = 0) :
    (unfreed b d').card < (unfreed b d).card := by
  apply card_lt_card
  refine ⟨h.unfreed_subset, fun hsub => ?_⟩
  have hmem : c ∈ unfreed b d := mem_filter.mpr ⟨mem_range.mpr hc.2, hne⟩
  exact (mem_filter.mp (hsub hmem)).2 hzero

/-- Two rounds more than there are entries that lead somewhere are enough. -/
theorem ends_free_chain {fuel : Nat} (c : Nat) (hfuel : (unfreed b d).card + 2 ≤ fuel) :
    Ends faults torn (fat12_dev_free_cluster_chain b fuel c) d fun _ _ => True := by
  induction fuel generalizing c d with
  | zero => omega
  | succ fuel ih =>
    unfold fat12_dev_free_cluster_chain
    split
    · next hc =>
      apply (Ends.of_reads (reads_get_fat b d c)).bind
      rintro next d₀ ⟨rfl, rfl⟩
      apply (ends_free_entry c).bind
      rintro - d₁ ⟨hcleared, hzero⟩
      by_cases hnext : fatEntry b d₀ c = 0
      · -- the next round is the last
        obtain ⟨fuel, rfl⟩ := Nat.exists_eq_succ_of_ne_zero (show fuel ≠ 0 by omega)
        rw [hnext]
        exact .done trivial
      · apply ih
        have := hcleared.unfreed_lt hc hnext hzero
        omega
    · exact .done trivial

theorem unfreed_card_le : (unfreed b d).card ≤ 4088 := by
  calc (unfreed b d).card ≤ (range CHAIN_END).card := card_filter_le _ _
    _ = 4088 := card_range _

/-! ## What is freed -/

variable (b) in
/-- In every copy of the table the entries of `S` are free and the others as they were, and
so are all sectors that are not of the tables. -/
structure FreedSet (S : Nat → Prop) (d d' : Disk) : Prop where
  free : ∀ i < b.fat_count, ∀ x, InTable b x → S x → entry (fatByte b d' i) x = 0
  kept : ∀ i < b.fat_count, ∀ x, InTable b x → ¬ S x →
    entry (fatByte b d' i) x = entry (fatByte b d i) x
  sectors : ∀ lba, lba < b.reserved_sectors ∨ b.root_dir_lba ≤ lba → d' lba = d lba

/-- Two sets freed after each other. -/
theorem FreedSet.trans {S S' T : Nat → Prop} {d'' : Disk} (h : FreedSet b S d d')
    (h' : FreedSet b S' d' d'') (hT : ∀ x, T x ↔ S x ∨ S' x) : FreedSet b T d d'' where
  free i hi x hx hTx := by
    by_cases hx' : S' x
    · exact h'.free i hi x hx hx'
    · rw [h'.kept i hi x hx hx']
      exact h.free i hi x hx (((hT x).mp hTx).resolve_right hx')
  kept i hi x hx hTx := by
    have hno := fun ho => hTx ((hT x).mpr ho)
    rw [h'.kept i hi x hx fun hx' => hno (.inr hx'), h.kept i hi x hx fun hx' => hno (.inl hx')]
  sectors lba hlba := (h'.sectors lba hlba).trans (h.sectors lba hlba)

theorem StoredIn.freedSet {c : Nat} (h : StoredIn b 0 b.fat_count c 0 d d') (hc : InTable b c) :
    FreedSet b (· = c) d d' where
  free i hi x hx hxc := by
    subst hxc
    rw [entry_congr hx fun n hn => h.fat_eq hi hn, entry_store_self _ (by decide)]
  kept i hi x hx hxc := by
    rw [entry_congr hx fun n hn => h.fat_eq hi hn, entry_store_ne _ hxc]
  sectors := h.sectors

theorem run_free_entry {c : Nat} (hc : InTable b c) :
    ∃ d', (fat12_dev_set_fat_entry b c FAT12_CLUSTER_FREE).run perfect d = (.done (), d') ∧
      FreedSet b (· = c) d d' := by
  obtain ⟨_, d', hrun, hstored⟩ := ((does_set_fat_entry hc FAT12_CLUSTER_FREE).mono
    (fun _ _ h => h) fun _ _ h => h.1).returns
  exact ⟨d', hrun, hstored.freedSet hc⟩

/-- The clusters that the links of the first table lead to. -/
def LinkedFrom (b : Bpb) (d : Disk) (start : Nat) : Nat → Prop :=
  Linked.Reached (fatEntry b d) IsCluster start

/-- Freeing ends after every cluster that can be reached, loop or not, has been freed. -/
theorem run_free_chain {fuel c : Nat}
    (hends : ((fat12_dev_free_cluster_chain b fuel c).run perfect d).1 ≠ .spin)
    (hin : ∀ x, LinkedFrom b d c x → InTable b x) :
    ∃ d', (fat12_dev_free_cluster_chain b fuel c).run perfect d = (.done (), d') ∧
      FreedSet b (LinkedFrom b d c) d d' := by
  induction fuel generalizing c d with
  | zero => exact absurd rfl hends
  | succ fuel ih =>
    unfold fat12_dev_free_cluster_chain at hends ⊢
    by_cases hc : 2 ≤ c ∧ c < CHAIN_END
    · rw [if_pos hc] at hends ⊢
      have hcin := hin c (.start hc)
      obtain ⟨d₁, hset, hfreed⟩ := run_free_entry (d := d) hcin
      have hreads : Reads False False (fat12_dev_get_fat_entry b c) d _ := reads_get_fat b d c
      have hget := hreads.run
      rw [run_bind_done _ hget, run_bind_done _ hset] at hends ⊢
      -- past the link that has been cut, the links are the old ones
      have hcut : ∀ x, LinkedFrom b d c x ↔ x = c ∨ LinkedFrom b d₁ (fatEntry b d c) x := by
        apply Linked.reached_iff_cut (show IsCluster c from hc)
        · have hzero := hfreed.free 0 b.fats_pos c hcin rfl
          rw [fatEntry_eq_entry hcin, hzero]
          exact fun h => absurd h.1 (by decide)
        · intro y hy hne
          rw [fatEntry_eq_entry (hin y hy), fatEntry_eq_entry (hin y hy)]
          exact hfreed.kept 0 b.fats_pos y (hin y hy) hne
      obtain ⟨d', hrun, hrest⟩ := ih hends fun x hx => hin x ((hcut x).mpr (.inr hx))
      exact ⟨d', hrun, hfreed.trans hrest hcut⟩
    · rw [if_neg hc] at hends ⊢
      refine ⟨d, rfl, ?_, fun i hi x hx _ => rfl, fun lba _ => rfl⟩
      intro i hi x hx hlinked
      exact absurd hlinked.cell_start hc

end

/-- Freeing a chain ends, on every device and from every cluster. If the device never fails
and the entries of all clusters that the links lead to are inside the table, these entries
are free afterwards in every copy, and no other entry and no other sector has changed. -/
theorem free_chain_ends (b : Bpb) (d : Disk) (start extra : Nat) :
    (∀ faults torn, (fat12_dev_free_cluster_chain b (4096 + extra) start).wp (Serves faults torn)
      (fun o _ => o ≠ .spin) d) ∧
    ((∀ x, LinkedFrom b d start x → InTable b x) →
      ∃ d', (fat12_dev_free_cluster_chain b (4096 + extra) start).run perfect d = (.done (), d') ∧
        FreedSet b (LinkedFrom b d start) d d') := by
  have hfuel : (unfreed b d).card + 2 ≤ 4096 + extra := by
    have hcard : (unfreed b d).card ≤ 4088 := unfreed_card_le
    omega
  have hends : ∀ faults torn, (fat12_dev_free_cluster_chain b (4096 + extra) start).wp
      (Serves faults torn) (fun o _ => o ≠ .spin) d := by
    intro faults torn
    apply wp_mono (ends_free_chain start hfuel)
    rintro o d' ho rfl
    exact ho
  refine ⟨hends, fun hin => run_free_chain ?_ hin⟩
  exact wp_run perfect (perfect_serves False False) (hends False False)

/-- A table in which cluster 2 leads to 3 and 3 back to 2. -/
def loopDisk : Disk := fun lba j =>
  if lba = 1 then ([0, 0, 0, 0x03, 0x20] : List UInt8).getD j 0 else 0

/-- A loop of two clusters is freed. -/
theorem loop_freed : ∃ d', (fat12_dev_free_cluster_chain smallBpb 4096 2).run perfect loopDisk =
      (.done (), d') ∧
    fatEntry smallBpb loopDisk 2 = 3 ∧ fatEntry smallBpb loopDisk 3 = 2 ∧
    entry (fatByte smallBpb d' 0) 2 = 0 ∧ entry (fatByte smallBpb d' 0) 3 = 0 := by
  have h2 : fatEntry smallBpb loopDisk 2 = 3 := by decide
  have h3 : fatEntry smallBpb loopDisk 3 = 2 := by decide
  have hin2 : InTable smallBpb 2 := by unfold InTable; decide
  have hin3 : InTable smallBpb 3 := by unfold InTable; decide
  have htwo : ∀ x, LinkedFrom smallBpb loopDisk 2 x → x = 2 ∨ x = 3 := by
    intro x hx
    induction hx with
    | start => exact .inl rfl
    | step _ _ ih =>
      obtain rfl | rfl := ih
      · exact .inr h2
      · exact .inl h3
  have hfirst : LinkedFrom smallBpb loopDisk 2 2 := .start (by unfold IsCluster; decide)
  have hsecond : LinkedFrom smallBpb loopDisk 2 3 := h2 ▸ .step hfirst (by unfold IsCluster; decide)
  obtain ⟨d', hrun, hfreed⟩ := (free_chain_ends smallBpb loopDisk 2 0).2 (by
    intro x hx
    obtain rfl | rfl := htwo x hx
    · exact hin2
    · exact hin3)
  exact ⟨d', hrun, h2, h3, hfreed.free 0 smallBpb.fats_pos 2 hin2 hfirst,
    hfreed.free 0 smallBpb.fats_pos 3 hin3 hsecond⟩

end System1.Fat12
