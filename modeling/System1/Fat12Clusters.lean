/-
Clusters are taken, filled and given back.

The first free cluster is marked as the end of a chain and cleared (`Taken`); a chain that
is not wanted any more is freed entry by entry (`Freed`); and the loop that writes a file
does the first for every cluster the data needs and links it to the one before.

Each of these may be cut short by the device. Whatever has happened by then has happened in
clusters that were free at the start, or are in the chain to be freed, and `Touched` says
so. A loop that runs out of clusters is different: it is the driver that gives up, and it
gives everything back (`RolledBack`).
-/
import System1.Fat12View

set_option autoImplicit false

namespace System1.Fat12.Geometry

open System1.Lib Function List

variable {g : Geometry} {faults : Prop} {d d' : Disk}

/-! ## The sectors of a cluster -/

variable (g) in
/-- Only sectors of the cluster have changed. -/
def OnlyIn (c : Nat) (d d' : Disk) : Prop := ∀ lba, lba ∉ clusterLbas g.b c → d' lba = d lba

section

variable {c : Nat} (hc : g.InRange c) (h : g.OnlyIn c d d')

include hc h

/-- The data area holds no byte of the table. -/
theorem OnlyIn.fatByte {i n : Nat} (hi : i < g.b.fat_count) (hn : n < g.b.sectors_per_fat * 512) :
    fatByte g.b d' i n = fatByte g.b d i n := by
  have hlt := (fatLba_lt hi hn).2
  unfold Fat12.fatByte
  rw [h]
  intro hmem
  have hle := root_lba_le_of_mem hc hmem
  omega

theorem OnlyIn.touched : g.Touched {c} d d' where
  sectors := fun lba _ hS => h lba (hS c rfl)
  fat := fun _ hi _ hx _ => entry_congr (pos_lt hx) fun _ hn => h.fatByte hc hi hn

theorem OnlyIn.view_fat : (g.view d').fat = (g.view d).fat := by
  funext x
  unfold view
  dsimp only
  split
  · next hx => exact entry_congr (pos_lt hx) fun _ hn => h.fatByte hc g.b.fats_pos hn
  · rfl

theorem OnlyIn.mirrored (hm : g.Mirrored d) : g.Mirrored d' := by
  intro i hi n hn
  rw [h.fatByte hc hi hn, h.fatByte hc g.b.fats_pos hn]
  exact hm i hi n hn

end

/-- Sectors are zeroed one after the other. -/
theorem does_zeroSectors (lba count idx : Nat) :
    Does faults (zeroSectors lba count idx) d
      (fun _ d' => (∀ l ∈ lbaRange lba count idx, d' l = fun _ => 0) ∧
        ∀ l, l ∉ lbaRange lba count idx → d' l = d l)
      (fun _ d' => faults ∧ ∀ l, l ∉ lbaRange lba count idx → d' l = d l) := by
  induction count generalizing idx d with
  | zero => exact .done ⟨fun l hl => absurd hl not_mem_nil, fun _ _ => rfl⟩
  | succ count ih =>
    simp only [lbaRange_succ, mem_cons, not_or]
    apply (does_write _ _ d).bind
    · rintro _ d' rfl
      apply (ih (idx + 1)).mono
      · grind
      · grind
    · rintro rc d' ⟨hf, rfl⟩
      exact ⟨hf, fun _ _ => rfl⟩

/-! ## Taking a cluster -/

variable (g) in
/-- The cluster is the end of a chain and has been cleared. -/
structure Taken (c : Nat) (d d' : Disk) : Prop where
  touched : g.Touched {c} d d'
  eoc : (g.view d').fat c = FAT12_CLUSTER_EOC
  zero : ∀ lba ∈ clusterLbas g.b c, d' lba = fun _ => 0
  mirrored : g.Mirrored d → g.Mirrored d'

/-- A cluster is marked as an end and zeroed; after a fault the answer is 0. -/
theorem does_takeCluster {c : Nat} (hc : g.InRange c) :
    Does faults (takeCluster g.b c) d
      (fun r d' => (r = c ∧ g.Taken c d d') ∨ (r = 0 ∧ faults ∧ g.Touched {c} d d'))
      (fun _ _ => False) := by
  apply Does.attempt_bind
  apply (does_set_fat hc.lt (by decide)).mono
  swap
  · exact fun _ d' hd' => .done (.inr ⟨rfl, hd'⟩)
  intro _ d₁ hstored
  apply Does.attempt_bind
  apply (does_zeroSectors _ _ _).mono
  · rintro _ d₂ ⟨hzero, honly⟩
    have honly : g.OnlyIn c d₁ d₂ := honly
    refine .done (.inl ⟨rfl, ?_⟩)
    constructor
    · exact hstored.touched.trans (honly.touched hc)
    · rw [honly.view_fat hc, hstored.view hc.lt (by decide)]
      exact update_self ..
    · exact hzero
    · exact fun hm => honly.mirrored hc (hstored.mirrored hc.lt hm)
  · -- the cluster could not be cleared and is given back, if that works
    rintro _ d₂ ⟨hf, honly⟩
    have htouched := hstored.touched.trans (OnlyIn.touched hc honly)
    apply Does.attempt_bind
    apply (does_set_fat hc.lt (by decide)).mono
    · exact fun _ d' hd' => .done (.inr ⟨rfl, hf, htouched.trans (Stored.touched hd')⟩)
    · exact fun _ d' hd' => .done (.inr ⟨rfl, hf, htouched.trans hd'.2⟩)

variable (g faults) in
/-- What `fat12_dev_alloc_cluster` may have done: nothing, or it took a cluster that was
free, or the device failed it on such a cluster. -/
def Allocated (d : Disk) (r : Nat) (d' : Disk) : Prop :=
  (r = 0 ∧ d' = d) ∨
    (r = 0 ∧ faults ∧ ∃ c, g.InRange c ∧ (g.view d).fat c = FAT12_CLUSTER_FREE ∧
      g.Touched {c} d d') ∨
    (g.InRange r ∧ (g.view d).fat r = FAT12_CLUSTER_FREE ∧ g.Taken r d d')

theorem does_get_fat {c : Nat} (hc : c < g.count + 2) :
    Does faults (fat12_dev_get_fat_entry g.b c) d (fun a d' => a = (g.view d).fat c ∧ d' = d)
      (fun _ d' => faults ∧ d' = d) := by
  rw [← fatEntry_eq hc]
  exact .of_reads (reads_get_fat g.b d c) ⟨rfl, rfl⟩ fun hf _ => ⟨hf, rfl⟩

/-- The first free cluster of the table is taken. -/
theorem does_allocLoop {count c : Nat} (h2 : 2 ≤ c) (hc : c + count ≤ g.count + 2) :
    Does faults (allocLoop g.b count c) d (g.Allocated faults d) (fun _ _ => False) := by
  induction count generalizing c with
  | zero => exact .done (.inl ⟨rfl, rfl⟩)
  | succ count ih =>
    have hin : g.InRange c := ⟨h2, by omega⟩
    apply Does.attempt_bind
    apply (does_get_fat hin.lt).mono
    swap
    · rintro _ d' ⟨-, rfl⟩
      exact .done (.inl ⟨rfl, rfl⟩)
    rintro _ d' ⟨rfl, rfl⟩
    by_cases hfree : (g.view d').fat c = FAT12_CLUSTER_FREE
    · simp only [hfree, if_true]
      apply (does_takeCluster hin).mono
      · rintro r d'' (⟨rfl, htaken⟩ | ⟨rfl, hf, htouched⟩)
        · exact .inr (.inr ⟨hin, hfree, htaken⟩)
        · exact .inr (.inl ⟨rfl, hf, c, hin, hfree, htouched⟩)
      · exact fun _ _ h => h
    · simp only [hfree, if_false]
      exact ih (by omega) (by omega)

/-- Allocating a cluster never fails but by the answer 0. -/
theorem does_alloc :
    Does faults (fat12_dev_alloc_cluster g.b g.dev) d (g.Allocated faults d)
      (fun _ _ => False) := by
  have hsmall := g.small
  apply does_allocLoop (by omega)
  rw [u32_of_lt (by omega)]
  unfold count
  omega

/-! ## Giving a chain back -/

variable (g) in
/-- The clusters are free. -/
structure Freed (cs : List Nat) (d d' : Disk) : Prop where
  touched : g.Touched {x | x ∈ cs} d d'
  free : ∀ x ∈ cs, (g.view d').fat x = FAT12_CLUSTER_FREE
  mirrored : g.Mirrored d → g.Mirrored d'

/-- The clusters of a chain are freed from the first on. The link is read before its entry
is cleared. -/
theorem does_free_chain {c fuel : Nat} {cs : List Nat} (h : g.Chain (g.view d).fat c cs)
    (hfuel : cs.length < fuel) :
    Does faults (fat12_dev_free_cluster_chain g.b fuel c) d (fun _ d' => g.Freed cs d d')
      (fun _ d' => faults ∧ g.Touched {x | x ∈ cs} d d') := by
  induction fuel generalizing c cs d with
  | zero => omega
  | succ fuel ih =>
    unfold fat12_dev_free_cluster_chain
    have hnd := h.nodup
    cases h with
    | nil hends =>
      rw [if_neg (by omega)]
      exact .done ⟨.refl _ _, fun x hx => by (cases hx), fun hm => hm⟩
    | @cons _ cs hc hs =>
      obtain ⟨hnot, -⟩ := nodup_cons.mp hnd
      rw [if_pos ⟨hc.1, hc.lt_chain_end⟩]
      have hsub : {c} ⊆ {x | x ∈ c :: cs} := Set.singleton_subset_iff.mpr mem_cons_self
      apply (does_get_fat hc.lt).bind
      swap
      · rintro rc d' ⟨hf, rfl⟩
        exact ⟨hf, .refl _ _⟩
      rintro next d' ⟨rfl, rfl⟩
      apply (does_set_fat hc.lt (by decide)).bind
      swap
      · rintro rc d'' ⟨hf, htouched⟩
        exact ⟨hf, htouched.mono hsub⟩
      rintro _ d₁ hstored
      have hview := hstored.view hc.lt (by decide)
      have hchain : g.Chain (g.view d₁).fat ((g.view d').fat c) cs := by
        rw [hview]
        apply Chain.congr hs
        intro x hx
        exact update_of_ne (ne_of_mem_of_not_mem hx hnot) ..
      have htouched := hstored.touched.mono hsub
      have hrest : {x | x ∈ cs} ⊆ {x | x ∈ c :: cs} := fun x hx => mem_cons_of_mem _ hx
      apply (ih hchain (by simpa using hfuel)).mono
      · intro _ d₂ hfreed
        refine ⟨htouched.trans (hfreed.touched.mono hrest), ?_, ?_⟩
        · intro x hx
          by_cases hxc : x ∈ cs
          · exact hfreed.free x hxc
          obtain rfl : x = c := (mem_cons.mp hx).resolve_right hxc
          rw [hfreed.touched.view_fat hxc, hview]
          exact update_self ..
        · exact fun hm => hfreed.mirrored (hstored.mirrored hc.lt hm)
      · rintro rc d₂ ⟨hf, htouched'⟩
        exact ⟨hf, htouched.trans (htouched'.mono hrest)⟩

/-! ## The bytes of a file -/

theorem clusterBytes_pos : 0 < g.clusterBytes := Nat.mul_pos (by decide) g.b.spc_pos

variable (g) in
/-- The sector of byte `n` of a file with the clusters `cs`. -/
def fileLba (cs : List Nat) (n : Nat) : Nat :=
  g.b.data_lba + (cs.getD (n / g.clusterBytes) 0 - 2) * g.b.sectors_per_cluster +
    n % g.clusterBytes / 512

variable (g) in
def fileByte (d : Disk) (cs : List Nat) (n : Nat) : UInt8 := d (g.fileLba cs n) (n % 512)

section

variable {cs : List Nat} {n : Nat} (hcs : ∀ x ∈ cs, g.InRange x)
  (hn : n < cs.length * g.clusterBytes)

include hcs hn

/-- Every byte of a file lies in a cluster of its chain. -/
theorem fileLba_mem :
    ∃ x ∈ cs, g.fileLba cs n ∈ clusterLbas g.b x := by
  have hidx := (Nat.div_lt_iff_lt_mul clusterBytes_pos).mpr hn
  have hmem : cs.getD (n / g.clusterBytes) 0 ∈ cs := by
    rw [getD_eq_getElem _ _ hidx]
    exact getElem_mem hidx
  refine ⟨_, hmem, (mem_clusterLbas (hcs _ hmem)).mpr ⟨n % g.clusterBytes / 512, ?_, rfl⟩⟩
  rw [Nat.div_lt_iff_lt_mul (by decide), Nat.mul_comm]
  exact Nat.mod_lt _ clusterBytes_pos

theorem fileByte_congr (h : ∀ x ∈ cs, ∀ lba ∈ clusterLbas g.b x, d' lba = d lba) :
    g.fileByte d' cs n = g.fileByte d cs n := by
  obtain ⟨x, hx, hlba⟩ := fileLba_mem hcs hn
  unfold fileByte
  rw [h x hx _ hlba]

end

theorem fileByte_append {cs cs' : List Nat} {n : Nat} (hn : n < cs.length * g.clusterBytes) :
    g.fileByte d (cs ++ cs') n = g.fileByte d cs n := by
  grind [fileByte, fileLba, Nat.div_lt_iff_lt_mul, clusterBytes_pos, getD_append]

/-- A byte of the last cluster. -/
theorem fileByte_last {cs : List Nat} {q i k : Nat} (hi : i < g.b.sectors_per_cluster)
    (hk : k < 512) :
    g.fileByte d (cs ++ [q]) (cs.length * g.clusterBytes + (512 * i + k)) =
      d (g.b.data_lba + (q - 2) * g.b.sectors_per_cluster + i) k := by
  have hlt : 512 * i + k < g.clusterBytes := by
    unfold clusterBytes
    omega
  have hdiv : (cs.length * g.clusterBytes + (512 * i + k)) / g.clusterBytes = cs.length := by
    rw [Nat.mul_comm, Nat.mul_add_div clusterBytes_pos, Nat.div_eq_of_lt hlt, Nat.add_zero]
  have hmod : (cs.length * g.clusterBytes + (512 * i + k)) % g.clusterBytes = 512 * i + k := by
    rw [Nat.mul_comm, Nat.mul_add_mod, Nat.mod_eq_of_lt hlt]
  have hbyte : (cs.length * g.clusterBytes + (512 * i + k)) % 512 = k := by
    unfold clusterBytes
    rw [Nat.mul_left_comm]
    omega
  unfold fileByte fileLba
  rw [hdiv, hmod, hbyte, getD_append_right _ _ _ _ (Nat.le_refl _), Nat.sub_self,
    getD_cons_zero, show (512 * i + k) / 512 = i by omega]

/-- The data is laid out over zeroed sectors, and the rest of the last one stays zero. -/
theorem does_writeSectors (data : List UInt8) {lba count idx written : Nat}
    (hnd : (lbaRange lba count idx).Nodup) (hzero : ∀ l ∈ lbaRange lba count idx, d l = fun _ => 0)
    (hle : written ≤ data.length) :
    Does faults (writeSectors data lba count idx written) d
      (fun w d' => w = min data.length (written + 512 * count) ∧
        (∀ i < count, ∀ k < 512,
          d' (u32 (lba + (idx + i))) k = data.getD (written + (512 * i + k)) 0) ∧
        ∀ l, l ∉ lbaRange lba count idx → d' l = d l)
      (fun _ d' => faults ∧ ∀ l, l ∉ lbaRange lba count idx → d' l = d l) := by
  induction count generalizing idx written d with
  | zero =>
    refine .done ⟨by omega, fun i hi => absurd hi (Nat.not_lt_zero i), fun _ _ => rfl⟩
  | succ count ih =>
    unfold writeSectors
    split
    · simp only [lbaRange_succ, mem_cons, not_or] at hzero hnd ⊢
      obtain ⟨hnot, hnd⟩ := nodup_cons.mp hnd
      apply (does_write _ _ d).bind
      swap
      · rintro rc d' ⟨hf, rfl⟩
        exact ⟨hf, fun _ _ => rfl⟩
      rintro _ d' rfl
      have hzero' : ∀ l ∈ lbaRange lba count (idx + 1), Function.update d (u32 (lba + idx))
          (fun j => data.getD (written + j) 0) l = fun _ => 0 := by grind
      apply (ih hnd hzero' (Nat.min_le_left _ _)).mono
      · rintro w d' ⟨rfl, hbytes, hother⟩
        refine ⟨by omega, ?_, ?_⟩
        · intro i hi k hk
          cases i with
          | zero => grind
          | succ i =>
            rw [show idx + (i + 1) = idx + 1 + i by omega, hbytes i (by omega) k hk]
            by_cases hfull : written + 512 ≤ data.length
            · congr 1
              omega
            · -- both are behind the data
              rw [getD_eq_default _ _ (by omega), getD_eq_default _ _ (by omega)]
        · rintro l ⟨hne, hl⟩
          rw [hother l hl, update_of_ne hne]
      · grind
    · refine .done ⟨by omega, ?_, fun _ _ => rfl⟩
      intro i hi k hk
      have hmem : u32 (lba + (idx + i)) ∈ lbaRange lba (count + 1) idx :=
        mem_map.mpr ⟨i, mem_range.mpr hi, rfl⟩
      rw [hzero _ hmem, getD_eq_default _ _ (by omega)]

/-! ## Writing a file -/

variable (g) in
/-- Between two rounds of the loop: the clusters so far, linked and filled. -/
structure Written (data : List UInt8) (d₀ d : Disk) (cs : List Nat) (first prev written : Nat) :
    Prop where
  touched : g.Touched {x | x ∈ cs} d₀ d
  inRange : ∀ x ∈ cs, g.InRange x
  free : ∀ x ∈ cs, (g.view d₀).fat x = FAT12_CLUSTER_FREE
  empty : cs = [] → first = 0 ∧ prev = 0
  chain : cs ≠ [] → g.Chain (g.view d).fat first cs
  last : cs ≠ [] → cs.getLast? = some prev
  amount : written = min data.length (cs.length * g.clusterBytes)
  tight : cs.length * g.clusterBytes < data.length + g.clusterBytes
  bytes : ∀ n < cs.length * g.clusterBytes, g.fileByte d cs n = data.getD n 0
  mirrored : g.Mirrored d₀ → g.Mirrored d

/-- Before the first round nothing has been written. -/
theorem written_nil (data : List UInt8) (d : Disk) : g.Written data d d [] 0 0 0 where
  touched := .refl _ _
  inRange := fun x hx => by cases hx
  free := fun x hx => by cases hx
  empty := fun _ => ⟨rfl, rfl⟩
  chain := fun h => absurd rfl h
  last := fun h => absurd rfl h
  amount := by simp
  tight := by grind [length_nil, clusterBytes_pos]
  bytes := fun n hn => by simp at hn
  mirrored := fun h => h

namespace Written

variable {data : List UInt8} {d₀ : Disk} {cs : List Nat} {first prev written : Nat}
  (h : g.Written data d₀ d cs first prev written)

include h

theorem first_mem (hne : cs ≠ []) : first ∈ cs := (h.chain hne).head_mem hne

theorem prev_mem (hne : cs ≠ []) : prev ∈ cs := List.mem_of_getLast? (h.last hne)

theorem ne_zero {x : Nat} (hx : x ∈ cs) : x ≠ 0 := by
  have h2 := (h.inRange x hx).1
  omega

theorem first_eq_zero : first = 0 ↔ cs = [] :=
  ⟨fun hzero => by_contra fun hne => h.ne_zero (h.first_mem hne) hzero,
    fun hnil => (h.empty hnil).1⟩

theorem prev_eq_zero : prev = 0 ↔ cs = [] :=
  ⟨fun hzero => by_contra fun hne => h.ne_zero (h.prev_mem hne) hzero, fun hnil => (h.empty hnil).2⟩

/-- A cluster that is free now was free before, and is none of the new ones. -/
theorem free_before {q : Nat} (hfree : (g.view d).fat q = FAT12_CLUSTER_FREE) :
    q ∉ cs ∧ (g.view d₀).fat q = FAT12_CLUSTER_FREE := by
  have hnot : q ∉ cs := by
    intro hq
    have hne : cs ≠ [] := ne_nil_of_mem hq
    exact (h.chain hne).ne_free hq hfree
  refine ⟨hnot, ?_⟩
  rw [← h.touched.view_fat (show q ∉ {x | x ∈ cs} from hnot)]
  exact hfree

section Extend

variable {q : Nat} {d₁ d₂ d₃ : Disk} (hlt : written < data.length) (hq : g.InRange q)
  (hfree : (g.view d).fat q = FAT12_CLUSTER_FREE) (htaken : g.Taken q d d₁)
  (hlink : (cs = [] ∧ d₂ = d₁) ∨ (cs ≠ [] ∧ g.Stored prev q d₁ d₂))

include hq hfree htaken hlink

/-- The new cluster is linked behind the last one. -/
theorem extend_chain : g.Chain (g.view d₂).fat (if first = 0 then q else first) (cs ++ [q]) := by
  have heoc : CHAIN_END ≤ (g.view d₁).fat q := by
    rw [htaken.eoc]
    decide
  obtain ⟨hnot, -⟩ := h.free_before hfree
  obtain ⟨rfl, rfl⟩ | ⟨hne, hstored⟩ := hlink
  · rw [if_pos (h.empty rfl).1]
    exact .cons hq (.nil heoc)
  have hprev := h.inRange prev (h.prev_mem hne)
  have hchain : g.Chain (g.view d₁).fat first cs := by
    apply (h.chain hne).congr
    intro x hx
    exact htaken.touched.view_fat (show x ≠ q from ne_of_mem_of_not_mem hx hnot)
  rw [if_neg fun hzero => hne (h.first_eq_zero.mp hzero), hstored.view hprev.lt hq.lt_4096]
  exact Linked.Chain.link (fun _ => InRange.not_ends) hchain (h.last hne) hq hnot heoc

omit hq hfree in
/-- Free clusters only have been touched. -/
theorem extend_touched : g.Touched {x | x ∈ cs ++ [q]} d₀ d₂ := by
  have hcs : {x | x ∈ cs} ⊆ {x | x ∈ cs ++ [q]} := fun x hx => mem_append_left _ hx
  have hone : {q} ⊆ {x | x ∈ cs ++ [q]} := Set.singleton_subset_iff.mpr (by simp)
  have h₁ := (h.touched.mono hcs).trans (htaken.touched.mono hone)
  obtain ⟨-, rfl⟩ | ⟨hne, hstored⟩ := hlink
  · exact h₁
  exact h₁.trans (hstored.touched.mono
    (Set.singleton_subset_iff.mpr (mem_append_left _ (h.prev_mem hne))))

omit h hfree in
theorem extend_zero : ∀ lba ∈ clusterLbas g.b q, d₂ lba = fun _ => 0 := by
  intro lba hlba
  obtain ⟨-, rfl⟩ | ⟨-, hstored⟩ := hlink
  · exact htaken.zero lba hlba
  rw [hstored.sectors lba (.inr (root_lba_le_of_mem hq hlba))]
  exact htaken.zero lba hlba

include hlt

/-- One round: a cluster more, with the next bytes of the data in it. -/
theorem extend (honly : g.OnlyIn q d₂ d₃)
    (hbytes : ∀ i < g.b.sectors_per_cluster, ∀ k < 512,
      d₃ (u32 (fat12_cluster_to_lba g.b q + (0 + i))) k = data.getD (written + (512 * i + k)) 0) :
    g.Written data d₀ d₃ (cs ++ [q]) (if first = 0 then q else first) q
      (min data.length (written + 512 * g.b.sectors_per_cluster)) := by
  obtain ⟨hnot, hfree₀⟩ := h.free_before hfree
  have hamount := h.amount
  have htouched := h.extend_touched htaken hlink
  have hlen : (cs ++ [q]).length * g.clusterBytes =
      cs.length * g.clusterBytes + g.clusterBytes := by
    rw [length_append, length_singleton, Nat.add_mul, Nat.one_mul]
  have hone : {q} ⊆ {x | x ∈ cs ++ [q]} := Set.singleton_subset_iff.mpr (by simp)
  constructor
  · exact htouched.trans ((honly.touched hq).mono hone)
  · intro x hx
    obtain hx | hx := mem_append.mp hx
    · exact h.inRange x hx
    · rwa [mem_singleton.mp hx]
  · intro x hx
    obtain hx | hx := mem_append.mp hx
    · exact h.free x hx
    · rwa [mem_singleton.mp hx]
  · intro hnil
    simp at hnil
  · intro _
    rw [honly.view_fat hq]
    exact h.extend_chain hq hfree htaken hlink
  · intro _
    simp
  · rw [hlen]
    unfold clusterBytes at *
    omega
  · rw [hlen]
    omega
  · intro n hn
    rw [hlen] at hn
    by_cases hold : n < cs.length * g.clusterBytes
    · -- an older cluster: its sectors are not those of `q`
      rw [fileByte_append hold, ← h.bytes n hold]
      apply fileByte_congr h.inRange hold
      intro x hx lba hlba
      have hroot := root_lba_le_of_mem (h.inRange x hx) hlba
      have hxq : lba ∉ clusterLbas g.b q := fun hlba' =>
        hnot (clusterLbas_inj (h.inRange x hx) hq hlba hlba' ▸ hx)
      have h₁ : d₁ lba = d lba := by
        apply htaken.touched.sectors lba (.inr hroot)
        rintro y rfl
        exact hxq
      rw [honly lba hxq]
      obtain ⟨-, rfl⟩ | ⟨-, hstored⟩ := hlink
      · exact h₁
      · rw [hstored.sectors lba (.inr hroot), h₁]
    · obtain ⟨m, rfl⟩ : ∃ m, n = cs.length * g.clusterBytes + m :=
        ⟨n - cs.length * g.clusterBytes, by omega⟩
      have hm : m < 512 * g.b.sectors_per_cluster := by
        unfold clusterBytes at *
        omega
      have hwritten : written = cs.length * g.clusterBytes := by omega
      have hbyte := hbytes (m / 512) (by omega) (m % 512) (Nat.mod_lt _ (by decide))
      rw [hq.sector_eq (by omega), hwritten] at hbyte
      have hm' : m = 512 * (m / 512) + m % 512 := by omega
      rw [hm', fileByte_last (by omega) (Nat.mod_lt _ (by decide)), hbyte, ← hm']
  · intro hm
    apply honly.mirrored hq
    have h₁ := htaken.mirrored (h.mirrored hm)
    obtain ⟨-, rfl⟩ | ⟨hne, hstored⟩ := hlink
    · exact h₁
    · exact hstored.mirrored (h.inRange prev (h.prev_mem hne)).lt h₁

end Extend

end Written

/-- The entry of an empty file. -/
def emptyEntry (leaf83 : Name83) : Slot := fat12_image_write_dir_entry leaf83 0 0 0

variable (g) in
/-- The clusters that are free. -/
def FreeIn (d : Disk) : Set Nat := {x | g.InRange x ∧ (g.view d).fat x = FAT12_CLUSTER_FREE}

variable (g) in
/-- The device has stopped a write. Only free clusters have been used, and the entry may
have been rewritten as that of an empty file. -/
def CutShort (entry_ref : EntryRef) (have_entry : Bool) (leaf83 : Name83) (d₀ d : Disk) : Prop :=
  ∃ d₁, g.Touched (g.FreeIn d₀) d₀ d₁ ∧
    (d = d₁ ∨ (have_entry = true ∧ d = putEntry d₁ entry_ref (emptyEntry leaf83)))

variable (g) in
/-- There was no room: every cluster is as free as before, and a file that was there is
empty now. -/
def RolledBack (entry_ref : EntryRef) (have_entry : Bool) (leaf83 : Name83) (d₀ d : Disk) : Prop :=
  ∃ d₁, g.Touched (g.FreeIn d₀) d₀ d₁ ∧ (g.view d₁).fat = (g.view d₀).fat ∧
    (g.Mirrored d₀ → g.Mirrored d₁) ∧
    d = if have_entry then putEntry d₁ entry_ref (emptyEntry leaf83) else d₁

section Loop

variable {data : List UInt8} {d₀ : Disk} {cs : List Nat} {first prev written fuel : Nat}
  {entry_ref : EntryRef} {have_entry : Bool} {leaf83 : Name83}

theorem Written.subset_free (h : g.Written data d₀ d cs first prev written) :
    {x | x ∈ cs} ⊆ g.FreeIn d₀ := fun x hx => ⟨h.inRange x hx, h.free x hx⟩

/-- What undoes a write, once the chain has been freed. -/
theorem does_rollback_entry (href : g.IsRef entry_ref) (htouched : g.Touched (g.FreeIn d₀) d₀ d)
    (hclean : faults ∨ ((g.view d).fat = (g.view d₀).fat ∧ (g.Mirrored d₀ → g.Mirrored d))) :
    Does faults (if have_entry = true then do
        let _ ← (fat12_dev_write_entry entry_ref leaf83 0 0 0).attempt
        (.fail .NO_SPACE : Io Nat)
      else .fail .NO_SPACE) d (fun _ _ => False)
      (fun _ d' => g.RolledBack entry_ref have_entry leaf83 d₀ d' ∨
        (faults ∧ g.CutShort entry_ref have_entry leaf83 d₀ d')) := by
  cases have_entry with
  | false =>
    rw [if_neg (by decide)]
    obtain hf | ⟨hfat, hmirror⟩ := hclean
    · exact .fail (.inr ⟨hf, d, htouched, .inl rfl⟩)
    · exact .fail (.inl ⟨d, htouched, hfat, hmirror, rfl⟩)
  | true =>
    rw [if_pos rfl]
    apply Does.attempt_bind
    apply (does_write_entry href leaf83 0 0 0).mono
    · rintro _ _ rfl
      obtain hf | ⟨hfat, hmirror⟩ := hclean
      · exact .fail (.inr ⟨hf, d, htouched, .inr ⟨rfl, rfl⟩⟩)
      · exact .fail (.inl ⟨d, htouched, hfat, hmirror, rfl⟩)
    · rintro _ d' ⟨hf, rfl⟩
      exact .fail (.inr ⟨hf, d', htouched, .inl rfl⟩)

section

variable (hfuel : 4096 ≤ fuel) (href : g.IsRef entry_ref)
  (h : g.Written data d₀ d cs first prev written)

include hfuel href h

/-- Out of room: `d` is where the loop was, `d₁` what the last allocation made of it. -/
theorem does_rollback {d₁ : Disk} (halloc : g.Allocated faults d 0 d₁) :
    Does faults (writeRollback fuel g.b first entry_ref have_entry leaf83) d₁ (fun _ _ => False)
      (fun _ d' => g.RolledBack entry_ref have_entry leaf83 d₀ d' ∨
        (faults ∧ g.CutShort entry_ref have_entry leaf83 d₀ d')) := by
  -- the chain is still there, and only free clusters have been used
  obtain ⟨htouched, hchain, hclean⟩ : g.Touched (g.FreeIn d₀) d₀ d₁ ∧
      (cs ≠ [] → g.Chain (g.view d₁).fat first cs) ∧ (faults ∨ d₁ = d) := by
    have hd := h.touched.mono h.subset_free
    obtain ⟨-, rfl⟩ | ⟨-, hf, c, hc, hfree, htouched⟩ | ⟨hc, -⟩ := halloc
    · exact ⟨hd, h.chain, .inr rfl⟩
    · obtain ⟨hnot, hfree₀⟩ := h.free_before hfree
      refine ⟨hd.trans (htouched.mono (Set.singleton_subset_iff.mpr ⟨hc, hfree₀⟩)), ?_, .inl hf⟩
      intro hne
      apply (h.chain hne).congr
      intro x hx
      exact htouched.view_fat (show x ≠ c from ne_of_mem_of_not_mem hx hnot)
    · exact absurd hc.1 (by decide)
  unfold writeRollback
  by_cases hzero : first = 0
  · rw [if_neg (not_not.mpr hzero)]
    obtain rfl := h.first_eq_zero.mp hzero
    apply does_rollback_entry href htouched
    obtain hf | rfl := hclean
    · exact .inl hf
    refine .inr ⟨?_, h.mirrored⟩
    funext x
    exact h.touched.view_fat (show x ∉ {x | x ∈ []} from not_mem_nil)
  rw [if_pos hzero]
  have hne : cs ≠ [] := fun hnil => hzero (h.first_eq_zero.mpr hnil)
  have hlen := (hchain hne).length_le
  apply Does.attempt_bind
  apply (does_free_chain (hchain hne) (by omega)).mono
  · intro _ d' hfreed
    apply does_rollback_entry href (htouched.trans (hfreed.touched.mono h.subset_free))
    obtain hf | rfl := hclean
    · exact .inl hf
    refine .inr ⟨?_, fun hm => hfreed.mirrored (h.mirrored hm)⟩
    funext x
    by_cases hx : x ∈ cs
    · rw [hfreed.free x hx, h.free x hx]
    · rw [hfreed.touched.view_fat (show x ∉ {x | x ∈ cs} from hx),
        h.touched.view_fat (show x ∉ {x | x ∈ cs} from hx)]
  · rintro _ d' ⟨hf, htouched'⟩
    exact does_rollback_entry href (htouched.trans (htouched'.mono h.subset_free)) (.inl hf)

/-- The rounds of a write, by induction on how many are left: the data is written or what
was taken is given back. -/
theorem does_writeLoop {rounds : Nat} (hrounds : data.length ≤ written + rounds) :
    Does faults (writeLoop g.dev fuel g.b data entry_ref have_entry leaf83 rounds first prev
        written) d
      (fun r d' => ∃ cs' prev', g.Written data d₀ d' cs' r prev' data.length)
      (fun _ d' => g.RolledBack entry_ref have_entry leaf83 d₀ d' ∨
        (faults ∧ g.CutShort entry_ref have_entry leaf83 d₀ d')) := by
  have hle : written ≤ data.length := by
    rw [h.amount]
    exact Nat.min_le_left _ _
  induction rounds generalizing d cs first prev written with
  | zero =>
    obtain rfl : written = data.length := by omega
    unfold writeLoop
    rw [if_neg (Nat.lt_irrefl _)]
    exact .done ⟨cs, prev, h⟩
  | succ rounds ih =>
    unfold writeLoop
    by_cases hlt : written < data.length
    swap
    · obtain rfl : written = data.length := by omega
      rw [if_neg hlt]
      exact .done ⟨cs, prev, h⟩
    rw [if_pos hlt]
    apply does_alloc.bind
    swap
    · exact fun _ _ h => h.elim
    intro q d₁ halloc
    by_cases hq0 : q = 0
    · subst hq0
      rw [if_pos rfl]
      exact (does_rollback hfuel href h halloc).mono (fun _ _ h => h.elim) fun _ _ h => h
    rw [if_neg hq0]
    obtain ⟨hq, -⟩ | ⟨hq, -⟩ | ⟨hq, hfree, htaken⟩ := halloc
    · exact absurd hq hq0
    · exact absurd hq hq0
    obtain ⟨hnot, hfree₀⟩ := h.free_before hfree
    have hqF : {q} ⊆ g.FreeIn d₀ := Set.singleton_subset_iff.mpr ⟨hq, hfree₀⟩
    apply Does.when_bind fun d₂ => (cs = [] ∧ d₂ = d₁) ∨ (cs ≠ [] ∧ g.Stored prev q d₁ d₂)
    · intro hprev
      have hne : cs ≠ [] := fun hnil => hprev (h.prev_eq_zero.mpr hnil)
      apply (does_set_fat (h.inRange prev (h.prev_mem hne)).lt hq.lt_4096).mono
      · exact fun _ d₂ hstored => .inr ⟨hne, hstored⟩
      · rintro rc d₂ ⟨hf, htouched⟩
        refine .inr ⟨hf, d₂, ?_, .inl rfl⟩
        apply ((h.touched.mono h.subset_free).trans (htaken.touched.mono hqF)).trans
        exact htouched.mono (Set.singleton_subset_iff.mpr (h.subset_free (h.prev_mem hne)))
    · exact fun hprev => .inl ⟨h.prev_eq_zero.mp (not_not.mp hprev), rfl⟩
    -- the data goes into the new cluster once it is linked
    intro d₂ hlink
    have htouched := h.extend_touched htaken hlink
    have hsub : {x | x ∈ cs ++ [q]} ⊆ g.FreeIn d₀ := by
      intro x hx
      obtain hx | hx := mem_append.mp hx
      · exact h.subset_free hx
      · exact hqF (mem_singleton.mp hx)
    apply (does_writeSectors data (clusterLbas_nodup hq)
      (Written.extend_zero hq htaken hlink) hle).bind
    · rintro w d₃ ⟨rfl, hbytes, honly⟩
      have hspc := g.b.spc_pos
      exact ih (h.extend hlt hq hfree htaken hlink honly hbytes) (by omega) (by omega)
    · rintro rc d₃ ⟨hf, honly⟩
      have honly : g.OnlyIn q d₂ d₃ := honly
      exact .inr ⟨hf, d₃, (htouched.mono hsub).trans ((honly.touched hq).mono hqF), .inl rfl⟩

end

end Loop

end System1.Fat12.Geometry
