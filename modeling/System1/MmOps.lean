/-
What the functions of the heap do to the block list.

Each function has one specification lemma, from a heap with a given list to a heap with
the edited list. `Maximal` (no two neighbours left to be joined) is not kept at every
moment, since a freed block is joined step by step, but it holds again at the end of each
call, and it is what makes the calls right: a joined block needs no second round, so
`mm_coalesce_block` stops where `mm_grow_heap` expects it to.
-/
import System1.MmHeap
import System1.MmPages

set_option autoImplicit false

namespace System1.Mm

open System1.Lib List

/-- Only the block list changes. -/
structure Same (s s' : State) : Prop where
  g_page_used : s'.g_page_used = s.g_page_used
  g_used_pages : s'.g_used_pages = s.g_used_pages
  g_initialized : s'.g_initialized = s.g_initialized
  g_heap_total_bytes : s'.g_heap_total_bytes = s.g_heap_total_bytes
  grown : s'.grown = s.grown

variable {s' : State}

namespace Same

theorem refl (s : State) : Same s s := ⟨rfl, rfl, rfl, rfl, rfl⟩

theorem trans {s s'' : State} (h : Same s s') (h' : Same s' s'') : Same s s'' :=
  ⟨h'.g_page_used.trans h.g_page_used, h'.g_used_pages.trans h.g_used_pages,
    h'.g_initialized.trans h.g_initialized, h'.g_heap_total_bytes.trans h.g_heap_total_bytes,
    h'.grown.trans h.grown⟩

theorem store (s : State) (a : Nat) (b : HeapBlock) : Same s (s.store a b) :=
  ⟨rfl, rfl, rfl, rfl, rfl⟩

theorem setPrev (s : State) (a v : Nat) : Same s (s.setPrev a v) := by
  unfold State.setPrev
  split
  · exact .store s _ _
  · exact ⟨rfl, rfl, rfl, rfl, rfl⟩

theorem setNext (s : State) (a v : Nat) : Same s (s.setNext a v) := by
  unfold State.setNext
  split
  · exact .store s _ _
  · exact ⟨rfl, rfl, rfl, rfl, rfl⟩

end Same

variable {W : Arch} {s : State} {p q : List Blk} {a b : Blk}

theorem Blk.ne_of_free {c : Blk} (hc : c.free = false) (hb : b.free = true) : c ≠ b := by
  rintro rfl
  exact absurd (hb.symm.trans hc) (by decide)

theorem Holds.prev_eq (h : Holds s (p ++ a :: b :: q)) (hb : b.addr ≠ 0) :
    (s.mem b.addr).prev = a.addr := by
  rw [Holds.prev (p := p ++ [a]) (by simpa using h) hb]
  unfold last
  rw [addrs_append]
  exact getLastD_concat ..

/-! ## Searching -/

/-- The walk ends at the first free block that is large enough, or at null. -/
theorem mm_find_free_block_spec (size : Nat) :
    ∀ (q p : List Blk) (fuel : Nat), Holds s (p ++ q) → (∀ b ∈ p ++ q, b.addr ≠ 0) →
      q.length < fuel →
      mm_find_free_block s size fuel (first q) = some 0 ∨
      ∃ p' b q', q = p' ++ b :: q' ∧ b.free = true ∧ size ≤ b.size ∧
        mm_find_free_block s size fuel (first q) = some b.addr := by
  intro q
  induction q with
  | nil =>
    intro p fuel _ _ hfuel
    obtain ⟨fuel, rfl⟩ : ∃ f, fuel = f + 1 := ⟨fuel - 1, by simp at hfuel; omega⟩
    exact .inl rfl
  | cons b q ih =>
    intro p fuel h hne hfuel
    obtain ⟨fuel, rfl⟩ : ∃ f, fuel = f + 1 := ⟨fuel - 1, by simp at hfuel; omega⟩
    have hb : b ∈ p ++ b :: q := by simp
    have hb0 := hne b hb
    show mm_find_free_block s size (fuel + 1) b.addr = _ ∨ ∃ p' b' q', _ ∧ _ ∧ _ ∧
      mm_find_free_block s size (fuel + 1) b.addr = _
    unfold mm_find_free_block
    rw [if_neg hb0, h.free b hb, h.size b hb, h.next hb0]
    split
    · next hfit => exact .inr ⟨[], b, q, rfl, hfit.1, hfit.2, rfl⟩
    rcases ih (p ++ [b]) fuel (by simpa using h) (by simpa using hne)
        (by simp at hfuel; omega) with h0 | ⟨p', b', q', hq, hfree, hsize, hres⟩
    · exact .inl h0
    · exact .inr ⟨b :: p', b', q', by rw [hq]; rfl, hfree, hsize, hres⟩

/-! ## Joining -/

/-- The test of the code is that the two blocks meet. -/
theorem mm_blocks_adjacent_iff (h : Heap W s (p ++ a :: b :: q)) :
    mm_blocks_adjacent W s a.addr b.addr = true ↔ a.stop W = b.addr := by
  have ha : a ∈ p ++ a :: b :: q := by simp
  have hb : b ∈ p ++ a :: b :: q := by simp
  have hstop := h.stop_le ha
  unfold mm_blocks_adjacent
  rw [decide_eq_true_iff, h.holds.size a ha, uptr_of_lt W (by
    unfold Blk.stop PAGING_IDENTITY_LIMIT at hstop
    omega)]
  exact ⟨fun hadj => hadj.2.2, fun hadj => ⟨h.addr_ne_zero ha, h.addr_ne_zero hb, hadj⟩⟩

/-- Two blocks that meet, as one. -/
def Blk.join (W : Arch) (a b : Blk) : Blk := ⟨a.addr, a.size + W.header + b.size, a.free⟩

theorem join_stop (hmeet : a.stop W = b.addr) : (a.join W b).stop W = b.stop W := by
  unfold Blk.stop at hmeet ⊢
  show a.addr + W.header + (a.size + W.header + b.size) = _
  omega

/-- A block absorbs its successor when that is free and lies right after it. The header
of the absorbed block stays in memory. -/
theorem mm_absorb_next_spec (h : Heap W s (p ++ a :: q)) :
    Same s (mm_absorb_next W s a.addr) ∧
    ((∃ b q', q = b :: q' ∧ b.free = true ∧ a.stop W = b.addr ∧
        Heap W (mm_absorb_next W s a.addr) (p ++ a.join W b :: q') ∧
        ((mm_absorb_next W s a.addr).mem b.addr).prev = a.addr) ∨
     (mm_absorb_next W s a.addr = s ∧
       ∀ b q', q = b :: q' → ¬ (b.free = true ∧ a.stop W = b.addr))) := by
  have ha : a ∈ p ++ a :: q := by simp
  have ha0 := h.addr_ne_zero ha
  unfold mm_absorb_next
  rw [h.holds.next ha0]
  cases q with
  | nil =>
    rw [if_neg (by simp [first])]
    exact ⟨.refl s, .inr ⟨rfl, fun b q' hq => by cases hq⟩⟩
  | cons b q =>
  have hb : b ∈ p ++ a :: b :: q := by simp
  have hb0 := h.addr_ne_zero hb
  rw [show first (b :: q) = b.addr from rfl]
  by_cases hjoin : b.free = true ∧ a.stop W = b.addr
  · rw [if_pos ⟨hb0, by rw [h.holds.free b hb]; exact hjoin.1,
      (mm_blocks_adjacent_iff h).mpr hjoin.2⟩]
    have hstop := h.stop_le hb
    have hsize : u32 ((s.mem a.addr).size + W.header + (s.mem b.addr).size) =
        a.size + W.header + b.size := by
      rw [h.holds.size a ha, h.holds.size b hb]
      grind [Blk.stop, PAGING_IDENTITY_LIMIT, u32_of_lt]
    rw [hsize]
    generalize hs1 : s.store a.addr { s.mem a.addr with
      size := a.size + W.header + b.size, next := (s.mem b.addr).next } = s1
    have hsame : Same s (s1.setPrev (s1.mem a.addr).next a.addr) := by
      rw [← hs1]
      exact (Same.store s _ _).trans (.setPrev _ _ _)
    refine ⟨hsame, .inl ⟨b, q, rfl, hjoin.1, hjoin.2, ?_, ?_⟩⟩
    · refine h.edit hsame.grown hsame.g_heap_total_bytes ?_ ?_ fun _ =>
        h.holds.absorb h.nodup _ hs1.symm
      · exact cover_joined (a := a) (c := a.join W b) rfl hjoin.2 (join_stop hjoin.2)
          (Nat.le_of_lt (a.addr_lt_stop W)) (Nat.le_of_lt (b.addr_lt_stop W)) p q
      · simp only [bytes_append, bytes_cons, Blk.join]
        omega
    · obtain ⟨hna, hnb, -⟩ := nodup_pair (by simpa using h.nodup)
      have hba : b.addr ≠ a.addr := fun h0 => hna (by rw [← h0]; simp)
      have hbf : b.addr ≠ first q := by
        intro h0
        rcases first_mem_or q with hq | hq
        · exact hb0 (h0.trans hq)
        · exact hnb (by rw [h0]; exact .tail _ (mem_append_right _ hq))
      have hnext : (s.mem b.addr).next = first q :=
        Holds.next (p := p ++ [a]) (by simpa using h.holds) hb0
      rw [← prv_eq hb0, setPrev_prv, ← hs1, store_mem_self]
      rw [hnext, Function.update_of_ne hbf, store_prv s ha0, Function.update_of_ne hba,
        prv_eq hb0, h.holds.prev_eq hb0]
  · rw [if_neg (fun hc => hjoin ⟨by rw [← h.holds.free b hb]; exact hc.2.1,
      (mm_blocks_adjacent_iff h).mp hc.2.2⟩)]
    refine ⟨.refl s, .inr ⟨rfl, fun b' q' hq => ?_⟩⟩
    cases hq
    exact hjoin

/-- The test made before going on to the previous block. -/
theorem prev_joins_iff (h : Heap W s (p ++ a :: b :: q)) :
    ((s.mem b.addr).prev ≠ 0 ∧ (s.mem (s.mem b.addr).prev).free = true ∧
      mm_blocks_adjacent W s (s.mem b.addr).prev b.addr = true) ↔
    (a.free = true ∧ a.stop W = b.addr) := by
  have ha : a ∈ p ++ a :: b :: q := by simp
  have hb : b ∈ p ++ a :: b :: q := by simp
  rw [h.holds.prev_eq (h.addr_ne_zero hb), h.holds.free a ha, mm_blocks_adjacent_iff h]
  exact ⟨fun hc => hc.2, fun hc => ⟨h.addr_ne_zero ha, hc⟩⟩

/-- One level of the recursion. -/
theorem mm_coalesce_block_succ (fuel : Nat) {block : Nat} (hblock : block ≠ 0) :
    mm_coalesce_block W (fuel + 1) s block =
      if ((mm_absorb_next W s block).mem block).prev ≠ 0 ∧
          ((mm_absorb_next W s block).mem ((mm_absorb_next W s block).mem block).prev).free = true ∧
          mm_blocks_adjacent W (mm_absorb_next W s block)
            ((mm_absorb_next W s block).mem block).prev block = true then
        mm_coalesce_block W fuel (mm_absorb_next W s block)
          ((mm_absorb_next W s block).mem block).prev
      else some (mm_absorb_next W s block) := by
  rw [mm_coalesce_block, if_neg hblock]

/-- Joining stops at a block whose predecessor cannot be joined with it. -/
theorem mm_coalesce_block_stop (h : Heap W (mm_absorb_next W s b.addr) (p ++ b :: q))
    (hstop : ∀ p' a, p = p' ++ [a] → ¬ (a.free = true ∧ a.stop W = b.addr)) (fuel : Nat) :
    mm_coalesce_block W (fuel + 1) s b.addr = some (mm_absorb_next W s b.addr) := by
  have hb0 := h.addr_ne_zero (b := b) (by simp)
  rw [mm_coalesce_block_succ fuel hb0]
  refine if_neg ?_
  rcases eq_nil_or_concat p with rfl | ⟨p', a, rfl⟩
  · rintro ⟨hprev, -⟩
    exact hprev (h.holds.prev hb0)
  grind [prev_joins_iff]

/-- After absorbing, a free block has nothing to join after it. -/
theorem mm_absorb_next_maximal (h : Heap W s (p ++ b :: q)) (hfree : b.free = true)
    (hq : Maximal W q) :
    ∃ b' q', Heap W (mm_absorb_next W s b.addr) (p ++ b' :: q') ∧ b'.addr = b.addr ∧
      b'.free = true ∧ Maximal W (b' :: q') ∧ ∀ c : Blk, c.free = false → (c ∈ q' ↔ c ∈ q) := by
  obtain ⟨-, ⟨n, q', hqn, hn, hmeet, hheap, -⟩ | ⟨heq, hnot⟩⟩ := mm_absorb_next_spec h
  · refine ⟨b.join W n, q', hheap, rfl, hfree, ?_, fun c hc => ?_⟩
    · -- what follows could not be joined with the absorbed block either
      rw [hqn] at hq
      obtain ⟨hhead, htail⟩ := isChain_cons.mp hq
      refine isChain_cons.mpr ⟨fun y hy hjoin => hhead y hy ⟨hn, hjoin.2.1, ?_⟩, htail⟩
      rw [← join_stop hmeet]
      exact hjoin.2.2
    · grind
  · refine ⟨b, q, by rw [heq]; exact h, rfl, hfree,
      isChain_cons.mpr ⟨fun y hy hjoin => ?_, hq⟩, fun c _ => Iff.rfl⟩
    cases q with
    | nil => cases hy
    | cons n q =>
      cases hy
      exact hnot _ q rfl hjoin.2

/-- Nothing before the last block, which is free, can be joined with it. -/
theorem Maximal.stops (h : Maximal W (p ++ [a])) (ha : a.free = true) :
    ∀ p' c, p = p' ++ [c] → ¬ (c.free = true ∧ c.stop W = a.addr) := by
  rintro p' c rfl ⟨hc, hmeet⟩
  unfold Maximal at h
  rw [append_assoc, singleton_append, isChain_append_cons_cons] at h
  exact h.2.1 ⟨hc, ha, hmeet⟩

theorem Maximal.append (hp : Maximal W p) (hq : Maximal W (b :: q))
    (hstop : ∀ p' a, p = p' ++ [a] → ¬ (a.free = true ∧ a.stop W = b.addr)) :
    Maximal W (p ++ b :: q) := by
  refine isChain_append.mpr ⟨hp, hq, fun x hx y hy hj => ?_⟩
  obtain ⟨p', rfl⟩ := getLast?_eq_some_iff.mp hx
  cases hy
  exact hstop p' x rfl ⟨hj.1, hj.2.2⟩

/-- A free block between two parts with nothing to join is joined with its neighbours,
and then nothing is left to join. Blocks in use are not touched. -/
theorem mm_coalesce_block_spec (h : Heap W s (p ++ b :: q)) (hfree : b.free = true)
    (hp : Maximal W p) (hq : Maximal W q) (fuel : Nat) :
    ∃ s' l', mm_coalesce_block W (fuel + 2) s b.addr = some s' ∧ Same s s' ∧ Heap W s' l' ∧
      Maximal W l' ∧ ∀ c : Blk, c.free = false → (c ∈ l' ↔ c ∈ p ++ b :: q) := by
  obtain ⟨b1, q1, h1, haddr, hfree1, hmax1, hmem1⟩ := mm_absorb_next_maximal h hfree hq
  have hsame1 := (mm_absorb_next_spec h).1
  have hinuse : ∀ c : Blk, c.free = false → (c ∈ p ++ b1 :: q1 ↔ c ∈ p ++ b :: q) := by grind
  rw [← haddr] at h1 hsame1 ⊢
  by_cases hjoin : ∃ p' a, p = p' ++ [a] ∧ a.free = true ∧ a.stop W = b1.addr
  · -- the previous block absorbs this one, and stops: what comes before it is not joinable
    obtain ⟨p', a, rfl, ha, hmeet⟩ := hjoin
    have h1' : Heap W (mm_absorb_next W s b1.addr) (p' ++ a :: b1 :: q1) := by simpa using h1
    obtain ⟨a2, q2, h2, haddr2, hfree2, hmax2, hmem2⟩ := mm_absorb_next_maximal h1' ha hmax1
    have hsame2 := (mm_absorb_next_spec h1').1
    have hnotp := hp.stops ha
    rw [← haddr2] at hnotp
    refine ⟨mm_absorb_next W (mm_absorb_next W s b1.addr) a2.addr, p' ++ a2 :: q2, ?_,
      by rw [haddr2]; exact hsame1.trans hsame2, by rw [haddr2]; exact h2,
      Maximal.append hp.left_of_append hmax2 hnotp, fun c hc => ?_⟩
    · have hb0 := h1'.addr_ne_zero (b := b1) (by simp)
      rw [mm_coalesce_block_succ (fuel + 1) hb0, if_pos ((prev_joins_iff h1').mpr ⟨ha, hmeet⟩),
        h1'.holds.prev_eq hb0, ← haddr2]
      exact mm_coalesce_block_stop (by rw [haddr2] at *; exact h2) hnotp fuel
    · rw [← hinuse c hc]
      simp [hmem2 c hc, Blk.ne_of_free hc hfree2, Blk.ne_of_free hc ha]
  · have hnot : ∀ p' a, p = p' ++ [a] → ¬ (a.free = true ∧ a.stop W = b1.addr) :=
      fun p' a hpa hc => hjoin ⟨p', a, hpa, hc⟩
    exact ⟨mm_absorb_next W s b1.addr, p ++ b1 :: q1, mm_coalesce_block_stop h1 hnot (fuel + 1),
      hsame1, h1, hp.append hmax1 hnot, hinuse⟩

/-! ## Splitting -/

theorem ptrSize_le (W : Arch) : W.ptrSize ≤ 8 := by
  cases W <;> decide

variable {size : Nat}

/-- A free block gives up what is not needed and is then taken. -/
theorem mm_split_block_spec (h : Heap W s (p ++ b :: q)) (hsize : size ≤ b.size) :
    ∃ n q', Heap W ((mm_split_block W s b.addr size).store b.addr
          { (mm_split_block W s b.addr size).mem b.addr with free := false })
        (p ++ ⟨b.addr, n, false⟩ :: q') ∧ size ≤ n ∧
      Same s (mm_split_block W s b.addr size) ∧
      (q' = q ∧ n = b.size ∨ ∃ c : Blk, q' = c :: q ∧ c.free = true ∧ c.stop W = b.stop W) := by
  have hb : b ∈ p ++ b :: q := by simp
  have hb0 := h.addr_ne_zero hb
  have hstop := h.stop_le hb
  have hptr := ptrSize_le W
  unfold Blk.stop PAGING_IDENTITY_LIMIT at hstop
  -- taking the block afterwards only stores its flag
  have htake : ∀ {s' : State} {n : Nat} {q' : List Blk}, Same s s' →
      Heap W s' (p ++ ⟨b.addr, n, b.free⟩ :: q') →
      Heap W (s'.store b.addr { s'.mem b.addr with free := false })
        (p ++ ⟨b.addr, n, false⟩ :: q') := by
    intro s' n q' hsame h'
    refine h'.edit rfl rfl (fun x => ?_) (by simp) fun _ => ?_
    · simp only [cover_append, cover_cons]
      rfl
    · have hn : (s'.mem b.addr).size = n := h'.holds.size ⟨b.addr, n, b.free⟩ (by simp)
      rw [show ({ s'.mem b.addr with free := false } : HeapBlock) =
        { s'.mem b.addr with size := n, free := false } by rw [← hn]]
      exact h'.holds.store h'.nodup n false
  unfold mm_split_block
  dsimp only
  rw [h.holds.size b hb, u32_of_lt (by omega)]
  by_cases hsmall : b.size < size + (W.header + W.ptrSize)
  · rw [if_pos (.inr hsmall)]
    exact ⟨b.size, q, htake (.refl s) h, hsize, .refl s, .inl ⟨rfl, rfl⟩⟩
  rw [if_neg (by simp only [hb0, false_or]; exact hsmall), uptr_of_lt W (by omega),
    u32_sub_of_le hsize (by omega), u32_sub_of_le (by omega) (by omega)]
  generalize hs1 : s.store (b.addr + W.header + size) ⟨b.size - size - W.header, true,
    (s.mem b.addr).next, b.addr⟩ = s1
  generalize hs2 : s1.setPrev (s1.mem (b.addr + W.header + size)).next
    (b.addr + W.header + size) = s2
  have hsame : Same s (s2.store b.addr { s2.mem b.addr with
      size := size, next := b.addr + W.header + size }) := by
    rw [← hs2, ← hs1]
    exact (Same.store s _ _).trans ((Same.setPrev _ _ _).trans (.store _ _ _))
  have hparts : Heap W (s2.store b.addr { s2.mem b.addr with
        size := size, next := b.addr + W.header + size })
      (p ++ ⟨b.addr, size, b.free⟩ ::
        ⟨b.addr + W.header + size, b.size - size - W.header, true⟩ :: q) := by
    refine h.edit hsame.grown hsame.g_heap_total_bytes (fun x => ?_) ?_ fun hnd => ?_
    · refine (cover_joined ?_ ?_ ?_ ?_ ?_ p q x).symm
      · rfl
      · rfl
      · show b.addr + W.header + b.size =
          b.addr + W.header + size + W.header + (b.size - size - W.header)
        omega
      · exact Nat.le_of_lt (Blk.addr_lt_stop W _)
      · exact Nat.le_of_lt (Blk.addr_lt_stop W _)
    · simp only [bytes_append, bytes_cons]
      omega
    · exact h.holds.split (by simpa using hnd) hs1.symm hs2.symm
  refine ⟨size, _, htake hsame hparts, Nat.le_refl _, hsame, .inr ⟨_, rfl, rfl, ?_⟩⟩
  show b.addr + W.header + size + W.header + (b.size - size - W.header) =
    b.addr + W.header + b.size
  omega

/-! ## Growing -/

/-- What holds between calls. -/
structure Sound (W : Arch) (s : State) (l : List Blk) : Prop where
  heap : Heap W s l
  maximal : Maximal W l
  counted : Counted s
  used : ∀ page ∈ s.grown, s.Used page
  zero : s.g_initialized = true → s.Used 0

/-- The heap has taken `pages`, which were unused. -/
structure Grown (s s' : State) (pages : List Nat) : Prop where
  flags : ∀ i : PageIx, s'.g_page_used i = if i.val ∈ pages then true else s.g_page_used i
  unused : ∀ page ∈ pages, s.Unused page
  grown : s'.grown = s.grown ++ pages
  counted : Counted s → Counted s'
  g_initialized : s'.g_initialized = s.g_initialized

/-- No change at all is growth by no page. -/
theorem Same.grown' {s : State} (h : Same s s') : Grown s s' [] where
  flags i := by rw [h.g_page_used]; simp
  unused page hp := by cases hp
  grown := by rw [h.grown, append_nil]
  counted hc := by
    unfold Counted usedPages at hc ⊢
    rw [h.g_used_pages, h.g_page_used]
    exact hc
  g_initialized := h.g_initialized

theorem Grown.same {s s'' : State} {pages : List Nat} (h : Grown s s' pages) (h' : Same s' s'') :
    Grown s s'' pages where
  flags i := by rw [h'.g_page_used]; exact h.flags i
  unused := h.unused
  grown := h'.grown.trans h.grown
  counted hc := h'.grown'.counted (h.counted hc)
  g_initialized := h'.g_initialized.trans h.g_initialized

/-- Growing frees no page. -/
theorem Grown.used {s : State} {pages : List Nat} (h : Grown s s' pages) {page : Nat}
    (hu : s.Used page) : s'.Used page := by
  obtain ⟨hlt, hused⟩ := hu
  refine ⟨hlt, ?_⟩
  rw [h.flags]
  split
  · rfl
  · exact hused

/-- A page that was unused is not one that was used. -/
theorem not_used_of_unused {s : State} {page : Nat} (h : s.Unused page) : ¬ s.Used page := by
  rintro ⟨hlt, hused⟩
  obtain ⟨_, hun⟩ := h
  rw [hun] at hused
  cases hused

/-- The whole pages of a new block. -/
theorem page_mem_range (start count x : Nat) :
    x / MM_PAGE_SIZE ∈ (range count).map (start + ·) ↔
      start * MM_PAGE_SIZE ≤ x ∧ x < start * MM_PAGE_SIZE + count * MM_PAGE_SIZE := by
  rw [mem_map]
  unfold MM_PAGE_SIZE
  constructor
  · rintro ⟨j, hj, heq⟩
    have := mem_range.mp hj
    omega
  · intro hx
    exact ⟨x / 4096 - start, mem_range.mpr (by omega), by omega⟩

variable {l : List Blk}

/-- A block of fresh pages extends the heap. -/
theorem Heap.grow (h : Heap W s l) {start count : Nat} (hstart : start ≠ 0)
    (hcount : W.header ≤ count * MM_PAGE_SIZE) (hend : start + count ≤ MM_MAX_PAGES)
    (hfresh : ∀ page ∈ (range count).map (start + ·), page ∉ s.grown)
    (hgrown : s'.grown = s.grown ++ (range count).map (start + ·))
    (htotal : s'.g_heap_total_bytes = u32 (s.g_heap_total_bytes + count * MM_PAGE_SIZE))
    (hholds :
      (0 :: addrs (l ++ [⟨start * MM_PAGE_SIZE, count * MM_PAGE_SIZE - W.header, true⟩])).Nodup →
      Holds s' (l ++ [⟨start * MM_PAGE_SIZE, count * MM_PAGE_SIZE - W.header, true⟩])) :
    Heap W s' (l ++ [⟨start * MM_PAGE_SIZE, count * MM_PAGE_SIZE - W.header, true⟩]) := by
  have hinside : ∀ page ∈ s'.grown, page ≠ 0 ∧ page < MM_MAX_PAGES := by
    intro page hp
    rw [hgrown, mem_append] at hp
    rcases hp with hp | hp
    · exact h.inside page hp
    grind
  have hdistinct : s'.grown.Nodup := by
    rw [hgrown]
    refine List.Nodup.append h.distinct ?_ fun page hp hp' => hfresh page hp' hp
    exact nodup_range.map fun a b hab => by simpa using hab
  have htiles : ∀ x, cover Blk.addr (Blk.stop W)
      (l ++ [⟨start * MM_PAGE_SIZE, count * MM_PAGE_SIZE - W.header, true⟩]) x =
      if x / MM_PAGE_SIZE ∈ s'.grown then 1 else 0 := by
    intro x
    rw [cover_append, cover_cons, cover_nil, h.tiles, hgrown]
    have hnew := page_mem_range start count x
    have hstop : Blk.stop W ⟨start * MM_PAGE_SIZE, count * MM_PAGE_SIZE - W.header, true⟩ =
        start * MM_PAGE_SIZE + count * MM_PAGE_SIZE := by
      show start * MM_PAGE_SIZE + W.header + (count * MM_PAGE_SIZE - W.header) = _
      omega
    rw [hstop]
    by_cases hx : x / MM_PAGE_SIZE ∈ (range count).map (start + ·)
    · rw [if_neg (hfresh _ hx), if_pos (hnew.mp hx), if_pos (mem_append_right _ hx)]
    · rw [if_neg (fun hc => hx (hnew.mpr hc))]
      simp [hx]
  have hlen : s'.grown.length ≤ MM_MAX_PAGES := by
    have hsub : s'.grown ⊆ range MM_MAX_PAGES :=
      fun page hp => mem_range.mpr (hinside page hp).2
    have := (hdistinct.subperm hsub).length_le
    rwa [length_range] at this
  have hlength : s'.grown.length = s.grown.length + count := by
    rw [hgrown, length_append, length_map, length_range]
  have hsum : s'.g_heap_total_bytes = s.g_heap_total_bytes + count * MM_PAGE_SIZE := by
    rw [htotal]
    refine u32_of_lt ?_
    have hpages := h.pages
    unfold MM_MAX_PAGES at hlen
    unfold MM_PAGE_SIZE at *
    omega
  refine ⟨hholds (nodup_of_tiles htiles fun h0 => (hinside 0 h0).1 rfl), htiles, hinside, hdistinct,
    ?_, ?_⟩
  · rw [hsum, h.total, bytes_append, bytes_cons, bytes_nil]
    show _ = _ + (W.header + (count * MM_PAGE_SIZE - W.header) + 0)
    omega
  · rw [hsum, h.pages, hlength]
    unfold MM_PAGE_SIZE
    omega

/-- The appended block covers the pages that were taken for it. -/
theorem mm_append_block_spec (h : Sound W s l) {s1 : State} {start count : Nat} (hstart : start ≠ 0)
    (hcount : W.header ≤ count * MM_PAGE_SIZE) (hend : start + count ≤ MM_MAX_PAGES)
    (hun : ∀ j < count, s.Unused (start + j))
    (hm : Marked s s1 ((range count).map (start + ·)) true) :
    Heap W (mm_append_block W s1 (start * MM_PAGE_SIZE) count)
      (l ++ [⟨start * MM_PAGE_SIZE, count * MM_PAGE_SIZE - W.header, true⟩]) ∧
    Grown s (mm_append_block W s1 (start * MM_PAGE_SIZE) count)
      ((range count).map (start + ·)) := by
  have hbytes : count * MM_PAGE_SIZE < 2 ^ 32 := by
    unfold MM_MAX_PAGES at hend
    unfold MM_PAGE_SIZE at *
    omega
  have hpage : start * MM_PAGE_SIZE / MM_PAGE_SIZE = start := Nat.mul_div_cancel _ (by decide)
  have hrest : u32_sub (count * MM_PAGE_SIZE) W.header = count * MM_PAGE_SIZE - W.header :=
    u32_sub_of_le hcount hbytes
  have hunused : ∀ page ∈ (range count).map (start + ·), s.Unused page := by grind
  unfold mm_append_block
  simp only [u32_of_lt hbytes, hpage, hrest]
  -- the pages are taken, nothing of the list has changed yet
  generalize hs2 : ({ s1 with grown := s1.grown ++ (range count).map (start + ·) } : State) = s2
  have hholds : Holds s2 l := by
    rw [← hs2]
    exact h.heap.holds.congr hm.rest.g_heap_head hm.rest.g_heap_tail fun b _ => by
      show s1.mem b.addr = _
      rw [hm.rest.mem]
  have htail : s1.g_heap_tail = s2.g_heap_tail := by rw [← hs2]
  have htotal : s2.g_heap_total_bytes = s.g_heap_total_bytes := by
    rw [← hs2]
    exact hm.rest.g_heap_total_bytes
  have hpages : s2.grown = s.grown ++ (range count).map (start + ·) := by
    rw [← hs2, ← hm.rest.grown]
  have hflags : s2.g_page_used = s1.g_page_used ∧ s2.g_used_pages = s1.g_used_pages ∧
      s2.g_initialized = s1.g_initialized := by
    rw [← hs2]
    exact ⟨rfl, rfl, rfl⟩
  rw [htail]
  generalize hs3 : s2.store (start * MM_PAGE_SIZE)
    ⟨count * MM_PAGE_SIZE - W.header, true, 0, s2.g_heap_tail⟩ = s3
  generalize hs4 : s3.setNext s3.g_heap_tail (start * MM_PAGE_SIZE) = s4
  have hsame : Same s2 s4 := by
    rw [← hs4, ← hs3]
    exact (Same.store s2 _ _).trans (.setNext _ _ _)
  constructor
  · refine h.heap.grow hstart hcount hend (fun page hp hp' => ?_) (hsame.grown.trans hpages) ?_
      fun hnd => (hholds.append hnd hs3.symm hs4.symm _).1
    · exact not_used_of_unused (hunused page hp) (h.used page hp')
    · simp [hsame.g_heap_total_bytes, htotal]
  · refine ⟨fun i => ?_, hunused, hsame.grown.trans hpages, fun hc => ?_, ?_⟩
    · show s4.g_page_used i = _
      rw [hsame.g_page_used, hflags.1]
      exact hm.flags i
    · have hc1 := hm.counted hc
      show s4.g_used_pages = (Finset.univ.filter fun i => s4.g_page_used i = true).card
      rw [hsame.g_used_pages, hsame.g_page_used, hflags.1, hflags.2.1]
      exact hc1
    · show s4.g_initialized = _
      rw [hsame.g_initialized, hflags.2.2, hm.rest.g_initialized]

/-- The pages that a request needs. -/
theorem grow_pages_eq (hsize : size ≤ PAGING_IDENTITY_LIMIT) :
    u32 (u32 (size + W.header) + MM_PAGE_SIZE - 1) / MM_PAGE_SIZE =
      (size + W.header + MM_PAGE_SIZE - 1) / MM_PAGE_SIZE := by
  grind [PAGING_IDENTITY_LIMIT, MM_PAGE_SIZE, header_le, u32_of_lt]

/-- Without pages the heap does not grow. -/
theorem mm_grow_heap_null (fuel : Nat)
    (h : mm_alloc_pages s (u32 (u32 (size + W.header) + MM_PAGE_SIZE - 1) / MM_PAGE_SIZE) =
      (0, s)) :
    mm_grow_heap W fuel s size = some (0, s) := by
  unfold mm_grow_heap
  dsimp only
  rw [h]
  rw [if_pos rfl]

section

variable (h : Sound W s l) (h0 : s.Used 0) (hsize : size ≤ PAGING_IDENTITY_LIMIT) (fuel : Nat)

include h h0 hsize fuel

/-- Growing leaves a free block that is large enough, if the pages can be had. When the
last block is joined with the new one, the answer is read from the header that was
absorbed, and it is that last block: nothing before it could be joined with it. -/
theorem mm_grow_heap_grown
    (hpages : mm_alloc_pages s ((size + W.header + MM_PAGE_SIZE - 1) / MM_PAGE_SIZE) ≠ (0, s)) :
    ∃ s' p b pages, mm_grow_heap W (fuel + 1) s size = some (b.addr, s') ∧ Heap W s' (p ++ [b]) ∧
      Maximal W (p ++ [b]) ∧ b.free = true ∧ size ≤ b.size ∧ Grown s s' pages ∧
      ∀ c : Blk, c.free = false → (c ∈ p ++ [b] ↔ c ∈ l) := by
  unfold mm_grow_heap
  simp only [grow_pages_eq hsize]
  generalize hcount : (size + W.header + MM_PAGE_SIZE - 1) / MM_PAGE_SIZE = count at hpages ⊢
  have hroom : size + W.header ≤ count * MM_PAGE_SIZE := by
    rw [← hcount]
    unfold MM_PAGE_SIZE
    omega
  obtain hfail | ⟨start, s1, halloc, hstart, -, hend, hun, hm⟩ := mm_alloc_pages_spec h0 count
  · exact absurd hfail hpages
  rw [halloc]
  have hblock : start * MM_PAGE_SIZE ≠ 0 := by
    unfold MM_PAGE_SIZE
    omega
  rw [if_neg hblock]
  obtain ⟨hheap, hgrown⟩ := mm_append_block_spec h hstart (by omega) hend hun hm
  generalize mm_append_block W s1 (start * MM_PAGE_SIZE) count = s2 at hheap hgrown ⊢
  generalize hnew : (⟨start * MM_PAGE_SIZE, count * MM_PAGE_SIZE - W.header, true⟩ : Blk) = n
    at hheap
  have haddr : start * MM_PAGE_SIZE = n.addr := by rw [← hnew]
  have hfree : n.free = true := by rw [← hnew]
  have hfit : size ≤ n.size := by
    rw [← hnew]
    dsimp only
    omega
  rw [haddr]
  have hn0 := hheap.addr_ne_zero (b := n) (by simp)
  unfold mm_join_appended
  rcases eq_nil_or_concat l with rfl | ⟨p, t, rfl⟩
  · -- the first block of the heap
    have hprev : (s2.mem n.addr).prev = 0 := Holds.prev (p := []) hheap.holds hn0
    rw [if_neg (by simp [hprev])]
    refine ⟨s2, [], n, _, rfl, hheap, .singleton n, hfree, hfit, hgrown, fun c hc => ?_⟩
    simpa using Blk.ne_of_free hc hfree
  rw [concat_eq_append] at h hheap ⊢
  have hheap' : Heap W s2 (p ++ t :: n :: []) := by simpa using hheap
  have hmax := h.maximal
  by_cases hjoin : t.free = true ∧ t.stop W = n.addr
  · rw [if_pos ((prev_joins_iff hheap').mpr hjoin), hheap'.holds.prev_eq hn0]
    obtain ⟨hsame, ⟨n', q', hq, -, hmeet, hheap2, hstale⟩ | ⟨-, hnot⟩⟩ := mm_absorb_next_spec hheap'
    · cases hq
      -- nothing before the last block can be joined with it, so the joining stops here
      have hstop := hmax.stops hjoin.1
      have hco : mm_coalesce_block W (fuel + 1) s2 t.addr = some (mm_absorb_next W s2 t.addr) :=
        mm_coalesce_block_stop (b := t.join W n) hheap2 hstop fuel
      rw [hco]
      dsimp only
      rw [hstale]
      refine ⟨_, p, t.join W n, _, rfl, hheap2,
        Maximal.append hmax.left_of_append (.singleton _) hstop,
        hjoin.1, ?_, hgrown.same hsame, fun c hc => ?_⟩
      · show size ≤ t.size + W.header + n.size
        omega
      · have hct : c ≠ t.join W n := Blk.ne_of_free hc hjoin.1
        simp [hct, Blk.ne_of_free hc hjoin.1]
    · exact absurd ⟨hfree, hjoin.2⟩ (hnot n [] rfl)
  · rw [if_neg (fun hc => hjoin ((prev_joins_iff hheap').mp hc))]
    refine ⟨s2, p ++ [t], n, _, rfl, hheap, ?_, hfree, hfit, hgrown, fun c hc => ?_⟩
    · refine isChain_append.mpr ⟨hmax, .singleton n, fun x hx y hy hj => ?_⟩
      rw [getLast?_concat] at hx
      cases hx
      cases hy
      exact hjoin ⟨hj.1, hj.2.2⟩
    · simp [Blk.ne_of_free hc hfree]

/-- Growing fails and changes nothing, or leaves a free block that is large enough. -/
theorem mm_grow_heap_spec :
    mm_grow_heap W (fuel + 1) s size = some (0, s) ∨
    ∃ s' p b pages, mm_grow_heap W (fuel + 1) s size = some (b.addr, s') ∧ Heap W s' (p ++ [b]) ∧
      Maximal W (p ++ [b]) ∧ b.free = true ∧ size ≤ b.size ∧ Grown s s' pages ∧
      ∀ c : Blk, c.free = false → (c ∈ p ++ [b] ↔ c ∈ l) := by
  by_cases hnull : mm_alloc_pages s ((size + W.header + MM_PAGE_SIZE - 1) / MM_PAGE_SIZE) = (0, s)
  · rw [← grow_pages_eq hsize] at hnull
    exact .inl (mm_grow_heap_null _ hnull)
  · exact .inr (mm_grow_heap_grown h h0 hsize fuel hnull)

end

end System1.Mm
