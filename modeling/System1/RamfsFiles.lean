/-
The RAMFS as a family of byte arrays.

What a client of the driver sees of a file node is its bytes. `State.file` reads them
off the nodes and the data slots, and every driver call is described by what it does to
that family: a read returns a slice, a write replaces a range, an open may add an empty
file or empty one, an unlink takes one away, and nothing else changes any file. Slots,
sizes and the tree do not appear in these statements.
-/
import System1.RamfsRuns
import System1.Lib.Bytes

set_option autoImplicit false

namespace System1.Ramfs

open System1.Lib Function List

/-! ## The bytes of a node -/

/-- The bytes of a file node. -/
def bytesOf (s : State) (x : NodeIx) : List UInt8 :=
  (range (s.g_nodes x).size).map (contents s x)

/-- The files: what stands behind each node, if it is a file in use. -/
def State.file (s : State) (x : NodeIx) : Option (List UInt8) :=
  if (s.g_nodes x).used = true ∧ (s.g_nodes x).type = .FILE then some (bytesOf s x) else none

variable {s : State} {x : NodeIx}

theorem file_eq_some {b : List UInt8} :
    s.file x = some b ↔ s.Used x ∧ (s.g_nodes x).type = .FILE ∧ b = bytesOf s x := by
  unfold State.file State.Used
  grind

theorem file_eq_none :
    s.file x = none ↔ ¬ (s.Used x ∧ (s.g_nodes x).type = .FILE) := by simp [State.file, State.Used]

@[simp] theorem length_bytesOf (s : State) (x : NodeIx) :
    (bytesOf s x).length = (s.g_nodes x).size := by
  simp [bytesOf]

theorem getD_bytesOf (s : State) (x : NodeIx) (i : Nat) :
    (bytesOf s x).getD i 0 = contents s x i := by grind [bytesOf, contents]

variable {s' : State}

/-- Nodes that agree on the flags, the size and the contents are the same file. -/
theorem file_congr (hu : (s'.g_nodes x).used = (s.g_nodes x).used)
    (ht : (s'.g_nodes x).type = (s.g_nodes x).type) (hz : (s'.g_nodes x).size = (s.g_nodes x).size)
    (hc : s.Used x → contents s' x = contents s x) : s'.file x = s.file x := by
  unfold State.file
  rw [hu, ht]
  split
  · next h => rw [bytesOf, bytesOf, hz, hc h.1]
  · rfl

/-- Contents only depend on a slot when the file has bytes. -/
theorem contents_congr (hz : (s'.g_nodes x).size = (s.g_nodes x).size)
    (hd : (s'.g_nodes x).data_slot = (s.g_nodes x).data_slot)
    (hs : 0 < (s.g_nodes x).size → (s'.g_data_slots (s.g_nodes x).data_slot).data =
      (s.g_data_slots (s.g_nodes x).data_slot).data) : contents s' x = contents s x := by
  grind [contents]

/-! ## What the changes of a state do to the files -/

section

variable {s s' : State}

theorem SameUsed.file (h : SameUsed s s') : s'.file = s.file := by
  funext x
  by_cases hx : s.Used x
  · have hn := h.node x hx
    exact file_congr (by rw [hn]) (by rw [hn]) (by rw [hn])
      fun _ => contents_congr (by rw [hn]) (by rw [hn]) fun _ => by rw [h.slots]
  · rw [file_eq_none.mpr fun hc => hx hc.1, file_eq_none.mpr fun hc => hx ((h.used x).mp hc.1)]

/-- A created node is an empty file or no file; the others are untouched. -/
theorem Created.file {d c : NodeIx} {name : List UInt8} {type : NodeType}
    (h : Created s s' d c name type) :
    s'.file = update s.file c (if type = .FILE then some [] else none) := by
  funext x
  by_cases hx : x = c
  · subst hx
    rw [update_self, State.file, bytesOf, h.node]
    simp only [true_and, FsNode.zero, range_zero, map_nil]
  rw [update_of_ne hx]
  obtain ⟨hu, ht, -, -, hd, hz⟩ := h.old hx
  exact file_congr hu ht hz fun _ => contents_congr hz hd fun _ => by rw [h.slots]

/-- One file less. -/
theorem Removed.file {d : NodeIx} {i : Nat} (h : Removed s s' d x i) (hinv : DataInv s) :
    s'.file = update s.file x none := by
  funext n
  by_cases hn : n = x
  · subst hn
    rw [update_self, State.file, h.node]
    rfl
  rw [update_of_ne hn]
  obtain ⟨hu, ht, -, -, hd, hz⟩ := h.old hn
  refine file_congr hu ht hz fun hused => contents_congr hz hd fun hpos => ?_
  have hlt := hinv.size_pos n hused hpos
  -- the slot freed is not the one of `n`
  rw [h.slots _ hlt, if_neg]
  intro heq
  refine hn (hinv.owner_unique n x _ hlt ⟨hused, ?_, rfl⟩ ⟨h.used, ?_, heq.symm⟩)
  · rcases hinv.slot n hused with hno | ⟨-, hfile⟩
    · exact absurd (hno ▸ hlt) no_slot_not_lt
    · exact hfile
  · rcases hinv.slot x h.used with hno | ⟨-, hfile⟩
    · rw [heq, hno] at hlt
      exact absurd hlt no_slot_not_lt
    · exact hfile

/-- A change to the file `x` leaves every other file as it was. -/
theorem FileChanged.file_other {slot size : Nat} (h : FileChanged s s' x slot size)
    (hinv : DataInv s) {n : NodeIx} (hn : n ≠ x) :
    s'.file n = s.file n := by
  have hnode := h.other n hn
  refine file_congr (by rw [hnode]) (by rw [hnode]) (by rw [hnode])
    fun hused => contents_congr (by rw [hnode]) (by rw [hnode]) fun hpos => ?_
  have hlt := hinv.size_pos n hused hpos
  have howns : s.Owns n (s.g_nodes n).data_slot := by
    rcases hinv.slot n hused with hno | ⟨-, hfile⟩
    · exact absurd (hno ▸ hlt) no_slot_not_lt
    · exact ⟨hused, hfile, rfl⟩
  have hold : (s.g_nodes n).data_slot ≠ (s.g_nodes x).data_slot := fun heq =>
    hn (hinv.owner_unique n x _ hlt howns ⟨h.used, h.file, heq.symm⟩)
  have hnew : (s.g_nodes n).data_slot ≠ slot := by
    rintro rfl
    have hu := (hinv.slot_used _ hlt).mpr ⟨n, howns⟩
    rw [h.free hlt hold] at hu
    cases hu
  rw [h.miss _ hlt hnew, if_neg hold]

/-- The changed file reads as its new bytes. -/
theorem FileChanged.file_self {slot size : Nat} (h : FileChanged s s' x slot size) :
    s'.file x = some (bytesOf s' x) := by
  refine file_eq_some.mpr ⟨?_, ?_, rfl⟩
  · unfold State.Used
    rw [h.node]
    exact h.used
  · rw [h.node]
    exact h.file

end

/-! ## The driver calls -/

theorem fs_node_from_id_id (hx : s.Used x) :
    fs_node_from_id s (fs_node_id x) = some x := by
  unfold fs_node_from_id fs_node_id
  rw [if_neg (Nat.succ_ne_zero _), dif_pos (by simp)]
  have heq : (⟨x.val + 1 - 1, by simp⟩ : NodeIx) = x := Fin.ext (by simp)
  rw [heq, if_neg (by rw [show (s.g_nodes x).used = true from hx]; decide)]

variable {data : List UInt8}

section Calls

variable {s : State} {x : NodeIx} {b : List UInt8}

/-- A read returns the slice at the offset. -/
theorem ramfs_core_read_files (hinv : Inv s) (hb : s.file x = some b) (offset cap : Nat) :
    ramfs_core_read s (fs_node_id x) offset cap = .ok (readAt b offset cap) := by
  obtain ⟨hx, hfile, rfl⟩ := file_eq_some.mp hb
  unfold ramfs_core_read
  rw [fs_node_from_id_id hx]
  dsimp only
  rw [if_neg (by simp [hfile])]
  split
  · next hend => rw [readAt_of_length_le (by simpa using hend)]
  rcases ramfs_node_data_spec hinv.data hx with ⟨-, -, -, hsome⟩ | ⟨-, hzero, -, -⟩
  · rw [hsome]
    refine congrArg Except.ok (ext_getD (z := 0) ?_ fun i hi => ?_)
    · rw [length_readAt, length_bytesOf, length_map, length_range]
      exact Nat.min_comm _ _
    · rw [length_map, length_range] at hi
      rw [getD_readAt _ (by omega), getD_bytesOf, getD_eq_getElem?_getD, getElem?_map,
        getElem?_range hi]
      rfl
  · omega

theorem ramfs_core_size_files (hb : s.file x = some b) :
    ramfs_core_size s (fs_node_id x) = .ok b.length := by
  obtain ⟨hx, hfile, rfl⟩ := file_eq_some.mp hb
  grind [ramfs_core_size, fs_node_from_id_id, length_bytesOf]

theorem ramfs_core_close_files (hb : s.file x = some b) :
    ramfs_core_close s (fs_node_id x) = .ok () := by
  unfold ramfs_core_close
  rw [fs_node_from_id_id (file_eq_some.mp hb).1]

theorem length_file_le (hinv : Inv s) (hb : s.file x = some b) :
    b.length ≤ RAMFS_DATA_SLOT_SIZE := by
  obtain ⟨hx, -, rfl⟩ := file_eq_some.mp hb
  rw [length_bytesOf]
  exact hinv.data.size_le x hx

/-- A write that takes effect replaces the bytes it covers. -/
theorem Wrote.file {offset : Nat} (hinv : Inv s) (hb : s.file x = some b)
    (h : Wrote s s' (fs_node_id x) offset data data.length) :
    s'.file = update s.file x (some (writeAt 0 b offset data)) := by
  obtain ⟨hx, hfile, rfl⟩ := file_eq_some.mp hb
  obtain ⟨y, hy, k, hk, hch, hdata⟩ := h.node
  rw [fs_node_from_id_id hx] at hy
  cases hy
  funext n
  by_cases hn : n = x
  · subst hn
    rw [update_self, hch.file_self]
    refine congrArg some (ext_getD (z := 0) ?_ fun i hi => ?_)
    · simp [length_bytesOf, length_writeAt, hch.node]
    · rw [getD_bytesOf, getD_writeAt, getD_bytesOf, contents, if_pos (by simpa using hi), hch.node]
      rw [hdata, overlay]
  · rw [update_of_ne hn, hch.file_other hinv.data hn]

/-- All data slots are taken. -/
def SlotsFull (s : State) : Prop := ∀ k < RAMFS_DATA_SLOT_CAP, (s.g_data_slots k).used = true

instance (s : State) : Decidable (SlotsFull s) := inferInstanceAs (Decidable (∀ _ < _, _))

/-- The file has no slot, and there is none for it. -/
def Starved (s : State) (x : NodeIx) : Prop :=
  (s.g_nodes x).data_slot = RAMFS_NO_DATA_SLOT ∧ SlotsFull s

/-- There is no slot exactly if all are taken. -/
theorem ramfs_alloc_data_slot_none_iff : ramfs_alloc_data_slot s = none ↔ SlotsFull s := by
  unfold ramfs_alloc_data_slot
  cases hfind : (range RAMFS_DATA_SLOT_CAP).find? fun i => (s.g_data_slots i).used = false with
  | none =>
    refine iff_of_true rfl fun k hk => ?_
    simpa using find?_eq_none.mp hfind k (mem_range.mpr hk)
  | some i =>
    refine iff_of_false (fun h => nomatch h) fun hall => ?_
    have hfree := find?_some hfind
    rw [hall i (mem_range.mp (mem_of_find?_eq_some hfind))] at hfree
    simp at hfree

/-- Within the capacity a write fails exactly if the file is starved. -/
theorem ramfs_core_write_within (hinv : Inv s) (hx : s.Used x) (hfile : (s.g_nodes x).type = .FILE)
    {offset : Nat} (hne : data ≠ []) (hfit : offset + data.length ≤ RAMFS_DATA_SLOT_SIZE) :
    (Starved s x ∧
      ramfs_core_write s (fs_node_id x) offset (some data) data.length = (.error .NO_SPACE, s)) ∨
    (¬ Starved s x ∧
      (ramfs_core_write s (fs_node_id x) offset (some data) data.length).1 = .ok data.length) := by
  have hpos := length_pos_of_ne_nil hne
  unfold ramfs_core_write
  rw [fs_node_from_id_id hx]
  dsimp only
  rw [if_neg (by simp), if_neg (by simp [hfile]), if_neg (by omega), if_neg (by omega)]
  unfold ramfs_ensure_data_slot
  rw [if_neg (by simp [hfile])]
  obtain ⟨hslot, -, -, hsome⟩ | ⟨hslot, -, -, hnone⟩ := ramfs_node_data_spec hinv.data hx
  · right
    refine ⟨fun h => no_slot_not_lt (h.1 ▸ hslot), ?_⟩
    simp only [hsome, Option.isSome_some, if_true]
  simp only [hnone, Option.isSome_none, Bool.false_eq_true, if_false]
  cases halloc : ramfs_alloc_data_slot s with
  | none => exact .inl ⟨⟨hslot, ramfs_alloc_data_slot_none_iff.mp halloc⟩, rfl⟩
  | some p =>
    right
    obtain ⟨k, s1⟩ := p
    obtain ⟨hk, hfree, rfl⟩ := ramfs_alloc_data_slot_some halloc
    have hfed : ¬ Starved s x := by
      intro h
      rw [h.2 k hk] at hfree
      cases hfree
    refine ⟨hfed, ?_⟩
    have hdata : (ramfs_node_data ((s.setSlot k { DataSlot.zero with used := true }).setNode
        x { s.g_nodes x with data_slot := k }) x).isSome = true := by
      simp_all [setNode_self, setNode_slots, State.setSlot, ramfs_node_data]
    obtain ⟨data', hdata'⟩ := Option.isSome_iff_exists.mp hdata
    have hfresh : (s.setSlot k { DataSlot.zero with used := true }).g_nodes x =
        s.g_nodes x := rfl
    simp only [hfresh, hdata']

/-- A write past the capacity fails; one within it replaces the bytes it covers, or
fails because the file is empty and there is no slot for it. A failed write changes
nothing. -/
theorem ramfs_core_write_files (hinv : Inv s) (hb : s.file x = some b) (offset : Nat)
    (hne : data ≠ []) :
    (RAMFS_DATA_SLOT_SIZE < offset + data.length ∧
      ramfs_core_write s (fs_node_id x) offset (some data) data.length = (.error .NO_SPACE, s)) ∨
    (offset + data.length ≤ RAMFS_DATA_SLOT_SIZE ∧ b = [] ∧
      ramfs_core_write s (fs_node_id x) offset (some data) data.length = (.error .NO_SPACE, s)) ∨
    (offset + data.length ≤ RAMFS_DATA_SLOT_SIZE ∧
      (ramfs_core_write s (fs_node_id x) offset (some data) data.length).1 = .ok data.length ∧
      (ramfs_core_write s (fs_node_id x) offset (some data) data.length).2.file =
        update s.file x (some (writeAt 0 b offset data))) := by
  obtain ⟨hx, hfile, hbytes⟩ := file_eq_some.mp hb
  have hpos := length_pos_of_ne_nil hne
  by_cases hbig : RAMFS_DATA_SLOT_SIZE < offset + data.length
  · refine .inl ⟨hbig, ?_⟩
    grind [ramfs_core_write, fs_node_from_id_id]
  have hfit : offset + data.length ≤ RAMFS_DATA_SLOT_SIZE := by omega
  obtain ⟨hstarved, herr⟩ | ⟨-, hok⟩ := ramfs_core_write_within hinv hx hfile hne hfit
  · -- without a slot the file has no bytes
    have hempty : b = [] := by
      rw [hbytes]
      apply eq_nil_of_length_eq_zero
      rw [length_bytesOf]
      by_contra hsize
      exact no_slot_not_lt (hstarved.1 ▸ hinv.data.size_pos x hx (by omega))
    exact .inr (.inl ⟨hfit, hempty, herr⟩)
  · obtain ⟨rc, herr⟩ | ⟨hzero, -, -⟩ | ⟨-, -, -, hw⟩ :=
      ramfs_core_write_spec hinv (fs_node_id x) offset (some data) data.length
    · rw [herr] at hok
      cases hok
    · omega
    · exact .inr (.inr ⟨hfit, hok, hw.file hinv hb⟩)

end Calls

section

variable {s : State} (hinv : Inv s) (path : Option CString)

include hinv path

/-- What an open does to the files: it may create one, empty, and with `FS_O_TRUNC` it
empties the one it opens. An open that fails may still have created. -/
theorem ramfs_core_open_files (flags : Nat) :
    ∃ f : NodeIx → Option (List UInt8),
      (f = s.file ∨ (flags &&& FS_O_CREAT ≠ 0 ∧ ∃ c, ¬ s.Used c ∧
        f = update s.file c (some []))) ∧
      ((∃ rc, (ramfs_core_open s path flags).1 = .error rc ∧
          (ramfs_core_open s path flags).2.file = f) ∨
       (∃ x, (ramfs_core_open s path flags).1 = .ok (fs_node_id x) ∧ (f x).isSome ∧
          (ramfs_core_open s path flags).2.file =
            if flags &&& FS_O_TRUNC ≠ 0 then update f x (some []) else f)) := by
  -- opening the node itself, from any state
  have hnode : ∀ (s1 : State) (x : NodeIx), Inv s1 → s1.Used x →
      ((∃ rc, (ramfs_open_node s1 x flags).1 = .error rc ∧
          (ramfs_open_node s1 x flags).2.file = s1.file) ∨
       (∃ y, (ramfs_open_node s1 x flags).1 = .ok (fs_node_id y) ∧ (s1.file y).isSome ∧
          (ramfs_open_node s1 x flags).2.file =
            if flags &&& FS_O_TRUNC ≠ 0 then update s1.file y (some []) else s1.file)) := by
    intro s1 x hinv1 hx
    rcases ramfs_open_node_spec hx flags with ⟨rc, h⟩ | ⟨hfile, hok, hcase⟩
    · exact .inl ⟨rc, by rw [h], by rw [h]⟩
    have hsome : (s1.file x).isSome := by
      rw [file_eq_some.mpr ⟨hx, hfile, rfl⟩]
      rfl
    refine .inr ⟨x, hok, hsome, ?_⟩
    rcases hcase with ⟨hno, hsame⟩ | ⟨htr, hch⟩
    · rw [hsame, if_neg (by rw [hno]; simp)]
    rw [if_pos htr]
    funext n
    by_cases hn : n = x
    · subst hn
      rw [update_self, hch.file_self]
      refine congrArg some (eq_nil_of_length_eq_zero ?_)
      rw [length_bytesOf, hch.node]
    · rw [update_of_ne hn, hch.file_other hinv1.data hn]
  rcases ramfs_core_open_spec hinv path flags with
    ⟨rc, hrc, hsame⟩ | ⟨x, hx, heq⟩ | ⟨hcreat, s1, d, c, name, hcr, hinv1, heq⟩
  · exact ⟨s.file, .inl rfl, .inl ⟨rc, hrc, hsame.file⟩⟩
  · refine ⟨s.file, .inl rfl, ?_⟩
    rw [heq]
    exact hnode s x hinv hx
  refine ⟨s1.file, .inr ⟨hcreat, c, hcr.fresh, ?_⟩, ?_⟩
  · rw [hcr.file, if_pos rfl]
  · rw [heq]
    exact hnode s1 c hinv1 ((hcr.used_iff c).mpr (.inr rfl))

/-- `unlink` fails, or takes away the file at the path. -/
theorem ramfs_core_unlink_files :
    (∃ rc, ramfs_core_unlink s path = (.error rc, s)) ∨
    ((ramfs_core_unlink s path).1 = .ok () ∧ ∃ x, (s.file x).isSome ∧
      (∃ p, path = some p ∧ fs_resolve_path s p.bytes = .ok x) ∧
      (ramfs_core_unlink s path).2.file = update s.file x none) := by
  rcases ramfs_core_unlink_spec hinv path with h | ⟨hok, d, x, i, hres, hfile, hrem⟩
  · exact .inl h
  refine .inr ⟨hok, x, ?_, hres, hrem.file hinv.data⟩
  rw [file_eq_some.mpr ⟨hrem.used, hfile, rfl⟩]
  rfl

theorem ramfs_core_rmdir_files :
    (ramfs_core_rmdir s path).2.file = s.file := by
  rcases ramfs_core_rmdir_spec hinv path with ⟨rc, h⟩ | ⟨-, d, x, i, -, hdir, hrem⟩
  · rw [h]
  rw [hrem.file hinv.data]
  grind [update_eq_self_iff, file_eq_none.mpr]

/-- Making a directory changes no file. -/
theorem ramfs_core_make_dir_files :
    (ramfs_core_make_dir s path).2.file = s.file := by
  obtain ⟨rc, -, hsame⟩ | ⟨-, s1, d, c, name, hcr, -, heq⟩ := ramfs_core_make_dir_spec hinv path
  · exact hsame.file
  rw [heq]
  show s1.file = s.file
  rw [hcr.file, if_neg (by decide)]
  refine (update_eq_self_iff).mpr ?_
  exact (file_eq_none.mpr fun hused => hcr.fresh hused.1).symm

end

end System1.Ramfs
