/-
The driver calls of the RAM filesystem keep its invariant.

Each call is read off its definition as one of the changes of `RamfsTree`. The write
is described in full, since the descriptor layer builds on it: it either fails and
leaves the state alone, or does nothing, or overlays the file's bytes and extends its
size. `Call` collects the calls, and the invariant of a whole run is an induction over
the list of calls.
-/
import System1.RamfsTree
import Mathlib.Data.List.Induction

set_option autoImplicit false

namespace System1.Ramfs

open System1.Lib Function List

/-! ## Removals -/

variable {s : State}

section

variable (hinv : Inv s) (path : Option CString)

include hinv path

/-- An unlink fails and changes nothing, or takes a file out. -/
theorem ramfs_core_unlink_spec :
    (∃ rc, ramfs_core_unlink s path = (.error rc, s)) ∨
    ((ramfs_core_unlink s path).1 = .ok () ∧ ∃ d x i,
      (∃ p, path = some p ∧ fs_resolve_path s p.bytes = .ok x) ∧ (s.g_nodes x).type = .FILE ∧
      Removed s (ramfs_core_unlink s path).2 d x i) := by
  unfold ramfs_core_unlink
  cases path with
  | none => exact .inl ⟨_, rfl⟩
  | some path =>
  dsimp only
  split
  · exact .inl ⟨_, rfl⟩
  next x hr =>
  split
  · exact .inl ⟨_, rfl⟩
  next hkind =>
  split
  · exact .inl ⟨_, rfl⟩
  next d hp =>
  split
  · exact .inl ⟨_, rfl⟩
  next hdir =>
  split
  · exact .inl ⟨_, rfl⟩
  next i hidx =>
  have hx := fs_resolve_path_used hinv.tree hr
  have hfile : (s.g_nodes x).type = .FILE :=
    (hinv.tree.kind x hx).resolve_left fun h => hkind (.inr h)
  have hxd : x ≠ d := fun he => hkind (.inr (he ▸ Decidable.not_not.mp hdir))
  have hcwd : x ≠ s.g_cwd := fun he => hkind (.inr (he ▸ hinv.tree.cwd_dir))
  have hrem := removed_of_detach
    (if (s.g_nodes x).data_slot ≠ RAMFS_NO_DATA_SLOT then
        ramfs_free_data_slot (s.setNode d (remove_child (s.g_nodes d) i)) (s.g_nodes x).data_slot
      else s.setNode d (remove_child (s.g_nodes d) i))
    hinv.tree hx (fun he => hkind (.inl he)) hcwd (hinv.tree.file_leaf x hx hfile) hp hidx
    (by split <;> simp) (by split <;> simp) (by split <;> simp) ?_
  · grind [setNode_ne]
  · intro k hk
    split
    · rw [free_slots _ _ hk]
      rfl
    next hno =>
    rw [if_neg]
    · rfl
    · grind [RAMFS_DATA_SLOT_CAP, RAMFS_NO_DATA_SLOT]

theorem ramfs_core_unlink_inv :
    Inv (ramfs_core_unlink s path).2 := by
  rcases ramfs_core_unlink_spec hinv path with ⟨rc, h⟩ | ⟨-, d, x, i, -, -, hrem⟩
  · rw [h]
    exact hinv
  · exact ⟨hrem.tree hinv.tree, hrem.data hinv.data⟩

/-- A removal of a directory fails and changes nothing, or takes a directory out. -/
theorem ramfs_core_rmdir_spec :
    (∃ rc, ramfs_core_rmdir s path = (.error rc, s)) ∨
    ((ramfs_core_rmdir s path).1 = .ok () ∧ ∃ d x i,
      (∃ p, path = some p ∧ fs_resolve_path s p.bytes = .ok x) ∧ (s.g_nodes x).type = .DIR ∧
      Removed s (ramfs_core_rmdir s path).2 d x i) := by
  unfold ramfs_core_rmdir
  cases path with
  | none => exact .inl ⟨_, rfl⟩
  | some path =>
  dsimp only
  split
  · exact .inl ⟨_, rfl⟩
  next x hr =>
  split
  · exact .inl ⟨_, rfl⟩
  next hkind =>
  split
  · exact .inl ⟨_, rfl⟩
  next hleaf =>
  split
  · exact .inl ⟨_, rfl⟩
  next d hp =>
  split
  · exact .inl ⟨_, rfl⟩
  next i hidx =>
  have hx := fs_resolve_path_used hinv.tree hr
  have hdir : (s.g_nodes x).type = .DIR :=
    Decidable.not_not.mp fun h => hkind (.inr (.inr h))
  have hrem := removed_of_detach (s.setNode d (remove_child (s.g_nodes d) i)) hinv.tree hx
    (fun he => hkind (.inl he)) (fun he => hkind (.inr (.inl he))) (Decidable.not_not.mp hleaf)
    hp hidx rfl rfl rfl ?_
  · exact .inr ⟨rfl, d, x, i, ⟨path, rfl, hr⟩, hdir, hrem⟩
  · -- a directory owns no slot
    intro k hk
    rcases hinv.data.slot x hx with hno | ⟨-, hfile⟩
    · rw [if_neg]
      · rfl
      · grind [RAMFS_DATA_SLOT_CAP, RAMFS_NO_DATA_SLOT]
    · rw [hdir] at hfile
      cases hfile

theorem ramfs_core_rmdir_inv :
    Inv (ramfs_core_rmdir s path).2 := by
  rcases ramfs_core_rmdir_spec hinv path with ⟨rc, h⟩ | ⟨-, d, x, i, -, -, hrem⟩
  · rw [h]
    exact hinv
  · exact ⟨hrem.tree hinv.tree, hrem.data hinv.data⟩

end

/-! ## Opening -/

variable {x : NodeIx}

/-- Truncation is a file change to no slot and no bytes. -/
theorem truncate_changed (hx : s.Used x) (hfile : (s.g_nodes x).type = .FILE) {s1 : State}
    (hs1 : s1 = if (s.g_nodes x).data_slot ≠ RAMFS_NO_DATA_SLOT then
        let s := ramfs_free_data_slot s (s.g_nodes x).data_slot
        s.setNode x { s.g_nodes x with data_slot := RAMFS_NO_DATA_SLOT }
      else s) :
    FileChanged s { s1.setNode x { s1.g_nodes x with size := 0 } with g_dirty := true } x
      RAMFS_NO_DATA_SLOT 0 := by
  -- both branches leave the same nodes and, below the cap, the same slots
  have hnode : s1.g_nodes x = { s.g_nodes x with data_slot := RAMFS_NO_DATA_SLOT } := by
    subst hs1
    split
    · simp
    · next hno => rw [← Decidable.not_not.mp hno]
  have hother : ∀ n, n ≠ x → s1.g_nodes n = s.g_nodes n := by
    intro n hn
    subst hs1
    split
    · simp [setNode_ne hn]
    · rfl
  have hslots : ∀ k < RAMFS_DATA_SLOT_CAP, s1.g_data_slots k =
      if k = (s.g_nodes x).data_slot then DataSlot.zero else s.g_data_slots k := by
    intro k hk
    subst hs1
    split
    · exact free_slots s _ hk
    next hno =>
    rw [if_neg]
    rintro rfl
    exact no_slot_not_lt (Decidable.not_not.mp hno ▸ hk)
  exact
    { used := hx
      file := hfile
      other := fun n hn => by
        show (s1.setNode x _).g_nodes n = _
        rw [setNode_ne hn, hother n hn]
      node := by simp_all
      fits := .inl ⟨rfl, rfl⟩
      free := fun hlt => absurd hlt no_slot_not_lt
      hit := fun hlt => absurd hlt no_slot_not_lt
      miss := fun k hk _ => hslots k hk
      root := by
        show s1.g_root = s.g_root
        subst hs1
        split <;> simp
      cwd := by
        show s1.g_cwd = s.g_cwd
        subst hs1
        split <;> simp }

/-- Opening a node fails, or returns its identifier with the state as it was, or
truncates the file first. -/
theorem ramfs_open_node_spec (hx : s.Used x) (flags : Nat) :
    (∃ rc, ramfs_open_node s x flags = (.error rc, s)) ∨
    ((s.g_nodes x).type = .FILE ∧ (ramfs_open_node s x flags).1 = .ok (fs_node_id x) ∧
      ((flags &&& FS_O_TRUNC = 0 ∧ (ramfs_open_node s x flags).2 = s) ∨
       (flags &&& FS_O_TRUNC ≠ 0 ∧
        FileChanged s (ramfs_open_node s x flags).2 x RAMFS_NO_DATA_SLOT 0))) := by
  unfold ramfs_open_node
  split
  · exact .inl ⟨_, rfl⟩
  next hfile =>
  have hfile' := Decidable.not_not.mp hfile
  split
  · next htrunc => grind [truncate_changed]
  · next htrunc => exact .inr ⟨hfile', rfl, .inl ⟨Decidable.not_not.mp htrunc, rfl⟩⟩

/-- Opening a node may empty its file. -/
theorem ramfs_open_node_inv (hinv : Inv s) (hx : s.Used x) (flags : Nat) :
    Inv (ramfs_open_node s x flags).2 := by
  rcases ramfs_open_node_spec hx flags with ⟨rc, h⟩ | ⟨-, -, ⟨-, h⟩ | ⟨-, h⟩⟩
  · rw [h]
    exact hinv
  · rw [h]
    exact hinv
  · exact h.inv hinv

/-- The dirty flag is not part of the invariant. -/
theorem Inv.dirty (hinv : Inv s) (b : Bool) : Inv { s with g_dirty := b } :=
  hinv.of_sameUsed ⟨fun _ => Iff.rfl, fun _ _ => rfl, rfl, rfl, rfl⟩

/-- An open fails and changes no used node, or opens a node that is there, or creates a
file and opens that. -/
theorem ramfs_core_open_spec (hinv : Inv s) (path : Option CString) (flags : Nat) :
    (∃ rc, (ramfs_core_open s path flags).1 = .error rc ∧
      SameUsed s (ramfs_core_open s path flags).2) ∨
    (∃ x, s.Used x ∧ ramfs_core_open s path flags = ramfs_open_node s x flags) ∨
    (flags &&& FS_O_CREAT ≠ 0 ∧ ∃ s1 d c name, Created s s1 d c name .FILE ∧ Inv s1 ∧
      ramfs_core_open s path flags = ramfs_open_node s1 c flags) := by
  unfold ramfs_core_open
  cases path with
  | none => exact .inl ⟨_, rfl, .refl s⟩
  | some path =>
  dsimp only
  split
  · next x hr => exact .inr (.inl ⟨x, fs_resolve_path_used hinv.tree hr, rfl⟩)
  next rc _ =>
  split
  · next hcreat =>
    cases hp : fs_resolve_parent s path.bytes with
    | error rc => exact .inl ⟨_, rfl, .refl s⟩
    | ok p =>
    obtain ⟨d, name⟩ := p
    obtain ⟨hd, -, hname⟩ := fs_resolve_parent_spec hinv.tree hp
    have hinv' := fs_create_node_inv hinv hd hname (.inr rfl)
    dsimp only
    rcases fs_create_node_spec hd name .FILE with ⟨rc, hrc, hsame⟩ | ⟨c, hc, -, hcr⟩
    · grind
    cases hcreate : fs_create_node s d name .FILE with
    | mk res s' =>
    rw [hcreate] at hc hcr hinv'
    cases hc
    exact .inr (.inr ⟨hcreat.2, { s' with g_dirty := true }, d, c, name,
      ⟨hcr.fresh, hcr.dir_used, hcr.dir, hcr.room, hcr.other, hcr.node, hcr.dir_node, hcr.slots,
        hcr.root, hcr.cwd⟩, hinv'.dirty true, rfl⟩)
  · exact .inl ⟨_, rfl, .refl s⟩

/-- `open` keeps the invariant, -/
theorem ramfs_core_open_inv (hinv : Inv s) (path : Option CString) (flags : Nat) :
    Inv (ramfs_core_open s path flags).2 := by
  rcases ramfs_core_open_spec hinv path flags with
    ⟨-, -, hsame⟩ | ⟨x, hx, heq⟩ | ⟨-, s1, d, c, name, hcr, hinv1, heq⟩
  · exact hinv.of_sameUsed hsame
  · rw [heq]
    exact ramfs_open_node_inv hinv hx flags
  · rw [heq]
    exact ramfs_open_node_inv hinv1 ((hcr.used_iff c).mpr (.inr rfl)) flags

/-! ## Writing -/

/-- The bytes of a file, as a function that is zero beyond the size. -/
def contents (s : State) (x : NodeIx) (i : Nat) : UInt8 :=
  if i < (s.g_nodes x).size then (s.g_data_slots (s.g_nodes x).data_slot).data i else 0

/-- A number stands for one node in use. -/
theorem fs_node_from_id_some {node_id : Nat} (h : fs_node_from_id s node_id = some x) :
    s.Used x ∧ node_id = fs_node_id x := by
  unfold fs_node_from_id at h
  split at h
  · cases h
  split at h
  · split at h
    · cases h
    next hu =>
    cases h
    refine ⟨Bool.of_not_eq_false hu, ?_⟩
    show node_id = node_id - 1 + 1
    omega
  · cases h

/-- The data pointer of a used node is there exactly when it has a slot, and then it
points at the file's bytes. -/
theorem ramfs_node_data_spec (hinv : DataInv s) (hx : s.Used x) :
    ((s.g_nodes x).data_slot < RAMFS_DATA_SLOT_CAP ∧
      (s.g_data_slots (s.g_nodes x).data_slot).used = true ∧
      (s.g_data_slots (s.g_nodes x).data_slot).data = contents s x ∧
      ramfs_node_data s x = some (contents s x)) ∨
    ((s.g_nodes x).data_slot = RAMFS_NO_DATA_SLOT ∧ (s.g_nodes x).size = 0 ∧
      (contents s x = fun _ => 0) ∧ ramfs_node_data s x = none) := by
  unfold ramfs_node_data
  rcases hinv.slot x hx with hno | ⟨hlt, hfile⟩
  · have hsize : (s.g_nodes x).size = 0 := by
      by_contra hpos
      exact no_slot_not_lt (hno ▸ hinv.size_pos x hx (Nat.pos_of_ne_zero hpos))
    refine .inr ⟨hno, hsize, ?_, ?_⟩
    · funext i
      rw [contents, hsize, if_neg (Nat.not_lt_zero i)]
    · rw [if_pos (.inl (hno ▸ Nat.le_of_not_lt no_slot_not_lt))]
  have howns : s.Owns x (s.g_nodes x).data_slot := ⟨hx, hfile, rfl⟩
  have hu := (hinv.slot_used _ hlt).mpr ⟨x, howns⟩
  have hdata : (s.g_data_slots (s.g_nodes x).data_slot).data = contents s x := by
    funext i
    unfold contents
    split
    · rfl
    · next hi => exact hinv.zero_tail x _ howns hlt i (Nat.le_of_not_lt hi)
  grind

theorem ramfs_alloc_data_slot_some {s' : State} {k : Nat}
    (h : ramfs_alloc_data_slot s = some (k, s')) :
    k < RAMFS_DATA_SLOT_CAP ∧ (s.g_data_slots k).used = false ∧
      s' = s.setSlot k { DataSlot.zero with used := true } := by
  unfold ramfs_alloc_data_slot at h
  grind

/-- What storing into an owned slot amounts to. `s1` is the state once the file has the
slot `k`; its bytes are still those it had in `s`. -/
theorem store_changed (s1 : State) (hinv : DataInv s) {k : Nat} (hx : s.Used x)
    (hfile : (s.g_nodes x).type = .FILE) (hk : k < RAMFS_DATA_SLOT_CAP)
    (hnode : s1.g_nodes x = { s.g_nodes x with data_slot := k })
    (hother : ∀ n, n ≠ x → s1.g_nodes n = s.g_nodes n) (hused : (s1.g_data_slots k).used = true)
    (hfree : k ≠ (s.g_nodes x).data_slot → (s.g_data_slots k).used = false ∧
      (s.g_nodes x).data_slot = RAMFS_NO_DATA_SLOT)
    (hslots : ∀ j, j ≠ k → s1.g_data_slots j = s.g_data_slots j) (hroot : s1.g_root = s.g_root)
    (hcwd : s1.g_cwd = s.g_cwd) {offset size : Nat} (hfit : offset + size ≤ RAMFS_DATA_SLOT_SIZE)
    (bytes : Nat → UInt8) {s2 s3 : State} (hs2 : s2 = s1.setSlot k { s1.g_data_slots k with
      data := overlay (contents s x) offset size bytes })
    (hs3 : s3 = if offset + size > (s2.g_nodes x).size then
        s2.setNode x { s2.g_nodes x with size := offset + size }
      else s2) :
    FileChanged s { s3 with g_dirty := true } x k (max (s.g_nodes x).size (offset + size)) ∧
      (s3.g_data_slots k).data = overlay (contents s x) offset size bytes := by
  have hsz := hinv.size_le x hx
  have hnode2 : s2.g_nodes x = { s.g_nodes x with data_slot := k } := by rw [hs2]; exact hnode
  -- the size update leaves the slots and the other nodes alone
  have hslots3 : s3.g_data_slots = s2.g_data_slots := by
    rw [hs3]
    split <;> rfl
  have hhit : s3.g_data_slots k = { s1.g_data_slots k with
      data := overlay (contents s x) offset size bytes } := by
    rw [hslots3, hs2]
    exact update_self ..
  refine ⟨?_, by rw [hhit]⟩
  refine
    { used := hx
      file := hfile
      other := fun n hn => ?_
      node := ?_
      fits := .inr ⟨hk, Nat.max_le.mpr ⟨hsz, hfit⟩⟩
      free := fun _ hne => (hfree hne).1
      hit := fun _ => ?_
      miss := fun j hj hjk => ?_
      root := ?_
      cwd := ?_ }
  · have h2 : s2.g_nodes n = s.g_nodes n := by rw [hs2]; exact hother n hn
    show s3.g_nodes n = s.g_nodes n
    rw [hs3]
    split
    · rw [setNode_ne hn, h2]
    · exact h2
  · grind [setNode_self]
  · show (s3.g_data_slots k).used = true ∧ ∀ i, _ → (s3.g_data_slots k).data i = 0
    rw [hhit]
    grind [contents, overlay_miss]
  · show s3.g_data_slots j = _
    rw [hslots3, hs2, if_neg]
    · exact (update_of_ne hjk ..).trans (hslots j hjk)
    · -- the old slot is `k` itself, or there was none
      rintro rfl
      exact no_slot_not_lt ((hfree hjk.symm).2 ▸ hj)
  · rw [hs3]
    split <;> exact hs2 ▸ hroot
  · rw [hs3]
    split <;> exact hs2 ▸ hcwd

/-- A write that takes effect: it overlays the bytes at the offset and extends the
file. -/
structure Wrote (s s' : State) (node_id offset : Nat) (bytes : List UInt8) (size : Nat) : Prop where
  node : ∃ x, fs_node_from_id s node_id = some x ∧ ∃ k < RAMFS_DATA_SLOT_CAP,
    FileChanged s s' x k (max (s.g_nodes x).size (offset + size)) ∧
    (s'.g_data_slots k).data = overlay (contents s x) offset size (fun i => bytes.getD i 0)

/-- A write fails and changes nothing, is empty and changes nothing, or takes effect. -/
theorem ramfs_core_write_spec (hinv : Inv s) (node_id offset : Nat) (buffer : Option (List UInt8))
    (size : Nat) :
    (∃ rc, ramfs_core_write s node_id offset buffer size = (.error rc, s)) ∨
    (size = 0 ∧ (fs_node_from_id s node_id).isSome ∧
      ramfs_core_write s node_id offset buffer size = (.ok 0, s)) ∨
    (0 < size ∧ (ramfs_core_write s node_id offset buffer size).1 = .ok size ∧
      offset + size ≤ RAMFS_DATA_SLOT_SIZE ∧
      Wrote s (ramfs_core_write s node_id offset buffer size).2 node_id offset (buffer.getD [])
        size) := by
  unfold ramfs_core_write
  cases hid : fs_node_from_id s node_id with
  | none => exact .inl ⟨_, rfl⟩
  | some x =>
  dsimp only
  split
  · exact .inl ⟨_, rfl⟩
  next =>
  split
  · exact .inl ⟨_, rfl⟩
  next hfile =>
  split
  · exact .inl ⟨_, rfl⟩
  next =>
  split
  · next hzero => exact .inr (.inl ⟨hzero, rfl, rfl⟩)
  next =>
  obtain ⟨hx, -⟩ := fs_node_from_id_some hid
  have hfile' := Decidable.not_not.mp hfile
  unfold ramfs_ensure_data_slot
  rw [if_neg hfile]
  rcases ramfs_node_data_spec hinv.data hx with ⟨hlt, hu, hdata, hsome⟩ | ⟨hno, hsz, hc0, hnone⟩
  · rw [hsome]
    simp only [Option.isSome_some, if_true, hsome]
    refine .inr (.inr ⟨by omega, trivial, by omega, x, hid, (s.g_nodes x).data_slot, hlt, ?_⟩)
    exact store_changed s hinv.data hx hfile' hlt rfl (fun n _ => rfl) hu
      (fun hne => absurd rfl hne) (fun j _ => rfl) rfl rfl (by omega) _ rfl rfl
  rw [hnone]
  simp only [Option.isSome_none, Bool.false_eq_true, if_false]
  cases halloc : ramfs_alloc_data_slot s with
  | none => exact .inl ⟨_, rfl⟩
  | some p =>
  obtain ⟨k, s1⟩ := p
  obtain ⟨hk, hfree, rfl⟩ := ramfs_alloc_data_slot_some halloc
  -- the fresh slot is all zeros, as the file without a slot was
  have hdata : ramfs_node_data ((s.setSlot k { DataSlot.zero with used := true }).setNode x
      { s.g_nodes x with data_slot := k }) x = some (contents s x) := by
    unfold ramfs_node_data
    simp only [setNode_self, setNode_slots, State.setSlot, update_self]
    rw [if_neg (by simp [hk]), hc0]
    rfl
  have hfresh : (s.setSlot k { DataSlot.zero with used := true }).g_nodes x = s.g_nodes x := rfl
  simp only [hfresh, hdata, setNode_self]
  refine .inr (.inr ⟨by omega, trivial, by omega, x, hid, k, hk, ?_⟩)
  exact store_changed ((s.setSlot k { DataSlot.zero with used := true }).setNode x
      { s.g_nodes x with data_slot := k }) hinv.data hx hfile' hk (setNode_self _ _ _)
    (fun n hn => setNode_ne hn)
    (by simp [State.setSlot]) (fun _ => ⟨hfree, hno⟩)
    (fun j hj => update_of_ne hj ..) rfl rfl (by omega) _ rfl rfl

/-- `write` keeps it, -/
theorem ramfs_core_write_inv (hinv : Inv s) (node_id offset : Nat) (buffer : Option (List UInt8))
    (size : Nat) :
    Inv (ramfs_core_write s node_id offset buffer size).2 := by
  rcases ramfs_core_write_spec hinv node_id offset buffer size with
    ⟨rc, h⟩ | ⟨-, -, h⟩ | ⟨-, -, -, ⟨x, -, k, -, hch, -⟩⟩
  · rw [h]
    exact hinv
  · rw [h]
    exact hinv
  · exact hch.inv hinv

/-! ## The remaining calls -/

section

variable (hinv : Inv s) (path : Option CString)

include hinv path

/-- and `cd` does, which moves to a directory in use. -/
theorem ramfs_core_change_dir_inv :
    Inv (ramfs_core_change_dir s path).2 := by
  unfold ramfs_core_change_dir
  cases path with
  | none => exact hinv
  | some path =>
  dsimp only
  split
  · exact hinv
  next x hr =>
  split
  · exact hinv
  next hdir =>
  have hsame : TreeSame s { s with g_cwd := x } :=
    ⟨fun _ => Iff.rfl, fun _ _ => rfl, fun _ _ => rfl, fun _ _ => rfl, fun _ _ => rfl,
      fun _ _ => rfl, rfl⟩
  refine ⟨hinv.tree.of_treeSame hsame (fs_resolve_path_used hinv.tree hr)
    (Decidable.not_not.mp hdir), ?_⟩
  obtain ⟨hslot, howner, hused, hle, hpos, hzero⟩ := hinv.data
  exact ⟨hslot, howner, hused, hle, hpos, hzero⟩

/-- A directory is not made and no used node changes, or a node is made for it. -/
theorem ramfs_core_make_dir_spec :
    (∃ rc, (ramfs_core_make_dir s path).1 = .error rc ∧ SameUsed s (ramfs_core_make_dir s path).2) ∨
    ((ramfs_core_make_dir s path).1 = .ok () ∧ ∃ s1 d c name, Created s s1 d c name .DIR ∧ Inv s1 ∧
      (ramfs_core_make_dir s path).2 = { s1 with g_dirty := true }) := by
  unfold ramfs_core_make_dir
  cases path with
  | none => exact .inl ⟨_, rfl, SameUsed.refl s⟩
  | some path =>
  dsimp only
  cases hp : fs_resolve_parent s path.bytes with
  | error rc => exact .inl ⟨_, rfl, SameUsed.refl s⟩
  | ok p =>
  obtain ⟨d, name⟩ := p
  obtain ⟨hd, -, hname⟩ := fs_resolve_parent_spec hinv.tree hp
  have hinv' := fs_create_node_inv hinv hd hname (.inl rfl : NodeType.DIR = .DIR ∨ _)
  grind [fs_create_node_spec]

theorem ramfs_core_make_dir_inv :
    Inv (ramfs_core_make_dir s path).2 := by
  obtain ⟨rc, -, hsame⟩ | ⟨-, s1, d, c, name, -, hinv1, heq⟩ := ramfs_core_make_dir_spec hinv path
  · exact hinv.of_sameUsed hsame
  · rw [heq]
    exact hinv1.dirty true

/-- An import makes one node like the others. -/
theorem ramfs_core_import_node_inv {type : NodeType} (hkind : type = .DIR ∨ type = .FILE) :
    Inv (ramfs_core_import_node s path type).2 := by
  unfold ramfs_core_import_node
  cases path with
  | none => exact hinv
  | some path =>
  dsimp only
  split
  · exact hinv
  split
  · exact hinv
  cases hp : fs_resolve_parent s path.bytes with
  | error rc => exact hinv
  | ok p =>
  obtain ⟨d, name⟩ := p
  obtain ⟨hd, -, hname⟩ := fs_resolve_parent_spec hinv.tree hp
  have hinv' := fs_create_node_inv hinv hd hname hkind
  grind

end

/-! ## Runs -/

/-- A driver call that can change the state, with its arguments. -/
inductive Call where
  | change_dir (path : Option CString)
  | make_dir (path : Option CString)
  | «open» (path : Option CString) (flags : Nat)
  | write (node_id offset : Nat) (buffer : Option (List UInt8)) (size : Nat)
  | unlink (path : Option CString)
  | rmdir (path : Option CString)
  | import_dir (path : Option CString)
  | import_file (path : Option CString)

/-- The state after a call. -/
def exec (s : State) : Call → State
  | .change_dir path => (ramfs_core_change_dir s path).2
  | .make_dir path => (ramfs_core_make_dir s path).2
  | .open path flags => (ramfs_core_open s path flags).2
  | .write node_id offset buffer size => (ramfs_core_write s node_id offset buffer size).2
  | .unlink path => (ramfs_core_unlink s path).2
  | .rmdir path => (ramfs_core_rmdir s path).2
  | .import_dir path => (ramfs_core_import_dir s path).2
  | .import_file path => (ramfs_core_import_file s path).2

/-- Every call keeps the invariant. -/
theorem exec_inv (hinv : Inv s) (call : Call) : Inv (exec s call) := by
  cases call with
  | change_dir path => exact ramfs_core_change_dir_inv hinv path
  | make_dir path => exact ramfs_core_make_dir_inv hinv path
  | «open» path flags => exact ramfs_core_open_inv hinv path flags
  | write node_id offset buffer size => exact ramfs_core_write_inv hinv node_id offset buffer size
  | unlink path => exact ramfs_core_unlink_inv hinv path
  | rmdir path => exact ramfs_core_rmdir_inv hinv path
  | import_dir path => exact ramfs_core_import_node_inv hinv path (.inl rfl)
  | import_file path => exact ramfs_core_import_node_inv hinv path (.inr rfl)

/-- The empty filesystem: one used node, the root, and no used slot. -/
theorem reset_eq :
    ramfs_core_reset_empty =
      { g_nodes := Function.update (fun _ => FsNode.zero) ⟨0, by decide⟩
          { FsNode.zero with used := true, data_slot := RAMFS_NO_DATA_SLOT, type := .DIR }
        g_data_slots := fun _ => DataSlot.zero
        g_root := ⟨0, by decide⟩, g_cwd := ⟨0, by decide⟩, g_dirty := false } := by
  have hfind : (finRange FS_MAX_NODES).find?
      (fun _ => decide (FsNode.zero.used = false)) = some ⟨0, by decide⟩ := by decide
  unfold ramfs_core_reset_empty fs_alloc_node
  dsimp only
  rw [hfind]
  simp only [State.setNode, update_self, update_idem]
  rfl

/-- The empty filesystem satisfies it. -/
theorem reset_inv : Inv ramfs_core_reset_empty := by
  have hspec : ∃ s, s = ramfs_core_reset_empty ∧ s.g_cwd = s.g_root ∧
      s.g_nodes s.g_root =
        { FsNode.zero with used := true, data_slot := RAMFS_NO_DATA_SLOT, type := .DIR } ∧
      (∀ n, n ≠ s.g_root → s.g_nodes n = FsNode.zero) ∧
      ∀ k, s.g_data_slots k = DataSlot.zero := by
    refine ⟨_, reset_eq.symm, rfl, ?_, fun n hn => ?_, fun _ => rfl⟩
    · dsimp only
      rw [update_self]
    · dsimp only at hn ⊢
      rw [update_of_ne hn]
  obtain ⟨s, hs, hcwd, hroot, hother, hslots⟩ := hspec
  rw [← hs]
  have hused : ∀ n, s.Used n → n = s.g_root := by
    intro n hn
    by_contra hne
    rw [State.Used, hother n hne] at hn
    cases hn
  have hru : s.Used s.g_root := by rw [State.Used, hroot]
  -- every statement is about the root alone, and the root is an empty directory
  have hchild : ∀ d i c, s.Used d → ¬ s.ChildAt d i c := by
    intro d i c hd hat
    have hlt := hat.1
    rw [hused d hd, hroot] at hlt
    exact Nat.not_lt_zero i hlt
  have howns : ∀ n k, ¬ s.Owns n k := by
    rintro n k ⟨hn, hfile, -⟩
    rw [hused n hn, hroot] at hfile
    cases hfile
  refine ⟨⟨hru, by rw [hroot], by rw [hroot]; rfl, hcwd ▸ hru, by rw [hcwd, hroot], ?_, ?_, ?_, ?_,
    ?_, ?_, ?_, ?_, ?_⟩, ⟨?_, ?_, ?_, ?_, ?_, ?_⟩⟩
  · intro n hn
    rw [hused n hn, hroot]
    exact .inl rfl
  · intro n hn _
    rw [hused n hn, hroot]
    rfl
  · intro n hn
    rw [hused n hn, hroot]
    exact Nat.zero_le _
  · intro d i hd hi
    rw [hused d hd, hroot] at hi
    exact absurd hi (Nat.not_lt_zero i)
  · intro d i j c hd hi _
    exact absurd hi (hchild d i c hd)
  · intro n hn hne
    exact absurd (hused n hn) hne
  · intro n hn
    rw [hused n hn]
    exact .root
  · intro n hn hne
    exact absurd (hused n hn) hne
  · intro d i j a b hd _ ha _
    exact absurd ha (hchild d i a hd)
  · intro n hn
    rw [hused n hn, hroot]
    exact .inl rfl
  · intro n m k _ hn _
    exact absurd hn (howns n k)
  · intro k _
    rw [hslots k]
    refine ⟨fun hu => (by cases hu), ?_⟩
    rintro ⟨n, hn⟩
    exact absurd hn (howns n k)
  · intro n hn
    rw [hused n hn, hroot]
    exact Nat.zero_le _
  · intro n hn hpos
    rw [hused n hn, hroot] at hpos
    exact absurd hpos (Nat.lt_irrefl 0)
  · intro n k hn
    exact absurd hn (howns n k)

theorem run_inv (calls : List Call) : Inv (calls.foldl exec ramfs_core_reset_empty) := by
  induction calls using reverseRecOn with
  | nil => exact reset_inv
  | append_singleton calls call ih =>
    rw [foldl_append]
    exact exec_inv ih call

/-- The representation invariant holds after every sequence of driver calls on the
empty filesystem. Besides, each used node but the root occurs exactly once in the
children arrays, and every child is found by its own name. -/
theorem representation_invariant (calls : List Call) :
    let s := calls.foldl exec ramfs_core_reset_empty
    Inv s ∧
    (∀ n, s.Used n → n ≠ s.g_root → ∃! p : NodeIx × Nat, s.Used p.1 ∧ s.ChildAt p.1 p.2 n) ∧
    (∀ d i c, s.Used d → s.ChildAt d i c → fs_find_child s d (s.g_nodes c).name = some c) := by
  intro s
  have hinv : Inv s := run_inv calls
  refine ⟨hinv, fun n hn hne => hinv.tree.occurs_once hn hne, fun d i c hd hat => ?_⟩
  have hdir : (s.g_nodes d).type = .DIR := by
    refine (hinv.tree.kind d hd).resolve_right fun hfile => ?_
    have hlt := hat.1
    rw [hinv.tree.file_leaf d hd hfile] at hlt
    exact Nat.not_lt_zero i hlt
  exact hinv.tree.find_child_self hd hdir hat

end System1.Ramfs
