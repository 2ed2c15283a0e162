/-
The representation invariant of the RAM filesystem.

The used nodes form a tree under `g_root`, a data slot belongs to at most one file,
and a file's bytes beyond its size are zero. The invariant is split in two. `TreeInv`
reads the shape and the names, `DataInv` the slots and the sizes; a write touches only
what `DataInv` reads, so it keeps `TreeInv` by `TreeSame` alone.

Every driver call is one of five changes: nothing that a used node can see
(`SameUsed`), a fresh node hung into a directory (`Created`), a childless node taken
out (`Removed`), a file's slot or size, and the current directory. Each change is
described once, as a relation between the states, and each keeps the invariant; the
driver calls then only have to say which change they make.
-/
import System1.Ramfs
import System1.Lib.Search

set_option autoImplicit false

namespace System1.Ramfs

open System1.Lib Function List

section Updates

variable (s : State) (i j : NodeIx) (n : FsNode)

@[simp] theorem setNode_self : (s.setNode i n).g_nodes i = n := update_self ..

variable {s i j n} in
theorem setNode_ne (h : j ≠ i) : (s.setNode i n).g_nodes j = s.g_nodes j :=
  update_of_ne h ..

@[simp] theorem setNode_setNode (m : FsNode) : (s.setNode i m).setNode i n = s.setNode i n := by
  unfold State.setNode
  rw [update_idem]

@[simp] theorem setNode_slots : (s.setNode i n).g_data_slots = s.g_data_slots := rfl

@[simp] theorem setNode_root : (s.setNode i n).g_root = s.g_root := rfl

@[simp] theorem setNode_cwd : (s.setNode i n).g_cwd = s.g_cwd := rfl

end Updates

/-! ## The invariant -/

/-- The node is in use. -/
def State.Used (s : State) (n : NodeIx) : Prop := (s.g_nodes n).used = true

instance (s : State) (n : NodeIx) : Decidable (s.Used n) := inferInstanceAs (Decidable (_ = true))

/-- `c` is child number `i` of the directory `d`. -/
def State.ChildAt (s : State) (d : NodeIx) (i : Nat) (c : NodeIx) : Prop :=
  i < (s.g_nodes d).child_count ∧ (s.g_nodes d).children i = some c

/-- Following parent pointers from the node leads to the root. -/
inductive State.Rooted (s : State) : NodeIx → Prop
  | root : s.Rooted s.g_root
  | child {n d : NodeIx} : (s.g_nodes n).parent = some d → s.Rooted d → s.Rooted n

/-- A name a directory entry may have. -/
structure GoodName (name : List UInt8) : Prop where
  nonempty : name ≠ []
  short : name.length < FS_NAME_CAP
  noslash : 0x2F ∉ name
  nonul : 0 ∉ name
  ne_dot : name ≠ dotName
  ne_dotdot : name ≠ dotdotName

/-- The shape of the tree and its names. -/
structure TreeInv (s : State) : Prop where
  root_used : s.Used s.g_root
  root_dir : (s.g_nodes s.g_root).type = .DIR
  root_parent : (s.g_nodes s.g_root).parent = none
  cwd_used : s.Used s.g_cwd
  cwd_dir : (s.g_nodes s.g_cwd).type = .DIR
  kind : ∀ n, s.Used n → (s.g_nodes n).type = .DIR ∨ (s.g_nodes n).type = .FILE
  file_leaf : ∀ n, s.Used n → (s.g_nodes n).type = .FILE → (s.g_nodes n).child_count = 0
  count_le : ∀ n, s.Used n → (s.g_nodes n).child_count ≤ FS_MAX_CHILDREN
  child : ∀ d i, s.Used d → i < (s.g_nodes d).child_count →
    ∃ c, (s.g_nodes d).children i = some c ∧ s.Used c ∧ (s.g_nodes c).parent = some d
  child_inj : ∀ d i j c, s.Used d → s.ChildAt d i c → s.ChildAt d j c → i = j
  parent : ∀ n, s.Used n → n ≠ s.g_root →
    ∃ d i, (s.g_nodes n).parent = some d ∧ s.Used d ∧ (s.g_nodes d).type = .DIR ∧ s.ChildAt d i n
  rooted : ∀ n, s.Used n → s.Rooted n
  name : ∀ n, s.Used n → n ≠ s.g_root → GoodName (s.g_nodes n).name
  unshadowed : ∀ d i j a b, s.Used d → i < j → s.ChildAt d i a → s.ChildAt d j b →
    fs_name_eq (s.g_nodes a).name (s.g_nodes b).name = false

/-- The node owns the data slot. -/
def State.Owns (s : State) (n : NodeIx) (k : Nat) : Prop :=
  s.Used n ∧ (s.g_nodes n).type = .FILE ∧ (s.g_nodes n).data_slot = k

/-- The data slots and the sizes. -/
structure DataInv (s : State) : Prop where
  slot : ∀ n, s.Used n → (s.g_nodes n).data_slot = RAMFS_NO_DATA_SLOT ∨
    ((s.g_nodes n).data_slot < RAMFS_DATA_SLOT_CAP ∧ (s.g_nodes n).type = .FILE)
  owner_unique : ∀ n m k, k < RAMFS_DATA_SLOT_CAP → s.Owns n k → s.Owns m k → n = m
  slot_used : ∀ k < RAMFS_DATA_SLOT_CAP, (s.g_data_slots k).used = true ↔ ∃ n, s.Owns n k
  size_le : ∀ n, s.Used n → (s.g_nodes n).size ≤ RAMFS_DATA_SLOT_SIZE
  size_pos : ∀ n, s.Used n → 0 < (s.g_nodes n).size →
    (s.g_nodes n).data_slot < RAMFS_DATA_SLOT_CAP
  zero_tail : ∀ n k, s.Owns n k → k < RAMFS_DATA_SLOT_CAP →
    ∀ i, (s.g_nodes n).size ≤ i → (s.g_data_slots k).data i = 0

/-- The representation invariant. -/
structure Inv (s : State) : Prop where
  tree : TreeInv s
  data : DataInv s

variable {n d c : NodeIx} {i : Nat}

section

variable {s : State} (h : TreeInv s)

include h

theorem TreeInv.ne_root_of_parent (hp : (s.g_nodes n).parent = some d) : n ≠ s.g_root := by
  rintro rfl
  rw [h.root_parent] at hp
  cases hp

/-- The parent of a used node is a used directory. -/
theorem TreeInv.parent_used (hn : s.Used n) (hp : (s.g_nodes n).parent = some d) :
    s.Used d ∧ (s.g_nodes d).type = .DIR ∧ ∃ i, s.ChildAt d i n := by
  obtain ⟨d', i, hp', hd', hdir, hat⟩ := h.parent n hn (h.ne_root_of_parent hp)
  rw [hp] at hp'
  cases hp'
  exact ⟨hd', hdir, i, hat⟩

/-- A node that occurs in a children array has that directory as its parent. -/
theorem TreeInv.childAt_parent (hd : s.Used d) (hat : s.ChildAt d i c) :
    s.Used c ∧ (s.g_nodes c).parent = some d := by
  obtain ⟨c', hc', hused, hparent⟩ := h.child d i hd hat.1
  rw [hat.2] at hc'
  cases hc'
  exact ⟨hused, hparent⟩

/-- Each used node but the root occurs exactly once, in its parent. -/
theorem TreeInv.occurs_once (hn : s.Used n) (hroot : n ≠ s.g_root) :
    ∃! p : NodeIx × Nat, s.Used p.1 ∧ s.ChildAt p.1 p.2 n := by
  obtain ⟨d, i, hp, hd, -, hat⟩ := h.parent n hn hroot
  refine ⟨(d, i), ⟨hd, hat⟩, ?_⟩
  rintro ⟨d', j⟩ ⟨hd', hat'⟩
  have hp' := (h.childAt_parent hd' hat').2
  obtain rfl : d = d' := Option.some.inj (hp.symm.trans hp')
  exact congrArg (Prod.mk d) (h.child_inj d j i n hd hat' hat)

end

/-! ## Finding a child -/

theorem fs_name_eq_refl (name : List UInt8) : fs_name_eq name name = true := by
  rw [fs_name_eq, if_pos rfl]

variable {s : State} {name : List UInt8}

/-- A child that is found is a child that answers to the name, and no earlier one
does. -/
theorem fs_find_child_some (h : fs_find_child s d name = some c) :
    (s.g_nodes d).type = .DIR ∧ ∃ i, s.ChildAt d i c ∧
      fs_name_eq (s.g_nodes c).name name = true ∧
      ∀ j < i, ∀ b, s.ChildAt d j b → fs_name_eq (s.g_nodes b).name name = false := by
  unfold fs_find_child at h
  split at h
  · cases h
  next hdir =>
  obtain ⟨i, hi, hf, hbefore⟩ := findSome?_range_eq_some h
  cases hc : (s.g_nodes d).children i with
  | none => rw [hc] at hf; cases hf
  | some c' =>
    rw [hc] at hf
    dsimp only at hf
    split at hf
    · next heq =>
      cases hf
      refine ⟨Decidable.not_not.mp hdir, i, ⟨hi, hc⟩, heq, fun j hj b hb => ?_⟩
      simpa [hb.2] using hbefore j hj
    · cases hf

/-- A name that is not found is shadowed by no child. -/
theorem fs_find_child_none (h : fs_find_child s d name = none) (hdir : (s.g_nodes d).type = .DIR)
    (hat : s.ChildAt d i c) : fs_name_eq (s.g_nodes c).name name = false := by
  unfold fs_find_child at h
  rw [if_neg (by simp [hdir]), findSome?_eq_none_iff] at h
  simpa [hat.2] using h i (mem_range.mpr hat.1)

/-- The first child that answers to a name is found by it. -/
theorem fs_find_child_first (hdir : (s.g_nodes d).type = .DIR) (hat : s.ChildAt d i c)
    (heq : fs_name_eq (s.g_nodes c).name name = true)
    (hbefore : ∀ j < i, ∀ b, s.ChildAt d j b → fs_name_eq (s.g_nodes b).name name = false) :
    fs_find_child s d name = some c := by
  cases hf : fs_find_child s d name with
  | none => grind [fs_find_child_none]
  | some c' =>
    obtain ⟨-, j, hat', heq', hbefore'⟩ := fs_find_child_some hf
    rcases Nat.lt_trichotomy i j with hlt | rfl | hlt
    · rw [hbefore' i hlt c hat] at heq
      cases heq
    · exact hat'.2.symm.trans hat.2
    · rw [hbefore j hlt c' hat'] at heq'
      cases heq'

/-- Every child is found by its own name: no earlier sibling shadows it. -/
theorem TreeInv.find_child_self (h : TreeInv s) (hd : s.Used d) (hdir : (s.g_nodes d).type = .DIR)
    (hat : s.ChildAt d i c) :
    fs_find_child s d (s.g_nodes c).name = some c :=
  fs_find_child_first hdir hat (fs_name_eq_refl _) fun j hj b hb =>
    h.unshadowed d j i b c hd hj hb hat

/-! ## Resolving a path -/

section

variable {s : State} (h : TreeInv s)

include h

/-- Stepping to the parent stays inside the tree. -/
theorem TreeInv.parent_getD_used (hn : s.Used n) :
    s.Used ((s.g_nodes n).parent.getD n) := by
  cases hp : (s.g_nodes n).parent with
  | none => exact hn
  | some d => exact (h.parent_used hn hp).1

theorem TreeInv.parent_getD_dir (hn : s.Used n) (hdir : (s.g_nodes n).type = .DIR) :
    (s.g_nodes ((s.g_nodes n).parent.getD n)).type = .DIR := by
  cases hp : (s.g_nodes n).parent with
  | none => exact hdir
  | some d => exact (h.parent_used hn hp).2.1

theorem TreeInv.find_child_used (hd : s.Used d) (hf : fs_find_child s d name = some c) :
    s.Used c := by
  obtain ⟨-, i, hat, -, -⟩ := fs_find_child_some hf
  exact (h.childAt_parent hd hat).1

/-- A walk from a node in use ends at one. -/
theorem fs_resolve_loop_used (current : NodeIx) (cursor : List UInt8) {node : NodeIx}
    (hc : s.Used current) (hr : fs_resolve_loop s current cursor = .ok node) : s.Used node := by
  fun_induction fs_resolve_loop s current cursor with
  | case1 | case5 | case6 => cases hr
  | case2 current cursor hseg => cases hr; exact hc
  | case3 current cursor rest hseg ih => exact ih hc hr
  | case4 current cursor rest hseg hne ih => exact ih (h.parent_getD_used hc) hr
  | case7 current cursor segment rest hseg hdot hdotdot hdir child hf ih =>
    exact ih (h.find_child_used hc hf) hr

/-- What a path resolves to is in use. -/
theorem fs_resolve_path_used {path : List UInt8} {node : NodeIx}
    (hr : fs_resolve_path s path = .ok node) : s.Used node := by
  have hstart : s.Used (if path.head? = some 0x2F then s.g_root else s.g_cwd) := by
    split
    · exact h.root_used
    · exact h.cwd_used
  grind [fs_resolve_path, fs_resolve_path_from, fs_resolve_loop_used]

end

/-- A copied name is the source, unless the copy failed. -/
theorem fs_name_copy_loop_true (src : List UInt8) : ∀ dst : List UInt8,
    (fs_name_copy_loop dst src).2 = true → (fs_name_copy_loop dst src).1 = dst ++ src := by
  induction src with
  | nil => intro dst _; exact (append_nil dst).symm
  | cons c src ih => grind [fs_name_copy_loop, append_assoc]

theorem fs_name_copy_true {src : List UInt8} (hok : (fs_name_copy src).2 = true) :
    (fs_name_copy src).1 = src := by
  unfold fs_name_copy at hok ⊢
  grind [fs_name_copy_loop_true]

theorem rest_nonul {cursor segment rest : List UInt8}
    (hseg : fs_next_segment cursor = .ok (some (segment, rest))) (hnul : 0 ∉ cursor) : 0 ∉ rest :=
  fun h0 => hnul ((fs_next_segment_some hseg).2.2.2.2.1.subset h0)

/-- The directory a path leads to is a used one, and the last segment is a name that
can be stored. -/
theorem fs_resolve_parent_loop_spec (h : TreeInv s) (current : NodeIx) (cursor : List UInt8)
    {parent : NodeIx} (hc : s.Used current) (hdir : (s.g_nodes current).type = .DIR)
    (hnul : 0 ∉ cursor) (hr : fs_resolve_parent_loop s current cursor = .ok (parent, name)) :
    s.Used parent ∧ (s.g_nodes parent).type = .DIR ∧ GoodName name := by
  fun_induction fs_resolve_parent_loop s current cursor with
  | case1 | case2 | case3 | case4 | case8 | case9 => cases hr
  | case5 current cursor segment rest hseg hlast hdots hcopy =>
    obtain ⟨hne, hlen, hslash, hsub, -, -⟩ := fs_next_segment_some hseg
    cases hr
    rw [fs_name_copy_true (Bool.of_not_eq_false hcopy)]
    exact ⟨hc, hdir, hne, hlen, hslash, fun h0 => hnul (hsub 0 h0),
      fun he => hdots (.inl he), fun he => hdots (.inr he)⟩
  | case6 current cursor rest hlast hseg ih =>
    exact ih hc hdir (rest_nonul hseg hnul) hr
  | case7 current cursor rest hlast hseg hdot ih =>
    exact ih (h.parent_getD_used hc) (h.parent_getD_dir hc hdir) (rest_nonul hseg hnul) hr
  | case10 current cursor segment rest hseg hlast hdot hdotdot child hf htype ih =>
    exact ih (h.find_child_used hc hf) (Decidable.not_not.mp htype) (rest_nonul hseg hnul) hr

/-- The parent of a path is a directory, and the name of the new node a good one. -/
theorem fs_resolve_parent_spec (h : TreeInv s) {path : CString} {parent : NodeIx}
    (hr : fs_resolve_parent s path.bytes = .ok (parent, name)) :
    s.Used parent ∧ (s.g_nodes parent).type = .DIR ∧ GoodName name := by
  unfold fs_resolve_parent at hr
  split at hr
  · exact fs_resolve_parent_loop_spec h _ _ h.root_used h.root_dir path.nonul hr
  · exact fs_resolve_parent_loop_spec h _ _ h.cwd_used h.cwd_dir path.nonul hr

/-! ## Changes the tree does not see -/

/-- The used nodes keep their place, their kind and their name. -/
structure TreeSame (s s' : State) : Prop where
  used : ∀ n, s'.Used n ↔ s.Used n
  type : ∀ n, s.Used n → (s'.g_nodes n).type = (s.g_nodes n).type
  name : ∀ n, s.Used n → (s'.g_nodes n).name = (s.g_nodes n).name
  parent : ∀ n, s.Used n → (s'.g_nodes n).parent = (s.g_nodes n).parent
  children : ∀ n, s.Used n → (s'.g_nodes n).children = (s.g_nodes n).children
  child_count : ∀ n, s.Used n → (s'.g_nodes n).child_count = (s.g_nodes n).child_count
  root : s'.g_root = s.g_root

variable {s' : State}

theorem TreeSame.childAt (h : TreeSame s s') (hd : s.Used d) (i : Nat) (c : NodeIx) :
    s'.ChildAt d i c ↔ s.ChildAt d i c := by
  unfold State.ChildAt
  rw [h.child_count d hd, h.children d hd]

/-- Parent chains of used nodes survive as long as the parents of used nodes do. -/
theorem rooted_of_parents (hinv : TreeInv s) (P : NodeIx → Prop) (hroot : s'.g_root = s.g_root)
    (hstep : ∀ n d, s.Used n → P n → (s.g_nodes n).parent = some d →
      P d ∧ (s'.g_nodes n).parent = some d) (hn : s.Used n) (hP : P n) :
    s'.Rooted n := by
  induction hinv.rooted n hn with
  | root => exact hroot ▸ .root
  | child hp _ ih =>
    obtain ⟨hPd, hp'⟩ := hstep _ _ hn hP hp
    exact .child hp' (ih (hinv.parent_used hn hp).1 hPd)

/-- The invariant is about the tree only: who is whose child, and under which name. -/
theorem TreeInv.of_treeSame (hinv : TreeInv s) (h : TreeSame s s') (hcwd : s.Used s'.g_cwd)
    (hcwd_dir : (s.g_nodes s'.g_cwd).type = .DIR) : TreeInv s' where
  root_used := (h.used _).mpr (h.root ▸ hinv.root_used)
  root_dir := by rw [h.root, h.type _ hinv.root_used]; exact hinv.root_dir
  root_parent := by rw [h.root, h.parent _ hinv.root_used]; exact hinv.root_parent
  cwd_used := (h.used _).mpr hcwd
  cwd_dir := by rw [h.type _ hcwd]; exact hcwd_dir
  kind n hn := by
    rw [h.type n ((h.used n).mp hn)]
    exact hinv.kind n ((h.used n).mp hn)
  file_leaf n hn hfile := by
    have hn' := (h.used n).mp hn
    rw [h.type n hn'] at hfile
    rw [h.child_count n hn']
    exact hinv.file_leaf n hn' hfile
  count_le n hn := by
    rw [h.child_count n ((h.used n).mp hn)]
    exact hinv.count_le n ((h.used n).mp hn)
  child d i hd hi := by
    have hd' := (h.used d).mp hd
    rw [h.child_count d hd'] at hi
    obtain ⟨c, hc, hcu, hcp⟩ := hinv.child d i hd' hi
    refine ⟨c, ?_, (h.used c).mpr hcu, ?_⟩
    · rw [h.children d hd']; exact hc
    · rw [h.parent c hcu]; exact hcp
  child_inj d i j c hd hi hj := by
    have hd' := (h.used d).mp hd
    rw [h.childAt hd'] at hi hj
    exact hinv.child_inj d i j c hd' hi hj
  parent n hn hne := by
    have hn' := (h.used n).mp hn
    obtain ⟨d, i, hp, hd, hdir, hat⟩ := hinv.parent n hn' (h.root ▸ hne)
    refine ⟨d, i, ?_, (h.used d).mpr hd, ?_, (h.childAt hd i n).mpr hat⟩
    · rw [h.parent n hn']; exact hp
    · rw [h.type d hd]; exact hdir
  rooted n hn := rooted_of_parents hinv (fun _ => True) h.root
    (fun m d hm _ hp => ⟨trivial, (h.parent m hm).trans hp⟩) ((h.used n).mp hn) trivial
  name n hn hne := by
    rw [h.name n ((h.used n).mp hn)]
    exact hinv.name n ((h.used n).mp hn) (h.root ▸ hne)
  unshadowed d i j a b hd hij ha hb := by
    have hd' := (h.used d).mp hd
    rw [h.childAt hd'] at ha hb
    rw [h.name a (hinv.childAt_parent hd' ha).1, h.name b (hinv.childAt_parent hd' hb).1]
    exact hinv.unshadowed d i j a b hd' hij ha hb

/-- Nothing a used node can see has changed. -/
structure SameUsed (s s' : State) : Prop where
  used : ∀ n, s'.Used n ↔ s.Used n
  node : ∀ n, s.Used n → s'.g_nodes n = s.g_nodes n
  slots : s'.g_data_slots = s.g_data_slots
  root : s'.g_root = s.g_root
  cwd : s'.g_cwd = s.g_cwd

/-- States that agree on the nodes in use have the same tree. -/
theorem SameUsed.treeSame (h : SameUsed s s') : TreeSame s s' where
  used := h.used
  type n hn := by rw [h.node n hn]
  name n hn := by rw [h.node n hn]
  parent n hn := by rw [h.node n hn]
  children n hn := by rw [h.node n hn]
  child_count n hn := by rw [h.node n hn]
  root := h.root

theorem SameUsed.owns (h : SameUsed s s') (n : NodeIx) (k : Nat) :
    s'.Owns n k ↔ s.Owns n k := by
  unfold State.Owns
  rw [h.used]
  refine and_congr_right fun hn => ?_
  rw [h.node n hn]

/-- Two nodes that differ in their children at most. -/
structure SameButChildren (a b : FsNode) : Prop where
  used : a.used = b.used
  type : a.type = b.type
  name : a.name = b.name
  parent : a.parent = b.parent
  data_slot : a.data_slot = b.data_slot
  size : a.size = b.size

theorem SameButChildren.refl (a : FsNode) : SameButChildren a a := ⟨rfl, rfl, rfl, rfl, rfl, rfl⟩

theorem SameButChildren.old (hd : SameButChildren (s'.g_nodes d) (s.g_nodes d))
    (hn : n ≠ d → s'.g_nodes n = s.g_nodes n) :
    SameButChildren (s'.g_nodes n) (s.g_nodes n) := by
  by_cases h : n = d
  · exact h ▸ hd
  · rw [hn h]
    exact .refl _

theorem no_slot_not_lt : ¬ RAMFS_NO_DATA_SLOT < RAMFS_DATA_SLOT_CAP := by decide

/-- No file gets another slot or size: a node in use was so before, or it has no slot and no
bytes. -/
theorem DataInv.of_old (hinv : DataInv s)
    (hold : ∀ n, s'.Used n → (s.Used n ∧ SameButChildren (s'.g_nodes n) (s.g_nodes n)) ∨
      ((s'.g_nodes n).data_slot = RAMFS_NO_DATA_SLOT ∧ (s'.g_nodes n).size = 0))
    (hslots : ∀ n k, k < RAMFS_DATA_SLOT_CAP → s'.Owns n k → s'.g_data_slots k = s.g_data_slots k)
    (hused : ∀ k < RAMFS_DATA_SLOT_CAP, (s'.g_data_slots k).used = true ↔ ∃ n, s'.Owns n k) :
    DataInv s' := by
  have howns : ∀ n k, k < RAMFS_DATA_SLOT_CAP → s'.Owns n k →
      s.Owns n k ∧ (s'.g_nodes n).size = (s.g_nodes n).size := by
    rintro n k hk ⟨hn, hfile, hslot⟩
    obtain ⟨hu, hsame⟩ | ⟨hno, -⟩ := hold n hn
    · exact ⟨⟨hu, hsame.type ▸ hfile, hsame.data_slot ▸ hslot⟩, hsame.size⟩
    · exact absurd (hno.symm.trans hslot ▸ hk) no_slot_not_lt
  refine ⟨fun n hn => ?_, fun n m k hk hn hm => ?_, hused, fun n hn => ?_, fun n hn hpos => ?_,
    fun n k hn hk i hi => ?_⟩
  · obtain ⟨hu, hsame⟩ | ⟨hno, -⟩ := hold n hn
    · rw [hsame.type, hsame.data_slot]
      exact hinv.slot n hu
    · exact .inl hno
  · exact hinv.owner_unique n m k hk (howns n k hk hn).1 (howns m k hk hm).1
  · obtain ⟨hu, hsame⟩ | ⟨-, hzero⟩ := hold n hn
    · rw [hsame.size]
      exact hinv.size_le n hu
    · rw [hzero]
      exact Nat.zero_le _
  · obtain ⟨hu, hsame⟩ | ⟨-, hzero⟩ := hold n hn
    · rw [hsame.size] at hpos
      rw [hsame.data_slot]
      exact hinv.size_pos n hu hpos
    · omega
  · obtain ⟨ho, hsize⟩ := howns n k hk hn
    rw [hslots n k hk hn]
    exact hinv.zero_tail n k ho hk i (hsize ▸ hi)

/-- And the same data slots. -/
theorem DataInv.of_sameUsed (hinv : DataInv s) (h : SameUsed s s') : DataInv s' := by
  refine hinv.of_old (fun n hn => .inl ⟨(h.used n).mp hn, ?_⟩) (fun _ _ _ _ => by rw [h.slots])
    fun k hk => ?_
  · rw [h.node n ((h.used n).mp hn)]
    exact .refl _
  · simp only [h.slots, h.owns]
    exact hinv.slot_used k hk

theorem Inv.of_sameUsed (hinv : Inv s) (h : SameUsed s s') : Inv s' where
  tree := hinv.tree.of_treeSame h.treeSame (h.cwd ▸ hinv.tree.cwd_used)
    (h.cwd ▸ hinv.tree.cwd_dir)
  data := hinv.data.of_sameUsed h

/-! ## A node is created -/

/-- The fresh node `c` has been hung into the directory `d` as its last child. -/
structure Created (s s' : State) (d c : NodeIx) (name : List UInt8) (type : NodeType) : Prop where
  fresh : ¬ s.Used c
  dir_used : s.Used d
  dir : (s.g_nodes d).type = .DIR
  room : (s.g_nodes d).child_count < FS_MAX_CHILDREN
  other : ∀ n, n ≠ c → n ≠ d → s'.g_nodes n = s.g_nodes n
  node : s'.g_nodes c =
    { FsNode.zero with
      used := true, data_slot := RAMFS_NO_DATA_SLOT, name := name, type := type, parent := some d }
  dir_node : s'.g_nodes d =
    { s.g_nodes d with
      children := update (s.g_nodes d).children (s.g_nodes d).child_count (some c)
      child_count := (s.g_nodes d).child_count + 1 }
  slots : s'.g_data_slots = s.g_data_slots
  root : s'.g_root = s.g_root
  cwd : s'.g_cwd = s.g_cwd

variable {x : NodeIx}

namespace Created

variable {s s' : State} {d c : NodeIx} {name : List UInt8} {type : NodeType}

section

variable (h : Created s s' d c name type)

include h

theorem ne_fresh (hn : s.Used n) : n ≠ c :=
  fun he => h.fresh (he ▸ hn)

/-- An old node keeps everything but, for `d`, its children. -/
theorem old (hn : n ≠ c) :
    SameButChildren (s'.g_nodes n) (s.g_nodes n) := by
  refine .old (d := d) ?_ (h.other n hn)
  rw [h.dir_node]
  exact ⟨rfl, rfl, rfl, rfl, rfl, rfl⟩

theorem kept (hn : s.Used n) : SameButChildren (s'.g_nodes n) (s.g_nodes n) :=
  h.old (h.ne_fresh hn)

theorem used_iff (n : NodeIx) :
    s'.Used n ↔ s.Used n ∨ n = c := by
  by_cases hn : n = c
  · subst hn
    simp [State.Used, h.node]
  · simp [State.Used, (h.old hn).used, hn]

/-- The children arrays gain one entry, at the end of `d`. -/
theorem childAt_iff (hx : s.Used x) (i : Nat) (n : NodeIx) : s'.ChildAt x i n ↔
      s.ChildAt x i n ∨ (x = d ∧ i = (s.g_nodes d).child_count ∧ n = c) := by
  unfold State.ChildAt
  by_cases hd : x = d
  · subst hd
    rw [h.dir_node]
    grind
  · rw [h.other x (h.ne_fresh hx) hd]
    simp [hd]

theorem childAt_fresh (i : Nat) (n : NodeIx) :
    ¬ s'.ChildAt c i n := by
  rintro ⟨hi, -⟩
  rw [h.node] at hi
  exact Nat.not_lt_zero i hi

/-- A new child in a directory where its name is free keeps the tree one. -/
theorem tree (hinv : TreeInv s) (hkind : type = .DIR ∨ type = .FILE) (hname : GoodName name)
    (hnew : fs_find_child s d name = none) : TreeInv s' where
  root_used := (h.used_iff _).mpr (.inl (h.root ▸ hinv.root_used))
  root_dir := by rw [h.root, (h.kept hinv.root_used).type]; exact hinv.root_dir
  root_parent := by
    rw [h.root, (h.kept hinv.root_used).parent]; exact hinv.root_parent
  cwd_used := (h.used_iff _).mpr (.inl (h.cwd ▸ hinv.cwd_used))
  cwd_dir := by rw [h.cwd, (h.kept hinv.cwd_used).type]; exact hinv.cwd_dir
  kind n hn := by
    rcases (h.used_iff n).mp hn with hn | rfl
    · rw [(h.kept hn).type]; exact hinv.kind n hn
    · rw [h.node]; exact hkind
  file_leaf n hn hfile := by
    rcases (h.used_iff n).mp hn with hn | rfl
    · have hnd : n ≠ d := by
        rintro rfl
        rw [(h.kept hn).type, h.dir] at hfile
        cases hfile
      rw [h.other n (h.ne_fresh hn) hnd] at hfile ⊢
      exact hinv.file_leaf n hn hfile
    · rw [h.node]; rfl
  count_le n hn := by
    rcases (h.used_iff n).mp hn with hn | rfl
    · by_cases hnd : n = d
      · subst hnd
        rw [h.dir_node]
        exact h.room
      · rw [h.other n (h.ne_fresh hn) hnd]
        exact hinv.count_le n hn
    · rw [h.node]
      exact Nat.zero_le _
  child x i hx hi := by
    rcases (h.used_iff x).mp hx with hx | rfl
    · by_cases hold : i < (s.g_nodes x).child_count
      · obtain ⟨b, hb, hbu, hbp⟩ := hinv.child x i hx hold
        refine ⟨b, ((h.childAt_iff hx i b).mpr (.inl ⟨hold, hb⟩)).2,
          (h.used_iff b).mpr (.inl hbu), ?_⟩
        rw [(h.kept hbu).parent]
        exact hbp
      have hxd : x = d := by
        by_contra hne
        rw [h.other x (h.ne_fresh hx) hne] at hi
        exact hold hi
      subst hxd
      have hlast : i = (s.g_nodes x).child_count := by
        rw [h.dir_node] at hi
        dsimp only at hi
        omega
      refine ⟨c, ((h.childAt_iff hx i c).mpr (.inr ⟨rfl, hlast, rfl⟩)).2,
        (h.used_iff c).mpr (.inr rfl), ?_⟩
      rw [h.node]
    · rw [h.node] at hi
      exact absurd hi (Nat.not_lt_zero i)
  child_inj x i j n hx hi hj := by
    rcases (h.used_iff x).mp hx with hx | rfl
    · rcases (h.childAt_iff hx i n).mp hi with hi | ⟨hxd, hi, hnc⟩
      · have hnc : n ≠ c := h.ne_fresh (hinv.childAt_parent hx hi).1
        rcases (h.childAt_iff hx j n).mp hj with hj | ⟨-, -, hnc'⟩
        · exact hinv.child_inj x i j n hx hi hj
        · exact absurd hnc' hnc
      · rcases (h.childAt_iff hx j n).mp hj with hj | ⟨-, hj, -⟩
        · exact absurd hnc (h.ne_fresh (hinv.childAt_parent hx hj).1)
        · rw [hi, hj]
    · exact absurd hi (h.childAt_fresh i n)
  parent n hn hne := by
    rcases (h.used_iff n).mp hn with hn | rfl
    · obtain ⟨x, i, hp, hx, hdir, hat⟩ := hinv.parent n hn (h.root ▸ hne)
      refine ⟨x, i, ?_, (h.used_iff x).mpr (.inl hx), ?_, (h.childAt_iff hx i n).mpr (.inl hat)⟩
      · rw [(h.kept hn).parent]; exact hp
      · rw [(h.kept hx).type]; exact hdir
    refine ⟨d, (s.g_nodes d).child_count, ?_, (h.used_iff d).mpr (.inl h.dir_used), ?_,
      (h.childAt_iff h.dir_used _ n).mpr (.inr ⟨rfl, rfl, rfl⟩)⟩
    · rw [h.node]
    · rw [(h.kept h.dir_used).type]; exact h.dir
  rooted n hn := by
    have hold : ∀ m, s.Used m → s'.Rooted m := fun m hm =>
      rooted_of_parents hinv (fun _ => True) h.root
        (fun k x hk _ hp => ⟨trivial, ((h.kept hk).parent).trans hp⟩) hm trivial
    rcases (h.used_iff n).mp hn with hn | rfl
    · exact hold n hn
    · exact .child (by rw [h.node]) (hold d h.dir_used)
  name n hn hne := by
    rcases (h.used_iff n).mp hn with hn | rfl
    · rw [(h.kept hn).name]; exact hinv.name n hn (h.root ▸ hne)
    · rw [h.node]; exact hname
  unshadowed x i j a b hx hij ha hb := by
    rcases (h.used_iff x).mp hx with hx | rfl
    · -- the new child is last, so it can only be the later of the two
      have hat : s.ChildAt x i a := by
        rcases (h.childAt_iff hx i a).mp ha with ha | ⟨rfl, rfl, -⟩
        · exact ha
        rcases (h.childAt_iff hx j b).mp hb with hb | ⟨-, rfl, -⟩
        · exact absurd hb.1 (by omega)
        · exact absurd hij (Nat.lt_irrefl _)
      rw [(h.kept (hinv.childAt_parent hx hat).1).name]
      rcases (h.childAt_iff hx j b).mp hb with hb | ⟨rfl, -, rfl⟩
      · rw [(h.kept (hinv.childAt_parent hx hb).1).name]
        exact hinv.unshadowed x i j a b hx hij hat hb
      · rw [h.node]
        exact fs_find_child_none hnew h.dir hat
    · exact absurd ha (h.childAt_fresh i a)

/-- The new node owns no data slot. -/
theorem owns_iff {k : Nat} (hk : k < RAMFS_DATA_SLOT_CAP) (n : NodeIx) : s'.Owns n k ↔ s.Owns n k
    := by
  unfold State.Owns
  by_cases hn : n = c
  · subst hn
    have hno : RAMFS_NO_DATA_SLOT ≠ k := fun he => no_slot_not_lt (he ▸ hk)
    rw [h.node]
    exact ⟨fun ho => absurd ho.2.2 hno, fun ho => absurd ho.1 h.fresh⟩
  · obtain ⟨hu, ht, -, -, hs, -⟩ := h.old hn
    simp [State.Used, hu, ht, hs]

/-- So the slots are owned as before. -/
theorem data (hinv : DataInv s) : DataInv s' := by
  refine hinv.of_old (fun n hn => ?_) (fun _ _ _ _ => by rw [h.slots]) fun k hk => ?_
  · obtain hn | rfl := (h.used_iff n).mp hn
    · exact .inl ⟨hn, h.kept hn⟩
    · rw [h.node]
      exact .inr ⟨rfl, rfl⟩
  · simp only [h.slots, h.owns_iff hk]
    exact hinv.slot_used k hk

end

end Created

theorem SameUsed.refl (s : State) : SameUsed s s :=
  ⟨fun _ => Iff.rfl, fun _ _ => rfl, rfl, rfl, rfl⟩

/-- Scribbling over an unused node is not seen. -/
theorem SameUsed.of_setNode {n : FsNode} (hc : ¬ s.Used c) (hn : n.used = false) :
    SameUsed s (s.setNode c n) where
  used m := by grind [setNode_self, State.Used, setNode_ne]
  node m hm := setNode_ne (fun he => hc (he ▸ hm))
  slots := rfl
  root := rfl
  cwd := rfl

/-- The node taken was free, and is zeroed. -/
theorem fs_alloc_node_some (h : fs_alloc_node s = some (c, s')) :
    ¬ s.Used c ∧
      s' = s.setNode c { FsNode.zero with used := true, data_slot := RAMFS_NO_DATA_SLOT } := by
  unfold fs_alloc_node at h
  split at h
  · cases h
  next i hi =>
  cases h
  have hfree := find?_some hi
  simp_all [State.Used]

/-- `fs_create_node` either leaves what is used alone or creates the node. -/
theorem fs_create_node_spec (hd : s.Used d) (name : List UInt8) (type : NodeType) :
    (∃ rc, (fs_create_node s d name type).1 = .error rc ∧
      SameUsed s (fs_create_node s d name type).2) ∨
    (∃ c, (fs_create_node s d name type).1 = .ok c ∧ fs_find_child s d name = none ∧
      Created s (fs_create_node s d name type).2 d c name type) := by
  unfold fs_create_node
  split
  · exact .inl ⟨_, rfl, SameUsed.refl s⟩
  next hdir =>
  split
  · exact .inl ⟨_, rfl, SameUsed.refl s⟩
  next hfind =>
  cases halloc : fs_alloc_node s with
  | none => exact .inl ⟨_, rfl, SameUsed.refl s⟩
  | some p =>
    obtain ⟨c, s1⟩ := p
    obtain ⟨hfresh, rfl⟩ := fs_alloc_node_some halloc
    have hdc : d ≠ c := fun he => hfresh (he ▸ hd)
    simp only [setNode_self, setNode_setNode]
    split
    · exact .inl ⟨_, rfl, SameUsed.of_setNode hfresh rfl⟩
    next hcopy =>
    rw [fs_name_copy_true (Bool.of_not_eq_false hcopy)]
    unfold fs_attach_child
    simp only [setNode_ne hdc, if_neg hdir]
    by_cases hroom : (s.g_nodes d).child_count ≥ FS_MAX_CHILDREN
    · grind [setNode_self, setNode_setNode, SameUsed.of_setNode]
    simp only [if_neg hroom]
    refine .inr ⟨c, rfl, by simpa using hfind, ?_⟩
    exact
      { fresh := hfresh
        dir_used := hd
        dir := Decidable.not_not.mp hdir
        room := Nat.lt_of_not_ge hroom
        other := fun n hnc hnd => by
          rw [setNode_ne hnc, setNode_ne hnd, setNode_ne hnc]
        node := by rw [setNode_self, setNode_ne hdc.symm, setNode_self]
        dir_node := by rw [setNode_ne hdc, setNode_self]
        slots := rfl
        root := rfl
        cwd := rfl }

/-- A creation under a resolved directory and a storable name keeps the invariant. -/
theorem fs_create_node_inv (hinv : Inv s) (hd : s.Used d) (hname : GoodName name) {type : NodeType}
    (hkind : type = .DIR ∨ type = .FILE) : Inv (fs_create_node s d name type).2 := by
  rcases fs_create_node_spec hd name type with ⟨rc, -, hsame⟩ | ⟨c, -, hnew, hc⟩
  · exact hinv.of_sameUsed hsame
  · exact ⟨hc.tree hinv.tree hkind hname hnew, hc.data hinv.data⟩

/-! ## A childless node is removed -/

/-- The old position of what is at position `j` once position `i` is gone. -/
def liftPos (i j : Nat) : Nat := if j < i then j else j + 1

/-- The children behind a hole move down by one. -/
theorem shift_children_apply (n : Nat) : ∀ (children : Nat → Option NodeIx) (j k : Nat),
    shift_children children (j + 1) n k =
      if j ≤ k ∧ k < j + n then children (k + 1) else children k := by
  induction n with
  | zero =>
    intro children j k
    rw [if_neg (by omega)]
    rfl
  | succ n ih =>
    intro children j k
    rw [shift_children, ih, Nat.add_sub_cancel]
    grind

/-- The children array after a removal is the old one without position `i`. -/
theorem remove_child_apply {p : FsNode} (hi : i < p.child_count) (j : Nat) (n : NodeIx) :
    (j < (remove_child p i).child_count ∧ (remove_child p i).children j = some n) ↔
      (liftPos i j < p.child_count ∧ p.children (liftPos i j) = some n) := by
  unfold remove_child liftPos
  grind [shift_children_apply]

/-- The childless node `x` has been taken out of `d`, where it was at position `i`,
and a slot it owned has been cleared. -/
structure Removed (s s' : State) (d x : NodeIx) (i : Nat) : Prop where
  used : s.Used x
  ne_root : x ≠ s.g_root
  ne_cwd : x ≠ s.g_cwd
  leaf : (s.g_nodes x).child_count = 0
  dir_used : s.Used d
  at_i : s.ChildAt d i x
  other : ∀ n, n ≠ x → n ≠ d → s'.g_nodes n = s.g_nodes n
  node : s'.g_nodes x = FsNode.zero
  dir_node : s'.g_nodes d = remove_child (s.g_nodes d) i
  slots : ∀ k < RAMFS_DATA_SLOT_CAP, s'.g_data_slots k =
    if k = (s.g_nodes x).data_slot then DataSlot.zero else s.g_data_slots k
  root : s'.g_root = s.g_root
  cwd : s'.g_cwd = s.g_cwd

namespace Removed

variable {s s' : State} {d x : NodeIx} {i : Nat}

section

variable (h : Removed s s' d x i)

include h

/-- A node that stays keeps everything but, for `d`, its children. -/
theorem old (hn : n ≠ x) :
    SameButChildren (s'.g_nodes n) (s.g_nodes n) := by
  refine .old (d := d) ?_ (h.other n hn)
  rw [h.dir_node]
  exact ⟨rfl, rfl, rfl, rfl, rfl, rfl⟩

theorem used_iff (n : NodeIx) : s'.Used n ↔ s.Used n ∧ n ≠ x := by
  by_cases hn : n = x
  · subst hn
    simp [State.Used, h.node, FsNode.zero]
  · simp [State.Used, (h.old hn).used, hn]

/-- After a removal the children of the directory keep their order. -/
theorem childAt_iff {y : NodeIx} (hy : y ≠ x) (j : Nat) (n : NodeIx) :
    s'.ChildAt y j n ↔ s.ChildAt y (if y = d then liftPos i j else j) n := by
  unfold State.ChildAt
  by_cases hd : y = d
  · subst hd
    rw [h.dir_node, if_pos rfl]
    exact remove_child_apply h.at_i.1 j n
  · rw [h.other y hy hd, if_neg hd]

/-- No child of a remaining node is the removed one. -/
theorem childAt_ne (hinv : TreeInv s) {y : NodeIx} {j : Nat} (hy : s.Used y) (hyx : y ≠ x)
    (hat : s'.ChildAt y j n) : n ≠ x := by
  rintro rfl
  have hold := (h.childAt_iff hyx j n).mp hat
  have hyd : y = d := Option.some.inj ((hinv.childAt_parent hy hold).2.symm.trans
    (hinv.childAt_parent h.dir_used h.at_i).2)
  subst hyd
  rw [if_pos rfl] at hold
  have hpos := hinv.child_inj y _ _ n hy hold h.at_i
  unfold liftPos at hpos
  split at hpos <;> omega

/-- Removing a leaf keeps the tree one. -/
theorem tree (hinv : TreeInv s) : TreeInv s' where
  root_used := (h.used_iff _).mpr (h.root ▸ ⟨hinv.root_used, h.ne_root.symm⟩)
  root_dir := by rw [h.root, (h.old h.ne_root.symm).type]; exact hinv.root_dir
  root_parent := by rw [h.root, (h.old h.ne_root.symm).parent]; exact hinv.root_parent
  cwd_used := (h.used_iff _).mpr (h.cwd ▸ ⟨hinv.cwd_used, h.ne_cwd.symm⟩)
  cwd_dir := by rw [h.cwd, (h.old h.ne_cwd.symm).type]; exact hinv.cwd_dir
  kind n hn := by
    obtain ⟨hn, hnx⟩ := (h.used_iff n).mp hn
    rw [(h.old hnx).type]
    exact hinv.kind n hn
  file_leaf n hn hfile := by
    obtain ⟨hn, hnx⟩ := (h.used_iff n).mp hn
    rw [(h.old hnx).type] at hfile
    have hleaf := hinv.file_leaf n hn hfile
    by_cases hd : n = d
    · subst hd
      have hlt := h.at_i.1
      omega
    · rw [h.other n hnx hd]
      exact hleaf
  count_le n hn := by
    obtain ⟨hn, hnx⟩ := (h.used_iff n).mp hn
    have hle := hinv.count_le n hn
    by_cases hd : n = d
    · subst hd
      rw [h.dir_node]
      exact Nat.le_trans (Nat.sub_le _ _) hle
    · rw [h.other n hnx hd]
      exact hle
  child y j hy hj := by
    obtain ⟨hy, hyx⟩ := (h.used_iff y).mp hy
    -- the slot at `j` was filled at its old position
    have hlift : (if y = d then liftPos i j else j) < (s.g_nodes y).child_count := by
      by_cases hd : y = d
      · subst hd
        rw [h.dir_node] at hj
        grind [remove_child, liftPos]
      · rw [h.other y hyx hd] at hj
        rw [if_neg hd]
        exact hj
    obtain ⟨c, hc, hcu, hcp⟩ := hinv.child y _ hy hlift
    have hat : s'.ChildAt y j c := (h.childAt_iff hyx j c).mpr ⟨hlift, hc⟩
    have hcx := h.childAt_ne hinv hy hyx hat
    refine ⟨c, hat.2, (h.used_iff c).mpr ⟨hcu, hcx⟩, ?_⟩
    rw [(h.old hcx).parent]
    exact hcp
  child_inj y j k c hy hj hk := by
    obtain ⟨hy, hyx⟩ := (h.used_iff y).mp hy
    rw [h.childAt_iff hyx] at hj hk
    have hpos := hinv.child_inj y _ _ c hy hj hk
    grind [liftPos]
  parent n hn hne := by
    obtain ⟨hn, hnx⟩ := (h.used_iff n).mp hn
    obtain ⟨y, k, hp, hy, hdir, hat⟩ := hinv.parent n hn (h.root ▸ hne)
    have hyx : y ≠ x := by
      rintro rfl
      exact Nat.ne_zero_of_lt hat.1 h.leaf
    -- where `n` has moved to
    have hmove : ∃ j, (if y = d then liftPos i j else j) = k := by
      by_cases hd : y = d
      · subst hd
        have hki : k ≠ i := by
          rintro rfl
          exact hnx (Option.some.inj (hat.2.symm.trans h.at_i.2))
        refine ⟨if k < i then k else k - 1, ?_⟩
        grind [liftPos]
      · exact ⟨k, if_neg hd⟩
    obtain ⟨j, rfl⟩ := hmove
    refine ⟨y, j, ?_, (h.used_iff y).mpr ⟨hy, hyx⟩, ?_, (h.childAt_iff hyx j n).mpr hat⟩
    · rw [(h.old hnx).parent]; exact hp
    · rw [(h.old hyx).type]; exact hdir
  rooted n hn := by
    obtain ⟨hn, hnx⟩ := (h.used_iff n).mp hn
    -- the removed node has no children, so no chain passes through it
    refine rooted_of_parents hinv (· ≠ x) h.root (fun m y hm hmx hp => ⟨?_, ?_⟩) hn hnx
    · rintro rfl
      obtain ⟨-, -, k, hat⟩ := hinv.parent_used hm hp
      exact Nat.ne_zero_of_lt hat.1 h.leaf
    · rw [(h.old hmx).parent]
      exact hp
  name n hn hne := by
    obtain ⟨hn, hnx⟩ := (h.used_iff n).mp hn
    rw [(h.old hnx).name]
    exact hinv.name n hn (h.root ▸ hne)
  unshadowed y j k a b hy hjk ha hb := by
    obtain ⟨hy, hyx⟩ := (h.used_iff y).mp hy
    rw [(h.old (h.childAt_ne hinv hy hyx ha)).name, (h.old (h.childAt_ne hinv hy hyx hb)).name]
    rw [h.childAt_iff hyx] at ha hb
    refine hinv.unshadowed y _ _ a b hy ?_ ha hb
    grind [liftPos]

/-- The removed node owns nothing any more. -/
theorem owns_iff (n : NodeIx) (k : Nat) :
    s'.Owns n k ↔ s.Owns n k ∧ n ≠ x := by
  unfold State.Owns
  rw [h.used_iff]
  by_cases hn : n = x
  · simp [hn]
  · obtain ⟨-, ht, -, -, hs, -⟩ := h.old hn
    simp [hn, ht, hs]

/-- Its slot is given back, and the others keep their owners. -/
theorem data (hinv : DataInv s) : DataInv s' := by
  -- a slot that was `x`'s is owned by nobody now
  have hgone : ∀ n, (s.g_nodes x).data_slot < RAMFS_DATA_SLOT_CAP →
      ¬ s'.Owns n (s.g_nodes x).data_slot := by
    intro n hk hn
    obtain ⟨hn, hnx⟩ := (h.owns_iff n _).mp hn
    obtain hno | ⟨-, hfile⟩ := hinv.slot x h.used
    · exact absurd (hno ▸ hk) no_slot_not_lt
    · exact hnx (hinv.owner_unique n x _ hk hn ⟨h.used, hfile, rfl⟩)
  refine hinv.of_old (fun n hn => ?_) (fun n k hk hn => ?_) fun k hk => ?_
  · obtain ⟨hn, hnx⟩ := (h.used_iff n).mp hn
    exact .inl ⟨hn, h.old hnx⟩
  · rw [h.slots k hk, if_neg]
    rintro rfl
    exact hgone n hk hn
  · rw [h.slots k hk]
    split
    · next hkx =>
      exact ⟨fun hu => (by cases hu), fun ⟨n, hn⟩ => absurd (hkx ▸ hn) (hgone n (hkx ▸ hk))⟩
    next hkx =>
    simp only [hinv.slot_used k hk, h.owns_iff]
    refine exists_congr fun n => ⟨fun hn => ⟨hn, ?_⟩, fun hn => hn.1⟩
    rintro rfl
    exact hkx hn.2.2.symm

end

end Removed

theorem child_index_some {p : FsNode} (h : child_index p x = some i) :
    i < p.child_count ∧ p.children i = some x := by
  have hmem := mem_of_find?_eq_some h
  have hp := find?_some h
  exact ⟨mem_range.mp hmem, of_decide_eq_true hp⟩

@[simp] theorem free_nodes (s : State) (k : Nat) :
    (ramfs_free_data_slot s k).g_nodes = s.g_nodes := by
  unfold ramfs_free_data_slot
  split <;> rfl

@[simp] theorem free_root (s : State) (k : Nat) :
    (ramfs_free_data_slot s k).g_root = s.g_root := by
  unfold ramfs_free_data_slot
  split <;> rfl

@[simp] theorem free_cwd (s : State) (k : Nat) : (ramfs_free_data_slot s k).g_cwd = s.g_cwd := by
  unfold ramfs_free_data_slot
  split <;> rfl

/-- Giving a slot back zeroes it and no other. -/
theorem free_slots (s : State) (slot : Nat) {k : Nat} (hk : k < RAMFS_DATA_SLOT_CAP) :
    (ramfs_free_data_slot s slot).g_data_slots k =
      if k = slot then DataSlot.zero else s.g_data_slots k := by
  unfold ramfs_free_data_slot
  split
  · rw [if_neg (by omega)]
  · exact update_apply ..

/-- The common end of both removals. `s1` is the state after the directory has been
updated and, for a file, the slot freed. -/
theorem removed_of_detach (s1 : State) (hinv : TreeInv s) (hx : s.Used x) (hroot : x ≠ s.g_root)
    (hcwd : x ≠ s.g_cwd) (hleaf : (s.g_nodes x).child_count = 0)
    (hp : (s.g_nodes x).parent = some d) (hidx : child_index (s.g_nodes d) x = some i)
    (hnodes : s1.g_nodes = (s.setNode d (remove_child (s.g_nodes d) i)).g_nodes)
    (hr : s1.g_root = s.g_root) (hc : s1.g_cwd = s.g_cwd)
    (hslots : ∀ k < RAMFS_DATA_SLOT_CAP, s1.g_data_slots k =
      if k = (s.g_nodes x).data_slot then DataSlot.zero else s.g_data_slots k) :
    Removed s { s1.setNode x FsNode.zero with g_dirty := true } d x i := by
  have hat : s.ChildAt d i x := child_index_some hidx
  have hxd : d ≠ x := by
    rintro rfl
    exact Nat.ne_zero_of_lt hat.1 hleaf
  exact
    { used := hx
      ne_root := hroot
      ne_cwd := hcwd
      leaf := hleaf
      dir_used := (hinv.parent_used hx hp).1
      at_i := hat
      other := fun n hnx hnd => by
        show (s1.setNode x FsNode.zero).g_nodes n = _
        rw [setNode_ne hnx, hnodes, setNode_ne hnd]
      node := setNode_self _ _ _
      dir_node := by grind [setNode_self, setNode_ne]
      slots := hslots
      root := hr
      cwd := hc }

/-! ## A file's slot or size changes -/

/-- The file `x` now has the given slot and size; a slot it had before and has no
more is cleared. -/
structure FileChanged (s s' : State) (x : NodeIx) (slot size : Nat) : Prop where
  used : s.Used x
  file : (s.g_nodes x).type = .FILE
  other : ∀ n, n ≠ x → s'.g_nodes n = s.g_nodes n
  node : s'.g_nodes x = { s.g_nodes x with data_slot := slot, size := size }
  fits : (slot = RAMFS_NO_DATA_SLOT ∧ size = 0) ∨
    (slot < RAMFS_DATA_SLOT_CAP ∧ size ≤ RAMFS_DATA_SLOT_SIZE)
  free : slot < RAMFS_DATA_SLOT_CAP → slot ≠ (s.g_nodes x).data_slot →
    (s.g_data_slots slot).used = false
  hit : slot < RAMFS_DATA_SLOT_CAP → (s'.g_data_slots slot).used = true ∧
    ∀ i, size ≤ i → (s'.g_data_slots slot).data i = 0
  miss : ∀ k < RAMFS_DATA_SLOT_CAP, k ≠ slot → s'.g_data_slots k =
    if k = (s.g_nodes x).data_slot then DataSlot.zero else s.g_data_slots k
  root : s'.g_root = s.g_root
  cwd : s'.g_cwd = s.g_cwd

namespace FileChanged

variable {s s' : State} {x : NodeIx} {slot size : Nat}

section

variable (h : FileChanged s s' x slot size)

include h

/-- A new size or slot of a file is no change of the tree. -/
theorem treeSame : TreeSame s s' := by
  have hcase : ∀ n, s'.g_nodes n = s.g_nodes n ∨
      s'.g_nodes n = { s.g_nodes n with data_slot := slot, size := size } := by
    intro n
    by_cases hn : n = x
    · subst hn
      exact .inr h.node
    · exact .inl (h.other n hn)
  refine ⟨fun n => ?_, fun n _ => ?_, fun n _ => ?_, fun n _ => ?_, fun n _ => ?_, fun n _ => ?_,
    h.root⟩
  all_goals rcases hcase n with hn | hn <;> simp [State.Used, hn]

/-- Ownership after the change: `x` owns `slot`, the others what they owned. -/
theorem owns_iff (n : NodeIx) (k : Nat) :
    s'.Owns n k ↔ (n = x ∧ k = slot) ∨ (n ≠ x ∧ s.Owns n k) := by
  unfold State.Owns State.Used
  by_cases hn : n = x
  · subst hn
    rw [h.node]
    simp only [h.file, true_and, ne_eq, not_true_eq_false, false_and, or_false]
    exact ⟨fun hk => hk.2.symm, fun hk => ⟨h.used, hk.symm⟩⟩
  · rw [h.other n hn]
    simp [hn]

/-- A slot newly given to `x` was free, so nobody else owns it. -/
theorem not_owned (hinv : DataInv s) {y : NodeIx} (hyx : y ≠ x) (hy : s.Owns y slot) :
    ¬ slot < RAMFS_DATA_SLOT_CAP := by
  intro hlt
  by_cases hsame : slot = (s.g_nodes x).data_slot
  · exact hyx (hinv.owner_unique y x slot hlt hy ⟨h.used, h.file, hsame.symm⟩)
  have hu := (hinv.slot_used slot hlt).mpr ⟨y, hy⟩
  rw [h.free hlt hsame] at hu
  cases hu

/-- The file has the slot it was given, and no other file has it. -/
theorem data (hinv : DataInv s) : DataInv s' where
  slot n hn := by
    by_cases hnx : n = x
    · subst hnx
      rw [h.node]
      rcases h.fits with ⟨hno, -⟩ | ⟨hlt, -⟩
      · exact .inl hno
      · exact .inr ⟨hlt, h.file⟩
    · rw [State.Used, h.other n hnx] at hn
      rw [h.other n hnx]
      exact hinv.slot n hn
  owner_unique n m k hk hn hm := by
    rcases (h.owns_iff n k).mp hn with ⟨rfl, rfl⟩ | ⟨hnx, hn⟩
    · rcases (h.owns_iff m k).mp hm with ⟨rfl, -⟩ | ⟨hmx, hm⟩
      · rfl
      · exact absurd hk (h.not_owned hinv hmx hm)
    rcases (h.owns_iff m k).mp hm with ⟨rfl, rfl⟩ | ⟨-, hm⟩
    · exact absurd hk (h.not_owned hinv hnx hn)
    · exact hinv.owner_unique n m k hk hn hm
  slot_used k hk := by
    simp only [h.owns_iff]
    by_cases hks : k = slot
    · subst hks
      exact ⟨fun _ => ⟨x, .inl ⟨rfl, rfl⟩⟩, fun _ => (h.hit hk).1⟩
    rw [h.miss k hk hks]
    split
    · next hold =>
      refine ⟨fun hu => (by cases hu), ?_⟩
      rintro ⟨n, ⟨-, he⟩ | ⟨hnx, hn⟩⟩
      · exact absurd he hks
      · exact absurd (hinv.owner_unique n x k hk hn ⟨h.used, h.file, hold.symm⟩) hnx
    next hold =>
    rw [hinv.slot_used k hk]
    refine exists_congr fun n => ⟨fun hn => .inr ⟨?_, hn⟩, ?_⟩
    · rintro rfl
      exact hold hn.2.2.symm
    · grind
  size_le n hn := by
    by_cases hnx : n = x
    · subst hnx
      rw [h.node]
      rcases h.fits with ⟨-, hz⟩ | ⟨-, hle⟩
      · exact hz ▸ Nat.zero_le _
      · exact hle
    · rw [State.Used, h.other n hnx] at hn
      rw [h.other n hnx]
      exact hinv.size_le n hn
  size_pos n hn hpos := by
    by_cases hnx : n = x
    · subst hnx
      rw [h.node] at hpos ⊢
      rcases h.fits with ⟨-, hz⟩ | ⟨hlt, -⟩
      · exact absurd hpos (by simp [hz])
      · exact hlt
    · rw [State.Used, h.other n hnx] at hn
      rw [h.other n hnx] at hpos ⊢
      exact hinv.size_pos n hn hpos
  zero_tail n k hn hk i hi := by
    rcases (h.owns_iff n k).mp hn with ⟨rfl, rfl⟩ | ⟨hnx, hn⟩
    · rw [h.node] at hi
      exact (h.hit hk).2 i hi
    rw [h.other n hnx] at hi
    by_cases hks : k = slot
    · subst hks
      exact absurd hk (h.not_owned hinv hnx hn)
    · rw [h.miss k hk hks]
      split
      · rfl
      · exact hinv.zero_tail n k hn hk i hi

theorem inv (hinv : Inv s) : Inv s' where
  tree := hinv.tree.of_treeSame h.treeSame (h.cwd ▸ hinv.tree.cwd_used)
    (h.cwd ▸ hinv.tree.cwd_dir)
  data := h.data hinv.data

end

end FileChanged

end System1.Ramfs
