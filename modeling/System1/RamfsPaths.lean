/-
What a path of the RAMFS leads to, before and after a call.

A path is followed from name to name through the children arrays. A call that keeps the tree
keeps where every path leads. A creation adds a child at the end of one array, so every name
that was found before is still found first, and the path it was made for leads to the new
node: its directory is reached as before, and no child before the new one answers to its name.
-/
import System1.RamfsFiles

set_option autoImplicit false

namespace System1.Ramfs

open List

/-! ## One segment at a time -/

section

variable {s : State} {current : NodeIx} {cursor segment rest : List UInt8}

theorem resolve_loop_error {rc : FsErr} (h : fs_next_segment cursor = .error rc) :
    fs_resolve_loop s current cursor = .error rc := by grind [fs_resolve_loop]

theorem resolve_loop_end (h : fs_next_segment cursor = .ok none) :
    fs_resolve_loop s current cursor = .ok current := by grind [fs_resolve_loop]

section

variable (h : fs_next_segment cursor = .ok (some (segment, rest)))

include h

/-- One turn of the walk, by the kind of its segment. -/
theorem resolve_loop_segment :
    fs_resolve_loop s current cursor =
      if segment = dotName then fs_resolve_loop s current rest
      else if segment = dotdotName then
        fs_resolve_loop s ((s.g_nodes current).parent.getD current) rest
      else if (s.g_nodes current).type ≠ .DIR then .error .NOT_DIR
      else (fs_find_child s current segment).elim (.error .NOT_FOUND)
        fun child => fs_resolve_loop s child rest := by grind [fs_resolve_loop]

theorem resolve_loop_child {child : NodeIx} (hdot : segment ≠ dotName)
    (hdotdot : segment ≠ dotdotName) (hdir : (s.g_nodes current).type = .DIR)
    (hf : fs_find_child s current segment = some child) :
    fs_resolve_loop s current cursor = fs_resolve_loop s child rest := by
  rw [resolve_loop_segment h, if_neg hdot, if_neg hdotdot, if_neg (not_not.mpr hdir), hf]
  rfl

/-- One turn of the walk to the parent. -/
theorem resolve_parent_loop_segment :
    fs_resolve_parent_loop s current cursor =
      if rest.dropWhile (· = 0x2F) = [] then
        if segment = dotName ∨ segment = dotdotName then .error .INVALID
        else if (fs_name_copy segment).2 = false then .error .INVALID
        else .ok (current, (fs_name_copy segment).1)
      else if segment = dotName then fs_resolve_parent_loop s current rest
      else if segment = dotdotName then
        fs_resolve_parent_loop s ((s.g_nodes current).parent.getD current) rest
      else (fs_find_child s current segment).elim (.error .NOT_FOUND) fun child =>
        if (s.g_nodes child).type ≠ .DIR then .error .NOT_DIR
        else fs_resolve_parent_loop s child rest := by grind [fs_resolve_parent_loop]

end

end

/-! ## Calls that keep the tree -/

theorem findSome?_congr_range {α : Type} {f f' : Nat → Option α} {n : Nat}
    (h : ∀ i < n, f i = f' i) : (range n).findSome? f = (range n).findSome? f' := by
  have hlist : ∀ l : List Nat, (∀ i ∈ l, f i = f' i) → l.findSome? f = l.findSome? f' := by
    intro l
    induction l with
    | nil => exact fun _ => rfl
    | cons i l ih => grind
  exact hlist _ fun i hi => h i (mem_range.mp hi)

section

variable {s s' : State} (h : TreeSame s s') (hinv : TreeInv s)

include h hinv

/-- On the same tree the same child is found, -/
theorem TreeSame.find_child {d : NodeIx} (hd : s.Used d) (name : List UInt8) :
    fs_find_child s' d name = fs_find_child s d name := by
  unfold fs_find_child
  rw [h.type d hd, h.child_count d hd, h.children d hd]
  by_cases hdir : (s.g_nodes d).type ≠ .DIR
  · rw [if_pos hdir, if_pos hdir]
  rw [if_neg hdir, if_neg hdir]
  apply findSome?_congr_range
  intro i hi
  obtain ⟨c, hchild, hc, -⟩ := hinv.child d i hd hi
  rw [hchild]
  dsimp only
  rw [h.name c hc]

/-- the same walk made, -/
theorem TreeSame.resolve_loop (current : NodeIx) (cursor : List UInt8) (hc : s.Used current) :
    fs_resolve_loop s' current cursor = fs_resolve_loop s current cursor := by
  fun_induction fs_resolve_loop s current cursor with
  | case1 current cursor rc hseg => exact resolve_loop_error hseg
  | case2 current cursor hseg => exact resolve_loop_end hseg
  | case3 current cursor rest hseg ih =>
    rw [resolve_loop_segment hseg, if_pos rfl]
    exact ih hc
  | case4 current cursor rest hseg hne ih =>
    rw [resolve_loop_segment hseg, if_neg hne, if_pos rfl, h.parent current hc]
    exact ih (hinv.parent_getD_used hc)
  | case5 current cursor segment rest hseg hdot hdotdot hdir =>
    rw [resolve_loop_segment hseg, if_neg hdot, if_neg hdotdot, h.type current hc, if_pos hdir]
  | case6 current cursor segment rest hseg hdot hdotdot hdir hf =>
    rw [resolve_loop_segment hseg, if_neg hdot, if_neg hdotdot, h.type current hc, if_neg hdir,
      h.find_child hinv hc, hf]
    rfl
  | case7 current cursor segment rest hseg hdot hdotdot hdir child hf ih =>
    rw [resolve_loop_child hseg hdot hdotdot (by rw [h.type current hc]; exact not_not.mp hdir)
      ((h.find_child hinv hc segment).trans hf)]
    exact ih (hinv.find_child_used hc hf)

/-- and the same node found. -/
theorem TreeSame.resolve_path (hcwd : s'.g_cwd = s.g_cwd) (path : List UInt8) :
    fs_resolve_path s' path = fs_resolve_path s path := by
  unfold fs_resolve_path fs_resolve_path_from
  rw [hcwd, h.root]
  by_cases hnil : path = []
  · rw [if_pos hnil, if_pos hnil]
  rw [if_neg hnil, if_neg hnil]
  apply h.resolve_loop hinv
  split
  · exact hinv.root_used
  · exact hinv.cwd_used

end

/-! ## The last segment -/

theorem next_segment_slashes {rest : List UInt8} (h : rest.dropWhile (· = 0x2F) = []) :
    fs_next_segment rest = .ok none := if_pos h

section

variable {s : State} (hinv : TreeInv s) {d : NodeIx} {name : List UInt8}

include hinv

/-- A path whose directory has the child that its last name asks for leads to the child. -/
theorem resolve_loop_of_parent {child : NodeIx} (hf : fs_find_child s d name = some child)
    (current : NodeIx) (cursor : List UInt8) (hc : s.Used current)
    (hdir : (s.g_nodes current).type = .DIR)
    (hr : fs_resolve_parent_loop s current cursor = .ok (d, name)) :
    fs_resolve_loop s current cursor = .ok child := by
  fun_induction fs_resolve_parent_loop s current cursor with
  | case1 | case2 | case3 | case4 | case8 | case9 => cases hr
  | case5 current cursor segment rest hseg hlast hdots hcopy =>
    push Not at hdots
    rw [fs_name_copy_true (Bool.of_not_eq_false hcopy)] at hr
    cases hr
    rw [resolve_loop_child hseg hdots.1 hdots.2 hdir hf]
    exact resolve_loop_end (next_segment_slashes hlast)
  | case6 current cursor rest hlast hseg ih =>
    rw [resolve_loop_segment hseg, if_pos rfl]
    exact ih hc hdir hr
  | case7 current cursor rest hlast hseg hdot ih =>
    rw [resolve_loop_segment hseg, if_neg hdot, if_pos rfl]
    exact ih (hinv.parent_getD_used hc) (hinv.parent_getD_dir hc hdir) hr
  | case10 current cursor segment rest hseg hlast hdot hdotdot child' hf' htype ih =>
    rw [resolve_loop_child hseg hdot hdotdot hdir hf']
    exact ih (hinv.find_child_used hc hf') (Decidable.not_not.mp htype) hr

/-- A path whose parent has the child leads to the child. -/
theorem resolve_path_of_parent {child : NodeIx} (hf : fs_find_child s d name = some child)
    {path : List UInt8} (hr : fs_resolve_parent s path = .ok (d, name)) :
    fs_resolve_path s path = .ok child := by
  have hne : path ≠ [] := by
    rintro rfl
    unfold fs_resolve_parent at hr
    rw [fs_resolve_parent_loop] at hr
    cases hr
  unfold fs_resolve_parent at hr
  unfold fs_resolve_path fs_resolve_path_from
  rw [if_neg hne]
  by_cases hroot : path.head? = some 0x2F
  · rw [if_pos hroot] at hr ⊢
    exact resolve_loop_of_parent hinv hf _ _ hinv.root_used hinv.root_dir hr
  · rw [if_neg hroot] at hr ⊢
    exact resolve_loop_of_parent hinv hf _ _ hinv.cwd_used hinv.cwd_dir hr

end

/-! ## A creation -/

namespace Created

variable {s s' : State} {d c : NodeIx} {name : List UInt8} {type : NodeType}
  (h : Created s s' d c name type) (hinv : TreeInv s)

include h hinv

/-- What was found is still found: the new child is the last of its directory. -/
theorem find_child_old {x child : NodeIx} {segment : List UInt8} (hx : s.Used x)
    (hf : fs_find_child s x segment = some child) : fs_find_child s' x segment = some child := by
  obtain ⟨hdir, i, hat, heq, hbefore⟩ := fs_find_child_some hf
  have hchild : s.Used child := (hinv.childAt_parent hx hat).1
  apply fs_find_child_first (i := i)
  · rw [(h.kept hx).type]
    exact hdir
  · exact (h.childAt_iff hx i child).mpr (.inl hat)
  · rw [(h.kept hchild).name]
    exact heq
  · intro j hj b hb
    obtain hb | ⟨rfl, hlast, -⟩ := (h.childAt_iff hx j b).mp hb
    · rw [(h.kept (hinv.childAt_parent hx hb).1).name]
      exact hbefore j hj b hb
    · have := hat.1
      omega

/-- The new child is found by its name if nothing was before. -/
theorem find_child_new (hnone : fs_find_child s d name = none) :
    fs_find_child s' d name = some c := by
  apply fs_find_child_first (i := (s.g_nodes d).child_count)
  · rw [(h.kept h.dir_used).type]
    exact h.dir
  · exact (h.childAt_iff h.dir_used _ c).mpr (.inr ⟨rfl, rfl, rfl⟩)
  · rw [h.node]
    exact fs_name_eq_refl name
  · intro j hj b hb
    obtain hb | ⟨-, hlast, -⟩ := (h.childAt_iff h.dir_used j b).mp hb
    · rw [(h.kept (hinv.childAt_parent h.dir_used hb).1).name]
      exact fs_find_child_none hnone h.dir hb
    · omega

/-- A new node does not change the parent of another path. -/
theorem resolve_parent_loop {d₀ : NodeIx} {name₀ : List UInt8} (current : NodeIx)
    (cursor : List UInt8) (hc : s.Used current)
    (hr : fs_resolve_parent_loop s current cursor = .ok (d₀, name₀)) :
    fs_resolve_parent_loop s' current cursor = .ok (d₀, name₀) := by
  fun_induction fs_resolve_parent_loop s current cursor with
  | case1 | case2 | case3 | case4 | case8 | case9 => cases hr
  | case5 current cursor segment rest hseg hlast hdots hcopy => grind [resolve_parent_loop_segment]
  | case6 current cursor rest hlast hseg ih =>
    rw [resolve_parent_loop_segment hseg, if_neg hlast, if_pos rfl]
    exact ih hc hr
  | case7 current cursor rest hlast hseg hdot ih =>
    rw [resolve_parent_loop_segment hseg, if_neg hlast, if_neg hdot, if_pos rfl,
      (h.kept hc).parent]
    exact ih (hinv.parent_getD_used hc) hr
  | case10 current cursor segment rest hseg hlast hdot hdotdot child hf htype ih =>
    have hchild : s.Used child := hinv.find_child_used hc hf
    rw [resolve_parent_loop_segment hseg, if_neg hlast, if_neg hdot, if_neg hdotdot,
      h.find_child_old hinv hc hf, Option.elim_some, (h.kept hchild).type, if_neg htype]
    exact ih hchild hr

/-- The path a node was created for leads to it. -/
theorem resolve_path (hinv' : TreeInv s') (hnone : fs_find_child s d name = none)
    {path : List UInt8} (hr : fs_resolve_parent s path = .ok (d, name)) :
    fs_resolve_path s' path = .ok c := by
  apply resolve_path_of_parent hinv' (h.find_child_new hinv hnone)
  unfold fs_resolve_parent at hr ⊢
  rw [h.root, h.cwd]
  apply h.resolve_parent_loop hinv _ _ _ hr
  split
  · exact hinv.root_used
  · exact hinv.cwd_used

end Created

/-! ## Room for another node -/

/-- A name that fits is copied whole. -/
theorem fs_name_copy_loop_ok (src : List UInt8) (hslash : 0x2F ∉ src) : ∀ dst : List UInt8,
    dst.length + src.length < FS_NAME_CAP → (fs_name_copy_loop dst src).2 = true := by
  induction src with
  | nil => exact fun _ _ => rfl
  | cons c src ih =>
    intro dst hshort
    rw [mem_cons, not_or] at hslash
    grind [length_cons, length_append, length_singleton, fs_name_copy_loop]

theorem GoodName.copy {name : List UInt8} (h : GoodName name) : (fs_name_copy name).2 = true := by
  unfold fs_name_copy
  rw [if_neg h.nonempty]
  exact fs_name_copy_loop_ok name h.noslash [] (by simpa using h.short)

theorem fs_alloc_node_isSome {s : State} {n : NodeIx} (h : ¬ s.Used n) :
    (fs_alloc_node s).isSome = true := by grind [fs_alloc_node, State.Used]

/-- A directory takes another name if it has room for a child and there is a free node. -/
theorem fs_create_node_ok {s : State} {d n : NodeIx} {name : List UInt8} (type : NodeType)
    (hd : s.Used d) (hdir : (s.g_nodes d).type = .DIR) (hnone : fs_find_child s d name = none)
    (hcopy : (fs_name_copy name).2 = true) (hroom : (s.g_nodes d).child_count < FS_MAX_CHILDREN)
    (hfree : ¬ s.Used n) : ∃ c, (fs_create_node s d name type).1 = .ok c := by
  obtain ⟨⟨c, s1⟩, halloc⟩ := Option.isSome_iff_exists.mp (fs_alloc_node_isSome hfree)
  obtain ⟨hfresh, rfl⟩ := fs_alloc_node_some halloc
  have hdc : d ≠ c := fun he => hfresh (he ▸ hd)
  refine ⟨c, ?_⟩
  unfold fs_create_node
  rw [if_neg (not_not.mpr hdir), if_neg (by rw [hnone]; exact Bool.false_ne_true), halloc]
  simp only [setNode_self, setNode_setNode]
  rw [if_neg (by rw [hcopy]; exact Bool.false_ne_true.symm)]
  unfold fs_attach_child
  simp only [setNode_ne hdc, hdir, ne_eq, not_true_eq_false, if_false,
    if_neg (Nat.not_le.mpr hroom)]

/-- The path ends in a directory that has room for another child, and there is a node for
it. -/
def CanCreate (s : State) (path : List UInt8) : Prop :=
  ∃ d name, fs_resolve_parent s path = .ok (d, name) ∧
    (s.g_nodes d).child_count < FS_MAX_CHILDREN ∧ ∃ n, ¬ s.Used n

/-! ## What an open does -/

/-- The path names nothing, and the node that was made for it is `c`. -/
structure Made (s s' : State) (path : List UInt8) (c : NodeIx) : Prop where
  missing : fs_resolve_path s path = .error .NOT_FOUND
  able : CanCreate s path
  created : ∃ d name, Created s s' d c name .FILE
  inv : Inv s'
  resolves : fs_resolve_path s' path = .ok c

section

variable {s : State} (hinv : Inv s)

include hinv

/-- An open goes to the node that the path names. Where it names none, the open fails, or it
makes a node if it may and can. -/
theorem ramfs_core_open_cases (path : CString) (flags : Nat) :
    (∃ x, fs_resolve_path s path.bytes = .ok x ∧
      ramfs_core_open s (some path) flags = ramfs_open_node s x flags) ∨
    (¬ (fs_resolve_path s path.bytes = .error .NOT_FOUND ∧ flags &&& FS_O_CREAT ≠ 0 ∧
        CanCreate s path.bytes) ∧
      ∃ rc, (ramfs_core_open s (some path) flags).1 = .error rc ∧
        SameUsed s (ramfs_core_open s (some path) flags).2) ∨
    (flags &&& FS_O_CREAT ≠ 0 ∧ ∃ s1 c, Made s s1 path.bytes c ∧
      ramfs_core_open s (some path) flags = ramfs_open_node s1 c flags) := by
  unfold ramfs_core_open
  dsimp only
  cases hr : fs_resolve_path s path.bytes with
  | ok x => exact .inl ⟨x, rfl, rfl⟩
  | error rc =>
  right
  dsimp only
  by_cases hcreat : rc = .NOT_FOUND ∧ flags &&& FS_O_CREAT ≠ 0
  swap
  · left
    rw [if_neg hcreat]
    exact ⟨fun h => hcreat ⟨Except.error.inj h.1, h.2.1⟩, rc, rfl, .refl s⟩
  rw [if_pos hcreat]
  obtain ⟨rfl, hflag⟩ := hcreat
  cases hp : fs_resolve_parent s path.bytes with
  | error rc =>
    left
    refine ⟨?_, rc, rfl, .refl s⟩
    rintro ⟨-, -, d, name, hparent, -⟩
    rw [hp] at hparent
    cases hparent
  | ok p =>
    obtain ⟨d, name⟩ := p
    obtain ⟨hd, hdir, hname⟩ := fs_resolve_parent_spec hinv.tree hp
    have hnone : fs_find_child s d name = none := by
      -- otherwise the path would lead to the child
      cases hf : fs_find_child s d name with
      | none => rfl
      | some child =>
        rw [resolve_path_of_parent hinv.tree hf hp] at hr
        cases hr
    have hinv' : Inv (fs_create_node s d name .FILE).2 :=
      fs_create_node_inv hinv hd hname (.inr rfl)
    dsimp only
    obtain ⟨rc, hrc, hsame⟩ | ⟨c, hc, -, hcr⟩ := fs_create_node_spec hd name .FILE
    · left
      cases hcreate : fs_create_node s d name .FILE with
      | mk res s' =>
      rw [hcreate] at hrc hsame
      cases hrc
      refine ⟨?_, rc, rfl, hsame⟩
      rintro ⟨-, -, d', name', hparent, hroom, n, hfree⟩
      rw [hp] at hparent
      cases hparent
      obtain ⟨c, hc⟩ := fs_create_node_ok .FILE hd hdir hnone hname.copy hroom hfree
      rw [hcreate] at hc
      cases hc
    right
    cases hcreate : fs_create_node s d name .FILE with
    | mk res s' =>
    rw [hcreate] at hc hcr hinv'
    cases hc
    have hcr' : Created s { s' with g_dirty := true } d c name .FILE :=
      ⟨hcr.fresh, hcr.dir_used, hcr.dir, hcr.room, hcr.other, hcr.node, hcr.dir_node,
        hcr.slots, hcr.root, hcr.cwd⟩
    refine ⟨hflag, { s' with g_dirty := true }, c, ?_, rfl⟩
    exact
      { missing := hr
        able := ⟨d, name, hp, hcr.room, c, hcr.fresh⟩
        created := ⟨d, name, hcr'⟩
        inv := hinv'.dirty true
        resolves := hcr'.resolve_path hinv.tree (hinv'.dirty true).tree hnone hp }

/-- Opening a node keeps where the paths lead. -/
theorem ramfs_open_node_paths {x : NodeIx} (hx : s.Used x) (flags : Nat) (path : List UInt8) :
    fs_resolve_path (ramfs_open_node s x flags).2 path = fs_resolve_path s path := by
  obtain ⟨rc, heq⟩ | ⟨-, -, ⟨-, heq⟩ | ⟨-, hchanged⟩⟩ := ramfs_open_node_spec hx flags
  · rw [heq]
  · rw [heq]
  · exact hchanged.treeSame.resolve_path hinv.tree hchanged.cwd path

/-- The node that a successful open returns is the one the path leads to afterwards. -/
theorem ramfs_core_open_resolves {path : CString} {flags id : Nat}
    (hok : (ramfs_core_open s (some path) flags).1 = .ok id) :
    ∃ x, id = fs_node_id x ∧
      fs_resolve_path (ramfs_core_open s (some path) flags).2 path.bytes = .ok x := by
  have hnode : ∀ {s : State} {x : NodeIx}, s.Used x → (ramfs_open_node s x flags).1 = .ok id →
      id = fs_node_id x := by
    intro s x hx hok
    obtain ⟨rc, heq⟩ | ⟨-, heq, -⟩ := ramfs_open_node_spec hx flags
    · rw [heq] at hok
      cases hok
    · exact Except.ok.inj (hok.symm.trans heq)
  obtain ⟨x, hx, heq⟩ | ⟨-, rc, herr, -⟩ | ⟨-, s1, c, hmade, heq⟩ :=
    ramfs_core_open_cases hinv path flags
  · have hused := fs_resolve_path_used hinv.tree hx
    grind [ramfs_open_node_paths]
  · rw [herr] at hok
    cases hok
  have hused := fs_resolve_path_used hmade.inv.tree hmade.resolves
  rw [heq] at hok ⊢
  exact ⟨c, hnode hused hok,
    (ramfs_open_node_paths hmade.inv hused flags _).trans hmade.resolves⟩

/-- A write keeps where the paths lead. -/
theorem ramfs_core_write_paths (node_id offset : Nat) (buffer : Option (List UInt8)) (size : Nat)
    (path : List UInt8) :
    fs_resolve_path (ramfs_core_write s node_id offset buffer size).2 path =
      fs_resolve_path s path := by
  obtain ⟨rc, heq⟩ | ⟨-, -, heq⟩ | ⟨-, -, -, x, -, k, -, hchanged, -⟩ :=
    ramfs_core_write_spec hinv node_id offset buffer size
  · rw [heq]
  · rw [heq]
  · exact hchanged.treeSame.resolve_path hinv.tree hchanged.cwd path

end

end System1.Ramfs
