/-
Names and nodes of the RAMFS: what a path says against where it leads.

A path is read twice in this file. Once as a text: its pieces, with `.` and `..` carried out
on a stack of names that starts at the root or at the names of the working directory. And
once as the code reads it: from node to node through `fs_find_child`. The two readings agree:
the node that the code arrives at is the one that the names on the stack lead to from the
root, so whatever is known about a walk along names is known about every spelling of a path.

What a walk does not promise is that the node has the name that was asked for. The comparison
of the code also lets a stored `BASE~digits` answer to every longer name that begins with
`BASE`, so a removal takes the named node exactly if no lookup on the way is answered by that
rule. The way back has no such proviso: a node is always found under its own names, since no
earlier sibling answers to a stored name.
-/
import System1.RamfsPaths
import System1.VfsStack

set_option autoImplicit false

namespace System1.Ramfs

open List Vfs

open System1.Vfs (SLASH components stackStep joined pathOf IsName)

/-! ## The names of a node -/

/-- The stored names from the root down to a node, by the parent pointers. -/
inductive State.Spells (s : State) : NodeIx → List (List UInt8) → Prop
  | root : s.Spells s.g_root []
  | child {n d : NodeIx} {names : List (List UInt8)} : (s.g_nodes n).parent = some d →
      s.Spells d names → s.Spells n (names ++ [(s.g_nodes n).name])

variable {n : NodeIx}

variable {s : State}

theorem State.Rooted.spells (h : s.Rooted n) :
    ∃ names, s.Spells n names := by
  induction h with
  | root => exact ⟨[], .root⟩
  | child hp _ ih =>
    obtain ⟨names, hnames⟩ := ih
    exact ⟨_, .child hp hnames⟩

variable {names : List (List UInt8)}

section

variable {s : State} (hinv : TreeInv s)

include hinv

/-- A node has one list of names. -/
theorem State.Spells.unique {names' : List (List UInt8)} (h : s.Spells n names)
    (h' : s.Spells n names') : names = names' := by
  induction h generalizing names' with
  | root =>
    cases h' with
    | root => rfl
    | child hp _ => cases hinv.root_parent.symm.trans hp
  | child hp _ ih =>
    cases h' with
    | root => cases hinv.root_parent.symm.trans hp
    | child hp' h' =>
      cases hp.symm.trans hp'
      rw [ih h']

/-- Every one of them can stand in a path. -/
theorem State.Spells.good (hn : s.Used n) (h : s.Spells n names) :
    ∀ c ∈ names, GoodName c := by
  induction h with
  | root => exact fun c hc => absurd hc not_mem_nil
  | child hp _ ih =>
    intro c hc
    obtain hc | hc := mem_append.mp hc
    · exact ih (hinv.parent_used hn hp).1 c hc
    · rw [mem_singleton.mp hc]
      exact hinv.name _ hn (hinv.ne_root_of_parent hp)

end

/-! ## Walks along names -/

/-- From child to child, as the names say. -/
def walk (s : State) (d : NodeIx) (names : List (List UInt8)) : Option NodeIx :=
  names.foldlM (fs_find_child s) d

variable {d : NodeIx} {name : List UInt8}

section

variable {s : State} {x : NodeIx} {names : List (List UInt8)}

theorem walk_cons :
    walk s d (name :: names) = some x ↔
      ∃ c, fs_find_child s d name = some c ∧ walk s c names = some x := by
  unfold walk
  rw [foldlM_cons]
  exact Option.bind_eq_some_iff

theorem walk_snoc :
    walk s d (names ++ [name]) = some x ↔
      ∃ c, walk s d names = some c ∧ fs_find_child s c name = some x := by
  unfold walk
  rw [foldlM_append]
  simp only [foldlM_cons, foldlM_nil, bind_pure]
  exact Option.bind_eq_some_iff

end

variable {x : NodeIx}

section

variable {s : State} (hinv : TreeInv s)

include hinv

/-- The child that is found has the directory as its parent. -/
theorem TreeInv.find_child_parent {c : NodeIx} (hd : s.Used d)
    (hf : fs_find_child s d name = some c) : (s.g_nodes c).parent = some d := by
  obtain ⟨-, i, hat, -⟩ := fs_find_child_some hf
  exact (hinv.childAt_parent hd hat).2

section

variable {names : List (List UInt8)}

/-- A walk ends on a node in use. -/
theorem walk_used (hd : s.Used d) (h : walk s d names = some x) : s.Used x := by
  induction names generalizing d with
  | nil =>
    cases h
    exact hd
  | cons name names ih =>
    obtain ⟨c, hf, h⟩ := walk_cons.mp h
    exact ih (hinv.find_child_used hd hf) h

/-- A node is found under its own names. -/
theorem State.Spells.walk (hn : s.Used n) (h : s.Spells n names) :
    walk s s.g_root names = some n := by
  induction h with
  | root => rfl
  | child hp _ ih =>
    obtain ⟨hd, hdir, i, hat⟩ := hinv.parent_used hn hp
    exact walk_snoc.mpr ⟨_, ih hd, hinv.find_child_self hd hdir hat⟩

/-- Up from where a walk from the root has arrived is where it has been before. -/
theorem walk_up (h : walk s s.g_root names = some x) :
    walk s s.g_root names.dropLast = some ((s.g_nodes x).parent.getD x) := by
  obtain rfl | ⟨before, name, rfl⟩ := names.eq_nil_or_concat'
  · cases h
    rw [hinv.root_parent]
    rfl
  obtain ⟨d, hd, hf⟩ := walk_snoc.mp h
  rw [dropLast_concat, hinv.find_child_parent (walk_used hinv hinv.root_used hd) hf]
  exact hd

end

end

/-! ## The segments of a path are its pieces -/

/-- Slashes make empty pieces, which do nothing. -/
theorem foldl_stackStep_dropWhile (path : List UInt8) (stack : List (List UInt8)) :
    (components (path.dropWhile (· = SLASH))).foldl stackStep stack =
      (components path).foldl stackStep stack := by
  induction path with
  | nil => rfl
  | cons c path ih =>
    by_cases hc : c = SLASH
    · subst hc
      have hsplit : components (SLASH :: path) = [] :: components path :=
        components_append not_mem_nil path
      rw [dropWhile_cons_of_pos (by simp), ih, hsplit]
      rfl
    · rw [dropWhile_cons_of_neg (by simpa using hc)]

/-- When no segment is left, the rest of the path adds none. -/
theorem next_segment_none {cursor : List UInt8} (h : fs_next_segment cursor = .ok none)
    (stack : List (List UInt8)) : (components cursor).foldl stackStep stack = stack := by
  have hend : cursor.dropWhile (· = SLASH) = [] := by
    unfold fs_next_segment at h
    dsimp only at h
    split at h
    · assumption
    · split at h <;> cases h
  rw [← foldl_stackStep_dropWhile, hend]
  rfl

/-- The segment that is taken off a path is the first piece that does something. -/
theorem next_segment_stack {cursor segment rest : List UInt8}
    (h : fs_next_segment cursor = .ok (some (segment, rest))) (stack : List (List UInt8)) :
    (components cursor).foldl stackStep stack =
      (components rest).foldl stackStep (stackStep stack segment) := by
  obtain ⟨hsegment, hrest⟩ :
      segment = (cursor.dropWhile (· = SLASH)).takeWhile (· ≠ SLASH) ∧
        rest = (cursor.dropWhile (· = SLASH)).dropWhile (· ≠ SLASH) := by
    unfold fs_next_segment at h
    dsimp only at h
    split at h
    · cases h
    split at h
    · cases h
    · cases h
      exact ⟨rfl, rfl⟩
  rw [← foldl_stackStep_dropWhile]
  generalize cursor.dropWhile (· = SLASH) = path at hsegment hrest
  have hno : SLASH ∉ segment := hsegment ▸ takeWhile_noSlash path
  have hpath : path = segment ++ rest := by
    rw [hsegment, hrest]
    exact takeWhile_append_dropWhile.symm
  subst hpath
  cases rest with
  | nil =>
    rw [append_nil, components_of_noSlash hno]
    rfl
  | cons c tail =>
    -- the segment ends where a slash begins the rest
    have hc : c = SLASH := by
      have hhead := head?_dropWhile_not (fun x : UInt8 => decide (x ≠ SLASH))
        (segment ++ c :: tail)
      rw [← hrest] at hhead
      simpa using hhead
    subst hc
    have hempty : components (SLASH :: tail) = [] :: components tail :=
      components_append not_mem_nil tail
    rw [components_append hno, hempty]
    rfl

/-- The stack of names that a path stands for, from the names of the working directory. -/
def stackOf (cwd : List (List UInt8)) (path : List UInt8) : List (List UInt8) :=
  (components path).foldl stackStep (if path.head? = some SLASH then [] else cwd)

section

variable {s : State} (hinv : TreeInv s)

include hinv

/-- Where the loop arrives is where the names on the stack lead. -/
theorem resolve_loop_walk (current : NodeIx) (cursor : List UInt8) {node : NodeIx}
    {stack : List (List UInt8)} (hat : walk s s.g_root stack = some current)
    (hr : fs_resolve_loop s current cursor = .ok node) :
    walk s s.g_root ((components cursor).foldl stackStep stack) = some node := by
  fun_induction fs_resolve_loop s current cursor generalizing stack with
  | case1 | case5 | case6 => cases hr
  | case2 current cursor hseg =>
    cases hr
    rw [next_segment_none hseg]
    exact hat
  | case3 current cursor rest hseg ih =>
    rw [next_segment_stack hseg]
    exact ih hat hr
  | case4 current cursor rest hseg hdot ih =>
    rw [next_segment_stack hseg]
    exact ih (walk_up hinv hat) hr
  | case7 current cursor segment rest hseg hdot hdotdot hdir child hf ih =>
    rw [next_segment_stack hseg]
    have hname : IsName segment :=
      ⟨(fs_next_segment_some hseg).2.2.1, (fs_next_segment_some hseg).1, hdot, hdotdot⟩
    grind [stackStep_name, walk_snoc.mpr]

/-- A path that resolves is walked by its stack of names. -/
theorem resolve_path_walk {path : List UInt8} {node : NodeIx} {cwd : List (List UInt8)}
    (hcwd : s.Spells s.g_cwd cwd) (hr : fs_resolve_path s path = .ok node) :
    walk s s.g_root (stackOf cwd path) = some node := by
  have hstart : walk s s.g_root (if path.head? = some SLASH then [] else cwd) =
      some (if path.head? = some SLASH then s.g_root else s.g_cwd) := by
    split
    · rfl
    · exact hcwd.walk hinv hinv.cwd_used
  unfold fs_resolve_path fs_resolve_path_from at hr
  dsimp only at hr
  split at hr
  · next hnil =>
    cases hr
    rw [hnil] at hstart ⊢
    exact hstart
  · exact resolve_loop_walk hinv _ _ hstart hr

end

/-! ## Answers by the alias rule -/

/-- The same name up to ASCII case. -/
def SameName (a b : List UInt8) : Prop := a.map fs_lower = b.map fs_lower

/-- The stored name answers to the name by the alias rule alone. -/
def ByAlias (stored requested : List UInt8) : Prop :=
  fs_name_eq stored requested = true ∧ ¬ SameName stored requested

/-- On the way down from `d` some name is answered by the alias rule. -/
def MeetsAlias (s : State) (d : NodeIx) : List (List UInt8) → Prop
  | [] => False
  | name :: names =>
    ∃ c, fs_find_child s d name = some c ∧
      (ByAlias (s.g_nodes c).name name ∨ MeetsAlias s c names)

/-- The names of the node a walk arrives at are those it was asked for, up to case, exactly
if no alias was met. -/
theorem walk_names (hinv : TreeInv s) {above : List (List UInt8)} (hd : s.Used d)
    (habove : s.Spells d above) (h : walk s d names = some x) :
    ∃ found, s.Spells x (above ++ found) ∧
      (List.Forall₂ SameName found names ↔ ¬ MeetsAlias s d names) := by
  induction names generalizing d above with
  | nil =>
    cases h
    exact ⟨[], by rwa [append_nil], iff_of_true .nil not_false⟩
  | cons name names ih =>
    obtain ⟨c, hf, h⟩ := walk_cons.mp h
    have hc := hinv.find_child_used hd hf
    obtain ⟨-, -, -, hanswers, -⟩ := fs_find_child_some hf
    obtain ⟨found, hfound, hiff⟩ :=
      ih hc (.child (hinv.find_child_parent hd hf) habove) h
    refine ⟨(s.g_nodes c).name :: found, by rwa [append_assoc] at hfound, ?_⟩
    rw [forall₂_cons, hiff]
    constructor
    · rintro ⟨hsame, hrest⟩ ⟨c', hf', halias⟩
      cases hf.symm.trans hf'
      exact halias.elim (fun ha => ha.2 hsame) hrest
    · intro hno
      exact ⟨not_not.mp fun hdiff => hno ⟨c, hf, .inl ⟨hanswers, hdiff⟩⟩,
        fun hrest => hno ⟨c, hf, .inr hrest⟩⟩

/-! ## What a removal leaves -/

/-- The children of a directory, in their order. -/
def State.childList (s : State) (d : NodeIx) : List NodeIx :=
  (range (s.g_nodes d).child_count).filterMap (s.g_nodes d).children

/-- A list made from slots that are all filled. -/
theorem getElem?_filterMap_range {α : Type} {f : Nat → Option α} {n : Nat}
    (h : ∀ i < n, (f i).isSome) (j : Nat) :
    ((range n).filterMap f)[j]? = if j < n then f j else none := by
  induction n with
  | zero => rfl
  | succ n ih =>
    have hlast : (f n).isSome := h n (Nat.lt_succ_self n)
    obtain ⟨a, ha⟩ := Option.isSome_iff_exists.mp hlast
    have hbefore := ih fun i hi => h i (Nat.lt_succ_of_lt hi)
    have hlen : ((range n).filterMap f).length = n := by
      rw [filterMap_length_eq_length.mpr fun i hi =>
        h i (Nat.lt_succ_of_lt (mem_range.mp hi)), length_range]
    rw [range_succ, filterMap_append, getElem?_append, hlen, hbefore]
    grind

section

variable {s : State} (hinv : TreeInv s)

include hinv

/-- The children in their order. -/
theorem TreeInv.getElem?_childList (hd : s.Used d) (j : Nat) (c : NodeIx) :
    (s.childList d)[j]? = some c ↔ s.ChildAt d j c := by
  unfold State.childList State.ChildAt
  rw [getElem?_filterMap_range]
  · simp
  · intro i hi
    obtain ⟨c, hc, -⟩ := hinv.child d i hd hi
    rw [hc]
    rfl

theorem TreeInv.childList_nodup (hd : s.Used d) : (s.childList d).Nodup := by
  refine nodup_iff_getElem?_ne_getElem?.mpr fun i j hij hj heq => ?_
  obtain ⟨c, hc⟩ : ∃ c, (s.childList d)[j]? = some c := ⟨_, getElem?_eq_getElem hj⟩
  have hat := (hinv.getElem?_childList hd j c).mp hc
  have hat' := (hinv.getElem?_childList hd i c).mp (heq.trans hc)
  have := hinv.child_inj d i j c hd hat' hat
  omega

end

/-- The node `x` is gone, and every other node has kept its name, its kind, its place, its
contents and the order of its children. -/
structure OnlyGone (s s' : State) (x : NodeIx) : Prop where
  was : s.Used x
  used : ∀ n, s'.Used n ↔ s.Used n ∧ n ≠ x
  name : ∀ n, s'.Used n → (s'.g_nodes n).name = (s.g_nodes n).name
  type : ∀ n, s'.Used n → (s'.g_nodes n).type = (s.g_nodes n).type
  parent : ∀ n, s'.Used n → (s'.g_nodes n).parent = (s.g_nodes n).parent
  contents : ∀ n, n ≠ x → s'.file n = s.file n
  children : ∀ n, s'.Used n → s'.childList n = (s.childList n).erase x

variable {s' : State}

/-- A removed child is taken out of its directory's list, and stands in no other. -/
theorem Removed.childList {i : Nat} (h : Removed s s' d x i) (hinv : TreeInv s) (hn : s'.Used n) :
    s'.childList n = (s.childList n).erase x := by
  obtain ⟨hused, hnx⟩ := (h.used_iff n).mp hn
  have hinv' := h.tree hinv
  by_cases hnd : n = d
  · subst hnd
    have hat : (s.childList n)[i]? = some x := (hinv.getElem?_childList hused i x).mpr h.at_i
    obtain ⟨hi, hx⟩ := List.getElem?_eq_some_iff.mp hat
    have hidx : (s.childList n).idxOf x = i := by
      rw [← hx]
      exact (hinv.childList_nodup hused).idxOf_getElem i hi
    rw [erase_eq_eraseIdx_of_idxOf hidx]
    refine ext_getElem? fun j => Option.ext fun c => ?_
    rw [hinv'.getElem?_childList hn, h.childAt_iff hnx, if_pos rfl, List.getElem?_eraseIdx,
      ← hinv.getElem?_childList hused]
    unfold liftPos
    split <;> rfl
  · have hsame : s'.childList n = s.childList n := by
      unfold State.childList
      rw [h.other n hnx hnd]
    rw [hsame, erase_of_not_mem]
    intro hmem
    obtain ⟨j, hj⟩ := mem_iff_getElem?.mp hmem
    have hp := (hinv.childAt_parent hused ((hinv.getElem?_childList hused j x).mp hj)).2
    have hpd := (hinv.childAt_parent h.dir_used h.at_i).2
    exact hnd (Option.some.inj (hp.symm.trans hpd))

/-- A removal takes away one node. -/
theorem Removed.onlyGone {i : Nat} (h : Removed s s' d x i) (hinv : Inv s) :
    OnlyGone s s' x where
  was := h.used
  used := h.used_iff
  name := fun n hn => (h.old ((h.used_iff n).mp hn).2).name
  type := fun n hn => (h.old ((h.used_iff n).mp hn).2).type
  parent := fun n hn => (h.old ((h.used_iff n).mp hn).2).parent
  contents := fun n hn => by rw [h.file hinv.data, Function.update_of_ne hn]
  children := fun _ hn => h.childList hinv.tree hn

theorem OnlyGone.unique {y : NodeIx} (hx : OnlyGone s s' x) (hy : OnlyGone s s' y) :
    x = y := by
  by_contra hne
  exact ((hx.used x).mp ((hy.used x).mpr ⟨hx.was, hne⟩)).2 rfl

/-! ## Removing a node by its path -/

/-- The two calls that remove a node. -/
inductive Removal where
  | unlink
  | rmdir
  deriving DecidableEq, Repr

def Removal.exec (op : Removal) (s : State) (path : CString) : Except FsErr Unit × State :=
  match op with
  | .unlink => ramfs_core_unlink s (some path)
  | .rmdir => ramfs_core_rmdir s (some path)

/-- A removal that succeeds takes out the node that the path leads to. -/
theorem Removal.spec (hinv : Inv s) {op : Removal} {path : CString}
    (hok : (op.exec s path).1 = .ok ()) :
    ∃ d x i, fs_resolve_path s path.bytes = .ok x ∧ Removed s (op.exec s path).2 d x i := by
  cases op with
  | unlink =>
    obtain ⟨rc, heq⟩ | ⟨-, d, x, i, ⟨p, hp, hr⟩, -, hrem⟩ :=
      ramfs_core_unlink_spec hinv (some path)
    · cases hok.symm.trans (congrArg Prod.fst heq)
    · cases hp
      exact ⟨d, x, i, hr, hrem⟩
  | rmdir =>
    obtain ⟨rc, heq⟩ | ⟨-, d, x, i, ⟨p, hp, hr⟩, -, hrem⟩ :=
      ramfs_core_rmdir_spec hinv (some path)
    · cases hok.symm.trans (congrArg Prod.fst heq)
    · cases hp
      exact ⟨d, x, i, hr, hrem⟩

/-- Exactly one node is gone, and its name and those of its ancestors are the ones that the
path asks for, up to case. -/
def HitsNamed (s s' : State) (path : List UInt8) : Prop :=
  ∃ x names cwd, OnlyGone s s' x ∧ s.Spells x names ∧ s.Spells s.g_cwd cwd ∧
    List.Forall₂ SameName names (stackOf cwd path)

/-- A name on the way down from the root to what the path stands for is answered by the alias
rule. -/
def PathMeetsAlias (s : State) (path : List UInt8) : Prop :=
  ∃ cwd, s.Spells s.g_cwd cwd ∧ MeetsAlias s s.g_root (stackOf cwd path)

/-- A removal that succeeds takes away one node, and it is the node named exactly if the
path meets no alias. -/
theorem Removal.hits_named_iff (hinv : Inv s) {op : Removal} {path : CString}
    (hok : (op.exec s path).1 = .ok ()) :
    (∃ x, OnlyGone s (op.exec s path).2 x) ∧
      (HitsNamed s (op.exec s path).2 path.bytes ↔ ¬ PathMeetsAlias s path.bytes) := by
  obtain ⟨d, x, i, hr, hrem⟩ := Removal.spec hinv hok
  have hgone := hrem.onlyGone hinv
  obtain ⟨cwd, hcwd⟩ := (hinv.tree.rooted _ hinv.tree.cwd_used).spells
  obtain ⟨names, hnames, hiff⟩ := walk_names hinv.tree hinv.tree.root_used .root
    (resolve_path_walk hinv.tree hcwd hr)
  refine ⟨⟨x, hgone⟩, ?_⟩
  constructor
  · rintro ⟨y, names', cwd', hy, hnames', hcwd', hsame⟩ ⟨cwd'', hcwd'', halias⟩
    cases hgone.unique hy
    cases hcwd.unique hinv.tree hcwd'
    cases hcwd.unique hinv.tree hcwd''
    cases hnames.unique hinv.tree hnames'
    exact hiff.mp hsame halias
  · intro hno
    exact ⟨x, names, cwd, hgone, hnames, hcwd, hiff.mpr fun h => hno ⟨cwd, hcwd, h⟩⟩

/-- In every reachable tree a removal that succeeds takes out exactly one node and leaves
everything else as it was, and it hits the node that the path names exactly if no name on the
way is answered by the alias rule. -/
theorem removal_hits_named_iff (calls : List Call) (op : Removal) (path : CString) :
    let s := calls.foldl exec ramfs_core_reset_empty
    (op.exec s path).1 = .ok () →
      (∃ x, OnlyGone s (op.exec s path).2 x) ∧
      (HitsNamed s (op.exec s path).2 path.bytes ↔ ¬ PathMeetsAlias s path.bytes) :=
  fun hok => Removal.hits_named_iff (run_inv calls) hok

/-- The paths `/a`, `/A`, `/a~1` and `/apple`. -/
def smallA : CString := ⟨[0x2F, 0x61], by decide⟩
def bigA : CString := ⟨[0x2F, 0x41], by decide⟩
def aTilde : CString := ⟨[0x2F, 0x61, 0x7E, 0x31], by decide⟩
def applePath : CString := ⟨[0x2F, 0x61, 0x70, 0x70, 0x6C, 0x65], by decide⟩

/-- A filesystem with one file. -/
def oneFile (path : CString) : List Call := [.open (some path) (FS_O_CREAT ||| FS_O_WRONLY)]

/-- The file `a` removed as `/A`. -/
theorem removal_hits_other_case :
    let s := (oneFile smallA).foldl exec ramfs_core_reset_empty
    (Removal.unlink.exec s bigA).1 = .ok () ∧
      HitsNamed s (Removal.unlink.exec s bigA).2 bigA.bytes := by
  intro s
  have hok : (Removal.unlink.exec s bigA).1 = .ok () := by decide +kernel
  refine ⟨hok, ((removal_hits_named_iff (oneFile smallA) .unlink bigA hok).2).mpr ?_⟩
  rintro ⟨cwd, -, c, hf, halias | hmore⟩
  · have hc : c = ⟨1, by decide⟩ := by
      have hfound : fs_find_child s s.g_root [0x41] = some ⟨1, by decide⟩ := by decide +kernel
      exact Option.some.inj (hf.symm.trans hfound)
    subst hc
    apply halias.2
    unfold SameName
    decide +kernel
  · exact hmore

/-- The only file is `a~1`; `/apple` names nothing, and removing it succeeds and removes the
file. -/
theorem apple_removes_alias :
    let s := (oneFile aTilde).foldl exec ramfs_core_reset_empty
    (Removal.unlink.exec s applePath).1 = .ok () ∧
      ¬ HitsNamed s (Removal.unlink.exec s applePath).2 applePath.bytes := by
  intro s
  have hok : (Removal.unlink.exec s applePath).1 = .ok () := by decide +kernel
  refine ⟨hok, ((Removal.hits_named_iff (run_inv _) hok).2).not.mpr (not_not.mpr ?_)⟩
  refine ⟨[], ?_, ⟨1, by decide⟩, by decide +kernel, .inl ⟨by decide +kernel, ?_⟩⟩
  · have hcwd : s.g_cwd = s.g_root := by decide +kernel
    rw [hcwd]
    exact .root
  · unfold SameName
    decide +kernel

/-! ## A node under its own path -/

/-- A segment ends where the names behind it begin with their slash. -/
theorem next_segment_joined (hname : GoodName name) (names : List (List UInt8)) :
    fs_next_segment (joined (name :: names)) = .ok (some (name, joined names)) := by
  obtain ⟨a, tail, rfl⟩ := exists_cons_of_ne_nil hname.nonempty
  have ha : a ≠ 0x2F := fun h => hname.noslash (h ▸ mem_cons_self)
  have hpath : (joined ((a :: tail) :: names)).dropWhile (· = 0x2F) =
      a :: tail ++ joined names := by
    rw [joined_cons, dropWhile_cons_of_pos (by rfl), cons_append,
      dropWhile_cons_of_neg (by simpa using ha)]
  have htake : (a :: tail ++ joined names).takeWhile (· ≠ 0x2F) = a :: tail :=
    (takeWhile_comp hname.noslash names).1
  have hdrop : (a :: tail ++ joined names).dropWhile (· ≠ 0x2F) = joined names := by
    grind [takeWhile_append_dropWhile, append_cancel_left]
  unfold fs_next_segment
  rw [hpath, if_neg (by simp), htake, if_neg (Nat.not_le.mpr hname.short), hdrop]

/-- Names that can stand in a path lead where the walk along them leads. -/
theorem resolve_loop_joined (hgood : ∀ c ∈ names, GoodName c) (h : walk s d names = some x) :
    fs_resolve_loop s d (joined names) = .ok x := by
  induction names generalizing d with
  | nil =>
    cases h
    exact resolve_loop_end rfl
  | cons name names ih =>
    obtain ⟨c, hf, h⟩ := walk_cons.mp h
    have hname := hgood name mem_cons_self
    rw [resolve_loop_child (next_segment_joined hname names) hname.ne_dot hname.ne_dotdot
      (fs_find_child_some hf).1 hf]
    exact ih (fun c hc => hgood c (mem_cons_of_mem _ hc)) h

section

variable {s : State} (hinv : TreeInv s) {x : NodeIx} {names : List (List UInt8)}

include hinv

/-- The path of its own names leads to a node, from everywhere. -/
theorem State.Spells.resolves (hx : s.Used x) (h : s.Spells x names) (start : NodeIx) :
    fs_resolve_path_from s start (pathOf names) = .ok x := by
  have hhead : (pathOf names).head? = some 0x2F := pathOf_head names
  unfold fs_resolve_path_from
  rw [if_pos hhead, if_neg (pathOf_ne_nil names)]
  have hwalk := h.walk hinv hx
  unfold pathOf
  split
  · next hnil =>
    -- the path of the root has a slash and no name
    rw [hnil] at hwalk
    cases hwalk
    exact resolve_loop_end rfl
  · exact resolve_loop_joined (h.good hinv hx) hwalk

/-- The chain of parents spells the path backwards. -/
theorem parent_chain_joined {n : Nat} (h : s.Spells x names) (hn : names.length < n) :
    ((parent_chain s n x).reverse.filter (· ≠ s.g_root)).flatMap
      (fun node => 0x2F :: (s.g_nodes node).name) = joined names := by
  induction h generalizing n with
  | root =>
    obtain ⟨n, rfl⟩ := Nat.exists_eq_add_one_of_ne_zero (Nat.ne_of_gt hn)
    unfold parent_chain
    rw [if_pos rfl]
    simp
  | child hp _ ih =>
    rw [length_append, length_singleton] at hn
    obtain ⟨n, rfl⟩ := Nat.exists_eq_add_one_of_ne_zero (Nat.ne_of_gt (Nat.zero_lt_of_lt hn))
    have hne := hinv.ne_root_of_parent hp
    have hrest := ih (Nat.lt_of_succ_lt_succ hn)
    unfold parent_chain
    rw [if_neg hne, hp]
    simp only [reverse_cons, filter_append, flatMap_append, hrest,
      joined_snoc, filter_singleton]
    simp [hne, SLASH]

end

/-- Each component takes a slash and at least one byte. -/
theorem length_joined_ge (h : ∀ c ∈ names, c ≠ []) :
    2 * names.length ≤ (joined names).length := by
  induction names with
  | nil => exact Nat.le_refl _
  | cons name names ih =>
    have hname := length_pos_iff.mpr (h name mem_cons_self)
    grind [joined_cons, length_cons, length_append]

/-- The path of the working directory, where it fits the buffer. -/
theorem get_cwd_path_eq (hinv : TreeInv s) (h : s.Spells s.g_cwd names)
    (hfit : (pathOf names).length < FS_PATH_CAP) :
    ramfs_core_get_cwd_path s = pathOf names := by
  have hlen := length_joined_ge fun c hc => (h.good hinv hinv.cwd_used c hc).nonempty
  unfold ramfs_core_get_cwd_path
  by_cases hnil : names = []
  · subst hnil
    rw [parent_chain_joined hinv h (by decide)]
    rfl
  rw [pathOf_of_ne_nil hnil] at hfit ⊢
  have hjoined : joined names ≠ [] := by grind [length_eq_zero_iff.mp]
  have hdepth : names.length < FS_PATH_CAP / 2 := by
    unfold FS_PATH_CAP at hfit ⊢
    omega
  rw [parent_chain_joined hinv h hdepth, if_neg hjoined, take_of_length_le (by omega)]

/-- Good names have no NUL. -/
theorem pathOf_nonul (h : ∀ c ∈ names, GoodName c) :
    0 ∉ pathOf names := by
  unfold pathOf
  split
  · decide
  intro hmem
  obtain ⟨c, hc, hmem⟩ := mem_flatMap.mp hmem
  obtain hslash | hmem := mem_cons.mp hmem
  · revert hslash
    decide
  · exact (h c hc).nonul hmem

/-- In every reachable state the path of the working directory, if it fits, is what
`ramfs_core_get_cwd_path` returns, and changing to it from wherever one is comes back to that
directory. And every used node has a path of stored names, which leads to that node. -/
theorem cwd_path_round_trip (calls : List Call) :
    let s := calls.foldl exec ramfs_core_reset_empty
    (∀ names, s.Spells s.g_cwd names → (pathOf names).length < FS_PATH_CAP →
      ∃ path : CString, path.bytes = ramfs_core_get_cwd_path s ∧ path.bytes = pathOf names ∧
        ∀ c, ramfs_core_change_dir { s with g_cwd := c } (some path) = (.ok (), s)) ∧
    ∀ x, s.Used x → (∃ names, s.Spells x names) ∧
      ∀ names, s.Spells x names → ∀ start, fs_resolve_path_from s start (pathOf names) = .ok x := by
  intro s
  have hinv : TreeInv s := (run_inv calls).tree
  refine ⟨?_, ?_⟩
  · intro names hnames hfit
    refine ⟨⟨pathOf names, pathOf_nonul (hnames.good hinv hinv.cwd_used)⟩,
      (get_cwd_path_eq hinv hnames hfit).symm, rfl, fun c => ?_⟩
    -- only the start of a relative path depends on the working directory
    have hresolve : fs_resolve_path { s with g_cwd := c } (pathOf names) = .ok s.g_cwd := by
      have hsame : TreeSame s { s with g_cwd := c } :=
        ⟨fun _ => .rfl, fun _ _ => rfl, fun _ _ => rfl, fun _ _ => rfl, fun _ _ => rfl,
          fun _ _ => rfl, rfl⟩
      rw [← hnames.resolves hinv hinv.cwd_used c]
      have hhead : (pathOf names).head? = some 0x2F := pathOf_head names
      unfold fs_resolve_path fs_resolve_path_from
      rw [if_pos hhead]
      dsimp only
      rw [hsame.resolve_loop hinv _ _ hinv.root_used]
    unfold ramfs_core_change_dir
    dsimp only
    rw [hresolve]
    exact if_neg (not_not.mpr hinv.cwd_dir)
  · intro x hx
    exact ⟨(hinv.rooted x hx).spells, fun names hnames start => hnames.resolves hinv hx start⟩

end System1.Ramfs
