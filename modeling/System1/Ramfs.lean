/-
The RAM filesystem, `src/kernel/core/fs/ramfs_core.c`.

The filesystem lives in two static arrays, 64 nodes and four 4096-byte data slots.
A directory node holds an array of child pointers and a count, and every node holds
a pointer to its parent. A file node holds the index of its data slot, or
`RAMFS_NO_DATA_SLOT` while it has none.

A pointer into `g_nodes` is a `NodeIx`, so it cannot leave the array; a pointer that
may be null is an `Option`. `g_root` and `g_cwd` are never null after
`ramfs_core_reset_empty`, and no driver call is made before it. Errors do not roll
anything back, so a function that can fail half way returns the state next to the
error.
-/
import System1.Base
import System1.Lib.ByteStore
import Mathlib.Data.List.FinRange

set_option autoImplicit false

namespace System1.Ramfs

open System1.Lib List Function

def FS_MAX_NODES : Nat := 64
def FS_MAX_CHILDREN : Nat := 16
def RAMFS_DATA_SLOT_CAP : Nat := 4
def RAMFS_DATA_SLOT_SIZE : Nat := 4096
def RAMFS_NO_DATA_SLOT : Nat := 0xFFFFFFFF

/-- A pointer to one of the entries of `g_nodes`. -/
abbrev NodeIx : Type := Fin FS_MAX_NODES

/-- `FS_NODE_DIR` and `FS_NODE_FILE`; `UNSET` is the zero of a cleared node. -/
inductive NodeType where
  | UNSET
  | DIR
  | FILE
  deriving DecidableEq, Repr

/-- `fs_node_t`. -/
structure FsNode where
  used : Bool
  type : NodeType
  name : List UInt8
  parent : Option NodeIx
  children : Nat → Option NodeIx
  child_count : Nat
  data_slot : Nat
  size : Nat

/-- A node after `fs_memzero`. -/
def FsNode.zero : FsNode where
  used := false
  type := .UNSET
  name := []
  parent := none
  children := fun _ => none
  child_count := 0
  data_slot := 0
  size := 0

/-- `ramfs_data_slot_t`. -/
structure DataSlot where
  used : Bool
  data : Nat → UInt8

/-- A data slot after `fs_memzero`. -/
def DataSlot.zero : DataSlot := ⟨false, fun _ => 0⟩

/-- The static variables of the module. -/
structure State where
  g_nodes : NodeIx → FsNode
  g_data_slots : Nat → DataSlot
  g_root : NodeIx
  g_cwd : NodeIx
  g_dirty : Bool

/-- Store a node. -/
def State.setNode (s : State) (i : NodeIx) (n : FsNode) : State :=
  { s with g_nodes := update s.g_nodes i n }

/-- Store a data slot. -/
def State.setSlot (s : State) (i : Nat) (d : DataSlot) : State :=
  { s with g_data_slots := update s.g_data_slots i d }

/-! ## Names -/

def fs_lower (c : UInt8) : UInt8 :=
  if 0x41 ≤ c ∧ c ≤ 0x5A then c + 0x20 else c

/-- The number of bytes before the first `~`. -/
def alias_len (stored : List UInt8) : Nat := (stored.takeWhile (· ≠ 0x7E)).length

/-- Equality up to case, or an alias match: a stored `BASE~digits` also answers to
every longer name that starts with `BASE`. The read of `requested[alias_len]` may lie
beyond the terminator; a name that short then fails the comparison of the bases. -/
def fs_name_eq (stored requested : List UInt8) : Bool :=
  if stored.map fs_lower = requested.map fs_lower then true
  else
    let n := alias_len stored
    if n = stored.length ∨ n = 0 ∨ requested.length ≤ n then false
    else if (stored.drop (n + 1)).any (fun c => c < 0x30 || c > 0x39) then false
    else decide ((stored.take n).map fs_lower = (requested.take n).map fs_lower)

/-- The copy loop of `fs_name_copy`: the bytes copied so far, and whether the whole
name was. -/
def fs_name_copy_loop : List UInt8 → List UInt8 → List UInt8 × Bool
  | dst, [] => (dst, true)
  | dst, c :: src =>
    if c = 0x2F then (dst, false)
    else if dst.length + 1 ≥ FS_NAME_CAP then (dst, false)
    else fs_name_copy_loop (dst ++ [c]) src

/-- The destination after the call, and whether it returned `FS_OK`; every failure
is `FS_ERR_INVALID`. -/
def fs_name_copy (src : List UInt8) : List UInt8 × Bool :=
  if src = [] then ([], false) else fs_name_copy_loop [] src

/-! ## Nodes and data slots -/

def fs_alloc_node (s : State) : Option (NodeIx × State) :=
  match (finRange FS_MAX_NODES).find? (fun i => (s.g_nodes i).used = false) with
  | none => none
  | some i =>
    some (i, s.setNode i { FsNode.zero with used := true, data_slot := RAMFS_NO_DATA_SLOT })

def ramfs_alloc_data_slot (s : State) : Option (Nat × State) :=
  match (range RAMFS_DATA_SLOT_CAP).find? (fun i => (s.g_data_slots i).used = false) with
  | none => none
  | some i => some (i, s.setSlot i { DataSlot.zero with used := true })

def ramfs_free_data_slot (s : State) (slot : Nat) : State :=
  if slot ≥ RAMFS_DATA_SLOT_CAP then s else s.setSlot slot DataSlot.zero

/-- The node's data, when it owns a slot. -/
def ramfs_node_data (s : State) (node : NodeIx) : Option (Nat → UInt8) :=
  if (s.g_nodes node).data_slot ≥ RAMFS_DATA_SLOT_CAP ∨
      (s.g_data_slots (s.g_nodes node).data_slot).used = false then none
  else some (s.g_data_slots (s.g_nodes node).data_slot).data

def ramfs_ensure_data_slot (s : State) (node : NodeIx) : Except FsErr Unit × State :=
  if (s.g_nodes node).type ≠ .FILE then (.error .INVALID, s)
  else if (ramfs_node_data s node).isSome then (.ok (), s)
  else
    match ramfs_alloc_data_slot s with
    | none => (.error .NO_SPACE, s)
    | some (slot, s') => (.ok (), s'.setNode node { s'.g_nodes node with data_slot := slot })

/-- Node identifiers are indices plus one. -/
def fs_node_id (node : NodeIx) : Nat := node.val + 1

def fs_node_from_id (s : State) (node_id : Nat) : Option NodeIx :=
  if node_id = 0 then none
  else if h : node_id - 1 < FS_MAX_NODES then
    if (s.g_nodes ⟨node_id - 1, h⟩).used = false then none else some ⟨node_id - 1, h⟩
  else none

/-- The first child whose stored name matches. The first `child_count` slots are
never null, so the null case is not reached. -/
def fs_find_child (s : State) (dir : NodeIx) (name : List UInt8) : Option NodeIx :=
  if (s.g_nodes dir).type ≠ .DIR then none
  else
    (range (s.g_nodes dir).child_count).findSome? fun i =>
      match (s.g_nodes dir).children i with
      | some c => if fs_name_eq (s.g_nodes c).name name then some c else none
      | none => none

def fs_attach_child (s : State) (parent child : NodeIx) : Except FsErr Unit × State :=
  let p := s.g_nodes parent
  if p.type ≠ .DIR then (.error .INVALID, s)
  else if p.child_count ≥ FS_MAX_CHILDREN then (.error .NO_SPACE, s)
  else
    let s := s.setNode parent { p with
      children := update p.children p.child_count (some child)
      child_count := p.child_count + 1 }
    (.ok (), s.setNode child { s.g_nodes child with parent := some parent })

/-- A creation that fails after `fs_alloc_node` gives the node back, with whatever
has been written into it by then. -/
def fs_create_node (s : State) (parent : NodeIx) (name : List UInt8) (type : NodeType) :
    Except FsErr NodeIx × State :=
  if (s.g_nodes parent).type ≠ .DIR then (.error .NOT_DIR, s)
  else if (fs_find_child s parent name).isSome then (.error .EXISTS, s)
  else
    match fs_alloc_node s with
    | none => (.error .NO_SPACE, s)
    | some (node, s) =>
      let s := s.setNode node { s.g_nodes node with name := (fs_name_copy name).1 }
      if (fs_name_copy name).2 = false then
        (.error .INVALID, s.setNode node { s.g_nodes node with used := false })
      else
        let s := s.setNode node { s.g_nodes node with type := type }
        match fs_attach_child s parent node with
        | (.error rc, s) => (.error rc, s.setNode node { s.g_nodes node with used := false })
        | (.ok (), s) => (.ok node, s)

/-! ## Paths -/

/-- The names `.` and `..`. -/
def dotName : List UInt8 := [0x2E]
def dotdotName : List UInt8 := [0x2E, 0x2E]

/-- The next path segment and the rest of the path; `none` at the end. -/
def fs_next_segment (cursor : List UInt8) : Except FsErr (Option (List UInt8 × List UInt8)) :=
  let path := cursor.dropWhile (· = 0x2F)
  if path = [] then .ok none
  else if (path.takeWhile (· ≠ 0x2F)).length ≥ FS_NAME_CAP then .error .INVALID
  else .ok (some (path.takeWhile (· ≠ 0x2F), path.dropWhile (· ≠ 0x2F)))

/-- A segment is not empty and the cursor moves past it. -/
theorem fs_next_segment_some {cursor segment rest : List UInt8}
    (h : fs_next_segment cursor = .ok (some (segment, rest))) :
    segment ≠ [] ∧ segment.length < FS_NAME_CAP ∧ 0x2F ∉ segment ∧
      (∀ c ∈ segment, c ∈ cursor) ∧ rest <:+ cursor ∧ rest.length < cursor.length := by
  unfold fs_next_segment at h
  dsimp only at h
  split at h
  · cases h
  next hne =>
  split at h
  · cases h
  next hlen =>
  cases h
  obtain ⟨c, tail, hpath⟩ := exists_cons_of_ne_nil hne
  have hc : c ≠ 0x2F := by
    intro heq
    have hhead := head?_dropWhile_not (fun x : UInt8 => decide (x = 0x2F)) cursor
    rw [hpath] at hhead
    simp [heq] at hhead
  have hsuffix : (cursor.dropWhile (· = 0x2F)).length ≤ cursor.length :=
    (dropWhile_suffix _).length_le
  rw [hpath] at hlen hsuffix ⊢
  simp only [length_cons] at hsuffix
  refine ⟨?_, by omega, ?_, ?_, ?_, ?_⟩
  · simp [hc]
  · grind [all_eq_true.mp, all_takeWhile]
  · grind [takeWhile_subset, dropWhile_suffix]
  · exact hpath ▸ (dropWhile_suffix _).trans (dropWhile_suffix _)
  · have hdrop : (c :: tail).dropWhile (· ≠ 0x2F) = tail.dropWhile (· ≠ 0x2F) := by simp [hc]
    grind [dropWhile_suffix]

/-- The loop of `fs_resolve_path_from`. -/
def fs_resolve_loop (s : State) (current : NodeIx) (cursor : List UInt8) : Except FsErr NodeIx :=
  match _hseg : fs_next_segment cursor with
  | .error rc => .error rc
  | .ok none => .ok current
  | .ok (some (segment, rest)) =>
    if segment = dotName then fs_resolve_loop s current rest
    else if segment = dotdotName then
      fs_resolve_loop s ((s.g_nodes current).parent.getD current) rest
    else if (s.g_nodes current).type ≠ .DIR then .error .NOT_DIR
    else
      match fs_find_child s current segment with
      | none => .error .NOT_FOUND
      | some child => fs_resolve_loop s child rest
termination_by cursor.length
decreasing_by all_goals exact (fs_next_segment_some _hseg).2.2.2.2.2

def fs_resolve_path_from (s : State) (start : NodeIx) (path : List UInt8) : Except FsErr NodeIx :=
  let current := if path.head? = some 0x2F then s.g_root else start
  if path = [] then .ok current else fs_resolve_loop s current path

def fs_resolve_path (s : State) (path : List UInt8) : Except FsErr NodeIx :=
  fs_resolve_path_from s s.g_cwd path

/-- The loop of `fs_resolve_parent`: the directory the last segment is in, and that
segment. -/
def fs_resolve_parent_loop (s : State) (current : NodeIx) (cursor : List UInt8) :
    Except FsErr (NodeIx × List UInt8) :=
  match _hseg : fs_next_segment cursor with
  | .error _ => .error .INVALID
  | .ok none => .error .INVALID
  | .ok (some (segment, rest)) =>
    if rest.dropWhile (· = 0x2F) = [] then
      if segment = dotName ∨ segment = dotdotName then .error .INVALID
      else if (fs_name_copy segment).2 = false then .error .INVALID
      else .ok (current, (fs_name_copy segment).1)
    else if segment = dotName then fs_resolve_parent_loop s current rest
    else if segment = dotdotName then
      fs_resolve_parent_loop s ((s.g_nodes current).parent.getD current) rest
    else
      match fs_find_child s current segment with
      | none => .error .NOT_FOUND
      | some child =>
        if (s.g_nodes child).type ≠ .DIR then .error .NOT_DIR
        else fs_resolve_parent_loop s child rest
termination_by cursor.length
decreasing_by all_goals exact (fs_next_segment_some _hseg).2.2.2.2.2

def fs_resolve_parent (s : State) (path : List UInt8) : Except FsErr (NodeIx × List UInt8) :=
  fs_resolve_parent_loop s (if path.head? = some 0x2F then s.g_root else s.g_cwd) path

/-! ## The driver calls -/

/-- The state before the first call, and after every reset. -/
def ramfs_core_reset_empty : State :=
  let cleared : State :=
    { g_nodes := fun _ => FsNode.zero, g_data_slots := fun _ => DataSlot.zero
      g_root := ⟨0, by decide⟩, g_cwd := ⟨0, by decide⟩, g_dirty := false }
  match fs_alloc_node cleared with
  | none => cleared
  | some (root, s) =>
    { s.setNode root { s.g_nodes root with type := .DIR, name := [], parent := none } with
      g_root := root, g_cwd := root }

/-- `ramfs_core_import_node`. -/
def ramfs_core_import_node (s : State) (path : Option CString) (type : NodeType) :
    Except FsErr Unit × State :=
  match path with
  | none => (.error .INVALID, s)
  | some path =>
    if path.bytes.head? ≠ some 0x2F then (.error .INVALID, s)
    else if path.bytes.tail = [] then
      (if type = .DIR then .ok () else .error .INVALID, s)
    else
      match fs_resolve_parent s path.bytes with
      | .error rc => (.error rc, s)
      | .ok (parent, name) =>
        match fs_find_child s parent name with
        | some existing =>
          (if (s.g_nodes existing).type = type then .ok () else .error .EXISTS, s)
        | none =>
          match fs_create_node s parent name type with
          | (.error rc, s) => (.error rc, s)
          | (.ok _, s) => (.ok (), s)

def ramfs_core_import_dir (s : State) (path : Option CString) : Except FsErr Unit × State :=
  ramfs_core_import_node s path .DIR

def ramfs_core_import_file (s : State) (path : Option CString) : Except FsErr Unit × State :=
  ramfs_core_import_node s path .FILE

def ramfs_core_change_dir (s : State) (path : Option CString) : Except FsErr Unit × State :=
  match path with
  | none => (.error .INVALID, s)
  | some path =>
    match fs_resolve_path s path.bytes with
    | .error rc => (.error rc, s)
    | .ok node =>
      if (s.g_nodes node).type ≠ .DIR then (.error .NOT_DIR, s)
      else (.ok (), { s with g_cwd := node })

def ramfs_core_make_dir (s : State) (path : Option CString) : Except FsErr Unit × State :=
  match path with
  | none => (.error .INVALID, s)
  | some path =>
    match fs_resolve_parent s path.bytes with
    | .error rc => (.error rc, s)
    | .ok (parent, name) =>
      match fs_create_node s parent name .DIR with
      | (.error rc, s) => (.error rc, s)
      | (.ok _, s) => (.ok (), { s with g_dirty := true })

/-- The part of `ramfs_core_open` after the node has been found or created. -/
def ramfs_open_node (s : State) (node : NodeIx) (flags : Nat) : Except FsErr Nat × State :=
  if (s.g_nodes node).type ≠ .FILE then (.error .NOT_DIR, s)
  else if flags &&& FS_O_TRUNC ≠ 0 then
    if flags &&& FS_O_WRONLY = 0 then (.error .INVALID, s)
    else
      let s :=
        if (s.g_nodes node).data_slot ≠ RAMFS_NO_DATA_SLOT then
          let s := ramfs_free_data_slot s (s.g_nodes node).data_slot
          s.setNode node { s.g_nodes node with data_slot := RAMFS_NO_DATA_SLOT }
        else s
      let s := s.setNode node { s.g_nodes node with size := 0 }
      (.ok (fs_node_id node), { s with g_dirty := true })
  else (.ok (fs_node_id node), s)

def ramfs_core_open (s : State) (path : Option CString) (flags : Nat) : Except FsErr Nat × State :=
  match path with
  | none => (.error .INVALID, s)
  | some path =>
    match fs_resolve_path s path.bytes with
    | .ok node => ramfs_open_node s node flags
    | .error rc =>
      if rc = .NOT_FOUND ∧ flags &&& FS_O_CREAT ≠ 0 then
        match fs_resolve_parent s path.bytes with
        | .error rc => (.error rc, s)
        | .ok (parent, name) =>
          match fs_create_node s parent name .FILE with
          | (.error rc, s) => (.error rc, s)
          | (.ok node, s) => ramfs_open_node { s with g_dirty := true } node flags
      else (.error rc, s)

def ramfs_core_read (s : State) (node_id offset cap : Nat) : Except FsErr (List UInt8) :=
  match fs_node_from_id s node_id with
  | none => .error .INVALID
  | some node =>
    if (s.g_nodes node).type ≠ .FILE then .error .NOT_DIR
    else if offset ≥ (s.g_nodes node).size then .ok []
    else
      match ramfs_node_data s node with
      | none => .error .INVALID
      | some data =>
        .ok ((range (min ((s.g_nodes node).size - offset) cap)).map
          fun i => data (offset + i))

/-- `buffer` is null or the bytes it points to; the call returns the number of bytes
written. -/
def ramfs_core_write (s : State) (node_id offset : Nat) (buffer : Option (List UInt8))
    (size : Nat) : Except FsErr Nat × State :=
  match fs_node_from_id s node_id with
  | none => (.error .INVALID, s)
  | some node =>
    if size > 0 ∧ buffer = none then (.error .INVALID, s)
    else if (s.g_nodes node).type ≠ .FILE then (.error .NOT_DIR, s)
    else if offset > RAMFS_DATA_SLOT_SIZE ∨ size > RAMFS_DATA_SLOT_SIZE - offset then
      (.error .NO_SPACE, s)
    else if size = 0 then (.ok 0, s)
    else
      match ramfs_ensure_data_slot s node with
      | (.error rc, s) => (.error rc, s)
      | (.ok (), s) =>
        match ramfs_node_data s node with
        | none => (.error .INVALID, s)
        | some data =>
          let bytes := fun i => (buffer.getD []).getD i 0
          let slot := (s.g_nodes node).data_slot
          let s := s.setSlot slot
            { s.g_data_slots slot with data := overlay data offset size bytes }
          let s :=
            if offset + size > (s.g_nodes node).size then
              s.setNode node { s.g_nodes node with size := offset + size }
            else s
          (.ok size, { s with g_dirty := true })

def ramfs_core_size (s : State) (node_id : Nat) : Except FsErr Nat :=
  match fs_node_from_id s node_id with
  | none => .error .INVALID
  | some node =>
    if (s.g_nodes node).type ≠ .FILE then .error .NOT_DIR else .ok (s.g_nodes node).size

def ramfs_core_close (s : State) (node_id : Nat) : Except FsErr Unit :=
  match fs_node_from_id s node_id with
  | none => .error .INVALID
  | some _ => .ok ()

/-- The inner loop of the removals, `children[j - 1] = children[j]` for the next `n`
values of `j`. -/
def shift_children (children : Nat → Option NodeIx) (j : Nat) : Nat → (Nat → Option NodeIx)
  | 0 => children
  | n + 1 => shift_children (update children (j - 1) (children j)) (j + 1) n

/-- The two removals take child `i` out of its directory the same way: shift the
later children down, clear the last slot, decrement the count. -/
def remove_child (p : FsNode) (i : Nat) : FsNode :=
  { p with
    children := update (shift_children p.children (i + 1) (p.child_count - (i + 1)))
      (p.child_count - 1) none
    child_count := p.child_count - 1 }

/-- The position of a child in its directory. -/
def child_index (p : FsNode) (node : NodeIx) : Option Nat :=
  (range p.child_count).find? fun i => p.children i = some node

def ramfs_core_unlink (s : State) (path : Option CString) : Except FsErr Unit × State :=
  match path with
  | none => (.error .INVALID, s)
  | some path =>
    match fs_resolve_path s path.bytes with
    | .error rc => (.error rc, s)
    | .ok node =>
      if node = s.g_root ∨ (s.g_nodes node).type = .DIR then (.error .IS_DIR, s)
      else
        match (s.g_nodes node).parent with
        | none => (.error .INVALID, s)
        | some parent =>
          if (s.g_nodes parent).type ≠ .DIR then (.error .INVALID, s)
          else
            match child_index (s.g_nodes parent) node with
            | none => (.error .INVALID, s)
            | some i =>
              let s := s.setNode parent (remove_child (s.g_nodes parent) i)
              let s :=
                if (s.g_nodes node).data_slot ≠ RAMFS_NO_DATA_SLOT then
                  ramfs_free_data_slot s (s.g_nodes node).data_slot
                else s
              (.ok (), { s.setNode node FsNode.zero with g_dirty := true })

def ramfs_core_rmdir (s : State) (path : Option CString) : Except FsErr Unit × State :=
  match path with
  | none => (.error .INVALID, s)
  | some path =>
    match fs_resolve_path s path.bytes with
    | .error rc => (.error rc, s)
    | .ok node =>
      if node = s.g_root ∨ node = s.g_cwd ∨ (s.g_nodes node).type ≠ .DIR then
        (.error .INVALID, s)
      else if (s.g_nodes node).child_count ≠ 0 then (.error .NOT_EMPTY, s)
      else
        match (s.g_nodes node).parent with
        | none => (.error .INVALID, s)
        | some parent =>
          match child_index (s.g_nodes parent) node with
          | none => (.error .INVALID, s)
          | some i =>
            let s := s.setNode parent (remove_child (s.g_nodes parent) i)
            (.ok (), { s.setNode node FsNode.zero with g_dirty := true })

/-! ## Queries -/

/-- The nodes from the given one up to the root, at most `n` of them. -/
def parent_chain (s : State) : Nat → NodeIx → List NodeIx
  | 0, _ => []
  | n + 1, node =>
    if node = s.g_root then [node]
    else
      match (s.g_nodes node).parent with
      | none => [node]
      | some parent => node :: parent_chain s n parent

/-- The path of the current directory, cut to the buffer. -/
def ramfs_core_get_cwd_path (s : State) : List UInt8 :=
  let names := ((parent_chain s (FS_PATH_CAP / 2) s.g_cwd).reverse.filter (· ≠ s.g_root)).flatMap
    fun node => 0x2F :: (s.g_nodes node).name
  if names = [] then [0x2F] else names.take (FS_PATH_CAP - 1)

def ramfs_core_read_file (s : State) (path : CString) (cap : Nat) : Except FsErr (List UInt8) :=
  match fs_resolve_path s path.bytes with
  | .error rc => .error rc
  | .ok node =>
    if (s.g_nodes node).type ≠ .FILE then .error .NOT_DIR
    else if cap < (s.g_nodes node).size then .error .NO_SPACE
    else
      match ramfs_node_data s node with
      | none => if (s.g_nodes node).size > 0 then .error .INVALID else .ok []
      | some data => .ok ((range (s.g_nodes node).size).map data)

def ramfs_core_stat (s : State) (path : CString) : Except FsErr FsStat :=
  match fs_resolve_path s path.bytes with
  | .error rc => .error rc
  | .ok node =>
    .ok
      { mode := if (s.g_nodes node).type = .DIR then FS_MODE_DIR else FS_MODE_FILE
        size := if (s.g_nodes node).type = .FILE then (s.g_nodes node).size else 0 }

end System1.Ramfs
