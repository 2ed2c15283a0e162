/-
Paths in the form the layer keeps them: a slash, or components joined by slashes.

The loop of `fs_core_normalize_path` has such a path in its buffer and appends, drops or
skips one component a turn; here is what a turn does to the buffer. It finds the last
component again by scanning back over the bytes, and `fs_parent_path` does the same.
-/
import System1.Vfs
import Mathlib.Data.List.Induction
import Mathlib.Data.List.TakeWhile

set_option autoImplicit false

namespace System1.Vfs

open List

/-- A component the loop keeps. -/
structure IsComp (c : List UInt8) : Prop where
  noSlash : SLASH ∉ c
  noNul : 0 ∉ c
  nonempty : c ≠ []
  notDot : c ≠ [0x2E]
  notDotdot : c ≠ [0x2E, 0x2E]
  short : c.length < FS_NAME_CAP

/-- Components, each behind a slash. -/
def joined (cs : List (List UInt8)) : List UInt8 := cs.flatMap fun c => SLASH :: c

@[simp] theorem joined_nil : joined [] = [] := rfl

@[simp] theorem joined_cons (c : List UInt8) (cs : List (List UInt8)) :
    joined (c :: cs) = SLASH :: (c ++ joined cs) := by
  simp [joined]

theorem joined_append (cs ds : List (List UInt8)) : joined (cs ++ ds) = joined cs ++ joined ds := by
  simp [joined]

theorem joined_snoc (cs : List (List UInt8)) (c : List UInt8) :
    joined (cs ++ [c]) = joined cs ++ SLASH :: c := by
  simp [joined_append]

/-- The path with the given components. -/
def pathOf (cs : List (List UInt8)) : List UInt8 := if cs = [] then [SLASH] else joined cs

variable {cs : List (List UInt8)}

theorem pathOf_of_ne_nil (h : cs ≠ []) : pathOf cs = joined cs := if_neg h

theorem pathOf_head (names : List (List UInt8)) : (pathOf names).head? = some SLASH := by
  cases names with
  | nil => rfl
  | cons c names => simp [pathOf]

theorem pathOf_ne_nil (stack : List (List UInt8)) : pathOf stack ≠ [] := by
  intro hnil
  simpa [hnil] using pathOf_head stack

/-- A path in the form `fs_core_normalize_path` gives it. -/
structure IsPath (path : List UInt8) : Prop where
  comps : ∃ cs, (∀ c ∈ cs, IsComp c) ∧ path = pathOf cs
  short : path.length < FS_PATH_CAP

theorem isPath_root : IsPath [SLASH] :=
  ⟨⟨[], by simp, rfl⟩, by decide⟩

variable {path : List UInt8}

theorem IsPath.head (h : IsPath path) : path.head? = some SLASH := by
  obtain ⟨cs, -, rfl⟩ := h.comps
  exact pathOf_head cs

theorem IsPath.ne_nil (h : IsPath path) : path ≠ [] := by
  obtain ⟨cs, -, rfl⟩ := h.comps
  exact pathOf_ne_nil cs

/-- A path has no NUL. -/
theorem IsPath.noNul (h : IsPath path) : 0 ∉ path := by
  obtain ⟨cs, hcs, rfl⟩ := h.comps
  by_cases hnil : cs = []
  · subst hnil
    decide
  rw [pathOf_of_ne_nil hnil]
  intro hmem
  obtain ⟨c, hc, h0⟩ := mem_flatMap.mp hmem
  obtain h0 | h0 := mem_cons.mp h0
  · cases h0
  · exact (hcs c hc).noNul h0

/-- A buffer of `FS_PATH_CAP` bytes holds such a path whole. -/
theorem IsPath.copy (h : IsPath path) : fs_copy_name FS_PATH_CAP path = path :=
  take_of_length_le (Nat.le_sub_one_of_lt h.short)

theorem cut_of_noNul (h : 0 ∉ path) : (CString.cut path).bytes = path := by
  apply takeWhile_eq_self_iff.mpr
  grind

/-! ## One component -/

variable {c : List UInt8}

/-- The scan stops behind the slash before a last component. -/
theorem scanBack_comp (before : List UInt8) (hc : SLASH ∉ c) :
    scanBack (before ++ SLASH :: c) (before ++ SLASH :: c).length = before.length + 1 := by
  -- the scan walks back over the bytes of `c`, all but the first `k` of them behind it
  have hscan : ∀ k, k ≤ c.length →
      scanBack (before ++ SLASH :: c) (before.length + 1 + k) = before.length + 1 := by
    intro k
    induction k with
    | zero =>
      intro _
      unfold scanBack
      simp
    | succ k ih =>
      intro hk
      have hget : (before ++ SLASH :: c).getD (before.length + 1 + k) 0 = c.get ⟨k, hk⟩ := by
        rw [getD_append_right _ _ _ _ (by omega),
          show before.length + 1 + k - before.length = k + 1 by omega, getD_cons_succ]
        simp [getD_eq_getElem?_getD, getElem?_eq_getElem hk]
      have hne : c.get ⟨k, hk⟩ ≠ SLASH := fun he => hc (he ▸ get_mem c ⟨k, hk⟩)
      grind [Nat.add_assoc, scanBack]
  have hlen : (before ++ SLASH :: c).length = before.length + 1 + c.length := by
    simp only [length_append, length_cons]
    omega
  rw [hlen]
  exact hscan c.length (Nat.le_refl _)

/-- The path a scan back cuts off its last component. -/
theorem take_scanBack (hc : SLASH ∉ c) (hcs : cs ≠ []) :
    (joined (cs ++ [c])).take (scanBack (joined (cs ++ [c])) (joined (cs ++ [c])).length - 1) =
      joined cs ∧ 1 < scanBack (joined (cs ++ [c])) (joined (cs ++ [c])).length := by
  rw [joined_snoc, scanBack_comp _ hc]
  refine ⟨?_, ?_⟩
  · rw [Nat.add_sub_cancel, take_left]
  · obtain ⟨d, ds, rfl⟩ := exists_cons_of_ne_nil hcs
    simp

/-- The `..` step drops the last component of a path. -/
theorem parentOf_pathOf (hcs : ∀ c ∈ cs, SLASH ∉ c) :
    parentOf (pathOf cs) = pathOf cs.dropLast := by
  induction cs using reverseRecOn with
  | nil => rfl
  | append_singleton cs c _ =>
    have hc : SLASH ∉ c := hcs c (by simp)
    rw [pathOf_of_ne_nil (by simp), dropLast_concat]
    unfold parentOf
    by_cases hnil : cs = []
    · -- the only component goes, and the slash before it stays
      subst hnil
      have hscan := scanBack_comp [] hc
      grind [joined_cons, joined_nil, pathOf]
    · grind [gt_iff_lt, take_scanBack, pathOf_of_ne_nil]

variable {temp : List UInt8}

/-- The separator an append puts behind the buffer. -/
def withSlash (temp : List UInt8) : List UInt8 :=
  if temp = [] then [SLASH] else if temp = [SLASH] then temp else temp ++ [SLASH]

/-- The check of the length comes before the copy. -/
theorem appendComp_eq {comp : List UInt8} (hne : comp ≠ []) :
    appendComp temp comp =
      if (withSlash temp ++ comp).length ≥ FS_PATH_CAP then .error .INVALID
      else .ok (withSlash temp ++ comp) := by
  show (if (withSlash temp).length ≥ FS_PATH_CAP then _ else if comp ≠ [] ∧
    (withSlash temp).length + comp.length ≥ FS_PATH_CAP then _ else _) = _
  rw [length_append]
  split
  · rw [if_pos (by omega)]
  by_cases hfit : (withSlash temp).length + comp.length ≥ FS_PATH_CAP
  · rw [if_pos ⟨hne, hfit⟩, if_pos hfit]
  · rw [if_neg (fun h => hfit h.2), if_neg hfit]
    rfl

theorem withSlash_pathOf (hcs : ∀ c ∈ cs, c ≠ []) :
    withSlash (pathOf cs) = joined cs ++ [SLASH] := by
  cases cs with
  | nil => rfl
  | cons c cs =>
    have hne := hcs c mem_cons_self
    simp [withSlash, pathOf, hne]

/-! ## The loop -/

theorem takeWhile_noSlash (cursor : List UInt8) : SLASH ∉ cursor.takeWhile (· ≠ SLASH) := by
  intro h
  have := mem_takeWhile_imp h
  simp at this

/-- What is left of the cursor behind a component and its slashes. -/
def afterComp (cursor : List UInt8) : List UInt8 :=
  (cursor.dropWhile (· ≠ SLASH)).dropWhile (· = SLASH)

theorem parentOf_length (temp : List UInt8) : (parentOf temp).length ≤ temp.length :=
  length_take_le' _ _

/-- The first component of a joined path, and what is behind it. -/
theorem takeWhile_comp (hc : SLASH ∉ c) (ds : List (List UInt8)) :
    (c ++ joined ds).takeWhile (· ≠ SLASH) = c ∧
      afterComp (c ++ joined ds) = (joined ds).dropWhile (· = SLASH) := by
  have hall : ∀ b ∈ c, decide (b ≠ SLASH) = true := by grind
  have hstop : (joined ds).takeWhile (fun b => decide (b ≠ SLASH)) = [] ∧
      (joined ds).dropWhile (fun b => decide (b ≠ SLASH)) = joined ds := by
    cases ds with
    | nil => exact ⟨rfl, rfl⟩
    | cons d ds => simp
  grind [afterComp, takeWhile_append_of_pos, dropWhile_append_of_pos]

theorem pathOf_dropLast_length (stack : List (List UInt8)) :
    (pathOf stack.dropLast).length ≤ (pathOf stack).length := by
  induction stack using reverseRecOn with
  | nil => exact Nat.le_refl _
  | append_singleton stack c _ =>
    have hne : stack ++ [c] ≠ [] := by simp
    grind [dropLast_concat, joined_snoc, length_append, length_cons, length_singleton, pathOf]

/-- `fs_parent_path` drops the last component of a path. -/
theorem parent_path_eq (hcs : ∀ c ∈ cs, IsComp c) (hshort : (pathOf cs).length < FS_PATH_CAP) :
    fs_parent_path (pathOf cs) FS_PATH_CAP = .ok (pathOf cs.dropLast) := by
  have hpath : IsPath (pathOf cs) := ⟨⟨cs, hcs, rfl⟩, hshort⟩
  unfold fs_parent_path
  rw [if_neg (by simp [hpath.head, FS_PATH_CAP])]
  induction cs using reverseRecOn with
  | nil => rfl
  | append_singleton cs c _ =>
    have hslash : SLASH ∉ c := (hcs c (by simp)).noSlash
    have hne : c ≠ [] := (hcs c (by simp)).nonempty
    have hpos : 0 < c.length := length_pos_iff.mpr hne
    rw [dropLast_concat]
    rw [pathOf_of_ne_nil (by simp)] at hshort ⊢
    have hlength : (joined (cs ++ [c])).length = (joined cs).length + 1 + c.length := by
      rw [joined_snoc, length_append, length_cons]
      omega
    rw [if_neg (by omega)]
    by_cases hnil : cs = []
    · -- the slash of a single component is the first byte
      subst hnil
      have hscan := scanBack_comp [] hslash
      simp only [nil_append, joined_cons, joined_nil, append_nil, length_nil,
        Nat.zero_add] at hscan ⊢
      rw [hscan, if_pos (Nat.le_refl 1)]
      rfl
    · obtain ⟨htake, hcut⟩ := take_scanBack hslash hnil
      grind [joined_snoc, scanBack_comp, pathOf_of_ne_nil]

/-- The directory of a path is a path. -/
theorem parent_isPath {out : List UInt8} (h : IsPath path)
    (hok : fs_parent_path path FS_PATH_CAP = .ok out) : IsPath out := by
  have hshort := h.short
  obtain ⟨cs, hcs, rfl⟩ := h.comps
  rw [parent_path_eq hcs hshort] at hok
  injection hok with hok
  subst hok
  exact ⟨⟨cs.dropLast, fun c hc => hcs c (dropLast_subset cs hc), rfl⟩,
    (pathOf_dropLast_length cs).trans_lt hshort⟩

end System1.Vfs
