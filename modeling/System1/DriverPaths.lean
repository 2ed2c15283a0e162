/-
The path functions of the two disk drivers, `fat12_normalize_path` of `fat12_core.c` and
`iso_normalize_path` of `iso9660_core.c`, and that they agree with `fs_core_normalize_path`.

The two are the same text with two names, and a third version of the one in `fs_core.c`.
Where that one refuses a path, they cut: a name behind its 23rd byte, a path behind its
127th. So they can only agree on what the VFS accepts, and there they do, for any
canonical working directory: scanning back to the last slash gives the same buffer although
the two loops stop for different reasons, and the separator is put in the same places.

The working directory may even be longer than a path buffer. Then all three copy the same
first 127 bytes, which may end with a slash; the VFS and the drivers disagree about the
separator only there, and there the buffer is full.

A result is stored as it is when it is given to the drivers as a path, if it is canonical
and its names are short. A name that comes from the working directory need not be short
(`result_cut_by_drivers`).
-/
import System1.VfsStack

set_option autoImplicit false

namespace System1.Vfs

open List

/-! ## The functions -/

/-- `while (len > 0u && temp[len - 1u] != '/') --len`. -/
def lastSlash (temp : List UInt8) : Nat → Nat
  | 0 => 0
  | len + 1 => if temp.getD len 0 ≠ SLASH then lastSlash temp len else len + 1

/-- The `..` step of the drivers. -/
def driverParent (temp : List UInt8) : List UInt8 :=
  let len := lastSlash temp temp.length
  if len > 1 ∧ temp.getD (len - 1) 0 = SLASH then temp.take (len - 1)
  else if len = 1 then temp.take 1
  else []

/-- A separator where there is none and room for one, then as much of the name as fits. -/
def driverAppend (temp comp : List UInt8) : List UInt8 :=
  let temp :=
    if temp = [] ∨ temp.getD (temp.length - 1) 0 ≠ SLASH then
      if temp.length + 1 < FS_PATH_CAP then temp ++ [SLASH] else temp
    else temp
  temp ++ comp.take (FS_PATH_CAP - 1 - temp.length)

/-- The loop over the components. -/
def driverLoop (temp cursor : List UInt8) : List UInt8 :=
  if _h : cursor = [] then temp
  else
    let comp := (cursor.takeWhile (· ≠ SLASH)).take (FS_NAME_CAP - 1)
    let rest := (cursor.dropWhile (· ≠ SLASH)).dropWhile (· = SLASH)
    if comp = [] ∨ comp = [0x2E] then driverLoop temp rest
    else if comp = [0x2E, 0x2E] then driverLoop (driverParent temp) rest
    else driverLoop (driverAppend temp comp) rest
termination_by cursor.length
decreasing_by all_goals exact rest_length_lt _h

/-- What the two functions do from a working directory `cwd`. -/
def driverNormalize (cwd path : List UInt8) : List UInt8 :=
  let temp :=
    if path.head? = some SLASH then driverLoop [] (path.dropWhile (· = SLASH))
    else driverLoop (cwd.take (FS_PATH_CAP - 1)) path
  if temp = [] then [SLASH] else temp.take (FS_PATH_CAP - 1)

/-- With `g_fat12_cwd`. -/
def fat12_normalize_path (g_fat12_cwd path : List UInt8) : List UInt8 :=
  driverNormalize g_fat12_cwd path

/-- With `g_iso_cwd`. -/
def iso_normalize_path (g_iso_cwd path : List UInt8) : List UInt8 :=
  driverNormalize g_iso_cwd path

/-! ## Buffers -/

/-- Names that an append or a cut may have left: not empty and without a slash. -/
def Pieces (cs : List (List UInt8)) : Prop := ∀ c ∈ cs, SLASH ∉ c ∧ c ≠ []

/-- What the buffer of either loop holds: nothing, a path, or a path with a slash behind
it that fills the buffer. -/
inductive Kept : List UInt8 → Prop
  | none : Kept []
  | path {cs : List (List UInt8)} (hcs : Pieces cs) : Kept (pathOf cs)
  | full {cs : List (List UInt8)} (hcs : Pieces cs)
      (hlen : FS_PATH_CAP ≤ (joined cs ++ [SLASH]).length + 1) : Kept (joined cs ++ [SLASH])

variable {temp : List UInt8}

/-- Cutting off the last component keeps the form, -/
theorem Kept.parent (h : Kept temp) : Kept (parentOf temp) := by
  cases h with
  | none => exact .none
  | path hcs =>
    rw [parentOf_pathOf fun c hc => (hcs c hc).1]
    exact .path fun c hc => hcs c ((dropLast_sublist _).subset hc)
  | @full cs hcs hlen =>
    -- behind the slash stands an empty name, which goes together with the slash
    have hpieces : ∀ c ∈ cs ++ [[]], SLASH ∉ c := by
      intro c hc
      obtain hc | hc := mem_append.mp hc
      · exact (hcs c hc).1
      · rw [mem_singleton.mp hc]
        exact not_mem_nil
    have hdrop := parentOf_pathOf hpieces
    rw [dropLast_concat, pathOf_of_ne_nil (by simp), joined_snoc] at hdrop
    rw [hdrop]
    exact .path hcs

/-- A buffer that is not empty begins with a slash. -/
theorem Kept.head (h : Kept temp) : temp = [] ∨ temp.head? = some SLASH := by
  cases h with
  | none => exact .inl rfl
  | @path cs hcs => exact .inr (pathOf_head cs)
  | @full cs hcs hlen =>
    cases cs with
    | nil => exact .inr rfl
    | cons c cs => exact .inr (by simp)

variable {cs : List (List UInt8)}

/-- Behind a slash that fills the buffer the VFS finds no room for another. -/
theorem no_room (hlen : FS_PATH_CAP ≤ (joined cs ++ [SLASH]).length + 1) :
    FS_PATH_CAP ≤ (withSlash (joined cs ++ [SLASH])).length := by
  have hroot : joined cs ++ [SLASH] ≠ [SLASH] := by
    intro he
    rw [he] at hlen
    exact absurd hlen (by decide)
  grind [length_append, length_singleton, withSlash]

/-- and appending one does, where it fits. -/
theorem Kept.append {comp out : List UInt8} (h : Kept temp) (hcomp : SLASH ∉ comp) (hne : comp ≠ [])
    (hok : appendComp temp comp = .ok out) :
    Kept out ∧ out = withSlash temp ++ comp ∧ out.length < FS_PATH_CAP := by
  rw [appendComp_eq hne] at hok
  split at hok
  · cases hok
  next hroom =>
  injection hok with hok
  subst hok
  refine ⟨?_, rfl, Nat.lt_of_not_le hroom⟩
  have hsnoc : ∀ cs, Pieces cs → Holds temp cs → Kept (withSlash temp ++ comp) := by
    intro cs hcs hholds
    rw [hholds.append fun c hc => (hcs c hc).2]
    refine .path fun c hc => ?_
    obtain hc | hc := mem_append.mp hc
    · exact hcs c hc
    · rw [mem_singleton.mp hc]
      exact ⟨hcomp, hne⟩
  cases h with
  | none => exact hsnoc [] (by simp [Pieces]) (.inr ⟨rfl, rfl⟩)
  | @path cs hcs => exact hsnoc cs hcs (.inl rfl)
  | @full cs hcs hlen =>
    -- there is no room for a separator
    have hfull := no_room hlen
    rw [length_append] at hroom
    omega

/-- What fits into a path buffer of names behind slashes. -/
theorem take_joined (hcs : Pieces cs) (n : Nat) :
    ∃ ds, Pieces ds ∧ ((joined cs).take n = joined ds ∨
      (joined cs).take n = joined ds ++ [SLASH] ∧ ((joined cs).take n).length = n) := by
  induction cs generalizing n with
  | nil => exact ⟨[], by simp [Pieces], .inl (by simp)⟩
  | cons c cs ih =>
    obtain ⟨hslash, hne⟩ := hcs c mem_cons_self
    rw [joined_cons]
    cases n with
    | zero => exact ⟨[], by simp [Pieces], .inl rfl⟩
    | succ m =>
      rw [take_succ_cons]
      by_cases hzero : m = 0
      · -- cut right behind the slash
        subst hzero
        exact ⟨[], by simp [Pieces], .inr ⟨rfl, rfl⟩⟩
      by_cases hin : m ≤ c.length
      · -- cut inside the name
        refine ⟨[c.take m], ?_, .inl ?_⟩
        · intro d hd
          grind [length_take, length_nil]
        · rw [take_append_of_le_length hin]
          simp
      obtain ⟨ds, hds, hcut⟩ := ih (fun d hd => hcs d (mem_cons_of_mem c hd)) (m - c.length)
      have htake : (c ++ joined cs).take m = c ++ (joined cs).take (m - c.length) := by
        rw [take_append, take_of_length_le (by omega)]
      rw [htake]
      refine ⟨c :: ds, ?_, ?_⟩
      · intro d hd
        obtain rfl | hd := mem_cons.mp hd
        · exact ⟨hslash, hne⟩
        · exact hds d hd
      · obtain hcut | ⟨hcut, hlen⟩ := hcut
        · exact .inl (by rw [hcut, joined_cons])
        grind [joined_cons, length_cons, length_append]

variable {cwd : List UInt8}

/-- A working directory in a path buffer. -/
theorem kept_cwd (h : Canonical cwd) : Kept (cwd.take (FS_PATH_CAP - 1)) := by
  obtain ⟨cs, hcs, rfl⟩ := canonical_iff.mp h
  have hpieces : Pieces cs := fun c hc => ⟨(hcs c hc).noSlash, (hcs c hc).nonempty⟩
  by_cases hnil : cs = []
  · subst hnil
    exact .path hpieces
  rw [pathOf_of_ne_nil hnil]
  obtain ⟨ds, hds, hcut | ⟨hcut, hlen⟩⟩ := take_joined hpieces (FS_PATH_CAP - 1)
  · have hne : ds ≠ [] := by
      rintro rfl
      obtain ⟨c, cs, rfl⟩ := exists_cons_of_ne_nil hnil
      rw [joined_cons] at hcut
      cases hcut
    rw [hcut, ← pathOf_of_ne_nil hne]
    exact .path hds
  · rw [hcut] at hlen ⊢
    exact .full hds (by rw [hlen]; decide)

/-! ## One component -/

/-- The scan of the VFS and that of the drivers stop at the same slash. -/
theorem scanBack_eq_lastSlash (h : temp.head? = some SLASH) (len : Nat) :
    scanBack temp (len + 1) = lastSlash temp (len + 1) := by
  induction len with
  | zero =>
    obtain ⟨b, rest, rfl⟩ : ∃ b rest, temp = b :: rest :=
      exists_cons_of_ne_nil (by rintro rfl; cases h)
    grind [scanBack, lastSlash]
  | succ len ih =>
    unfold scanBack lastSlash
    grind

theorem lastSlash_spec {len : Nat} (h : 0 < lastSlash temp len) :
    temp.getD (lastSlash temp len - 1) 0 = SLASH := by
  induction len with
  | zero => cases h
  | succ len ih => grind [lastSlash]

/-- The scan for the last slash ends behind the first. -/
theorem lastSlash_pos (h : temp.head? = some SLASH) (len : Nat) :
    0 < lastSlash temp (len + 1) := by
  rw [← scanBack_eq_lastSlash h]
  induction len with
  | zero => exact Nat.one_pos
  | succ len ih =>
    unfold scanBack
    split
    · exact ih
    · exact Nat.succ_pos _

theorem driverParent_eq (h : temp = [] ∨ temp.head? = some SLASH) :
    driverParent temp = parentOf temp := by
  obtain rfl | hhead := h
  · rfl
  obtain ⟨b, rest, rfl⟩ : ∃ b rest, temp = b :: rest :=
    exists_cons_of_ne_nil (by rintro rfl; cases hhead)
  unfold driverParent parentOf
  grind [length_cons, scanBack_eq_lastSlash, lastSlash_pos, lastSlash_spec]

/-- A name the VFS accepts is not cut. -/
theorem whole_name {c : List UInt8} (h : ¬ c.length ≥ FS_NAME_CAP) : c.take (FS_NAME_CAP - 1) = c :=
  take_of_length_le (Nat.le_sub_one_of_lt (Nat.lt_of_not_le h))

/-- The last byte of a path is a slash only at the root. -/
theorem last_of_pieces (hcs : Pieces cs) (hne : cs ≠ []) :
    (joined cs).getD ((joined cs).length - 1) 0 ≠ SLASH := by
  induction cs using List.reverseRecOn with
  | nil => exact absurd rfl hne
  | append_singleton cs c _ =>
    obtain ⟨hslash, hc⟩ := hcs c (by simp)
    rw [joined_snoc]
    obtain ⟨c', b, rfl⟩ : ∃ c' b, c = c' ++ [b] := by
      rw [← dropLast_append_getLast hc]
      exact ⟨_, _, rfl⟩
    have hb : b ≠ SLASH := by
      rintro rfl
      exact hslash (by simp)
    rw [show joined cs ++ SLASH :: (c' ++ [b]) = (joined cs ++ SLASH :: c') ++ [b] by simp,
      length_append, length_singleton, Nat.add_sub_cancel,
      getD_append_right _ _ _ _ (Nat.le_refl _), Nat.sub_self]
    exact hb

/-- Where the VFS appends, the drivers append the same. -/
theorem driverAppend_eq {comp : List UInt8} (h : Kept temp)
    (hroom : (withSlash temp ++ comp).length < FS_PATH_CAP) :
    driverAppend temp comp = withSlash temp ++ comp := by
  -- the separator stands where the VFS has it, and then the whole name fits
  have hsep : (if temp = [] ∨ temp.getD (temp.length - 1) 0 ≠ SLASH then
      if temp.length + 1 < FS_PATH_CAP then temp ++ [SLASH] else temp else temp) =
      withSlash temp := by
    rw [length_append] at hroom
    cases h with
    | none => rfl
    | @path cs hcs =>
      by_cases hnil : cs = []
      · subst hnil
        rfl
      have hws := withSlash_pathOf fun c hc => (hcs c hc).2
      grind [length_append, length_singleton, pathOf_of_ne_nil, last_of_pieces]
    | @full cs hcs hlen =>
      have hfull := no_room hlen
      omega
  unfold driverAppend
  rw [hsep]
  dsimp only
  rw [length_append] at hroom
  rw [take_of_length_le (by omega)]

/-! ## The loops -/

theorem parentOf_length_lt (h : temp.length < FS_PATH_CAP) :
    (parentOf temp).length < FS_PATH_CAP := Nat.lt_of_le_of_lt (parentOf_length temp) h

/-- Where the loop of the VFS ends with a path, that of the drivers ends with the same. -/
theorem driverLoop_eq {out : List UInt8} {cursor : List UInt8} (h : Kept temp)
    (hlen : temp.length < FS_PATH_CAP) (hok : normalizeLoop temp cursor = .ok out) :
    driverLoop temp cursor = out ∧ Kept out ∧ out.length < FS_PATH_CAP := by
  fun_induction normalizeLoop temp cursor with
  | case1 temp => grind [driverLoop]
  | case2 => cases hok
  | case3 temp cursor hne comp rest hlong hskip ih => grind [driverLoop, whole_name]
  | case4 temp cursor hne comp rest hlong hskip hup ih =>
    rw [driverLoop, dif_neg hne, whole_name hlong, if_neg hskip, if_pos hup, driverParent_eq h.head]
    exact ih h.parent (parentOf_length_lt hlen) hok
  | case5 => cases hok
  | case6 temp cursor hne comp rest hlong hskip hup temp' happ ih =>
    have hcomp : cursor.takeWhile (· ≠ SLASH) ≠ [] := fun he => hskip (.inl he)
    obtain ⟨hkept, hout, hroom⟩ := h.append (takeWhile_noSlash cursor) hcomp happ
    rw [driverLoop, dif_neg hne, whole_name hlong, if_neg hskip, if_neg hup,
      driverAppend_eq h (hout ▸ hroom), ← hout]
    exact ih hkept hroom hok

variable {path r : List UInt8}

section

variable (hcwd : Canonical cwd) (hok : fs_core_normalize_path cwd path FS_PATH_CAP = .ok r)

include hcwd hok

/-- A path the VFS accepts: where its loop starts, and what becomes of the buffer. -/
theorem accepted :
    ∃ temp cursor out, Kept temp ∧ temp.length < FS_PATH_CAP ∧
      normalizeLoop temp cursor = .ok out ∧
      r = (if out = [] then [SLASH] else out.take (FS_PATH_CAP - 1)) ∧
      driverNormalize cwd path = if driverLoop temp cursor = [] then [SLASH]
        else (driverLoop temp cursor).take (FS_PATH_CAP - 1) := by
  -- the end of the function, from any buffer
  have hend : ∀ out : List UInt8, (if out = [] then Except.ok [SLASH]
        else if out.length + 1 > FS_PATH_CAP then .error FsErr.INVALID
        else .ok (fs_copy_name FS_PATH_CAP out)) = .ok r →
      r = if out = [] then [SLASH] else out.take (FS_PATH_CAP - 1) := by
    intro out hres
    split at hres
    next hnil =>
      injection hres with hres
      rw [if_pos hnil, hres]
    next hnil =>
      split at hres
      · cases hres
      injection hres with hres
      rw [if_neg hnil, ← hres]
      rfl
  unfold fs_core_normalize_path at hok
  unfold driverNormalize
  split at hok
  · cases hok
  by_cases habs : path.head? = some SLASH
  · simp only [if_pos habs] at hok ⊢
    split at hok
    · cases hok
    next out hloop =>
      exact ⟨[], _, out, .none, Nat.zero_lt_succ 127, hloop, hend out hok, rfl⟩
  have hne : cwd ≠ [] := by
    rintro rfl
    exact absurd hcwd (by decide)
  simp only [if_neg habs, if_neg hne] at hok ⊢
  split at hok
  · cases hok
  next out hloop =>
    refine ⟨cwd.take (FS_PATH_CAP - 1), path, out, kept_cwd hcwd, ?_, hloop, hend out hok, rfl⟩
    rw [length_take]
    exact Nat.lt_of_le_of_lt (Nat.min_le_left _ _) (by decide)

/-- What the drivers make of a path the VFS accepts. -/
theorem driverNormalize_eq : driverNormalize cwd path = r := by
  obtain ⟨temp, cursor, out, hkept, hlen, hloop, hr, hdriver⟩ := accepted hcwd hok
  rw [hdriver, (driverLoop_eq hkept hlen hloop).1, hr]

end

/-- An absolute path does not depend on the working directory. -/
theorem driverNormalize_absolute (h : path.head? = some SLASH) (cwd cwd' : List UInt8) :
    driverNormalize cwd path = driverNormalize cwd' path := by
  unfold driverNormalize
  rw [if_pos h, if_pos h]

/-- A result of the VFS begins with a slash and fits a path buffer. -/
theorem normalized_shape (hcwd : Canonical cwd)
    (hok : fs_core_normalize_path cwd path FS_PATH_CAP = .ok r) :
    r.head? = some SLASH ∧ r.length < FS_PATH_CAP := by
  obtain ⟨temp, cursor, out, hkept, hlen, hloop, hr, -⟩ := accepted hcwd hok
  obtain ⟨-, hkept', hlen'⟩ := driverLoop_eq hkept hlen hloop
  rw [take_of_length_le (Nat.le_sub_one_of_lt hlen')] at hr
  subst hr
  split
  · exact ⟨rfl, by decide⟩
  next hnil => exact ⟨hkept'.head.resolve_left hnil, hlen'⟩

end System1.Vfs
