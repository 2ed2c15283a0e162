/-
The targets `rm.prg` accepts, `unsafe_target` and `main` of `src/userland/smu/fs/rm.c`.

`unsafe_target` looks at the text of a path only. What it accepts has no `..` in it and at
least one name, so a relative path leads to something strictly below the working
directory. An absolute path is accepted for its text as well, and the filter does not know
the working directory: `accepted_on_the_way_iff` says when such a path is the working
directory itself or a directory above it.
-/
import System1.VfsStack
import Mathlib.Data.List.DropRight

set_option autoImplicit false

namespace System1.Rm

open Vfs List

/-- `main` takes the slashes off the end of an argument, but not its first byte. -/
def stripSlashes (arg : List UInt8) : List UInt8 :=
  arg.take 1 ++ (arg.drop 1).rdropWhile (· = SLASH)

/-- The `./` at the front of a path. -/
def skipHere : List UInt8 → List UInt8
  | a :: b :: rest => if a = 0x2E ∧ b = SLASH then skipHere rest else a :: b :: rest
  | p => p

/-- `unsafe_target`; the segments its loop stops at are the pieces between the slashes,
and it passes over the empty ones. -/
def unsafe_target (path : List UInt8) : Bool :=
  let p := skipHere path
  p = [] ∨ p = [SLASH] ∨ p = [0x2E] ∨ p = [0x2E, 0x2E] ∨
    (∃ c ∈ components p, c = [0x2E] ∨ c = [0x2E, 0x2E]) ∨ p.all (· = SLASH)

/-- The names in a path. -/
def namesOf (path : List UInt8) : List (List UInt8) :=
  (components path).filter fun c => c ≠ [] ∧ c ≠ [0x2E]

/-- The directories on the way from the root to the working directory, both included. -/
def OnTheWay (cwd out : List UInt8) : Prop :=
  ∃ names, names <+: namesOf cwd ∧ out = pathOf names

/-- The `./` at the front adds no name. -/
theorem skipHere_spec (path : List UInt8) : namesOf (skipHere path) = namesOf path ∧
    ∀ c ∈ components path, c ∈ components (skipHere path) ∨ c = [0x2E] := by
  fun_induction skipHere path with
  | case1 a b rest hdots ih =>
    obtain ⟨rfl, rfl⟩ := hdots
    have hcomps : components (0x2E :: SLASH :: rest) = [0x2E] :: components rest :=
      components_append (c := [0x2E]) (by decide) rest
    grind [namesOf]
  | case2 => exact ⟨rfl, fun c hc => .inl hc⟩
  | case3 => exact ⟨rfl, fun c hc => .inl hc⟩

/-- Where no piece leads up, the names are pushed and the rest is passed over. -/
theorem foldl_without_up {comps : List (List UInt8)} (h : [0x2E, 0x2E] ∉ comps)
    (stack : List (List UInt8)) :
    comps.foldl stackStep stack = stack ++ comps.filter fun c => c ≠ [] ∧ c ≠ [0x2E] := by
  induction comps generalizing stack with
  | nil => simp
  | cons c comps ih => grind [stackStep]

/-- A path without names is all slashes. -/
theorem slashes_of_empty {p : List UInt8} (h : ∀ c ∈ components p, c = []) :
    p.all (· = SLASH) := by
  induction p with
  | nil => simp
  | cons b p ih =>
    unfold components at h ih
    rw [splitOn_cons_eq_if_modifyHead] at h
    split at h
    · next hb => grind
    -- the byte would be in the first piece
    obtain ⟨d, ds, hsplit⟩ := exists_cons_of_ne_nil (splitOn_ne_nil SLASH p)
    rw [hsplit, modifyHead_cons] at h
    exact absurd (h _ mem_cons_self) (cons_ne_nil b d)

/-- An accepted path has no piece that leads up, and some name. -/
theorem accepted_names {path : List UInt8} (h : unsafe_target path = false) :
    [0x2E, 0x2E] ∉ components path ∧ namesOf path ≠ [] := by
  simp only [unsafe_target, decide_eq_false_iff_not, not_or, not_exists, not_and] at h
  obtain ⟨-, -, -, -, hpieces, hslashes⟩ := h
  obtain ⟨hnames, hskipped⟩ := skipHere_spec path
  refine ⟨fun hup => ?_, fun hnil => hslashes (slashes_of_empty fun c hc => ?_)⟩
  · grind
  · by_contra hne
    rw [← hnames] at hnil
    exact filter_eq_nil_iff.mp hnil c hc (decide_eq_true ⟨hne, (hpieces c hc).1⟩)

/-- The names of a path that was built from names. -/
theorem namesOf_pathOf {cs : List (List UInt8)} (hcs : ∀ c ∈ cs, IsName c) :
    namesOf (pathOf cs) = cs := by
  by_cases hnil : cs = []
  · subst hnil
    rfl
  rw [namesOf, pathOf_of_ne_nil hnil, components_joined fun c hc => (hcs c hc).noSlash,
    filter_cons_of_neg (by decide)]
  exact filter_eq_self.mpr fun c hc =>
    decide_eq_true ⟨(hcs c hc).nonempty, (hcs c hc).notDot⟩

/-- A path that `rm` accepts is the working directory or a directory above it, the root
among them, exactly if it is absolute and its names are the first names of the working
directory. -/
theorem accepted_on_the_way_iff {cwd arg out : List UInt8} (hcwd : Canonical cwd)
    (hfits : cwd.length < FS_PATH_CAP) (hsafe : unsafe_target (stripSlashes arg) = false)
    (hok : fs_core_normalize_path cwd (stripSlashes arg) FS_PATH_CAP = .ok out) :
    OnTheWay cwd out ↔
      (stripSlashes arg).head? = some SLASH ∧ namesOf (stripSlashes arg) <+: namesOf cwd := by
  generalize stripSlashes arg = path at hsafe hok
  obtain ⟨hup, hsome⟩ := accepted_names hsafe
  have hstart : StartsWell cwd path := .inr ⟨hcwd, hfits⟩
  obtain ⟨-, herr⟩ | ⟨-, hout, hnames⟩ := normalize_path_cases FS_PATH_CAP hstart
  · rw [hok] at herr
    cases herr
  obtain rfl : out = _ := Except.ok.inj (hok.symm.trans hout)
  obtain ⟨cs, hcs, rfl⟩ := canonical_iff.mp hcwd
  have hres : resolved (pathOf cs) path
      = (if path.head? = some SLASH then [] else cs) ++ namesOf path := by
    rw [resolved, foldl_without_up hup, startStack, foldl_components_pathOf hcs]
    rfl
  -- names are read back from a path, so being on the way is being a beginning
  have hway : OnTheWay (pathOf cs) (pathOf (resolved (pathOf cs) path)) ↔
      resolved (pathOf cs) path <+: cs := by grind [OnTheWay, namesOf_pathOf]
  rw [hway, hres, namesOf_pathOf hcs]
  split
  · next habs => simp [habs]
  next hrel =>
  refine iff_of_false (fun h => hsome ?_) fun h => hrel h.1
  simpa using h.length_le

/-- From `/a/b` the relative path `a/` is below. -/
theorem accepted_relative_below : ¬ OnTheWay [0x2F, 0x61, 0x2F, 0x62]
    [0x2F, 0x61, 0x2F, 0x62, 0x2F, 0x61] := by
  have hok : fs_core_normalize_path [0x2F, 0x61, 0x2F, 0x62] (stripSlashes [0x61, 0x2F])
      FS_PATH_CAP = .ok [0x2F, 0x61, 0x2F, 0x62, 0x2F, 0x61] :=
    normalize_accepted (.inr (by decide)) (by decide)
  rw [accepted_on_the_way_iff (by decide) (by decide) (by decide) hok]
  decide

/-- From there the path `/a`, which is accepted too, is the directory above. -/
theorem directory_above_accepted :
    unsafe_target (stripSlashes [0x2F, 0x61]) = false ∧
      fs_core_normalize_path [0x2F, 0x61, 0x2F, 0x62] (stripSlashes [0x2F, 0x61]) FS_PATH_CAP
        = .ok [0x2F, 0x61] ∧ OnTheWay [0x2F, 0x61, 0x2F, 0x62] [0x2F, 0x61] :=
  ⟨by decide, normalize_accepted (.inr (by decide)) (by decide), [[0x61]], by decide, rfl⟩

end System1.Rm
