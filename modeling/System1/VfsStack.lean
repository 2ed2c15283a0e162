/-
`fs_core_normalize_path` against a stack of names.

The reference takes a path apart at its slashes and lets the pieces act on a stack: an
empty piece and `.` leave it, `..` pops a name and does nothing at the bottom, anything
else is pushed. The code has no stack. It keeps the path itself in a buffer of
`FS_PATH_CAP` bytes, finds the last name again by scanning back over the bytes, and gives
up as soon as the buffer is full. What makes the two comparable is that the buffer holds
the path of the stack after every piece (`Holds`), so a buffer that is full is a path
that is too long, whatever a later `..` would have made of it.

The working directory is copied into the buffer as far as it fits, and its names are not
looked at. So a path that starts from a directory that does not fit has the result of
another one, and a result that keeps a name longer than the loop lets a name be is not
accepted a second time (`long_directories_not_normalised`). Neither happens to a directory
that the kernel keeps: it is a result of the function itself.
-/
import System1.VfsPaths
import Mathlib.Data.List.Infix

set_option autoImplicit false

namespace System1.Vfs

open List

/-! ## The reference -/

/-- What stands between the slashes of a path, empty pieces included. -/
def components (path : List UInt8) : List (List UInt8) := path.splitOn SLASH

/-- What one piece does to the stack of names. -/
def stackStep (stack : List (List UInt8)) (comp : List UInt8) : List (List UInt8) :=
  if comp = [] ∨ comp = [0x2E] then stack
  else if comp = [0x2E, 0x2E] then stack.dropLast
  else stack ++ [comp]

/-- The stack a path starts from: the root, or the names of the working directory. -/
def startStack (cwd path : List UInt8) : List (List UInt8) :=
  if path.head? = some SLASH then [] else (components cwd).foldl stackStep []

/-- The names a path stands for. -/
def resolved (cwd path : List UInt8) : List (List UInt8) :=
  (components path).foldl stackStep (startStack cwd path)

/-- The path being built is too long for its buffer after some piece. -/
def Overflows (stack comps : List (List UInt8)) : Prop :=
  ∃ done, done <+: comps ∧ FS_PATH_CAP ≤ (pathOf (done.foldl stackStep stack)).length

/-- When a path is refused. -/
def Refused (cwd path : List UInt8) (out_cap : Nat) : Prop :=
  path = [] ∨ out_cap < 2 ∨ (∃ c ∈ components path, FS_NAME_CAP ≤ c.length) ∨
    Overflows (startStack cwd path) (components path) ∨
    out_cap < (pathOf (resolved cwd path)).length + 1

instance (stack comps : List (List UInt8)) : Decidable (Overflows stack comps) :=
  decidable_of_iff
    (∃ done ∈ comps.inits, FS_PATH_CAP ≤ (pathOf (done.foldl stackStep stack)).length)
    (by simp [Overflows])

instance (cwd path : List UInt8) (out_cap : Nat) : Decidable (Refused cwd path out_cap) :=
  inferInstanceAs (Decidable (_ ∨ _))

/-- A name: not empty, no slash in it, and neither `.` nor `..`. -/
structure IsName (c : List UInt8) : Prop where
  noSlash : SLASH ∉ c
  nonempty : c ≠ []
  notDot : c ≠ [0x2E]
  notDotdot : c ≠ [0x2E, 0x2E]

/-- A path that begins with a slash, with no empty piece, no `.` and no `..` behind it; a
slash at the end would leave an empty piece there, so only the root has one. -/
def Canonical (path : List UInt8) : Prop :=
  path = [SLASH] ∨ path.head? = some SLASH ∧
    ∀ c ∈ components path.tail, c ≠ [] ∧ c ≠ [0x2E] ∧ c ≠ [0x2E, 0x2E]

instance (path : List UInt8) : Decidable (Canonical path) :=
  inferInstanceAs (Decidable (_ ∨ _ ∧ _))

/-! ## Splitting at the slashes -/

variable {c : List UInt8}

theorem components_append (hc : SLASH ∉ c) (rest : List UInt8) :
    components (c ++ SLASH :: rest) = c :: components rest :=
  splitOn_append_cons_self_of_not_mem hc rest

theorem components_of_noSlash (hc : SLASH ∉ c) : components c = [c] :=
  splitOn_eq_singleton hc

variable {path : List UInt8}

/-- A piece has no slash in it and is a part of the path. -/
theorem piece_of_mem (h : c ∈ components path) : SLASH ∉ c ∧ c ⊆ path := by
  induction path generalizing c with
  | nil =>
    rw [mem_singleton.mp h]
    exact ⟨not_mem_nil, nil_subset _⟩
  | cons b path ih =>
    unfold components at h ih
    rw [splitOn_cons_eq_if_modifyHead] at h
    split at h
    · grind
    next hb =>
    -- the byte goes to the front of the first piece
    obtain ⟨d, ds, hsplit⟩ := exists_cons_of_ne_nil (splitOn_ne_nil SLASH path)
    grind [modifyHead_cons]

variable {cs : List (List UInt8)}

/-- The pieces of names behind slashes: nothing before the first, then the names. -/
theorem components_joined (hcs : ∀ c ∈ cs, SLASH ∉ c) :
    components (joined cs) = [] :: cs := by
  have hpieces : ∀ c, SLASH ∉ c → components (c ++ joined cs) = c :: cs := by
    induction cs with
    | nil =>
      intro c hc
      rw [joined_nil, append_nil]
      exact components_of_noSlash hc
    | cons d ds ih =>
      intro c hc
      rw [joined_cons, components_append hc,
        ih (fun e he => hcs e (mem_cons_of_mem d he)) d (hcs d mem_cons_self)]
  exact hpieces [] not_mem_nil

/-- The names of a canonical path. -/
theorem canonical_iff :
    Canonical path ↔ ∃ cs, (∀ c ∈ cs, IsName c) ∧ path = pathOf cs := by
  constructor
  · rintro (rfl | ⟨hhead, hall⟩)
    · exact ⟨[], by simp, rfl⟩
    obtain ⟨b, rest, rfl⟩ : ∃ b rest, path = b :: rest :=
      exists_cons_of_ne_nil (by rintro rfl; simp at hhead)
    obtain rfl : b = SLASH := by simpa using hhead
    refine ⟨components rest, ?_, ?_⟩
    · intro c hc
      obtain ⟨hne, hdot, hdotdot⟩ := hall c hc
      exact ⟨(piece_of_mem hc).1, hne, hdot, hdotdot⟩
    · have hne : components rest ≠ [] := splitOn_ne_nil SLASH rest
      have hjoin : ∀ ds : List (List UInt8), ds ≠ [] →
          joined ds = SLASH :: [SLASH].intercalate ds := by
        intro ds
        induction ds with
        | nil => exact fun h => absurd rfl h
        | cons d ds ih =>
          intro _
          cases ds with
          | nil => simp [intercalate]
          | cons e es =>
            rw [joined_cons, ih (by simp)]
            simp [intercalate]
      rw [pathOf_of_ne_nil hne, hjoin _ hne]
      exact congrArg (SLASH :: ·) (intercalate_splitOn SLASH).symm
  · rintro ⟨cs, hcs, rfl⟩
    cases cs with
    | nil => exact .inl rfl
    | cons c cs =>
      rw [pathOf_of_ne_nil (by simp)]
      have hcomps := components_joined fun d hd => (hcs d hd).noSlash
      rw [joined_cons] at hcomps ⊢
      rw [← nil_append (SLASH :: _), components_append not_mem_nil] at hcomps
      refine .inr ⟨rfl, fun d hd => ?_⟩
      rw [tail_cons, (cons.inj hcomps).2] at hd
      exact ⟨(hcs d hd).nonempty, (hcs d hd).notDot, (hcs d hd).notDotdot⟩

theorem stackStep_name (hc : IsName c) (stack : List (List UInt8)) :
    stackStep stack c = stack ++ [c] := by
  unfold stackStep
  rw [if_neg (by simp [hc.nonempty, hc.notDot]), if_neg hc.notDotdot]

/-- Names are pushed. -/
theorem foldl_names (hcs : ∀ c ∈ cs, IsName c) (stack : List (List UInt8)) :
    cs.foldl stackStep stack = stack ++ cs := by
  induction cs generalizing stack with
  | nil => simp
  | cons c cs ih => grind [stackStep_name, mem_cons_self, mem_cons_of_mem]

/-- The stack of a path that is canonical already. -/
theorem foldl_components_pathOf (hcs : ∀ c ∈ cs, IsName c) :
    (components (pathOf cs)).foldl stackStep [] = cs := by
  by_cases hnil : cs = []
  · subst hnil
    rfl
  · rw [pathOf_of_ne_nil hnil, components_joined fun c hc => (hcs c hc).noSlash, foldl_cons]
    exact foldl_names hcs []

/-! ## The loop on a stack -/

/-- The loop of the code, on the stack: a piece that is too long and a path that is too
long end it. -/
def stackLoop (stack : List (List UInt8)) : List (List UInt8) → Except FsErr (List (List UInt8))
  | [] => .ok stack
  | c :: comps =>
    if c.length ≥ FS_NAME_CAP then .error .INVALID
    else if (pathOf (stackStep stack c)).length ≥ FS_PATH_CAP then .error .INVALID
    else stackLoop (stackStep stack c) comps

variable {stack : List (List UInt8)}

/-- The buffer overflows behind the first component, if it does. -/
theorem overflows_cons {comps : List (List UInt8)} (hfit : (pathOf stack).length < FS_PATH_CAP) :
    Overflows stack (c :: comps) ↔ Overflows (stackStep stack c) comps := by
  constructor
  · rintro ⟨done, hpre, hlong⟩
    cases done with
    | nil => exact absurd hlong (Nat.not_le.mpr hfit)
    | cons d done =>
      obtain ⟨rfl, htail⟩ := cons_prefix_cons.mp hpre
      exact ⟨done, htail, hlong⟩
  · rintro ⟨done, hpre, hlong⟩
    exact ⟨c :: done, cons_prefix_cons.mpr ⟨rfl, hpre⟩, hlong⟩

/-- What the loop on the stack does, said about the pieces at once. -/
theorem stackLoop_eq (comps : List (List UInt8)) (hfit : (pathOf stack).length < FS_PATH_CAP) :
    ((∃ c ∈ comps, FS_NAME_CAP ≤ c.length) ∨ Overflows stack comps) ∧
        stackLoop stack comps = .error .INVALID ∨
      ¬ ((∃ c ∈ comps, FS_NAME_CAP ≤ c.length) ∨ Overflows stack comps) ∧
        stackLoop stack comps = .ok (comps.foldl stackStep stack) := by
  induction comps generalizing stack with
  | nil =>
    refine .inr ⟨?_, rfl⟩
    rintro (⟨c, hc, -⟩ | ⟨done, hpre, hlong⟩)
    · cases hc
    · grind
  | cons c comps ih =>
    rw [overflows_cons hfit]
    unfold stackLoop
    split
    · next hname => exact .inl ⟨.inl ⟨c, mem_cons_self, hname⟩, rfl⟩
    next hname =>
    split
    · next hlong => exact .inl ⟨.inr ⟨[], nil_prefix, hlong⟩, rfl⟩
    next hlong =>
    grind

theorem stackLoop_nil (hfit : (pathOf stack).length < FS_PATH_CAP) (comps : List (List UInt8)) :
    stackLoop stack ([] :: comps) = stackLoop stack comps := by
  have hskip : stackStep stack [] = stack := rfl
  rw [stackLoop, hskip, if_neg (by decide), if_neg (Nat.not_le.mpr hfit)]

/-- Slashes before a path make empty pieces, which do nothing. -/
theorem stackLoop_dropWhile (hfit : (pathOf stack).length < FS_PATH_CAP) (path : List UInt8) :
    stackLoop stack (components (path.dropWhile (· = SLASH))) =
      stackLoop stack (components path) := by
  induction path with
  | nil => rfl
  | cons b path ih =>
    by_cases hb : b = SLASH
    · subst hb
      rw [dropWhile_cons_of_pos (by simp), ih,
        ← nil_append (SLASH :: path), components_append not_mem_nil,
        stackLoop_nil hfit]
    · rw [dropWhile_cons_of_neg (by simp [hb])]

/-- The first piece of a path. -/
theorem components_head (cursor : List UInt8) :
    ∃ comps, components cursor = cursor.takeWhile (· ≠ SLASH) :: comps ∧
      ∀ stack, (pathOf stack).length < FS_PATH_CAP →
        stackLoop stack comps = stackLoop stack (components (afterComp cursor)) := by
  have hsplit : cursor.takeWhile (· ≠ SLASH) ++ cursor.dropWhile (· ≠ SLASH) = cursor :=
    takeWhile_append_dropWhile
  unfold afterComp
  generalize hrest : cursor.dropWhile (· ≠ SLASH) = rest at hsplit ⊢
  cases rest with
  | nil =>
    -- there is no slash left: one piece, and then the empty piece of an empty path
    rw [append_nil] at hsplit
    refine ⟨[], ?_, fun stack hfit => ?_⟩
    · grind [components_of_noSlash, takeWhile_noSlash]
    · exact (stackLoop_nil hfit []).symm
  | cons b rest =>
    obtain rfl : b = SLASH := by
      have hhead := head?_dropWhile_not (fun b => decide (b ≠ SLASH)) cursor
      rw [hrest] at hhead
      simpa using hhead
    refine ⟨components rest, ?_, fun stack hfit => ?_⟩
    · grind [components_append, takeWhile_noSlash]
    · rw [dropWhile_cons_of_pos (by simp), stackLoop_dropWhile hfit]

/-- The loop takes the first piece and goes on behind its slashes. -/
theorem stackLoop_components (stack : List (List UInt8)) (cursor : List UInt8) :
    stackLoop stack (components cursor) =
      if (cursor.takeWhile (· ≠ SLASH)).length ≥ FS_NAME_CAP then .error .INVALID
      else if (pathOf (stackStep stack (cursor.takeWhile (· ≠ SLASH)))).length ≥ FS_PATH_CAP then
        .error .INVALID
      else
        stackLoop (stackStep stack (cursor.takeWhile (· ≠ SLASH)))
          (components (afterComp cursor)) := by
  obtain ⟨comps, hcomps, hrest⟩ := components_head cursor
  grind [stackLoop]

/-! ## The buffer of the code -/

/-- The buffer holds the path of the stack. At the root it is empty until a name has been
in it. -/
def Holds (temp : List UInt8) (stack : List (List UInt8)) : Prop :=
  temp = pathOf stack ∨ temp = [] ∧ stack = []

theorem Holds.parent {temp : List UInt8} (h : Holds temp stack) (hs : ∀ c ∈ stack, SLASH ∉ c) :
    Holds (parentOf temp) stack.dropLast := by
  obtain rfl | ⟨rfl, rfl⟩ := h
  · exact .inl (parentOf_pathOf hs)
  · exact .inr ⟨rfl, rfl⟩

theorem Holds.append {temp : List UInt8} (h : Holds temp stack) (hs : ∀ c ∈ stack, c ≠ [])
    (c : List UInt8) : withSlash temp ++ c = pathOf (stack ++ [c]) := by
  rw [pathOf_of_ne_nil (by simp), joined_snoc]
  obtain rfl | ⟨rfl, rfl⟩ := h
  · rw [withSlash_pathOf hs]
    simp
  · rfl

/-- The loop of the code and the loop on the stack end alike. -/
theorem normalizeLoop_stackLoop (temp cursor : List UInt8) : ∀ stack, Holds temp stack →
    (∀ c ∈ stack, IsName c) → (pathOf stack).length < FS_PATH_CAP →
    (∃ out names, normalizeLoop temp cursor = .ok out ∧
        stackLoop stack (components cursor) = .ok names ∧ Holds out names ∧
        (∀ c ∈ names, IsName c) ∧ (pathOf names).length < FS_PATH_CAP) ∨
      normalizeLoop temp cursor = .error .INVALID ∧
        stackLoop stack (components cursor) = .error .INVALID := by
  fun_induction normalizeLoop temp cursor with
  | case1 temp =>
    intro stack h hs hfit
    exact .inl ⟨temp, stack, rfl, stackLoop_nil hfit [], h, hs, hfit⟩
  | case2 temp cursor hne comp hlong => grind [stackLoop_components]
  | case3 temp cursor hne comp rest hlong hskip ih =>
    intro stack h hs hfit
    have hstep : stackStep stack (cursor.takeWhile (· ≠ SLASH)) = stack := if_pos hskip
    rw [stackLoop_components, if_neg hlong, hstep, if_neg (Nat.not_le.mpr hfit)]
    exact ih stack h hs hfit
  | case4 temp cursor hne comp rest hlong hskip hup ih =>
    intro stack h hs hfit
    have hstep : stackStep stack (cursor.takeWhile (· ≠ SLASH)) = stack.dropLast :=
      (if_neg hskip).trans (if_pos hup)
    have hfit' := Nat.lt_of_le_of_lt (pathOf_dropLast_length stack) hfit
    rw [stackLoop_components, if_neg hlong, hstep, if_neg (Nat.not_le.mpr hfit')]
    exact ih _ (h.parent fun c hc => (hs c hc).noSlash)
      (fun c hc => hs c ((dropLast_sublist stack).subset hc)) hfit'
  | case5 temp cursor hne comp hlong hskip hup rc happ =>
    intro stack h hs hfit
    have hstep : stackStep stack (cursor.takeWhile (· ≠ SLASH)) =
        stack ++ [cursor.takeWhile (· ≠ SLASH)] := (if_neg hskip).trans (if_neg hup)
    rw [stackLoop_components, if_neg hlong, hstep]
    rw [appendComp_eq fun he => hskip (.inl he), h.append fun c hc => (hs c hc).nonempty] at happ
    grind
  | case6 temp cursor hne comp rest hlong hskip hup temp' happ ih =>
    intro stack h hs hfit
    have hstep : stackStep stack (cursor.takeWhile (· ≠ SLASH)) =
        stack ++ [cursor.takeWhile (· ≠ SLASH)] := (if_neg hskip).trans (if_neg hup)
    rw [stackLoop_components, if_neg hlong, hstep]
    rw [appendComp_eq fun he => hskip (.inl he), h.append fun c hc => (hs c hc).nonempty] at happ
    split at happ
    next => cases happ
    next hfull =>
      injection happ with htemp
      rw [if_neg hfull]
      refine ih _ (.inl htemp.symm) ?_ (Nat.lt_of_not_le hfull)
      intro c hc
      obtain hc | hc := mem_append.mp hc
      · exact hs c hc
      · rw [mem_singleton.mp hc]
        exact ⟨takeWhile_noSlash cursor, fun he => hskip (.inl he), fun he => hskip (.inr he), hup⟩

/-! ## The function -/

/-- What the reference needs to know of a working directory that a path starts from. -/
def StartsWell (cwd path : List UInt8) : Prop :=
  path.head? = some SLASH ∨ Canonical cwd ∧ cwd.length < FS_PATH_CAP

variable {cwd : List UInt8}

/-- What the loop starts with is a path. -/
theorem startStack_names (h : StartsWell cwd path) :
    (∀ c ∈ startStack cwd path, IsName c) ∧
      (pathOf (startStack cwd path)).length < FS_PATH_CAP ∧
      (path.head? ≠ some SLASH → cwd = pathOf (startStack cwd path)) := by
  unfold startStack
  split
  · next habs => exact ⟨by simp, by decide, fun hne => absurd habs hne⟩
  next habs =>
  obtain ⟨hcanon, hshort⟩ := h.resolve_left habs
  grind [canonical_iff.mp, foldl_components_pathOf]

/-- The buffer and the cursor the loop starts with. -/
theorem normalizeLoop_start (h : StartsWell cwd path) :
    ∃ temp cursor, Holds temp (startStack cwd path) ∧
      stackLoop (startStack cwd path) (components cursor) =
        stackLoop (startStack cwd path) (components path) ∧
      ((if path.head? = some SLASH then ([], path.dropWhile (· = SLASH))
        else (fs_copy_name FS_PATH_CAP (if cwd = [] then [SLASH] else cwd), path)) :
          List UInt8 × List UInt8) = (temp, cursor) := by
  obtain ⟨-, hfit, hcwd⟩ := startStack_names h
  by_cases habs : path.head? = some SLASH
  · refine ⟨[], path.dropWhile (· = SLASH), .inr ⟨rfl, if_pos habs⟩, ?_, if_pos habs⟩
    exact stackLoop_dropWhile hfit path
  refine ⟨cwd, path, .inl (hcwd habs), rfl, ?_⟩
  have hshort := (h.resolve_left habs).2
  have hne : cwd ≠ [] := by
    intro hnil
    have hempty := (h.resolve_left habs).1
    rw [hnil] at hempty
    exact absurd hempty (by decide)
  rw [if_neg habs, if_neg hne, fs_copy_name, take_of_length_le (Nat.le_sub_one_of_lt hshort)]

/-- The names a path stands for come from the working directory and the path. -/
theorem mem_foldl_stackStep {comps : List (List UInt8)} (h : c ∈ comps.foldl stackStep stack) :
    c ∈ stack ∨ c ∈ comps := by
  induction comps generalizing stack with
  | nil => exact .inl h
  | cons d comps ih =>
    obtain hc | hc := ih h
    · unfold stackStep at hc
      split at hc
      · exact .inl hc
      split at hc
      · exact .inl ((dropLast_sublist stack).subset hc)
      grind
    · exact .inr (mem_cons_of_mem d hc)

/-- `fs_core_normalize_path` refuses what the reference refuses, and otherwise its result
is the path of the reference. -/
theorem normalize_path_cases (out_cap : Nat) (h : StartsWell cwd path) :
    Refused cwd path out_cap ∧ fs_core_normalize_path cwd path out_cap = .error .INVALID ∨
      ¬ Refused cwd path out_cap ∧
        fs_core_normalize_path cwd path out_cap = .ok (pathOf (resolved cwd path)) ∧
        ∀ c ∈ resolved cwd path, IsName c := by
  unfold fs_core_normalize_path
  split
  · next hargs => exact .inl ⟨hargs.imp id .inl, rfl⟩
  next hargs =>
  obtain ⟨hpath, hcap⟩ := not_or.mp hargs
  obtain ⟨hnames, hfit, -⟩ := startStack_names h
  obtain ⟨temp, cursor, hholds, hsame, hstart⟩ := normalizeLoop_start h
  dsimp only
  rw [hstart]
  have hloop := normalizeLoop_stackLoop temp cursor _ hholds hnames hfit
  rw [hsame] at hloop
  obtain ⟨hwhy, herr⟩ | ⟨hwhy, hok⟩ := stackLoop_eq (components path) hfit
  · -- the loop has given up
    obtain ⟨out, names, -, hbad, -⟩ | ⟨hloop, -⟩ := hloop
    · rw [herr] at hbad
      cases hbad
    · rw [hloop]
      exact .inl ⟨.inr (.inr (hwhy.imp id .inl)), rfl⟩
  obtain ⟨out, names, hloop, hgood, hout, hcs, hlen⟩ | ⟨-, hbad⟩ := hloop
  swap
  · rw [hok] at hbad
    cases hbad
  rw [hok] at hgood
  injection hgood with hgood
  obtain rfl : resolved cwd path = names := hgood
  rw [hloop]
  dsimp only
  -- what the buffer holds at the end, and whether it fits
  have hresult : (if out = [] then .ok [SLASH] else if out.length + 1 > out_cap then .error .INVALID
      else .ok (fs_copy_name out_cap out) : Except FsErr (List UInt8)) =
      if out_cap < (pathOf (resolved cwd path)).length + 1 then .error .INVALID
      else .ok (pathOf (resolved cwd path)) := by
    obtain rfl | ⟨rfl, hroot⟩ := hout
    · grind [fs_copy_name, pathOf_ne_nil, take_of_length_le]
    · rw [if_pos rfl, hroot, if_neg]
      · rfl
      · exact hcap
  rw [hresult]
  split
  · next hroom => exact .inl ⟨.inr (.inr (.inr (.inr hroom))), rfl⟩
  next hroom =>
  refine .inr ⟨?_, rfl, hcs⟩
  rintro (hp | hc | hn | ho | hr)
  · exact hpath hp
  · exact hcap hc
  · exact hwhy (.inl hn)
  · exact hwhy (.inr ho)
  · exact hroom hr

/-- What is not refused has the result of the reference. -/
theorem normalize_accepted {out_cap : Nat} (h : StartsWell cwd path)
    (haccepted : ¬ Refused cwd path out_cap) :
    fs_core_normalize_path cwd path out_cap = .ok (pathOf (resolved cwd path)) := by
  grind [normalize_path_cases]

/-! ## The result again -/

variable {names : List (List UInt8)}

/-- A shorter stack has a shorter path. -/
theorem pathOf_length_le_of_initial {done : List (List UInt8)} (h : done <+: names) :
    (pathOf done).length ≤ (pathOf names).length := by
  obtain ⟨rest, rfl⟩ := h
  by_cases hnil : done = []
  · subst hnil
    exact length_pos_iff.mpr (pathOf_ne_nil _)
  · rw [pathOf_of_ne_nil hnil, pathOf_of_ne_nil (by simp [hnil]), joined_append, length_append]
    exact Nat.le_add_right _ _

/-- Building a canonical path goes through the paths of its first names. -/
theorem foldl_extends {done : List (List UInt8)} (hnames : ∀ c ∈ names, IsName c)
    (h : done <+: components (pathOf names)) : done.foldl stackStep [] <+: names := by
  by_cases hnil : names = []
  · subst hnil
    have hempty : ∀ c ∈ done, c = [] := by
      intro c hc
      have hmem : c ∈ [[], ([] : List UInt8)] := h.subset hc
      simpa using hmem
    have hstay : ∀ l : List (List UInt8), (∀ c ∈ l, c = []) → l.foldl stackStep [] = [] := by
      intro l hl
      induction l with
      | nil => rfl
      | cons c l ih =>
        rw [hl c mem_cons_self]
        exact ih fun d hd => hl d (mem_cons_of_mem c hd)
    rw [hstay done hempty]
  rw [pathOf_of_ne_nil hnil, components_joined fun c hc => (hnames c hc).noSlash] at h
  cases done with
  | nil => exact nil_prefix
  | cons c done =>
    obtain ⟨rfl, htail⟩ := cons_prefix_cons.mp h
    show done.foldl stackStep [] <+: names
    grind [foldl_names]

variable {out_cap : Nat}

/-- A path of short names that fits is its own result, whatever the working directory. -/
theorem normalize_pathOf (hnames : ∀ c ∈ names, IsName c)
    (hshort : ∀ c ∈ names, c.length < FS_NAME_CAP) (hfit : (pathOf names).length < FS_PATH_CAP)
    (hcap : (pathOf names).length + 1 ≤ out_cap) (cwd : List UInt8) :
    fs_core_normalize_path cwd (pathOf names) out_cap = .ok (pathOf names) := by
  have hhead := pathOf_head names
  have hstart : startStack cwd (pathOf names) = [] := if_pos hhead
  have hresolved : resolved cwd (pathOf names) = names := by
    unfold resolved
    rw [hstart, foldl_components_pathOf hnames]
  -- the pieces of the path are its names and empty ones
  have hpieces : ∀ c ∈ components (pathOf names), c = [] ∨ c ∈ names := by
    by_cases hnil : names = []
    · subst hnil
      intro c hc
      have hc : c ∈ [[], ([] : List UInt8)] := hc
      simp at hc
      exact .inl hc
    · rw [pathOf_of_ne_nil hnil, components_joined fun c hc => (hnames c hc).noSlash]
      intro c hc
      exact mem_cons.mp hc
  have hstarts : StartsWell cwd (pathOf names) := .inl hhead
  obtain ⟨hrefused, -⟩ | ⟨-, hok, -⟩ := normalize_path_cases out_cap hstarts
  · exfalso
    have hpos := length_pos_iff.mpr (pathOf_ne_nil names)
    obtain hp | hc | ⟨c, hc, hlong⟩ | ⟨done, hpre, hlong⟩ | hr := hrefused
    · exact pathOf_ne_nil names hp
    · omega
    · obtain rfl | hmem := hpieces c hc
      · exact absurd hlong (by decide)
      · exact absurd (hshort c hmem) (Nat.not_lt.mpr hlong)
    · rw [hstart] at hlong
      have hle := pathOf_length_le_of_initial (foldl_extends hnames hpre)
      exact absurd hfit (Nat.not_lt.mpr (Nat.le_trans hlong hle))
    · rw [hresolved] at hr
      omega
  · rw [hok, hresolved]

theorem mem_components_pathOf (hnames : ∀ c ∈ names, IsName c) (hc : c ∈ names) :
    c ∈ components (pathOf names) := by
  rw [pathOf_of_ne_nil (ne_nil_of_mem hc), components_joined fun d hd => (hnames d hd).noSlash]
  exact mem_cons_of_mem _ hc

/-- A result is its own result, from any directory, exactly if its names are short. -/
theorem normalize_again_iff (h : StartsWell cwd path) (hrefused : ¬ Refused cwd path out_cap)
    (cwd' : List UInt8) :
    fs_core_normalize_path cwd' (pathOf (resolved cwd path)) out_cap =
        .ok (pathOf (resolved cwd path)) ↔
      ∀ c ∈ resolved cwd path, c.length < FS_NAME_CAP := by
  obtain ⟨hbad, -⟩ | ⟨-, -, hnames⟩ := normalize_path_cases out_cap h
  · exact absurd hbad hrefused
  constructor
  · intro hok c hc
    have hstarts : StartsWell cwd' (pathOf (resolved cwd path)) := .inl (pathOf_head _)
    obtain ⟨-, herr⟩ | ⟨haccepted, -⟩ := normalize_path_cases out_cap hstarts
    · rw [hok] at herr
      cases herr
    · exact Nat.lt_of_not_le fun hlong =>
        haccepted (.inr (.inr (.inl ⟨c, mem_components_pathOf hnames hc, hlong⟩)))
  · intro hshort
    apply normalize_pathOf hnames hshort
    · -- the last path that was built is the result
      apply Nat.lt_of_not_le
      intro hle
      exact hrefused (.inr (.inr (.inr (.inl ⟨components path, prefix_refl _, hle⟩))))
    · apply Nat.le_of_not_lt
      exact fun hroom => hrefused (.inr (.inr (.inr (.inr hroom))))

/-! ## The paths of the layer -/

theorem IsComp.isName (h : IsComp c) : IsName c := ⟨h.noSlash, h.nonempty, h.notDot, h.notDotdot⟩

/-- Normalising a path gives it back, whatever the working directory. That is what lets a
path be handed to the layer a second time, which is how a link and its target are compared. -/
theorem normalize_self (h : IsPath path) (cwd : List UInt8) :
    fs_core_normalize_path cwd path FS_PATH_CAP = .ok path := by
  have hshort := h.short
  obtain ⟨cs, hcs, rfl⟩ := h.comps
  exact normalize_pathOf (fun c hc => (hcs c hc).isName) (fun c hc => (hcs c hc).short) hshort
    hshort cwd

variable {out : List UInt8}

/-- A normalised path, from a working directory that is one. -/
theorem normalize_isPath (hcwd : IsPath cwd) (h0 : 0 ∉ path)
    (hok : fs_core_normalize_path cwd path FS_PATH_CAP = .ok out) : IsPath out := by
  have hlen := hcwd.short
  obtain ⟨cs, hcs, rfl⟩ := hcwd.comps
  have hisName : ∀ c ∈ cs, IsName c := fun c hc => (hcs c hc).isName
  have hstarts : StartsWell (pathOf cs) path := .inr ⟨canonical_iff.mpr ⟨cs, hisName, rfl⟩, hlen⟩
  obtain ⟨-, herr⟩ | ⟨hrefused, hresult, hnames⟩ := normalize_path_cases FS_PATH_CAP hstarts
  · rw [herr] at hok
    cases hok
  obtain rfl := Except.ok.inj (hresult.symm.trans hok)
  refine ⟨⟨_, fun c hc => ?_, rfl⟩,
    Nat.le_of_not_lt fun hroom => hrefused (.inr (.inr (.inr (.inr hroom))))⟩
  -- a name comes from the directory or from the path
  obtain ⟨hslash, hne, hdot, hdotdot⟩ := hnames c hc
  obtain hc | hc := mem_foldl_stackStep hc
  · grind [startStack, foldl_components_pathOf]
  · exact ⟨hslash, fun h => h0 ((piece_of_mem hc).2 h), hne, hdot, hdotdot,
      Nat.lt_of_not_le fun hlong => hrefused (.inr (.inr (.inl ⟨c, hc, hlong⟩)))⟩

/-- Where a link in a path leads is a path. -/
theorem follow_isPath {current target : List UInt8} (h : IsPath current) (h0 : 0 ∉ target)
    (hok : fs_follow current target = .ok out) : IsPath out := by
  unfold fs_follow at hok
  split at hok
  · exact normalize_isPath isPath_root h0 hok
  split at hok
  · cases hok
  next parent hparent =>
  exact normalize_isPath (parent_isPath h hparent) h0 hok

/-- `fs_core_normalize_path` of an absolute path, or from a working directory that fits a
path buffer. It fails exactly on what is refused, gives the path of the reference otherwise,
and that path is canonical. The result is its own result again, from any directory, exactly
if its names are no longer than a name may be. -/
theorem normalize_path_correct {cwd path : List UInt8} (h : StartsWell cwd path) (out_cap : Nat) :
    (fs_core_normalize_path cwd path out_cap = .error .INVALID ↔ Refused cwd path out_cap) ∧
      (¬ Refused cwd path out_cap →
        fs_core_normalize_path cwd path out_cap = .ok (pathOf (resolved cwd path)) ∧
        Canonical (pathOf (resolved cwd path)) ∧
        ∀ cwd', fs_core_normalize_path cwd' (pathOf (resolved cwd path)) out_cap =
            .ok (pathOf (resolved cwd path)) ↔
          ∀ c ∈ resolved cwd path, c.length < FS_NAME_CAP) := by
  obtain ⟨hrefused, herr⟩ | ⟨hrefused, hok, hnames⟩ := normalize_path_cases out_cap h
  · exact ⟨iff_of_true herr hrefused, fun h => absurd hrefused h⟩
  refine ⟨iff_of_false (by rw [hok]; exact fun h => nomatch h) hrefused, fun _ => ⟨hok, ?_, ?_⟩⟩
  · exact canonical_iff.mpr ⟨_, hnames, rfl⟩
  · exact normalize_again_iff h hrefused

/-- `/usr`, and the path `../bin/./x` from there. -/
def usrDir : List UInt8 := [0x2F, 0x75, 0x73, 0x72]
def upAndDown : List UInt8 := [0x2E, 0x2E, 0x2F, 0x62, 0x69, 0x6E, 0x2F, 0x2E, 0x2F, 0x78]

/-- It is `/bin/x`, and so is `/bin/x` itself. -/
theorem normalize_up_and_down :
    fs_core_normalize_path usrDir upAndDown FS_PATH_CAP =
        .ok [0x2F, 0x62, 0x69, 0x6E, 0x2F, 0x78] ∧
      fs_core_normalize_path usrDir [0x2F, 0x62, 0x69, 0x6E, 0x2F, 0x78] FS_PATH_CAP =
        .ok [0x2F, 0x62, 0x69, 0x6E, 0x2F, 0x78] := by
  have hstarts : StartsWell usrDir upAndDown := .inr (by decide)
  have hout : pathOf (resolved usrDir upAndDown) = [0x2F, 0x62, 0x69, 0x6E, 0x2F, 0x78] := by decide
  rw [← hout]
  obtain ⟨hok, -, hagain⟩ := (normalize_path_correct hstarts FS_PATH_CAP).2 (by decide)
  exact ⟨hok, (hagain usrDir).mpr (by decide)⟩

/-- A directory whose name has one byte more than a name may have. -/
def longName : List UInt8 := SLASH :: replicate FS_NAME_CAP 0x61

/-- A directory of 128 bytes, in short names. -/
def longPath : List UInt8 := (replicate 32 [SLASH, 0x61, 0x61, 0x61]).flatten

/-- From the first directory the path `.` has a result, which is canonical and is refused
when it is given as a path. From the second `.` is refused by the reference, since the
directory is too long for the buffer, and the code has a result, the directory cut short. -/
theorem long_directories_not_normalised :
    (Canonical longName ∧ fs_core_normalize_path longName [0x2E] FS_PATH_CAP = .ok longName ∧
      fs_core_normalize_path longName longName FS_PATH_CAP = .error .INVALID) ∧
    Canonical longPath ∧ Refused longPath [0x2E] FS_PATH_CAP ∧
      fs_core_normalize_path longPath [0x2E] FS_PATH_CAP = .ok (longPath.take 127) := by
  have hdot : StartsWell longName [0x2E] := .inr (by decide)
  have hself : StartsWell longName longName := .inl rfl
  have hcut : StartsWell (longPath.take 127) [0x2E] := .inr (by decide +kernel)
  refine ⟨⟨by decide, ?_, ?_⟩, by decide +kernel, by decide +kernel, ?_⟩
  · exact normalize_accepted hdot (by decide)
  · obtain ⟨-, herr⟩ | ⟨hrefused, -⟩ := normalize_path_cases FS_PATH_CAP hself
    · exact herr
    · exact absurd (by decide) hrefused
  · -- only what fits is copied
    have hsame : fs_core_normalize_path longPath [0x2E] FS_PATH_CAP =
        fs_core_normalize_path (longPath.take 127) [0x2E] FS_PATH_CAP := rfl
    rw [hsame, normalize_accepted hcut (by decide +kernel)]
    exact congrArg _ (by decide +kernel)

end System1.Vfs
